/-
  FramehopUnwind.Lib.Access — programs that read words and make unchecked sums.

  A pure function says what a piece of code returns, not which words it read on the way or
  whether a sum it did not check left the word. A `Prog` is the same code with both written
  out: it asks for a word and goes on with the answer, or makes a sum and goes on whether it
  fits or not. Run against a reader it gives a value (`run`), the addresses it asked for
  (`reads`), and whether every sum it came to fits (`Fits`); all three compose (`bind`).
-/

import Mathlib

namespace FramehopUnwind.Lib.Access

inductive Prog (α : Type) where
  | done (a : α)
  | read (address : Nat) (next : Option Nat → Prog α)
  /-- A sum or difference that is not checked: whether it is a word. -/
  | sum (fits : Bool) (next : Prog α)

namespace Prog

variable {α β : Type} (reader : Nat → Option Nat)

def run : Prog α → α
  | .done a => a
  | .read address next => (next (reader address)).run
  | .sum _ next => next.run

def reads : Prog α → List Nat
  | .done _ => []
  | .read address next => address :: (next (reader address)).reads
  | .sum _ next => next.reads

def Fits : Prog α → Prop
  | .done _ => True
  | .read address next => (next (reader address)).Fits
  | .sum fits next => fits = true ∧ next.Fits

def bind : Prog α → (α → Prog β) → Prog β
  | .done a, f => f a
  | .read address next, f => .read address fun v => (next v).bind f
  | .sum fits next, f => .sum fits (next.bind f)

/-- Several sums in a row. -/
def sums (fits : List Bool) (next : Prog α) : Prog α := fits.foldr .sum next

/-- The sums it came to. -/
def sumsMade : Prog α → List Bool
  | .done _ => []
  | .read address next => (next (reader address)).sumsMade
  | .sum fits next => fits :: next.sumsMade

/-- The reads that were answered. -/
def answered (p : Prog α) : List Nat := (p.reads reader).filter fun a => (reader a).isSome

@[simp] theorem run_done (a : α) : (done a).run reader = a := rfl

@[simp] theorem reads_done (a : α) : (done a).reads reader = [] := rfl

@[simp] theorem fits_done (a : α) : (done a).Fits reader := trivial

@[simp] theorem run_read (address : Nat) (next : Option Nat → Prog α) :
    (read address next).run reader = (next (reader address)).run reader := rfl

@[simp] theorem reads_read (address : Nat) (next : Option Nat → Prog α) :
    (read address next).reads reader = address :: (next (reader address)).reads reader := rfl

@[simp] theorem fits_read (address : Nat) (next : Option Nat → Prog α) :
    (read address next).Fits reader ↔ (next (reader address)).Fits reader := Iff.rfl

@[simp] theorem run_sum (fits : Bool) (next : Prog α) : (sum fits next).run reader = next.run reader := rfl

@[simp] theorem reads_sum (fits : Bool) (next : Prog α) : (sum fits next).reads reader = next.reads reader := rfl

@[simp] theorem fits_sum (fits : Bool) (next : Prog α) :
    (sum fits next).Fits reader ↔ fits = true ∧ next.Fits reader := Iff.rfl

@[simp] theorem run_bind (p : Prog α) (f : α → Prog β) : (p.bind f).run reader = (f (p.run reader)).run reader := by
  induction p with
  | done a => rfl
  | read address next ih => exact ih (reader address)
  | sum fits next ih => exact ih

@[simp] theorem reads_bind (p : Prog α) (f : α → Prog β) :
    (p.bind f).reads reader = p.reads reader ++ (f (p.run reader)).reads reader := by
  induction p with
  | done a => rfl
  | read address next ih => exact congrArg (address :: ·) (ih (reader address))
  | sum fits next ih => exact ih

@[simp] theorem fits_bind (p : Prog α) (f : α → Prog β) :
    (p.bind f).Fits reader ↔ p.Fits reader ∧ (f (p.run reader)).Fits reader := by
  induction p with
  | done a => exact (iff_of_eq (true_and _)).symm
  | read address next ih => exact ih (reader address)
  | sum fits next ih =>
    rw [bind, fits_sum, ih, fits_sum, and_assoc]
    rfl

@[simp] theorem run_sums (fits : List Bool) (next : Prog α) : (sums fits next).run reader = next.run reader := by
  induction fits with
  | nil => rfl
  | cons b fits ih => exact ih

@[simp] theorem reads_sums (fits : List Bool) (next : Prog α) : (sums fits next).reads reader = next.reads reader := by
  induction fits with
  | nil => rfl
  | cons b fits ih => exact ih

@[simp] theorem fits_sums (fits : List Bool) (next : Prog α) :
    (sums fits next).Fits reader ↔ (∀ b ∈ fits, b = true) ∧ next.Fits reader := by
  induction fits with
  | nil => simp [sums]
  | cons b fits ih =>
    rw [List.forall_mem_cons, and_assoc, ← ih]
    rfl

theorem fits_iff_sumsMade (p : Prog α) : p.Fits reader ↔ ∀ b ∈ p.sumsMade reader, b = true := by
  induction p with
  | done a => exact iff_of_true trivial nofun
  | read address next ih => exact ih (reader address)
  | sum fits next ih => rw [fits_sum, ih, sumsMade, List.forall_mem_cons]

theorem mem_answered {p : Prog α} {a : Nat} : a ∈ p.answered reader ↔ a ∈ p.reads reader ∧ reader a ≠ none := by
  rw [answered, List.mem_filter, Option.isSome_iff_ne_none]

end Prog

end FramehopUnwind.Lib.Access
