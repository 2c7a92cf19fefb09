/-
  FramehopUnwind.Unwinder.Accesses — the words an unwind reads and the sums it does not check.

  The functions of `Unwinder.Dwarf` again, as programs that ask for each word of the stack and
  name each plain `+` and `-` of the source, in its order; `checked_add` and its like cannot
  leave the word and are no sums here. Evaluating a rule makes none. Each program's `run` is the
  function.

  Proved:
  - `evalExpr_run`, `evalCfaRule_run`, `evalRegisterRule_run`: the programs compute the functions.
  - `evalExpr_reads`, `evalCfaRule_reads`, `evalRegisterRule_reads`: every read is at a word.
-/

import FramehopUnwind.Lib.Access
import FramehopUnwind.Unwinder.Words

namespace FramehopUnwind.Unwinder

open Lib.Word Lib.Access

/-- A sum of `i64`s fits. -/
def signedFits (a b : Int) : Bool := decide (-(2 ^ 63) ≤ a + b ∧ a + b < 2 ^ 63)

theorem wrappingSub_words (a b : Nat) : wrappingSub a b < 2 ^ 64 := Nat.mod_lt _ (Nat.two_pow_pos 64)

/-! ## Rows -/

namespace Accesses

def evalExpr (get : Nat → Option Nat) : Eval → Prog (Option Nat)
  | .error => .done none
  | .complete address => .done address
  | .requiresRegister register resume =>
    match get register with
    | none => .done none
    | some value => evalExpr get (resume value)
  | .requiresMemory address size space resume =>
    if size = 8 ∧ space = none then
      .read address fun
        | none => .done none
        | some value => evalExpr get (resume value)
    else .done none
  | .requiresOther => .done none

def evalCfaRule (get : Nat → Option Nat) : CfaRule → Prog (Option Nat)
  | .registerAndOffset register offset => .done ((get register).bind (addOffset · offset))
  | .expression e => evalExpr get e

/-- A read at an address that may be missing. -/
def readAt : Option Nat → Prog (Option Nat)
  | none => .done none
  | some address => .read address .done

def evalRegisterRule (get : Nat → Option Nat) (cfa val : Nat) : Option RegisterRule → Prog (Option Nat)
  | none => .done none
  | some .undefined => .done none
  | some .sameValue => .done (some val)
  | some (.offset offset) => readAt (addOffset cfa offset)
  | some (.valOffset offset) => .done (addOffset cfa offset)
  | some (.register register) => .done (get register)
  | some (.expression e) => (evalExpr get e).bind readAt
  | some (.valExpression e) => evalExpr get e
  | some .architectural => .done none
  | some .other => .done none

variable (get : Nat → Option Nat) (read : ReadStack)

@[simp] theorem evalExpr_run (e : Eval) : (evalExpr get e).run read = Unwinder.evalExpr get read e := by
  induction e with
  | error => rfl
  | complete address => rfl
  | requiresRegister register resume ih =>
    unfold evalExpr Unwinder.evalExpr
    cases get register with
    | none => rfl
    | some value => exact ih value
  | requiresMemory address size space resume ih =>
    unfold evalExpr Unwinder.evalExpr
    split
    · rw [Prog.run_read]
      cases read address with
      | none => rfl
      | some value => exact ih value
    · rfl
  | requiresOther => rfl

@[simp] theorem evalExpr_fits (e : Eval) : (evalExpr get e).Fits read := by
  induction e with
  | error => trivial
  | complete address => trivial
  | requiresRegister register resume ih =>
    unfold evalExpr
    cases get register with
    | none => trivial
    | some value => exact ih value
  | requiresMemory address size space resume ih =>
    unfold evalExpr
    split
    · rw [Prog.fits_read]
      cases read address with
      | none => trivial
      | some value => exact ih value
    · trivial
  | requiresOther => trivial

theorem evalExpr_reads {get : Nat → Option Nat} {read : ReadStack} (hget : ∀ r v, get r = some v → v < 2 ^ 64)
    (hread : read.Words) {e : Eval} (he : e.Words) : ∀ a ∈ (evalExpr get e).reads read, a < 2 ^ 64 := by
  induction e with
  | error => exact nofun
  | complete address => exact nofun
  | requiresRegister register resume ih =>
    unfold evalExpr
    cases hv : get register with
    | none => exact nofun
    | some value => exact ih value (he value (hget register value hv))
  | requiresMemory address size space resume ih =>
    unfold evalExpr
    split
    · rw [Prog.reads_read]
      intro a ha
      rcases List.mem_cons.mp ha with rfl | ha
      · exact he.1
      · cases hv : read address with
        | none =>
          rw [hv] at ha
          cases ha
        | some value =>
          rw [hv] at ha
          exact ih value (he.2 value (hread address value hv)) a ha
    · exact nofun
  | requiresOther => exact nofun

@[simp] theorem evalCfaRule_run (rule : CfaRule) :
    (evalCfaRule get rule).run read = Unwinder.evalCfaRule get read rule := by
  cases rule with
  | registerAndOffset register offset => rfl
  | expression e => exact evalExpr_run get read e

@[simp] theorem evalCfaRule_fits (rule : CfaRule) : (evalCfaRule get rule).Fits read := by
  cases rule with
  | registerAndOffset register offset => trivial
  | expression e => exact evalExpr_fits get read e

@[simp] theorem readAt_run (address : Option Nat) : (readAt address).run read = address.bind read := by
  cases address <;> rfl

@[simp] theorem readAt_fits (address : Option Nat) : (readAt address).Fits read := by
  cases address <;> trivial

@[simp] theorem evalRegisterRule_run (cfa val : Nat) (rule : Option RegisterRule) :
    (evalRegisterRule get cfa val rule).run read = Unwinder.evalRegisterRule get read cfa val rule := by
  unfold evalRegisterRule Unwinder.evalRegisterRule
  split <;> simp

@[simp] theorem evalRegisterRule_fits (cfa val : Nat) (rule : Option RegisterRule) :
    (evalRegisterRule get cfa val rule).Fits read := by
  unfold evalRegisterRule
  split <;> simp

section Words

variable {get read} (hget : ∀ r v, get r = some v → v < 2 ^ 64) (hread : read.Words)
include hget hread

theorem evalCfaRule_reads {rule : CfaRule} (hr : rule.Words) : ∀ a ∈ (evalCfaRule get rule).reads read, a < 2 ^ 64 := by
  cases rule with
  | registerAndOffset register offset => exact nofun
  | expression e => exact evalExpr_reads hget hread hr

omit hget hread in
theorem readAt_reads {address : Option Nat} (h : ∀ a ∈ address, a < 2 ^ 64) :
    ∀ a ∈ (readAt address).reads read, a < 2 ^ 64 := by
  cases address with
  | none => exact nofun
  | some address =>
    intro a ha
    rw [List.mem_singleton.mp ha]
    exact h address rfl

theorem evalRegisterRule_reads {cfa val : Nat} {rule : Option RegisterRule} (hr : ∀ r ∈ rule, r.Words) :
    ∀ a ∈ (evalRegisterRule get cfa val rule).reads read, a < 2 ^ 64 := by
  unfold evalRegisterRule
  split
  case h_4 offset => exact readAt_reads fun a ha => addOffset_words ha
  case h_7 e =>
    have he : e.Words := hr _ rfl
    intro a ha
    rw [Prog.reads_bind, List.mem_append] at ha
    rcases ha with ha | ha
    · exact evalExpr_reads hget hread he a ha
    · refine readAt_reads ?_ a ha
      intro v hv
      rw [evalExpr_run] at hv
      exact evalExpr_words hget hread he hv
  case h_8 e => exact evalExpr_reads hget hread (hr _ rfl)
  all_goals exact nofun

end Words

end Accesses

end FramehopUnwind.Unwinder
