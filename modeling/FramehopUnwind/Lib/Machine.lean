/-
  FramehopUnwind.Lib.Machine — runs of code on a machine.

  A machine is its step from a position in the code and a state. A step goes on at another
  position, leaves the code, traps at a check, faults at an access, or has no meaning. A run
  goes from step to step until one does not go on. A jump leaves the code if it goes to an address
  outside its `Place`.

  `Along` and `AlongTo` are a property of the positions and states on the way, `Ends` is a run
  that comes to its end in a state with a property, `Comes` one that comes to a position in one.
  Each has a rule for the ways a step can turn out.
-/

import Mathlib

namespace FramehopUnwind.Lib.Machine

variable {σ : Type}

inductive Outcome (σ : Type) where
  | running (pc : Nat) (s : σ)
  /-- Control leaves by a return or a branch. -/
  | left (s : σ)
  | trapped (s : σ)
  | fault
  | undefined

/-- The address and the size of the code. -/
structure Place where
  base : Nat
  size : Nat

def Place.Holds (p : Place) (address : Nat) : Prop := p.base ≤ address ∧ address < p.base + p.size

instance (p : Place) (address : Nat) : Decidable (p.Holds address) := inferInstanceAs (Decidable (_ ∧ _))

/-- A jump to an address goes on there, or leaves. -/
def Place.goTo (p : Place) (address : Nat) (s : σ) : Outcome σ :=
  if p.Holds address then .running (address - p.base) s else .left s

/-- `n` steps, or as many as go on. -/
def run (step : Nat → σ → Outcome σ) : Nat → Nat → σ → Outcome σ
  | 0, pc, s => .running pc s
  | n + 1, pc, s =>
    match step pc s with
    | .running pc s => run step n pc s
    | o => o

/-- Every position and state that the run passes through. -/
def Along (step : Nat → σ → Outcome σ) (pc : Nat) (s : σ) (N : Nat → σ → Prop) : Prop :=
  ∀ n pc' s', run step n pc s = .running pc' s' → N pc' s'

/-- Those of the run's first `m` steps. -/
def AlongTo (step : Nat → σ → Outcome σ) (m pc : Nat) (s : σ) (N : Nat → σ → Prop) : Prop :=
  ∀ n ≤ m, ∀ pc' s', run step n pc s = .running pc' s' → N pc' s'

/-- The run comes to an end: control leaves or a check traps, in a state with `Q`, or an access
    faults. -/
def Ends (step : Nat → σ → Outcome σ) (pc : Nat) (s : σ) (Q : σ → Prop) : Prop :=
  ∃ n, run step n pc s = .fault ∨ ∃ s', (run step n pc s = .left s' ∨ run step n pc s = .trapped s') ∧ Q s'

/-- The run comes to a position in a state with `Q`, or an access faults on the way. -/
def Comes (step : Nat → σ → Outcome σ) (pc : Nat) (s : σ) (pc' : Nat) (Q : σ → Prop) : Prop :=
  ∃ n, run step n pc s = .fault ∨ ∃ s', run step n pc s = .running pc' s' ∧ Q s'

variable {step : Nat → σ → Outcome σ} {m pc pc' pc'' : Nat} {s s' : σ} {N : Nat → σ → Prop} {Q Q' : σ → Prop}

theorem run_running (h : step pc s = .running pc' s') (n : Nat) : run step (n + 1) pc s = run step n pc' s' := by
  simp [run, h]

theorem run_fault (h : step pc s = .fault) (n : Nat) : run step (n + 1) pc s = .fault := by
  simp [run, h]

theorem Along.here (h : Along step pc s N) : N pc s := h 0 pc s rfl

theorem Along.next (h : Along step pc s N) (hs : step pc s = .running pc' s') : Along step pc' s' N := by
  intro n pc'' s'' hrun
  exact h (n + 1) pc'' s'' ((run_running hs n).trans hrun)

/-- A property that every step keeps. -/
theorem Along.of_step (h : N pc s) (hstep : ∀ {pc s pc' s'}, N pc s → step pc s = .running pc' s' → N pc' s') :
    Along step pc s N := by
  intro n
  induction n generalizing pc s with
  | zero =>
    intro pc' s' hrun
    cases hrun
    exact h
  | succ n ih =>
    intro pc' s' hrun
    cases hs : step pc s with
    | running pc₁ s₁ =>
      rw [run_running hs] at hrun
      exact ih (hstep h hs) pc' s' hrun
    | left | trapped | fault | undefined =>
      rw [run, hs] at hrun
      cases hrun

theorem AlongTo.here (h : AlongTo step m pc s N) : N pc s := h 0 (Nat.zero_le m) pc s rfl

theorem AlongTo.next (h : AlongTo step (m + 1) pc s N) (hs : step pc s = .running pc' s') :
    AlongTo step m pc' s' N := by
  intro n hn pc'' s'' hrun
  exact h (n + 1) (Nat.succ_le_succ hn) pc'' s'' ((run_running hs n).trans hrun)

theorem Ends.mono (h : Ends step pc s Q) (hQ : ∀ s', Q s' → Q' s') : Ends step pc s Q' := by
  obtain ⟨n, hn⟩ := h
  refine ⟨n, ?_⟩
  rcases hn with hn | ⟨s', hn, hs'⟩
  · exact .inl hn
  · exact .inr ⟨s', hn, hQ s' hs'⟩

theorem Ends.running (hs : step pc s = .running pc' s') (h : Ends step pc' s' Q) : Ends step pc s Q := by
  obtain ⟨n, hn⟩ := h
  refine ⟨n + 1, ?_⟩
  rw [run_running hs]
  exact hn

theorem Ends.fault (hs : step pc s = .fault) : Ends step pc s Q := ⟨1, .inl (run_fault hs 0)⟩

theorem Ends.left (hs : step pc s = .left s') (h : Q s') : Ends step pc s Q :=
  ⟨1, .inr ⟨s', .inl (by simp [run, hs]), h⟩⟩

theorem Ends.trapped (hs : step pc s = .trapped s') (h : Q s') : Ends step pc s Q :=
  ⟨1, .inr ⟨s', .inr (by simp [run, hs]), h⟩⟩

theorem run_add {n : Nat} (h : run step n pc s = .running pc' s') (m : Nat) :
    run step (n + m) pc s = run step m pc' s' := by
  induction n generalizing pc s with
  | zero =>
    cases h
    rw [Nat.zero_add]
  | succ n ih =>
    rw [Nat.succ_add]
    cases hs : step pc s with
    | running pc₁ s₁ =>
      rw [run_running hs] at h ⊢
      exact ih h
    | left | trapped | fault | undefined =>
      rw [run, hs] at h
      cases h

theorem Comes.here (h : Q s) : Comes step pc s pc Q := ⟨0, .inr ⟨s, rfl, h⟩⟩

/-- One step more. -/
theorem Comes.next (h : Comes step pc s pc' Q)
    (hs : ∀ s', Q s' → step pc' s' = .fault ∨ ∃ s'', step pc' s' = .running pc'' s'' ∧ Q' s'') :
    Comes step pc s pc'' Q' := by
  obtain ⟨n, hfault | ⟨s', hn, hs'⟩⟩ := h
  · exact ⟨n, .inl hfault⟩
  · refine ⟨n + 1, ?_⟩
    rw [run_add hn]
    rcases hs s' hs' with hfault | ⟨s'', hstep, hs''⟩
    · exact .inl (run_fault hfault 0)
    · exact .inr ⟨s'', run_running hstep 0, hs''⟩

theorem Comes.mono (h : Comes step pc s pc' Q) (hQ : ∀ s', Q s' → Q' s') : Comes step pc s pc' Q' := by
  obtain ⟨n, hfault | ⟨s', hn, hs'⟩⟩ := h
  · exact ⟨n, .inl hfault⟩
  · exact ⟨n, .inr ⟨s', hn, hQ s' hs'⟩⟩

end FramehopUnwind.Lib.Machine
