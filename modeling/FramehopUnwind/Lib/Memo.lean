/-
  FramehopUnwind.Lib.Memo — a computation through a store of earlier results.

  A call looks its key up. A value that is there is used in place of the computation; if there is
  none the call computes, and keeps a value under its key if the computation gives one to keep. The
  store may forget what it likes (`Store.lookup_insert` is one direction only). The outcome of a
  computation need not be that of using the value it keeps.

  `run_transparent`: after any calls, whatever each of them has kept under the key of a call may
  have been used by it, and nothing else. So if every such value does for the call what computing
  does, the store does not show.
-/

import Mathlib.Data.List.Basic

namespace FramehopUnwind.Lib.Memo

variable {K V S Call Out : Type}

structure Store (K V S : Type) where
  empty : S
  lookup : S → K → Option V
  insert : S → K → V → S
  lookup_empty : ∀ k, lookup empty k = none
  lookup_insert : ∀ {s k v k' v'}, lookup (insert s k v) k' = some v' → (k = k' ∧ v = v') ∨ lookup s k' = some v'

structure Task (K V Call Out : Type) where
  key : Call → K
  use : Call → V → Out
  /-- The value to keep, if any, and the outcome. -/
  compute : Call → Option V × Out

variable (T : Store K V S) (M : Task K V Call Out)

def run (c : Call) (s : S) : Out × S :=
  match T.lookup s (M.key c) with
  | some v => (M.use c v, s)
  | none =>
    match M.compute c with
    | (some v, out) => (out, T.insert s (M.key c) v)
    | (none, out) => (out, s)

/-- The store that a sequence of calls leaves. -/
def runs (calls : List Call) (s : S) : S := calls.foldl (fun s c => (run T M c s).2) s

/-- Every value under the key is one that may be used. -/
def Holds (k : K) (ok : V → Prop) (s : S) : Prop := ∀ v, T.lookup s k = some v → ok v

variable {T M} {k : K} {ok : V → Prop} {c : Call} {s : S}

theorem run_hit {v : V} (h : T.lookup s (M.key c) = some v) : run T M c s = (M.use c v, s) := by
  rw [run, h]

theorem run_miss (h : T.lookup s (M.key c) = none) : (run T M c s).1 = (M.compute c).2 := by
  rw [run, h]
  rcases M.compute c with ⟨_ | v, out⟩ <;> rfl

theorem run_holds (hs : Holds T k ok s) (hc : M.key c = k → ∀ v, (M.compute c).1 = some v → ok v) :
    Holds T k ok (run T M c s).2 := by
  unfold run
  split
  · exact hs
  · split
    case h_1 v out hcompute =>
      intro v' hv'
      rcases T.lookup_insert hv' with ⟨hk, rfl⟩ | hv'
      · exact hc hk v (by rw [hcompute])
      · exact hs v' hv'
    case h_2 => exact hs

theorem runs_holds {calls : List Call} (hs : Holds T k ok s)
    (hc : ∀ c ∈ calls, M.key c = k → ∀ v, (M.compute c).1 = some v → ok v) : Holds T k ok (runs T M calls s) := by
  induction calls generalizing s with
  | nil => exact hs
  | cons c calls ih =>
    apply ih
    · exact run_holds hs (hc c (by simp))
    · intro c' hc'
      exact hc c' (by simp [hc'])

theorem run_empty (c : Call) : (run T M c T.empty).1 = (M.compute c).2 := by
  unfold run
  rw [T.lookup_empty]
  rcases M.compute c with ⟨v | _, out⟩ <;> rfl

theorem run_transparent {calls : List Call} {q : Call}
    (h : ∀ c ∈ calls, M.key c = M.key q → ∀ v, (M.compute c).1 = some v → M.use q v = (M.compute q).2) :
    (run T M q (runs T M calls T.empty)).1 = (run T M q T.empty).1 := by
  have hholds : Holds T (M.key q) (fun v => M.use q v = (M.compute q).2) (runs T M calls T.empty) := by
    apply runs_holds _ h
    intro v hv
    rw [T.lookup_empty] at hv
    cases hv
  rw [run_empty]
  unfold run
  split
  case h_1 v hv => exact hholds v hv
  case h_2 => rcases M.compute q with ⟨v | _, out⟩ <;> rfl

end FramehopUnwind.Lib.Memo
