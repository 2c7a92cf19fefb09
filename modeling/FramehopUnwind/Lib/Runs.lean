/-
  FramehopUnwind.Lib.Runs — runs of a step relation.

  `Reach init step` holds of the states a run of `step` reaches from a state with `init`.
  An invariant is proved from one step (`Reach.invariant`); what a step cannot lose, a run
  cannot lose (`stable`); and a run of a restricted relation is a run of the wider one
  (`Reach.mono`).

  A sequence that raises a bounded rank as long as it goes on stops (`stops_of_rising`).

  A partial function with finitely many values can be iterated for ever exactly where it comes
  back to a value (`endless_iff`).
-/

import Mathlib

namespace FramehopUnwind.Lib.Runs

open Relation

variable {σ : Type} {init init' : σ → Prop} {step step' : σ → σ → Prop}

def Reach (init : σ → Prop) (step : σ → σ → Prop) (s : σ) : Prop := ∃ s₀, init s₀ ∧ ReflTransGen step s₀ s

theorem Reach.start {s : σ} (h : init s) : Reach init step s := ⟨s, h, .refl⟩

theorem Reach.tail {s t : σ} (h : Reach init step s) (hs : step s t) : Reach init step t := by
  obtain ⟨s₀, h0, hr⟩ := h
  exact ⟨s₀, h0, hr.tail hs⟩

/-- A property of the first states that every step from a reachable state keeps. -/
theorem Reach.invariant {P : σ → Prop} (h0 : ∀ s, init s → P s)
    (hs : ∀ s t, Reach init step s → P s → step s t → P t) {s : σ} (h : Reach init step s) : P s := by
  obtain ⟨s₀, hi, hr⟩ := h
  induction hr with
  | refl => exact h0 s₀ hi
  | tail hr hst ih => exact hs _ _ ⟨s₀, hi, hr⟩ ih hst

theorem Reach.trans {s t : σ} (h : Reach init step s) (hs : ReflTransGen step s t) : Reach init step t := by
  obtain ⟨s₀, h0, hr⟩ := h
  exact ⟨s₀, h0, hr.trans hs⟩

theorem Reach.mono (hi : ∀ s, init s → init' s) (hs : ∀ s t, step s t → step' s t) {s : σ}
    (h : Reach init step s) : Reach init' step' s := by
  obtain ⟨s₀, h0, hr⟩ := h
  exact ⟨s₀, hi s₀ h0, ReflTransGen.mono hs _ _ hr⟩

/-- A property every step keeps holds to the end of a run that starts with it. -/
theorem stable {P : σ → Prop} (hP : ∀ s t, P s → step s t → P t) {s t : σ} (h : P s)
    (hr : ReflTransGen step s t) : P t := by
  induction hr with
  | refl => exact h
  | tail _ hst ih => exact hP _ _ ih hst

/-! ## Sequences -/

section Sequences

variable {Goes : ℕ → Prop} {rank : ℕ → ℕ} {bound : ℕ}

theorem rank_lt_of_rising {m n : ℕ} (h : ∀ k < n, rank k < rank (k + 1)) (hmn : m < n) : rank m < rank n := by
  induction n, hmn using Nat.le_induction with
  | base => exact h m (Nat.lt_succ_self m)
  | succ n hn ih => exact (ih fun k hk => h k (Nat.lt_succ_of_lt hk)).trans (h n (Nat.lt_succ_self n))

/-- A sequence that raises a rank below a bound as long as it goes on stops. -/
theorem stops_of_rising (hbound : ∀ n, (∀ k < n, Goes k) → rank n < bound)
    (hrise : ∀ n, (∀ k ≤ n, Goes k) → rank n < rank (n + 1)) : ∃ n, (∀ k < n, Goes k) ∧ ¬ Goes n := by
  by_contra hnone
  have hgoes : ∀ n, Goes n := by
    intro n
    induction n using Nat.strong_induction_on with
    | _ n ih =>
      by_contra hn
      exact hnone ⟨n, ih, hn⟩
  have hmono : StrictMono rank := strictMono_nat_of_lt_succ fun n => hrise n fun k _ => hgoes k
  exact absurd (hbound bound fun k _ => hgoes k) (not_lt.mpr (hmono.le_apply))

end Sequences

/-! ## Partial iteration -/

/-- `n` steps of a partial function. -/
def iterate? (f : σ → Option σ) : ℕ → σ → Option σ
  | 0, s => some s
  | n + 1, s => (f s).bind (iterate? f n)

variable {f : σ → Option σ}

theorem iterate?_add (m n : ℕ) (s : σ) : iterate? f (m + n) s = (iterate? f m s).bind (iterate? f n) := by
  induction m generalizing s with
  | zero => simp [iterate?]
  | succ m ih =>
    rw [Nat.succ_add]
    simp only [iterate?]
    cases f s with
    | none => rfl
    | some t => exact ih t

theorem iterate?_mono {m n : ℕ} (h : m ≤ n) {s : σ} (hn : iterate? f n s ≠ none) : iterate? f m s ≠ none := by
  intro hm
  obtain ⟨k, rfl⟩ := Nat.exists_eq_add_of_le h
  rw [iterate?_add, hm] at hn
  exact hn rfl

theorem iterate?_mul {p : ℕ} {s : σ} (h : iterate? f p s = some s) (k : ℕ) : iterate? f (p * k) s = some s := by
  induction k with
  | zero => rfl
  | succ k ih =>
    rw [Nat.mul_succ, iterate?_add, ih]
    exact h

/-- A value of the iteration that is not its start is a value of the function. -/
theorem iterate?_succ_mem {n : ℕ} {s t : σ} (h : iterate? f (n + 1) s = some t) : ∃ u, f u = some t := by
  rw [iterate?_add] at h
  obtain ⟨u, -, hu⟩ := Option.bind_eq_some_iff.mp h
  refine ⟨u, ?_⟩
  simpa [iterate?] using hu

theorem endless_iff (hfin : {t | ∃ s, f s = some t}.Finite) (s : σ) :
    (∀ n, iterate? f n s ≠ none) ↔ ∃ i j, i < j ∧ iterate? f i s ≠ none ∧ iterate? f i s = iterate? f j s := by
  constructor
  · intro h
    have hmem : ∀ n, iterate? f (n + 1) s ∈ some '' {t | ∃ s, f s = some t} := by
      intro n
      obtain ⟨t, ht⟩ := Option.ne_none_iff_exists'.mp (h (n + 1))
      exact ⟨t, iterate?_succ_mem ht, ht.symm⟩
    obtain ⟨i, j, hij, heq⟩ := Set.Finite.exists_lt_map_eq_of_forall_mem hmem (hfin.image some)
    exact ⟨i + 1, j + 1, Nat.succ_lt_succ hij, h _, heq⟩
  · intro hback n
    obtain ⟨i, j, hij, hi, heq⟩ := hback
    obtain ⟨t, ht⟩ := Option.ne_none_iff_exists'.mp hi
    obtain ⟨p, rfl⟩ := Nat.exists_eq_add_of_lt hij
    -- from the value it comes back to, it goes round as often as one likes
    have hround : iterate? f (p + 1) t = some t := by
      rw [Nat.add_assoc, iterate?_add, ht] at heq
      exact heq.symm
    have hfar : iterate? f (i + (p + 1) * n) s ≠ none := by
      rw [iterate?_add, ht]
      simp [iterate?_mul hround n]
    exact iterate?_mono ((Nat.le_mul_of_pos_left n (Nat.succ_pos p)).trans (Nat.le_add_left _ i)) hfar

/-- More steps than there are values to step to come back. -/
theorem comes_back_of_long {f : ℕ → Option ℕ} {bound : ℕ} (hf : ∀ s t, f s = some t → t < bound) {s : ℕ}
    (h : iterate? f (bound + 1) s ≠ none) :
    ∃ i j, i < j ∧ iterate? f i s ≠ none ∧ iterate? f i s = iterate? f j s := by
  have hmaps : ∀ i ∈ Finset.range (bound + 1), iterate? f (i + 1) s ∈ (Finset.range bound).image some := by
    intro i hi
    obtain ⟨t, ht⟩ := Option.ne_none_iff_exists'.mp (iterate?_mono (Finset.mem_range.mp hi) h)
    obtain ⟨u, hu⟩ := iterate?_succ_mem ht
    exact Finset.mem_image.mpr ⟨t, Finset.mem_range.mpr (hf u t hu), ht.symm⟩
  have hcard : ((Finset.range bound).image (some : ℕ → Option ℕ)).card < (Finset.range (bound + 1)).card := by
    refine Finset.card_image_le.trans_lt ?_
    simp
  obtain ⟨i, hi, j, hj, hne, heq⟩ := Finset.exists_ne_map_eq_of_card_lt_of_maps_to hcard hmaps
  have hsome : ∀ k ∈ Finset.range (bound + 1), iterate? f (k + 1) s ≠ none :=
    fun k hk => iterate?_mono (Finset.mem_range.mp hk) h
  rcases lt_or_gt_of_ne hne with hlt | hlt
  · exact ⟨i + 1, j + 1, Nat.succ_lt_succ hlt, hsome i hi, heq⟩
  · exact ⟨j + 1, i + 1, Nat.succ_lt_succ hlt, hsome j hj, heq.symm⟩

end FramehopUnwind.Lib.Runs
