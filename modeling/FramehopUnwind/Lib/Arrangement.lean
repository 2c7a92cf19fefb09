/-
  FramehopUnwind.Lib.Arrangement — arrangements of a pool of distinct elements as numbers.

  An arrangement picks elements of the pool one after another; each pick swaps the element
  with the first that is left, and its index there is a digit whose base is the number of
  elements left. `rank` is the number of a list of picks, `arrange` the picks of a number.

  Proved, for any pool without repetitions:
  - `rank_isSome_iff`: the lists that have a number are those of distinct elements of the pool.
  - `rank_lt`: `k` picks from `n` elements have a number below `n (n - 1) ⋯ (n - k + 1)`.
  - `take_arrange_rank`, `rank_take_arrange`: the two are inverse to each other, digits past the
    last pick aside.
-/

import Mathlib

namespace FramehopUnwind.Lib.Arrangement

variable {α : Type}

/-- The entry `k` of `a :: l`, and the others with `a` in its place. -/
def pull (a : α) (l : List α) : Nat → α × List α
  | 0 => (a, l)
  | k + 1 => (l[k]?.getD a, l.set k a)

/-- The whole pool, `n` elements, in the order of the number `r`. -/
def arrange : Nat → Nat → List α → List α
  | 0, _, pool => pool
  | _ + 1, _, [] => []
  | n + 1, r, a :: l => (pull a l (r % (n + 1))).1 :: arrange n (r / (n + 1)) (pull a l (r % (n + 1))).2

/-- The number of a list of picks from the pool. -/
def rank [DecidableEq α] : List α → List α → Option Nat
  | _, [] => some 0
  | [], _ :: _ => none
  | a :: l, x :: xs =>
    match (a :: l).idxOf? x with
    | none => none
    | some k => (rank (pull a l k).2 xs).map (k + (l.length + 1) * ·)

/-! ## One pick -/

@[simp] theorem pull_length (a : α) (l : List α) (k : Nat) : (pull a l k).2.length = l.length := by
  cases k with
  | zero => rfl
  | succ k => simp [pull]

theorem pull_perm (a : α) (l : List α) (k : Nat) : ((pull a l k).1 :: (pull a l k).2).Perm (a :: l) := by
  cases k with
  | zero => exact List.Perm.refl _
  | succ k => exact List.getD_set_perm_cons l k a

theorem pull_fst {a : α} {l : List α} {k : Nat} (h : k < l.length + 1) : (pull a l k).1 = (a :: l).get ⟨k, h⟩ := by
  cases k with
  | zero => rfl
  | succ k => simp [pull, List.getElem?_eq_getElem (Nat.lt_of_succ_lt_succ h)]

theorem arrange_zero (n : Nat) {pool : List α} (h : pool.length = n) : arrange n 0 pool = pool := by
  induction n generalizing pool with
  | zero => rfl
  | succ n ih =>
    cases pool with
    | nil => cases h
    | cons a l =>
      simp only [arrange, Nat.zero_mod, Nat.zero_div, pull, ih (Nat.succ.inj h)]

@[simp] theorem arrange_length (n r : Nat) (pool : List α) : (arrange n r pool).length = pool.length := by
  induction n generalizing r pool with
  | zero => rfl
  | succ n ih =>
    cases pool with
    | nil => rfl
    | cons a l => simp [arrange, ih]

section

variable [DecidableEq α]

theorem idxOf?_eq_some {l : List α} {x : α} {k : Nat} (h : l.idxOf? x = some k) :
    ∃ hk : k < l.length, l.get ⟨k, hk⟩ = x := by
  obtain ⟨hk, hx, -⟩ := List.findIdx?_eq_some_iff_getElem.mp h
  exact ⟨hk, by simpa using hx⟩

/-- A pick that is in the pool leaves the others there. -/
theorem pull_of_idxOf? {a x : α} {l : List α} {k : Nat} (h : (a :: l).idxOf? x = some k) :
    (pull a l k).1 = x ∧ (x :: (pull a l k).2).Perm (a :: l) := by
  obtain ⟨hk, hx⟩ := idxOf?_eq_some h
  have hfst : (pull a l k).1 = x := (pull_fst hk).trans hx
  refine ⟨hfst, ?_⟩
  have := pull_perm a l k
  rwa [hfst] at this

theorem idxOf?_get {l : List α} (hn : l.Nodup) (k : Nat) (hk : k < l.length) : l.idxOf? (l.get ⟨k, hk⟩) = some k := by
  apply List.findIdx?_eq_some_iff_getElem.mpr
  refine ⟨hk, by simp, ?_⟩
  intro j hj
  have hne : l.get ⟨j, hj.trans hk⟩ ≠ l.get ⟨k, hk⟩ := by
    intro heq
    have := congrArg Fin.val (hn.injective_get heq)
    simp only at this
    omega
  simpa using hne

/-! ## Lists of picks -/

theorem rank_isSome_iff {pool : List α} (hpool : pool.Nodup) (xs : List α) :
    (rank pool xs).isSome ↔ xs.Nodup ∧ xs ⊆ pool := by
  induction xs generalizing pool with
  | nil => simp [rank]
  | cons x xs ih =>
    cases pool with
    | nil => simp [rank]
    | cons a l =>
      unfold rank
      cases hk : (a :: l).idxOf? x with
      | none =>
        have hx : x ∉ a :: l := List.idxOf?_eq_none_iff.mp hk
        simp only [Option.isSome_none, Bool.false_eq_true, false_iff]
        intro h
        exact hx (h.2 List.mem_cons_self)
      | some k =>
        obtain ⟨-, hperm⟩ := pull_of_idxOf? hk
        obtain ⟨hx, hrest⟩ := List.nodup_cons.mp (hperm.nodup_iff.mpr hpool)
        simp only [Option.isSome_map, ih hrest]
        -- of the pool, the pick aside, exactly the others are left
        have hsub : x ∉ xs → (xs ⊆ (pull a l k).2 ↔ xs ⊆ a :: l) := by
          intro hxs
          constructor
          · intro h y hy
            exact hperm.subset (List.mem_cons_of_mem _ (h hy))
          · intro h y hy
            rcases List.mem_cons.mp (hperm.symm.subset (h hy)) with rfl | hy'
            · exact absurd hy hxs
            · exact hy'
        have hmem : x ∈ a :: l := hperm.subset List.mem_cons_self
        rw [List.nodup_cons, List.cons_subset]
        constructor
        · intro h
          have hxs : x ∉ xs := fun hxs => hx (h.2 hxs)
          exact ⟨⟨hxs, h.1⟩, hmem, (hsub hxs).mp h.2⟩
        · intro h
          exact ⟨h.1.2, (hsub h.1.1).mpr h.2.2⟩

theorem rank_cons {a x : α} {l xs : List α} {r : Nat} (h : rank (a :: l) (x :: xs) = some r) :
    ∃ k r', (a :: l).idxOf? x = some k ∧ rank (pull a l k).2 xs = some r' ∧ r = k + (l.length + 1) * r' := by
  unfold rank at h
  cases hk : (a :: l).idxOf? x with
  | none =>
    rw [hk] at h
    cases h
  | some k =>
    rw [hk] at h
    obtain ⟨r', hr', heq⟩ := Option.map_eq_some_iff.mp h
    exact ⟨k, r', rfl, hr', heq.symm⟩

theorem rank_lt {pool xs : List α} {r : Nat} (h : rank pool xs = some r) :
    r < pool.length.descFactorial xs.length := by
  induction xs generalizing pool r with
  | nil =>
    cases h
    simp
  | cons x xs ih =>
    cases pool with
    | nil => cases h
    | cons a l =>
      obtain ⟨k, r', hk, hr', rfl⟩ := rank_cons h
      obtain ⟨hlt, -⟩ := idxOf?_eq_some hk
      have hr := ih hr'
      rw [pull_length] at hr
      simp only [List.length_cons, Nat.succ_descFactorial_succ] at hlt ⊢
      calc k + (l.length + 1) * r' < (l.length + 1) + (l.length + 1) * r' := by omega
        _ = (l.length + 1) * (r' + 1) := by ring
        _ ≤ (l.length + 1) * l.length.descFactorial xs.length := Nat.mul_le_mul_left _ hr

/-- The number of a list of picks gives them back. -/
theorem take_arrange_rank {pool xs : List α} {r : Nat} (h : rank pool xs = some r) :
    (arrange pool.length r pool).take xs.length = xs := by
  induction xs generalizing pool r with
  | nil => simp
  | cons x xs ih =>
    cases pool with
    | nil => cases h
    | cons a l =>
      obtain ⟨k, r', hk, hr', rfl⟩ := rank_cons h
      obtain ⟨hlt, -⟩ := idxOf?_eq_some hk
      obtain ⟨hfst, -⟩ := pull_of_idxOf? hk
      rw [List.length_cons] at hlt
      have hmod : (k + (l.length + 1) * r') % (l.length + 1) = k := by
        rw [Nat.add_mul_mod_self_left, Nat.mod_eq_of_lt hlt]
      have hdiv : (k + (l.length + 1) * r') / (l.length + 1) = r' := by
        rw [Nat.add_mul_div_left _ _ (Nat.succ_pos _), Nat.div_eq_of_lt hlt, Nat.zero_add]
      have hrest := ih hr'
      rw [pull_length] at hrest
      simp only [List.length_cons, arrange, hmod, hdiv, hfst, List.take_succ_cons, hrest]

/-- The picks of a number have that number, up to the digits past the last pick. -/
theorem rank_take_arrange {pool : List α} (hpool : pool.Nodup) {c : Nat} (hc : c ≤ pool.length) (r : Nat) :
    rank pool ((arrange pool.length r pool).take c) = some (r % pool.length.descFactorial c) := by
  induction c generalizing pool r with
  | zero => simp [rank, Nat.mod_one]
  | succ c ih =>
    cases pool with
    | nil => cases hc
    | cons a l =>
      have hlt : r % (l.length + 1) < l.length + 1 := Nat.mod_lt _ (Nat.succ_pos _)
      have hk := idxOf?_get hpool _ hlt
      rw [← pull_fst hlt] at hk
      have hrest : (pull a l (r % (l.length + 1))).2.Nodup :=
        (List.nodup_cons.mp ((pull_perm a l _).nodup_iff.mpr hpool)).2
      have := ih hrest ((Nat.le_of_succ_le_succ hc).trans_eq (pull_length _ _ _).symm) (r / (l.length + 1))
      rw [pull_length] at this
      simp only [List.length_cons, arrange, List.take_succ_cons, rank, hk, this, Option.map_some,
        Nat.succ_descFactorial_succ, Nat.mod_mul]

end

end FramehopUnwind.Lib.Arrangement
