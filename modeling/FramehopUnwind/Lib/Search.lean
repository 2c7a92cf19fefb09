/-
  FramehopUnwind.Lib.Search — binary search over a list sorted by a key.

  `binarySearchByKey` follows Rust's `slice::binary_search_by_key`: halve `[base,
  base + size)`, moving `base` up unless the middle key is greater, then compare once
  more at `base`. Among equal keys it returns some match; the results below never say
  which, so they hold for any choice the library makes.

  Proved, for every sorted list and every key:
  - `search_ok`: `.ok i` is the index of an entry with that key.
  - `search_error`: `.error i` splits the list: smaller keys before `i`, greater from `i` on.
  - `Gap.last`: the entry just before such an index has the greatest key at most the one searched.
  - `insert_at`: inserting at the searched index keeps the list sorted around the new entry.
-/

import Mathlib

namespace FramehopUnwind.Lib.Search

variable {α κ : Type} [LinearOrder κ]

/-- The halving loop; `fuel` is at least `size`. -/
def bisect (greater : Nat → Bool) : Nat → Nat → Nat → Nat
  | 0, base, _ => base
  | fuel + 1, base, size =>
    if size ≤ 1 then base
    else
      let half := size / 2
      let mid := base + half
      bisect greater fuel (if greater mid then base else mid) (size - half)

/-- `slice::binary_search_by_key`: `.ok` of a matching index, or `.error` of the index
    where the key could be inserted. -/
def binarySearchByKey (l : List α) (k : κ) (f : α → κ) : Except Nat Nat :=
  let base := bisect (fun i => decide (∃ x ∈ l[i]?, k < f x)) l.length 0 l.length
  match l[base]? with
  | none => .error 0
  | some x => if f x = k then .ok base else if f x < k then .error (base + 1) else .error base

/-- Where a search says to insert `k`: at a match, if there is one. -/
def insertionIndex (l : List α) (k : κ) (f : α → κ) : Nat :=
  match binarySearchByKey l k f with
  | .ok i => i
  | .error i => i

/-- Sorted by `f`, neighbours may be equal. -/
def SortedBy (f : α → κ) (l : List α) : Prop := l.Pairwise fun a b => f a ≤ f b

theorem SortedBy.le {f : α → κ} {l : List α} (h : SortedBy f l) {i j : Nat} {x y : α} (hij : i ≤ j)
    (hx : l[i]? = some x) (hy : l[j]? = some y) : f x ≤ f y := by
  obtain ⟨hi, rfl⟩ := List.getElem?_eq_some_iff.mp hx
  obtain ⟨hj, rfl⟩ := List.getElem?_eq_some_iff.mp hy
  rcases Nat.lt_or_eq_of_le hij with lt | rfl
  · exact List.pairwise_iff_getElem.mp h i j hi hj lt
  · exact le_refl _

/-! ## The loop -/

/-- What the loop keeps: the window is not empty and inside the list, everything up to a
    moved `base` is at most the key, and everything past the window is greater. -/
structure Window (l : List α) (k : κ) (f : α → κ) (base size : Nat) : Prop where
  pos : 0 < size
  inside : base + size ≤ l.length
  below : ∀ x, l[base]? = some x → 0 < base → f x ≤ k
  above : ∀ j x, l[j]? = some x → base + size ≤ j → k < f x

theorem bisect_window {l : List α} {k : κ} {f : α → κ} (hs : SortedBy f l) :
    ∀ fuel base size, size ≤ fuel → Window l k f base size →
      Window l k f (bisect (fun i => decide (∃ x ∈ l[i]?, k < f x)) fuel base size) 1 := by
  intro fuel
  induction fuel with
  | zero => intro base size hf w; have := w.pos; omega
  | succ fuel ih =>
    intro base size hf w
    simp only [bisect]
    by_cases h1 : size ≤ 1
    · have : size = 1 := by have := w.pos; omega
      subst this
      simpa only [h1, if_true] using w
    · simp only [h1, if_false]
      have hin := w.inside
      have hmid : base + size / 2 < l.length := by omega
      apply ih
      · omega
      by_cases hg : ∃ x ∈ l[base + size / 2]?, k < f x
      · -- the middle key is greater: the upper half leaves the window
        simp only [hg, decide_true, if_true]
        obtain ⟨m, hm, hgt⟩ := hg
        refine ⟨by omega, by omega, w.below, ?_⟩
        intro j x hj hle
        exact lt_of_lt_of_le hgt (hs.le (by omega) hm hj)
      · simp only [hg, decide_false, Bool.false_eq_true, if_false]
        refine ⟨by omega, by omega, ?_, fun j x hj hle => w.above j x hj (by omega)⟩
        intro x hx _
        exact not_lt.mp fun hlt => hg ⟨x, hx, hlt⟩

theorem start_window {l : List α} {k : κ} {f : α → κ} (h : l ≠ []) : Window l k f 0 l.length where
  pos := List.length_pos_of_ne_nil h
  inside := by omega
  below _ _ h0 := absurd h0 (lt_irrefl 0)
  above j x hj hle := by
    obtain ⟨hlt, _⟩ := List.getElem?_eq_some_iff.mp hj
    omega

/-! ## What the search returns -/

/-- An index where `k` can be inserted: smaller keys before it, greater keys from it on. -/
structure Gap (l : List α) (k : κ) (f : α → κ) (i : Nat) : Prop where
  le_length : i ≤ l.length
  before : ∀ x ∈ l.take i, f x < k
  after : ∀ x ∈ l.drop i, k < f x

theorem search_spec {l : List α} {k : κ} {f : α → κ} (hs : SortedBy f l) :
    match binarySearchByKey l k f with
    | .ok i => ∃ x, l[i]? = some x ∧ f x = k
    | .error i => Gap l k f i := by
  by_cases hl : l = []
  · subst hl
    exact ⟨Nat.le_refl _, by simp, by simp⟩
  unfold binarySearchByKey
  have w := bisect_window (k := k) hs l.length 0 l.length (Nat.le_refl _) (start_window hl)
  generalize bisect (fun i => decide (∃ x ∈ l[i]?, k < f x)) l.length 0 l.length = base at w
  have hb : base < l.length := by have := w.inside; omega
  have hx : l[base]? = some l[base] := List.getElem?_eq_getElem hb
  simp only [hx]
  by_cases heq : f l[base] = k
  · simp only [heq, if_true]
    exact ⟨l[base], hx, heq⟩
  by_cases hlt : f l[base] < k
  · simp only [heq, hlt, if_true, if_false]
    refine ⟨hb, ?_, ?_⟩
    · intro x hm
      obtain ⟨j, hj, rfl⟩ := List.mem_take_iff_getElem.mp hm
      exact lt_of_le_of_lt (hs.le (by omega) (List.getElem?_eq_getElem (by omega)) hx) hlt
    · intro x hm
      obtain ⟨j, hj, rfl⟩ := List.mem_drop_iff_getElem.mp hm
      exact w.above _ _ (List.getElem?_eq_getElem (by omega)) (by omega)
  · -- the key at `base` is greater, so `base` never moved
    simp only [heq, hlt, if_false]
    have hgt : k < f l[base] := lt_of_le_of_ne (not_lt.mp hlt) (Ne.symm heq)
    have h0 : base = 0 := by
      apply Nat.eq_zero_of_not_pos
      intro hpos
      exact absurd (w.below _ hx hpos) (not_le.mpr hgt)
    subst h0
    refine ⟨Nat.zero_le _, by simp, ?_⟩
    intro x hm
    obtain ⟨j, hj, rfl⟩ := List.mem_drop_iff_getElem.mp hm
    exact lt_of_lt_of_le hgt (hs.le (Nat.zero_le _) hx (List.getElem?_eq_getElem (by omega)))

theorem search_ok {l : List α} {k : κ} {f : α → κ} (hs : SortedBy f l) {i : Nat}
    (h : binarySearchByKey l k f = .ok i) : ∃ x, l[i]? = some x ∧ f x = k := by
  have := search_spec (k := k) hs
  rwa [h] at this

theorem search_error {l : List α} {k : κ} {f : α → κ} (hs : SortedBy f l) {i : Nat}
    (h : binarySearchByKey l k f = .error i) : Gap l k f i := by
  have := search_spec (k := k) hs
  rwa [h] at this

theorem Gap.not_mem {l : List α} {k : κ} {f : α → κ} {i : Nat} (g : Gap l k f i) : ∀ x ∈ l, f x ≠ k := by
  intro x hx
  rw [← List.take_append_drop i l] at hx
  rcases List.mem_append.mp hx with hx | hx
  · exact (g.before x hx).ne
  · exact (g.after x hx).ne'

/-- Below a gap that is not at the front stands the greatest key at most `k`. -/
theorem Gap.last {l : List α} {k : κ} {f : α → κ} {i : Nat} (g : Gap l k f (i + 1)) (hs : SortedBy f l) :
    ∃ x, l[i]? = some x ∧ f x < k ∧ ∀ y ∈ l, f y ≤ k → f y ≤ f x := by
  have hi : i < l.length := g.le_length
  have hx : l[i]? = some l[i] := List.getElem?_eq_getElem hi
  refine ⟨l[i], hx, g.before _ (List.mem_take_iff_getElem.mpr ⟨i, by omega, rfl⟩), ?_⟩
  intro y hy hle
  rw [← List.take_append_drop (i + 1) l] at hy
  rcases List.mem_append.mp hy with hy | hy
  · obtain ⟨j, hj, rfl⟩ := List.mem_take_iff_getElem.mp hy
    exact hs.le (by omega) (List.getElem?_eq_getElem (by omega)) hx
  · exact absurd hle (not_le.mpr (g.after y hy))

/-! ## Editing at a searched index -/

theorem insertIdx_append (l r : List α) (x : α) : (l ++ r).insertIdx l.length x = l ++ x :: r := by
  induction l with
  | nil => rfl
  | cons y l ih => simpa using ih

theorem eraseIdx_append (l r : List α) (x : α) : (l ++ x :: r).eraseIdx l.length = l ++ r := by
  induction l with
  | nil => rfl
  | cons y l ih => simpa using ih

/-- An entry of a list, with what stands before and after it. -/
theorem split_at {l : List α} {i : Nat} {x : α} (h : l[i]? = some x) :
    ∃ a b, l = a ++ x :: b ∧ i = a.length := by
  obtain ⟨hi, rfl⟩ := List.getElem?_eq_some_iff.mp h
  exact ⟨l.take i, l.drop (i + 1), by simp, by simp; omega⟩

theorem insert_at {l : List α} {f : α → κ} (hs : SortedBy f l) (x : α) :
    ∃ a b, l = a ++ b ∧ l.insertIdx (insertionIndex l (f x) f) x = a ++ x :: b ∧
      (∀ y ∈ a, f y ≤ f x) ∧ ∀ y ∈ b, f x ≤ f y := by
  unfold insertionIndex
  cases h : binarySearchByKey l (f x) f with
  | ok i =>
    obtain ⟨m, hm, hk⟩ := search_ok hs h
    obtain ⟨a, b, rfl, rfl⟩ := split_at hm
    obtain ⟨_, hb, hab⟩ := List.pairwise_append.mp hs
    refine ⟨a, m :: b, rfl, insertIdx_append _ _ _, fun y hy => hk ▸ hab y hy m (by simp), ?_⟩
    intro y hy
    rcases List.mem_cons.mp hy with rfl | hy
    · exact hk.ge
    · exact hk ▸ List.rel_of_pairwise_cons hb hy
  | error i =>
    have g := search_error hs h
    refine ⟨l.take i, l.drop i, (List.take_append_drop i l).symm, ?_, fun y hy => (g.before y hy).le,
      fun y hy => (g.after y hy).le⟩
    have := insertIdx_append (l.take i) (l.drop i) x
    rwa [List.take_append_drop, List.length_take_of_le g.le_length] at this

end FramehopUnwind.Lib.Search
