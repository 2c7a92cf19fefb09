/-
  FramehopUnwind.Unwinder.Edits — unwinder values and sequences of `add_module` and
  `remove_module` (vendor/framehop/src/unwinder.rs; the chunked list is this repository's
  patch, vendor/README.md).

  `UnwinderInternal` is a chunked list with its generation and its well-formedness. An
  edit takes the generation counter and gives it back; `none` is the panic of an exhausted
  counter. The flat reading of a list is the multiset of its starts: an add inserts one, a
  remove of a present start deletes one occurrence, a remove of an absent start does
  nothing (`flatStep`).

  Proved, for every sequence of edits from `new`:
  - `runEdits_none`: a run panics only when the counter is exhausted.
  - `chunked_list_refines_flat`: the chunk bounds, the order, the starts, the highest known
    address and every lookup are those of the flat list.
-/

import FramehopUnwind.Unwinder.Modules

namespace FramehopUnwind.Unwinder

open Lib.Search

variable {D : Type}

/-- `next_modules_generation` run by one thread alone: the generation it returns and the
    counter it leaves, or `none` when the counter is exhausted. -/
def nextModulesGeneration (counter : Nat) : Option (Nat × Nat) :=
  if counter + 1 < 2 ^ 64 then some (counter, counter + 1) else none

structure UnwinderInternal (D : Type) where
  modules : Chunks D
  modulesGeneration : Nat
  wf : WF modules

def UnwinderInternal.new (counter : Nat) : Option (UnwinderInternal D × Nat) :=
  (nextModulesGeneration counter).map fun (g, counter) => (⟨[], g, wf_nil⟩, counter)

def addModule (u : UnwinderInternal D) (m : Module D) (counter : Nat) : Option (UnwinderInternal D × Nat) :=
  (nextModulesGeneration counter).map fun (g, counter) =>
    (⟨insertModule u.modules m, g, insertModule_wf u.wf m⟩, counter)

def removeModule (u : UnwinderInternal D) (start : Nat) (counter : Nat) : Option (UnwinderInternal D × Nat) :=
  match h : deleteModule u.modules start with
  | none => some (u, counter)
  | some modules =>
    (nextModulesGeneration counter).map fun (g, counter) => (⟨modules, g, deleteModule_wf u.wf h⟩, counter)

inductive Edit (D : Type) where
  | add (m : Module D)
  | remove (start : Nat)
  deriving DecidableEq, Repr

def applyEdit (u : UnwinderInternal D) (e : Edit D) (counter : Nat) : Option (UnwinderInternal D × Nat) :=
  match e with
  | .add m => addModule u m counter
  | .remove start => removeModule u start counter

def applyEdits : List (Edit D) → UnwinderInternal D → Nat → Option (UnwinderInternal D × Nat)
  | [], u, counter => some (u, counter)
  | e :: es, u, counter =>
    match applyEdit u e counter with
    | none => none
    | some (u, counter) => applyEdits es u counter

def runEdits (es : List (Edit D)) (counter : Nat) : Option (UnwinderInternal D × Nat) :=
  match UnwinderInternal.new counter with
  | none => none
  | some (u, counter) => applyEdits es u counter

/-! ## The list alone -/

/-- An edit's effect on the chunks. -/
def editChunks (chunks : Chunks D) : Edit D → Chunks D
  | .add m => insertModule chunks m
  | .remove start => (deleteModule chunks start).getD chunks

theorem editChunks_wf {chunks : Chunks D} (wf : WF chunks) (e : Edit D) : WF (editChunks chunks e) := by
  cases e with
  | add m => exact insertModule_wf wf m
  | remove start =>
    cases h : deleteModule chunks start with
    | none => simpa [editChunks, h] using wf
    | some c => simpa [editChunks, h] using deleteModule_wf wf h

theorem foldl_editChunks_wf {chunks : Chunks D} (wf : WF chunks) (es : List (Edit D)) :
    WF (es.foldl editChunks chunks) := by
  induction es generalizing chunks with
  | nil => exact wf
  | cons e es ih => exact ih (editChunks_wf wf e)

theorem removeModule_absent (u : UnwinderInternal D) {start : Nat} (h : ∀ m ∈ u.modules.flatten, m.start ≠ start)
    (counter : Nat) : removeModule u start counter = some (u, counter) := by
  have hn := (deleteModule_none u.wf).mpr h
  unfold removeModule
  split
  · rfl
  · rename_i e; rw [hn] at e; cases e

/-- An edit leaves the edited list; it panics only on an exhausted counter and moves the
    counter by at most one. -/
theorem applyEdit_cases (u : UnwinderInternal D) (e : Edit D) (counter : Nat) :
    (applyEdit u e counter = none ∧ 2 ^ 64 ≤ counter + 1) ∨
    ∃ u' counter', applyEdit u e counter = some (u', counter') ∧ u'.modules = editChunks u.modules e ∧
      counter ≤ counter' ∧ counter' ≤ counter + 1 := by
  have gen : ∀ f : Nat × Nat → UnwinderInternal D × Nat, (∀ p, (f p).2 = p.2) →
      (∀ p, (f p).1.modules = editChunks u.modules e) →
      applyEdit u e counter = (nextModulesGeneration counter).map f →
      (applyEdit u e counter = none ∧ 2 ^ 64 ≤ counter + 1) ∨
      ∃ u' counter', applyEdit u e counter = some (u', counter') ∧ u'.modules = editChunks u.modules e ∧
        counter ≤ counter' ∧ counter' ≤ counter + 1 := by
    intro f hc hm he
    by_cases hlt : counter + 1 < 2 ^ 64
    · right
      refine ⟨(f (counter, counter + 1)).1, counter + 1, ?_, hm _, by omega, by omega⟩
      rw [he, nextModulesGeneration, if_pos hlt, Option.map_some]
      exact congrArg some (Prod.ext rfl (hc (counter, counter + 1)))
    · left
      rw [he, nextModulesGeneration, if_neg hlt]
      exact ⟨rfl, by omega⟩
  cases e with
  | add m => exact gen _ (fun _ => rfl) (fun _ => rfl) rfl
  | remove start =>
    cases hd : deleteModule u.modules start with
    | none =>
      have hr := removeModule_absent u ((deleteModule_none u.wf).mp hd) counter
      exact Or.inr ⟨u, counter, hr, by simp [editChunks, hd], by omega, by omega⟩
    | some c =>
      refine gen (fun (g, counter) => (⟨c, g, deleteModule_wf u.wf hd⟩, counter)) (fun _ => rfl)
        (fun _ => by simp [editChunks, hd]) ?_
      show removeModule u start counter = _
      unfold removeModule
      split
      · rename_i e; rw [hd] at e; cases e
      · rename_i c' e; rw [hd] at e; cases e; rfl

theorem applyEdits_modules {es : List (Edit D)} {u u' : UnwinderInternal D} {counter counter' : Nat}
    (h : applyEdits es u counter = some (u', counter')) : u'.modules = es.foldl editChunks u.modules := by
  induction es generalizing u counter with
  | nil => cases h; rfl
  | cons e es ih =>
    rcases applyEdit_cases u e counter with ⟨he, -⟩ | ⟨v, c, he, hm, -, -⟩
    · simp [applyEdits, he] at h
    · simp only [applyEdits, he] at h
      rw [ih h, hm, List.foldl_cons]

theorem applyEdits_none {es : List (Edit D)} {u : UnwinderInternal D} {counter : Nat}
    (h : applyEdits es u counter = none) : 2 ^ 64 ≤ counter + es.length := by
  induction es generalizing u counter with
  | nil => cases h
  | cons e es ih =>
    rcases applyEdit_cases u e counter with ⟨-, hc⟩ | ⟨v, c, he, -, -, hle⟩
    · simp only [List.length_cons]; omega
    · simp only [applyEdits, he] at h
      have := ih h
      simp only [List.length_cons]; omega

theorem runEdits_none {es : List (Edit D)} {counter : Nat} (h : runEdits es counter = none) :
    2 ^ 64 ≤ counter + 1 + es.length := by
  unfold runEdits UnwinderInternal.new nextModulesGeneration at h
  by_cases hlt : counter + 1 < 2 ^ 64
  · simp only [hlt, if_true, Option.map_some] at h
    have := applyEdits_none h
    omega
  · omega

theorem runEdits_modules {es : List (Edit D)} {u : UnwinderInternal D} {counter counter' : Nat}
    (h : runEdits es counter = some (u, counter')) : u.modules = es.foldl editChunks [] := by
  unfold runEdits UnwinderInternal.new nextModulesGeneration at h
  split at h
  · cases h
  · rename_i v c e
    have hv : v.modules = [] := by
      split at e
      · simp only [Option.map_some, Option.some.injEq, Prod.mk.injEq] at e
        rw [← e.1]
      · cases e
    rw [applyEdits_modules h, hv]

/-! ## The flat list -/

def flatStep (starts : Multiset Nat) : Edit D → Multiset Nat
  | .add m => m.start ::ₘ starts
  | .remove start => starts.erase start

theorem insertModule_perm {chunks : Chunks D} (wf : WF chunks) (m : Module D) :
    (insertModule chunks m).flatten.Perm (m :: chunks.flatten) := by
  obtain ⟨l, r, e, e', -, -⟩ := insertModule_flat wf m
  rw [e, e']
  exact List.perm_middle

theorem deleteModule_perm {chunks chunks' : Chunks D} (wf : WF chunks) {start : Nat}
    (h : deleteModule chunks start = some chunks') :
    ∃ m, m.start = start ∧ chunks.flatten.Perm (m :: chunks'.flatten) := by
  obtain ⟨l, m, r, e, hm, e'⟩ := deleteModule_flat wf h
  rw [e, e']
  exact ⟨m, hm, List.perm_middle⟩

theorem editChunks_starts {chunks : Chunks D} (wf : WF chunks) (e : Edit D) :
    ((editChunks chunks e).flatten.map Module.start : Multiset Nat) =
      flatStep (chunks.flatten.map Module.start : Multiset Nat) e := by
  cases e with
  | add m => exact Multiset.coe_eq_coe.mpr ((insertModule_perm wf m).map Module.start)
  | remove start =>
    cases h : deleteModule chunks start with
    | none =>
      have hn : start ∉ chunks.flatten.map Module.start := fun hm => by
        obtain ⟨m, hm, e⟩ := List.mem_map.mp hm
        exact (deleteModule_none wf).mp h m hm e
      simp only [editChunks, h, Option.getD_none, flatStep]
      exact (Multiset.erase_of_notMem (Multiset.mem_coe.not.mpr hn)).symm
    | some c =>
      obtain ⟨m, hm, hp⟩ := deleteModule_perm wf h
      have : (chunks.flatten.map Module.start : Multiset Nat) =
          start ::ₘ (c.flatten.map Module.start : Multiset Nat) := by
        rw [← hm]
        exact Multiset.coe_eq_coe.mpr (hp.map Module.start)
      simp only [editChunks, h, Option.getD_some, flatStep, this, Multiset.erase_cons_head]

theorem foldl_editChunks_starts {chunks : Chunks D} (wf : WF chunks) (es : List (Edit D)) :
    ((es.foldl editChunks chunks).flatten.map Module.start : Multiset Nat) =
      es.foldl flatStep (chunks.flatten.map Module.start : Multiset Nat) := by
  induction es generalizing chunks with
  | nil => rfl
  | cons e es ih => rw [List.foldl_cons, List.foldl_cons, ih (editChunks_wf wf e), editChunks_starts wf e]

theorem maxKnownCodeAddress_flat {chunks : Chunks D} (wf : WF chunks) :
    maxKnownCodeAddress chunks = (chunks.flatten.getLast?.map (·.avmaRange.stop)).getD 0 := by
  unfold maxKnownCodeAddress
  rcases List.eq_nil_or_concat chunks with rfl | ⟨pre, c, rfl⟩
  · rfl
  · obtain ⟨l, m, rfl⟩ := (List.eq_nil_or_concat c).resolve_left (wf.nonempty c (by simp))
    simp

/-- For every sequence of edits from `new`: the run panics only when the generation
    counter runs out, and otherwise the chunked list answers as the flat one. A lookup
    considers a module with the greatest start at or below the address; with distinct
    starts that is the one. -/
theorem chunked_list_refines_flat (es : List (Edit D)) (counter : Nat) :
    (runEdits es counter = none → 2 ^ 64 ≤ counter + 1 + es.length) ∧
    ∀ u counter', runEdits es counter = some (u, counter') →
      (∀ c ∈ u.modules, c ≠ [] ∧ c.length ≤ 128) ∧
      SortedBy Module.start u.modules.flatten ∧
      (u.modules.flatten.map Module.start : Multiset Nat) = es.foldl flatStep 0 ∧
      (∀ start, start ∉ es.foldl flatStep 0 → removeModule u start counter' = some (u, counter')) ∧
      maxKnownCodeAddress u.modules = (u.modules.flatten.getLast?.map (·.avmaRange.stop)).getD 0 ∧
      (∀ a, (findModuleForAddress u.modules a = none ∧ ∀ x ∈ u.modules.flatten, a < x.start) ∨
        ∃ m, Pred u.modules.flatten a m ∧
          findModuleForAddress u.modules a = if Covers m a then some (m, a - m.baseAvma) else none) ∧
      ((u.modules.flatten.map Module.start).Nodup → ∀ a m rel,
        findModuleForAddress u.modules a = some (m, rel) ↔
          Pred u.modules.flatten a m ∧ Covers m a ∧ rel = a - m.baseAvma) := by
  refine ⟨runEdits_none, ?_⟩
  intro u counter' h
  have hstarts : (u.modules.flatten.map Module.start : Multiset Nat) = es.foldl flatStep 0 := by
    rw [runEdits_modules h]
    exact foldl_editChunks_starts wf_nil es
  refine ⟨fun c hc => ⟨u.wf.nonempty c hc, u.wf.bounded c hc⟩, u.wf.sorted, hstarts, ?_,
    maxKnownCodeAddress_flat u.wf, findModuleForAddress_spec u.wf, findModuleForAddress_iff u.wf⟩
  intro start hn
  apply removeModule_absent
  intro m hm e
  apply hn
  rw [← hstarts, ← e]
  exact Multiset.mem_coe.mpr (List.mem_map.mpr ⟨m, hm, rfl⟩)

/-- Two modules with one start, of which one is removed again. -/
theorem chunked_list_refines_flat_three :
    ∃ (u : UnwinderInternal Unit) (counter : Nat),
      runEdits [.add ⟨⟨16, 32⟩, 16, 16, ()⟩, .add ⟨⟨16, 48⟩, 16, 16, ()⟩, .remove 16] 0 = some (u, counter) ∧
      (u.modules.flatten.map Module.start : Multiset Nat) = {16} ∧
      SortedBy Module.start u.modules.flatten := by
  let es : List (Edit Unit) := [.add ⟨⟨16, 32⟩, 16, 16, ()⟩, .add ⟨⟨16, 48⟩, 16, 16, ()⟩, .remove 16]
  cases h : runEdits es 0 with
  | none =>
    have := (chunked_list_refines_flat es 0).1 h
    simp [es] at this
  | some r =>
    obtain ⟨u, counter⟩ := r
    obtain ⟨-, hs, hm, -⟩ := (chunked_list_refines_flat es 0).2 u counter h
    exact ⟨u, counter, rfl, hm.trans (by decide), hs⟩

end FramehopUnwind.Unwinder
