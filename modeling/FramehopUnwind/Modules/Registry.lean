/-
  FramehopUnwind.Modules.Registry — the writer-side registry and the operations on it
  (src/modules/mod.rs; `with_writer` of src/state.rs as one step).

  Every operation holds the registry lock from its first access to its last, and publishes
  under the writer lock inside it, so operations of any number of threads happen one after
  another: a run is a list of operations.

  A `HashMap` that is only looked up is a partial map. `static_mods` is also iterated; it is
  an association list, whose order is the map's iteration order, whatever that is.
  `load_counts` exists on ELF systems; elsewhere it stays `none`.

  `none` is the abort of an exhausted generation counter, 2^64 edits into a process.
-/

import FramehopUnwind.Lib.Runs
import FramehopUnwind.Unwinder.Edits

namespace FramehopUnwind.Modules

open Unwinder

variable {D : Type}

abbrev PMap := Nat → Option Nat

structure Registry where
  /-- Key to fingerprint, of the static modules. -/
  staticMods : AList fun _ : Nat => Nat
  jitKeys : Finset Nat
  jitByEhFrame : PMap
  jitEhFrameByKey : PMap
  loadCounts : Option (Nat × Nat)

def Registry.new : Registry := ⟨∅, ∅, fun _ => none, fun _ => none, none⟩

structure World (D : Type) where
  reg : Registry
  /-- What `CURRENT` points to; null until the first publish. -/
  current : Option (UnwinderInternal D)
  counter : Nat

def World.new (counter : Nat) : World D := ⟨Registry.new, none, counter⟩

/-- The published chunks. -/
def World.chunks (w : World D) : Chunks D := (w.current.map UnwinderInternal.modules).getD []

/-- The published modules. -/
def World.published (w : World D) : Multiset (Module D) := w.chunks.flatten

theorem World.chunks_wf (w : World D) : WF w.chunks := by
  unfold World.chunks
  cases w.current with
  | none => exact wf_nil
  | some u => exact u.wf

/-- Publish a clone of the current unwinder (or a new one) with these edits. -/
def withWriter (es : List (Edit D)) (w : World D) : Option (World D) :=
  let start := match w.current with
    | none => UnwinderInternal.new w.counter
    | some u => some (u, w.counter)
  match start with
  | none => none
  | some (u, counter) =>
    match applyEdits es u counter with
    | none => none
    | some (u, counter) => some { w with current := some u, counter := counter }

/-! ## JIT modules -/

/-- Drop the key's eh_frame mapping, if it still has one. -/
def forgetJitEhFrame (reg : Registry) (key : Nat) : Registry :=
  match reg.jitEhFrameByKey key with
  | none => reg
  | some ehFrameAddr =>
    let reg := { reg with jitEhFrameByKey := Function.update reg.jitEhFrameByKey key none }
    if reg.jitByEhFrame ehFrameAddr = some key then
      { reg with jitByEhFrame := Function.update reg.jitByEhFrame ehFrameAddr none }
    else reg

/-- Point the address at the key; the key that had it can no longer be found by it. -/
def insertEhFrame (reg : Registry) (key ehFrameAddr : Nat) : Registry :=
  let jitByEhFrame := Function.update reg.jitByEhFrame ehFrameAddr (some key)
  match reg.jitByEhFrame ehFrameAddr with
  | none => { reg with jitByEhFrame := jitByEhFrame }
  | some prevKey =>
    { reg with jitByEhFrame := jitByEhFrame, jitEhFrameByKey := Function.update reg.jitEhFrameByKey prevKey none }

/-- The registry's part of `add_jit_module`. -/
def recordJit (reg : Registry) (key ehFrameAddr : Nat) : Registry :=
  let reg := forgetJitEhFrame { reg with jitKeys := insert key reg.jitKeys } key
  let reg := insertEhFrame reg key ehFrameAddr
  { reg with jitEhFrameByKey := Function.update reg.jitEhFrameByKey key (some ehFrameAddr) }

def addJitModule (w : World D) (key ehFrameAddr : Nat) (m : Module D) : Option (World D) :=
  let edits := if key ∈ w.reg.jitKeys then [.remove key, .add m] else [.add m]
  (withWriter edits w).map fun w => { w with reg := recordJit w.reg key ehFrameAddr }

/-- The registry's part of `remove_jit_locked`. -/
def eraseJit (reg : Registry) (key : Nat) : Registry :=
  forgetJitEhFrame { reg with jitKeys := reg.jitKeys.erase key } key

def removeJitLocked (w : World D) (key : Nat) : Option (World D) :=
  if key ∈ w.reg.jitKeys then (withWriter [.remove key] w).map fun w => { w with reg := eraseJit w.reg key }
  else some w

def removeJitModule (w : World D) (key : Nat) : Option (World D) := removeJitLocked w key

def removeJitModuleByEhFrame (w : World D) (ehFrameAddr : Nat) : Option (World D) :=
  match w.reg.jitByEhFrame ehFrameAddr with
  | none => some w
  | some key => removeJitLocked w key

/-! ## Static modules -/

structure EnumResult (D : Type) where
  /-- Key to fingerprint, of all loaded static modules. -/
  current : AList fun _ : Nat => Nat
  newModules : List (Nat × Module D)

/-- Keys no longer enumerated. -/
def removedKeys (staticMods current : AList fun _ : Nat => Nat) : List Nat :=
  staticMods.keys.filter fun k => (current.lookup k).isNone

/-- Keys enumerated with another fingerprint. -/
def changedKeys (staticMods current : AList fun _ : Nat => Nat) : List Nat :=
  (staticMods.entries.filter fun e =>
    match current.lookup e.1 with
    | none => false
    | some fp => fp ≠ e.2).map Sigma.fst

/-- What a refresh publishes: the changed modules dropped, the new ones added, the removed
    ones dropped unless a JIT module has their key. -/
def refreshEdits (reg : Registry) (res : EnumResult D) : List (Edit D) :=
  (changedKeys reg.staticMods res.current).map .remove ++ res.newModules.map (fun e => .add e.2) ++
    ((removedKeys reg.staticMods res.current).filter (· ∉ reg.jitKeys)).map .remove

/-- `refresh`, with what `load_counts` and the enumeration give; a failed enumeration is `none`. -/
def refresh (w : World D) (counts : Option (Nat × Nat)) (res : Option (EnumResult D)) : Option (World D) :=
  if counts.isSome ∧ counts = w.reg.loadCounts then some w
  else
    match res with
    | none => some w
    | some res =>
      let w := { w with reg := { w.reg with loadCounts := counts } }
      if res.newModules = [] ∧ removedKeys w.reg.staticMods res.current = [] ∧
          changedKeys w.reg.staticMods res.current = [] then some w
      else (withWriter (refreshEdits w.reg res) w).map fun w =>
        { w with reg := { w.reg with staticMods := res.current } }

/-! ## What publishing does -/

theorem withWriter_spec {es : List (Edit D)} {w w' : World D} (h : withWriter es w = some w') :
    w'.reg = w.reg ∧ w'.chunks = es.foldl editChunks w.chunks := by
  unfold withWriter at h
  simp only at h
  split at h
  · cases h
  rename_i u counter hu
  split at h
  · cases h
  rename_i u' counter' ha
  cases h
  refine ⟨rfl, ?_⟩
  have hm : u.modules = w.chunks := by
    unfold World.chunks
    cases hc : w.current with
    | none =>
      simp only [hc, UnwinderInternal.new] at hu
      obtain ⟨p, -, he⟩ := Option.map_eq_some_iff.mp hu
      cases he
      rfl
    | some v =>
      simp only [hc] at hu
      cases hu
      rfl
  rw [← hm]
  exact applyEdits_modules ha

/-- Publishing aborts only when the generation counter runs out. -/
theorem withWriter_none {es : List (Edit D)} {w : World D} (h : withWriter es w = none) :
    2 ^ 64 ≤ w.counter + 1 + es.length := by
  unfold withWriter at h
  simp only at h
  cases hc : w.current with
  | none =>
    simp only [hc] at h
    by_cases hlt : w.counter + 1 < 2 ^ 64
    · simp only [UnwinderInternal.new, nextModulesGeneration, hlt, if_true, Option.map_some] at h
      split at h
      · rename_i ha
        have := applyEdits_none ha
        omega
      · cases h
    · omega
  | some u =>
    simp only [hc] at h
    split at h
    · rename_i ha
      have := applyEdits_none ha
      omega
    · cases h

/-- What one edit does to the published modules. -/
theorem editChunks_modules {chunks : Chunks D} (wf : WF chunks) (e : Edit D) :
    match e with
    | .add m => ((editChunks chunks e).flatten : Multiset (Module D)) = m ::ₘ chunks.flatten
    | .remove start =>
      ((∀ m ∈ chunks.flatten, m.start ≠ start) ∧ editChunks chunks e = chunks) ∨
      ∃ m, m.start = start ∧ (chunks.flatten : Multiset (Module D)) = m ::ₘ (editChunks chunks e).flatten := by
  cases e with
  | add m => exact Multiset.coe_eq_coe.mpr (insertModule_perm wf m)
  | remove start =>
    cases h : deleteModule chunks start with
    | none => exact Or.inl ⟨(deleteModule_none wf).mp h, by simp [editChunks, h]⟩
    | some c =>
      obtain ⟨m, hm, hp⟩ := deleteModule_perm wf h
      refine Or.inr ⟨m, hm, ?_⟩
      simpa [editChunks, h] using Multiset.coe_eq_coe.mpr hp

/-! ## Modules at a start -/

/-- The published modules that start at `k`. -/
def atStart (chunks : Chunks D) (k : Nat) : Multiset (Module D) :=
  (chunks.flatten : Multiset (Module D)).filter fun m => m.start = k

/-- The start an edit is about. -/
def editStart : Edit D → Nat
  | .add m => m.start
  | .remove start => start

theorem mem_atStart {chunks : Chunks D} {k : Nat} {m : Module D} :
    m ∈ atStart chunks k ↔ m ∈ chunks.flatten ∧ m.start = k := by
  rw [atStart, Multiset.mem_filter, Multiset.mem_coe]

theorem atStart_add {chunks : Chunks D} (wf : WF chunks) (m : Module D) :
    atStart (editChunks chunks (.add m)) m.start = m ::ₘ atStart chunks m.start := by
  have h := editChunks_modules wf (.add m)
  simp only at h
  unfold atStart
  rw [h, Multiset.filter_cons_of_pos]
  rfl

theorem atStart_ne {chunks : Chunks D} (wf : WF chunks) {e : Edit D} {k : Nat} (hk : editStart e ≠ k) :
    atStart (editChunks chunks e) k = atStart chunks k := by
  have h := editChunks_modules wf e
  unfold atStart
  cases e with
  | add m =>
    simp only at h
    rw [h, Multiset.filter_cons_of_neg]
    exact hk
  | remove start =>
    rcases h with ⟨-, h⟩ | ⟨m, hm, h⟩
    · rw [h]
    · rw [h, Multiset.filter_cons_of_neg]
      rw [hm]
      exact hk

/-- A remove takes one of the modules at its start, if there is one. -/
theorem atStart_remove {chunks : Chunks D} (wf : WF chunks) (k : Nat) :
    (atStart chunks k = 0 ∧ atStart (editChunks chunks (.remove k)) k = 0) ∨
    ∃ m, atStart chunks k = m ::ₘ atStart (editChunks chunks (.remove k)) k := by
  rcases editChunks_modules wf (.remove k) with ⟨hn, h⟩ | ⟨m, hm, h⟩
  · left
    have : atStart chunks k = 0 := by
      refine Multiset.eq_zero_of_forall_notMem ?_
      intro m hm
      obtain ⟨hm, hk⟩ := mem_atStart.mp hm
      exact hn m hm hk
    rw [h]
    exact ⟨this, this⟩
  · right
    refine ⟨m, ?_⟩
    unfold atStart
    rw [h, Multiset.filter_cons_of_pos]
    exact hm

theorem atStart_remove_single {chunks : Chunks D} (wf : WF chunks) {k : Nat} {m : Module D}
    (h : atStart chunks k = {m}) : atStart (editChunks chunks (.remove k)) k = 0 := by
  rcases atStart_remove wf k with ⟨h0, -⟩ | ⟨m', h'⟩
  · rw [h] at h0
    simp at h0
  · rw [h] at h'
    have := congrArg Multiset.card h'
    simpa using this

/-- Edits about other starts leave a start's modules as they are. -/
theorem foldl_atStart_ne {chunks : Chunks D} (wf : WF chunks) {es : List (Edit D)} {k : Nat}
    (h : ∀ e ∈ es, editStart e ≠ k) : atStart (es.foldl editChunks chunks) k = atStart chunks k := by
  induction es generalizing chunks with
  | nil => rfl
  | cons e es ih =>
    rw [List.foldl_cons, ih (editChunks_wf wf e) fun e' he' => h e' (by simp [he']), atStart_ne wf (h e (by simp))]

/-- A module that no edit removes stays. -/
theorem foldl_atStart_mem {chunks : Chunks D} (wf : WF chunks) {es : List (Edit D)} {k : Nat} {m : Module D}
    (h : ∀ e ∈ es, e ≠ .remove k) (hm : m ∈ atStart chunks k) : m ∈ atStart (es.foldl editChunks chunks) k := by
  induction es generalizing chunks with
  | nil => exact hm
  | cons e es ih =>
    refine ih (editChunks_wf wf e) (fun e' he' => h e' (by simp [he'])) ?_
    by_cases hk : editStart e = k
    · cases e with
      | add m' =>
        obtain rfl : m'.start = k := hk
        rw [atStart_add wf]
        exact Multiset.mem_cons_of_mem hm
      | remove start =>
        obtain rfl : start = k := hk
        exact absurd rfl (h _ (by simp))
    · rwa [atStart_ne wf hk]

/-- Whatever holds of a start's modules and of the modules added there stays true of them. -/
theorem foldl_atStart_all {chunks : Chunks D} (wf : WF chunks) {es : List (Edit D)} {k : Nat} {P : Module D → Prop}
    (h : ∀ m, .add m ∈ es → P m) (hP : ∀ m ∈ atStart chunks k, P m) :
    ∀ m ∈ atStart (es.foldl editChunks chunks) k, P m := by
  induction es generalizing chunks with
  | nil => exact hP
  | cons e es ih =>
    refine ih (editChunks_wf wf e) (fun m hm => h m (by simp [hm])) ?_
    intro m hm
    by_cases hk : editStart e = k
    · cases e with
      | add m' =>
        obtain rfl : m'.start = k := hk
        rw [atStart_add wf] at hm
        rcases Multiset.mem_cons.mp hm with rfl | hm
        · exact h m (by simp)
        · exact hP m hm
      | remove start =>
        obtain rfl : start = k := hk
        rcases atStart_remove wf start with ⟨-, h0⟩ | ⟨m', h'⟩
        · rw [h0] at hm
          cases hm
        · exact hP m (h' ▸ Multiset.mem_cons_of_mem hm)
    · rw [atStart_ne wf hk] at hm
      exact hP m hm

/-- Removes, where each start has at most one module. -/
theorem foldl_removes {chunks : Chunks D} (wf : WF chunks) {k : Nat} (ks : List Nat)
    (h1 : Multiset.card (atStart chunks k) ≤ 1) :
    atStart ((ks.map .remove).foldl editChunks chunks) k = if k ∈ ks then 0 else atStart chunks k := by
  induction ks generalizing chunks with
  | nil => simp
  | cons k' ks ih =>
    rw [List.map_cons, List.foldl_cons]
    have wf' := editChunks_wf wf (.remove k')
    by_cases hk : k = k'
    · subst hk
      have h0 : atStart (editChunks chunks (.remove k)) k = 0 := by
        rcases atStart_remove wf k with ⟨-, h0⟩ | ⟨m, hm⟩
        · exact h0
        · rw [hm, Multiset.card_cons] at h1
          exact Multiset.card_eq_zero.mp (by omega)
      rw [ih wf' (by simp [h0]), h0]
      simp
    · have hne := atStart_ne wf (e := .remove k') (k := k) (Ne.symm hk)
      rw [ih wf' (by rwa [hne]), hne]
      simp [hk]

theorem foldl_adds {chunks : Chunks D} (wf : WF chunks) (k : Nat) (ms : List (Module D)) :
    atStart ((ms.map .add).foldl editChunks chunks) k =
      atStart chunks k + (ms.filter fun m => m.start = k : List (Module D)) := by
  induction ms generalizing chunks with
  | nil => simp
  | cons m ms ih =>
    rw [List.map_cons, List.foldl_cons, ih (editChunks_wf wf _)]
    by_cases hk : m.start = k
    · subst hk
      rw [atStart_add wf, List.filter_cons_of_pos (by simp)]
      simp only [← Multiset.cons_coe, Multiset.cons_add, Multiset.add_cons]
    · rw [atStart_ne wf (e := .add m) hk, List.filter_cons_of_neg (by simpa using hk)]

/-! ## What the operations do -/

theorem mem_published {w : World D} {x : Module D} : x ∈ w.published ↔ x ∈ atStart w.chunks x.start := by
  rw [mem_atStart]
  simp [World.published]

/-- The registry's keys after `add_jit_module` and `remove_jit_locked`. -/
theorem forgetJitEhFrame_keys (reg : Registry) (key : Nat) : (forgetJitEhFrame reg key).jitKeys = reg.jitKeys := by
  unfold forgetJitEhFrame
  split
  · rfl
  · simp only
    split <;> rfl

theorem insertEhFrame_keys (reg : Registry) (key a : Nat) : (insertEhFrame reg key a).jitKeys = reg.jitKeys := by
  unfold insertEhFrame
  cases reg.jitByEhFrame a <;> rfl

theorem recordJit_keys (reg : Registry) (key a : Nat) : (recordJit reg key a).jitKeys = insert key reg.jitKeys := by
  unfold recordJit
  simp only [insertEhFrame_keys, forgetJitEhFrame_keys]

theorem eraseJit_keys (reg : Registry) (key : Nat) : (eraseJit reg key).jitKeys = reg.jitKeys.erase key :=
  forgetJitEhFrame_keys _ _

/-- Removing a registered key leaves the edited list and the erased registry. -/
theorem removeJitLocked_cases {w w' : World D} {key : Nat} (h : removeJitLocked w key = some w') :
    (key ∉ w.reg.jitKeys ∧ w' = w) ∨
    (key ∈ w.reg.jitKeys ∧ w'.reg = eraseJit w.reg key ∧ w'.chunks = editChunks w.chunks (.remove key)) := by
  unfold removeJitLocked at h
  by_cases hk : key ∈ w.reg.jitKeys
  · simp only [hk, if_true] at h
    obtain ⟨w₁, hw, rfl⟩ := Option.map_eq_some_iff.mp h
    obtain ⟨hreg, hc⟩ := withWriter_spec hw
    exact Or.inr ⟨hk, by simp only [hreg], hc⟩
  · simp only [hk, if_false] at h
    cases h
    exact Or.inl ⟨hk, rfl⟩

theorem addJitModule_spec {w w' : World D} {key a : Nat} {m : Module D} (h : addJitModule w key a m = some w') :
    w'.reg = recordJit w.reg key a ∧
    w'.chunks = (if key ∈ w.reg.jitKeys then [.remove key, .add m] else [.add m]).foldl editChunks w.chunks := by
  unfold addJitModule at h
  obtain ⟨w₁, hw, rfl⟩ := Option.map_eq_some_iff.mp h
  obtain ⟨hreg, hc⟩ := withWriter_spec hw
  exact ⟨by simp only [hreg], hc⟩

/-- A registration changes nothing at other starts. -/
theorem addJitModule_at_ne {w w' : World D} {key a k : Nat} {m : Module D} (h : addJitModule w key a m = some w')
    (hstart : m.start = key) (hk : k ≠ key) : atStart w'.chunks k = atStart w.chunks k := by
  rw [(addJitModule_spec h).2]
  apply foldl_atStart_ne w.chunks_wf
  intro e he
  have hmem : e = .remove key ∨ e = .add m := by
    split at he
    · simpa using he
    · exact Or.inr (List.mem_singleton.mp he)
  rcases hmem with rfl | rfl
  · exact hk.symm
  · intro heq
    exact hk (heq.symm.trans hstart)

/-- A registration leaves its module alone at its key, if a registered key had one module
    and any other none. -/
theorem addJitModule_at_key {w w' : World D} {key a : Nat} {m : Module D} (h : addJitModule w key a m = some w')
    (hstart : m.start = key) (hone : key ∈ w.reg.jitKeys → ∃ m', atStart w.chunks key = {m'})
    (hnone : key ∉ w.reg.jitKeys → atStart w.chunks key = 0) : atStart w'.chunks key = {m} := by
  subst hstart
  rw [(addJitModule_spec h).2]
  by_cases hk : m.start ∈ w.reg.jitKeys
  · obtain ⟨m', hm'⟩ := hone hk
    rw [if_pos hk, List.foldl_cons, List.foldl_cons, List.foldl_nil, atStart_add (editChunks_wf w.chunks_wf _),
      atStart_remove_single w.chunks_wf hm']
    rfl
  · rw [if_neg hk, List.foldl_cons, List.foldl_nil, atStart_add w.chunks_wf, hnone hk]
    rfl

/-- What a scanning refresh does: nothing, or its edits; the JIT keys stay. -/
theorem refresh_cases {w w' : World D} {counts : Option (Nat × Nat)} {res : EnumResult D}
    (hskip : ¬ (counts.isSome ∧ counts = w.reg.loadCounts)) (h : refresh w counts (some res) = some w') :
    w'.reg.jitKeys = w.reg.jitKeys ∧
      w'.chunks = (refreshEdits w.reg res).foldl editChunks w.chunks := by
  unfold refresh at h
  simp only [hskip, if_false] at h
  split at h
  · rename_i hnone
    obtain ⟨hn, hr, hc⟩ := hnone
    cases h
    refine ⟨rfl, ?_⟩
    unfold refreshEdits
    simp only [hn, hr, hc, List.map_nil, List.filter_nil, List.append_nil, List.foldl_nil]
    rfl
  · obtain ⟨w₁, hw, rfl⟩ := Option.map_eq_some_iff.mp h
    obtain ⟨hreg, hc⟩ := withWriter_spec hw
    exact ⟨by simp only [hreg], hc⟩

theorem refresh_skips {w w' : World D} {counts : Option (Nat × Nat)} {res : Option (EnumResult D)}
    (hskip : counts.isSome ∧ counts = w.reg.loadCounts) (h : refresh w counts res = some w') : w' = w := by
  unfold refresh at h
  rw [if_pos hskip] at h
  exact (Option.some.inj h).symm

theorem mem_refreshEdits {reg : Registry} {res : EnumResult D} {e : Edit D} (h : e ∈ refreshEdits reg res) :
    (∃ k ∈ changedKeys reg.staticMods res.current, e = .remove k) ∨ (∃ n ∈ res.newModules, e = .add n.2) ∨
      ∃ k, k ∉ reg.jitKeys ∧ e = .remove k := by
  unfold refreshEdits at h
  simp only [List.mem_append, List.mem_map, List.mem_filter, decide_eq_true_eq] at h
  rcases h with (⟨k, hk, rfl⟩ | ⟨n, hn, rfl⟩) | ⟨k, ⟨-, hk⟩, rfl⟩
  · exact Or.inl ⟨k, hk, rfl⟩
  · exact Or.inr (Or.inl ⟨n, hn, rfl⟩)
  · exact Or.inr (Or.inr ⟨k, hk, rfl⟩)

/-- The registry after a scanning refresh: the counts are stored; the enumeration is, unless
    there was nothing to publish. -/
theorem refresh_registry {w w' : World D} {counts : Option (Nat × Nat)} {res : EnumResult D}
    (hskip : ¬ (counts.isSome ∧ counts = w.reg.loadCounts)) (h : refresh w counts (some res) = some w') :
    w'.reg.loadCounts = counts ∧
      (w'.reg.staticMods = res.current ∨
        (w'.reg.staticMods = w.reg.staticMods ∧ res.newModules = [] ∧
          removedKeys w.reg.staticMods res.current = [] ∧ changedKeys w.reg.staticMods res.current = [])) := by
  unfold refresh at h
  simp only [hskip, if_false] at h
  split at h
  · rename_i hnone
    cases h
    exact ⟨rfl, Or.inr ⟨rfl, hnone⟩⟩
  · obtain ⟨w₁, hw, rfl⟩ := Option.map_eq_some_iff.mp h
    obtain ⟨hreg, -⟩ := withWriter_spec hw
    exact ⟨by simp only [hreg], Or.inl rfl⟩

theorem mem_changedKeys {staticMods current : AList fun _ : Nat => Nat} {k : Nat} :
    k ∈ changedKeys staticMods current ↔
      ∃ fp fp', staticMods.lookup k = some fp ∧ current.lookup k = some fp' ∧ fp' ≠ fp := by
  unfold changedKeys
  simp only [List.mem_map, List.mem_filter]
  constructor
  · intro h₀
    obtain ⟨⟨k', fp⟩, ⟨hmem, hne⟩, rfl⟩ := h₀
    have hl : staticMods.lookup k' = some fp := AList.mem_lookup_iff.mpr hmem
    cases hc : current.lookup k' with
    | none => simp [hc] at hne
    | some fp' => exact ⟨fp, fp', hl, rfl, by simpa [hc] using hne⟩
  · intro h₀
    obtain ⟨fp, fp', hl, hc, hne⟩ := h₀
    exact ⟨⟨k, fp⟩, ⟨AList.mem_lookup_iff.mp hl, by simpa [hc] using hne⟩, rfl⟩

theorem mem_removedKeys {staticMods current : AList fun _ : Nat => Nat} {k : Nat} :
    k ∈ removedKeys staticMods current ↔ staticMods.lookup k ≠ none ∧ current.lookup k = none := by
  unfold removedKeys
  rw [List.mem_filter, ← AList.mem_keys, ← AList.lookup_isSome]
  simp [Option.isSome_iff_ne_none]

end FramehopUnwind.Modules
