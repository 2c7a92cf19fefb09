/-
  FramehopUnwind.Modules.InStep — JIT keys and published modules
  (src/modules/mod.rs: `add_jit_module`, `remove_jit_locked`, `refresh`).

  A module carries where it came from, so that a JIT module and a static one at the same
  start are told apart. `InStep` says that `jit_keys` and the published list agree: each key
  has exactly one module at its start, the last one registered for it, and no other JIT
  module is published.

  A refresh spares JIT keys when it drops unloaded modules, but not when it drops changed
  ones, and nothing keeps a static module away from a JIT module's start. `Apart` is the
  condition that neither happens at this step.

  Proved, for every sequence of operations:
  - `apply_inStep` / `apply_breaks`: from a state in step, an operation leaves one exactly
    when it keeps static and JIT modules apart.
  - `in_step_iff`: all states of a run are in step iff all its operations keep them apart.
  - `changed_image_drops_jit_module`: a run that loses a registered module.
-/

import FramehopUnwind.Modules.EhFrameKeys

namespace FramehopUnwind.Modules

open Unwinder

variable {D : Type}

/-! ## Operations -/

inductive Origin where
  | static
  | jit
  deriving DecidableEq, Repr

def tag (o : Origin) (m : Module D) : Module (Origin × D) :=
  ⟨m.avmaRange, m.baseAvma, m.baseSvma, (o, m.unwindData)⟩

def origin (m : Module (Origin × D)) : Origin := m.unwindData.1

def EnumResult.tagged (res : EnumResult D) : EnumResult (Origin × D) :=
  ⟨res.current, res.newModules.map fun e => (e.1, tag .static e.2)⟩

/-- The operations; a JIT module's key is its start, as the callers of `add_jit_module` pass it. -/
inductive Op (D : Type) where
  | add (ehFrameAddr : Nat) (m : Module D)
  | remove (key : Nat)
  | removeByEhFrame (ehFrameAddr : Nat)
  | refresh (counts : Option (Nat × Nat)) (res : Option (EnumResult D))

def Op.apply (w : World (Origin × D)) : Op D → Option (World (Origin × D))
  | .add ehFrameAddr m => addJitModule w m.start ehFrameAddr (tag .jit m)
  | .remove key => removeJitModule w key
  | .removeByEhFrame ehFrameAddr => removeJitModuleByEhFrame w ehFrameAddr
  | .refresh counts res => Modules.refresh w counts (res.map EnumResult.tagged)

def runOps (ops : List (Op D)) (w : World (Origin × D)) : Option (World (Origin × D)) := ops.foldlM Op.apply w

/-- The module an operation registers for a key. -/
def Op.registers (k : Nat) : Op D → Option (Module D)
  | .add _ m => if m.start = k then some m else none
  | .remove _ => none
  | .removeByEhFrame _ => none
  | .refresh _ _ => none

/-- The module last registered for a key. -/
def lastAdded (ops : List (Op D)) (k : Nat) : Option (Module D) := (ops.filterMap (Op.registers k)).getLast?

theorem lastAdded_snoc (ops : List (Op D)) (op : Op D) (k : Nat) :
    lastAdded (ops ++ [op]) k = (op.registers k).or (lastAdded ops k) := by
  unfold lastAdded
  rw [List.filterMap_append, List.filterMap_cons, List.filterMap_nil]
  cases op.registers k <;> simp

structure InStep (ops : List (Op D)) (w : World (Origin × D)) : Prop where
  one : ∀ k ∈ w.reg.jitKeys, ∃ m, lastAdded ops k = some m ∧ atStart w.chunks k = {tag .jit m}
  gone : ∀ x ∈ w.published, origin x = .jit → x.start ∈ w.reg.jitKeys

/-- This operation keeps static and JIT modules apart: it registers no JIT module at the
    start of a published one that is not its own key's, and, if it is a refresh that scans,
    neither drops nor adds a static module at a JIT key. -/
def Apart (w : World (Origin × D)) : Op D → Prop
  | .add _ m => m.start ∈ w.reg.jitKeys ∨ ∀ x ∈ w.published, x.start ≠ m.start
  | .remove _ => True
  | .removeByEhFrame _ => True
  | .refresh _ none => True
  | .refresh counts (some res) =>
    (counts.isSome ∧ counts = w.reg.loadCounts) ∨
      ((∀ k ∈ changedKeys w.reg.staticMods res.current, k ∉ w.reg.jitKeys) ∧
        ∀ e ∈ res.newModules, e.2.start ∉ w.reg.jitKeys)

/-! ## One operation -/

/-- The second half of `InStep`, start by start. -/
theorem gone_iff {w : World (Origin × D)} :
    (∀ x ∈ w.published, origin x = .jit → x.start ∈ w.reg.jitKeys) ↔
      ∀ k ∉ w.reg.jitKeys, ∀ x ∈ atStart w.chunks k, origin x = .static := by
  constructor
  · intro h k hk x hx
    have hs := (mem_atStart.mp hx).2
    cases ho : origin x with
    | static => rfl
    | jit =>
      have := h x (mem_published.mpr (by rwa [hs])) ho
      rw [hs] at this
      exact absurd this hk
  · intro h x hx ho
    by_contra hk
    rw [h _ hk x (mem_published.mp hx)] at ho
    cases ho

/-- A refresh adds static modules only. -/
theorem refreshEdits_static {reg : Registry} {res : EnumResult D} {m : Module (Origin × D)}
    (h : .add m ∈ refreshEdits reg res.tagged) : origin m = .static := by
  rcases mem_refreshEdits h with ⟨k, -, he⟩ | ⟨n, hn, he⟩ | ⟨k, -, he⟩
  · cases he
  · cases he
    obtain ⟨n', -, rfl⟩ := List.mem_map.mp hn
    rfl
  · cases he

theorem InStep.add {ops : List (Op D)} {w w' : World (Origin × D)} {a : Nat} {m : Module D} (hi : InStep ops w)
    (hap : m.start ∈ w.reg.jitKeys ∨ ∀ x ∈ w.published, x.start ≠ m.start)
    (h : addJitModule w m.start a (tag .jit m) = some w') : InStep (ops ++ [.add a m]) w' := by
  have hkeys : w'.reg.jitKeys = insert m.start w.reg.jitKeys := by rw [(addJitModule_spec h).1, recordJit_keys]
  -- elsewhere nothing changes; at the key the new module stands alone
  have hother : ∀ k, k ≠ m.start → atStart w'.chunks k = atStart w.chunks k := fun k hk => addJitModule_at_ne h rfl hk
  have hself : atStart w'.chunks m.start = {tag .jit m} := by
    refine addJitModule_at_key h rfl ?_ ?_
    · intro hk
      obtain ⟨m', -, hm'⟩ := hi.one _ hk
      exact ⟨_, hm'⟩
    · intro hk
      refine Multiset.eq_zero_of_forall_notMem ?_
      intro x hx
      have hs := (mem_atStart.mp hx).2
      exact hap.resolve_left hk x (mem_published.mpr (by rwa [hs])) hs
  refine ⟨?_, gone_iff.mpr ?_⟩
  · intro k hk
    by_cases hkm : k = m.start
    · subst hkm
      exact ⟨m, by simp [lastAdded_snoc, Op.registers], hself⟩
    · rw [hkeys] at hk
      obtain ⟨m', hl, hm'⟩ := hi.one k ((Finset.mem_insert.mp hk).resolve_left hkm)
      refine ⟨m', ?_, by rw [hother k hkm, hm']⟩
      rw [lastAdded_snoc, Op.registers, if_neg (Ne.symm hkm)]
      exact hl
  · intro k hk x hx
    rw [hkeys, Finset.mem_insert, not_or] at hk
    rw [hother k hk.1] at hx
    exact gone_iff.mp hi.gone k hk.2 x hx

theorem InStep.remove {ops : List (Op D)} {w w' : World (Origin × D)} {key : Nat} {op : Op D} (hi : InStep ops w)
    (hop : ∀ k, op.registers k = none) (h : removeJitLocked w key = some w') : InStep (ops ++ [op]) w' := by
  have hlast : ∀ k, lastAdded (ops ++ [op]) k = lastAdded ops k := by
    intro k
    rw [lastAdded_snoc, hop, Option.none_or]
  rcases removeJitLocked_cases h with ⟨-, rfl⟩ | ⟨hk, hreg, hc⟩
  · exact ⟨fun k hk => by rw [hlast]; exact hi.one k hk, hi.gone⟩
  have hkeys : w'.reg.jitKeys = w.reg.jitKeys.erase key := by rw [hreg, eraseJit_keys]
  have hother : ∀ k, k ≠ key → atStart w'.chunks k = atStart w.chunks k := by
    intro k hne
    rw [hc]
    exact atStart_ne w.chunks_wf (Ne.symm hne)
  have hself : atStart w'.chunks key = 0 := by
    obtain ⟨m, -, hm⟩ := hi.one key hk
    rw [hc]
    exact atStart_remove_single w.chunks_wf hm
  refine ⟨?_, gone_iff.mpr ?_⟩
  · intro k hk'
    rw [hkeys, Finset.mem_erase] at hk'
    rw [hlast, hother k hk'.1]
    exact hi.one k hk'.2
  · intro k hk' x hx
    rw [hkeys, Finset.mem_erase, not_and_or, not_not] at hk'
    by_cases hkk : k = key
    · rw [hkk, hself] at hx
      cases hx
    · rw [hother k hkk] at hx
      exact gone_iff.mp hi.gone k (hk'.resolve_left hkk) x hx

theorem lastAdded_refresh (ops : List (Op D)) (counts : Option (Nat × Nat)) (res : Option (EnumResult D)) (k : Nat) :
    lastAdded (ops ++ [.refresh counts res]) k = lastAdded ops k := by
  rw [lastAdded_snoc, Op.registers, Option.none_or]

theorem InStep.refresh {ops : List (Op D)} {w w' : World (Origin × D)} {counts : Option (Nat × Nat)}
    {res : EnumResult D} (hi : InStep ops w) (hskip : ¬ (counts.isSome ∧ counts = w.reg.loadCounts))
    (hch : ∀ k ∈ changedKeys w.reg.staticMods res.current, k ∉ w.reg.jitKeys)
    (hnew : ∀ e ∈ res.newModules, e.2.start ∉ w.reg.jitKeys)
    (h : Modules.refresh w counts (some res.tagged) = some w') : InStep (ops ++ [.refresh counts (some res)]) w' := by
  obtain ⟨hkeys, hc⟩ := refresh_cases hskip h
  have htouch : ∀ e ∈ refreshEdits w.reg res.tagged, editStart e ∉ w.reg.jitKeys := by
    intro e he
    rcases mem_refreshEdits he with ⟨k, hk, rfl⟩ | ⟨n, hn, rfl⟩ | ⟨k, hk, rfl⟩
    · exact hch k hk
    · obtain ⟨n', hn', rfl⟩ := List.mem_map.mp hn
      exact hnew n' hn'
    · exact hk
  refine ⟨?_, gone_iff.mpr ?_⟩
  · intro k hk
    rw [hkeys] at hk
    rw [lastAdded_refresh, hc, foldl_atStart_ne w.chunks_wf fun e he heq => htouch e he (heq ▸ hk)]
    exact hi.one k hk
  · intro k hk
    rw [hkeys] at hk
    rw [hc]
    exact foldl_atStart_all w.chunks_wf (fun m hm => refreshEdits_static hm) (gone_iff.mp hi.gone k hk)

theorem apply_inStep {ops : List (Op D)} {w w' : World (Origin × D)} {op : Op D} (hi : InStep ops w)
    (hap : Apart w op) (h : op.apply w = some w') : InStep (ops ++ [op]) w' := by
  cases op with
  | add a m => exact hi.add hap h
  | remove key => exact hi.remove (fun _ => rfl) h
  | removeByEhFrame a =>
    simp only [Op.apply, removeJitModuleByEhFrame] at h
    split at h
    · cases h
      exact ⟨fun k hk => by rw [lastAdded_snoc]; exact hi.one k hk, hi.gone⟩
    · exact hi.remove (fun _ => rfl) h
  | refresh counts res =>
    have skip : w' = w → InStep (ops ++ [.refresh counts res]) w' := by
      intro heq
      subst heq
      exact ⟨fun k hk => by rw [lastAdded_refresh]; exact hi.one k hk, hi.gone⟩
    by_cases hs : counts.isSome ∧ counts = w.reg.loadCounts
    · exact skip (refresh_skips hs h)
    cases res with
    | none =>
      simp only [Op.apply, Option.map_none, Modules.refresh, hs, if_false] at h
      exact skip (Option.some.inj h).symm
    | some res =>
      obtain ⟨hch, hnew⟩ := hap.resolve_left hs
      exact hi.refresh hs hch hnew h

/-- A refresh that drops a changed image at a JIT key takes the JIT module instead. -/
theorem changed_breaks {ops : List (Op D)} {w w' : World (Origin × D)} {counts : Option (Nat × Nat)}
    {res : EnumResult D} (hi : InStep ops w) (hskip : ¬ (counts.isSome ∧ counts = w.reg.loadCounts)) {k : Nat}
    (hch : k ∈ changedKeys w.reg.staticMods res.current) (hk : k ∈ w.reg.jitKeys)
    (h : Modules.refresh w counts (some res.tagged) = some w') : ¬ InStep (ops ++ [.refresh counts (some res)]) w' := by
  intro hi'
  obtain ⟨hkeys, hc⟩ := refresh_cases hskip h
  obtain ⟨l₁, l₂, hl, hn⟩ := List.eq_append_cons_of_mem hch
  obtain ⟨m, -, hm⟩ := hi.one k hk
  obtain ⟨m', -, hm'⟩ := hi'.one k (hkeys ▸ hk)
  have hedits : refreshEdits w.reg res.tagged = l₁.map .remove ++ (.remove k :: (l₂.map .remove ++
      res.tagged.newModules.map (fun e => .add e.2) ++
      ((removedKeys w.reg.staticMods res.current).filter (· ∉ w.reg.jitKeys)).map .remove)) := by
    unfold refreshEdits
    rw [show res.tagged.current = res.current from rfl, hl]
    simp
  have hstatic : ∀ x ∈ atStart w'.chunks k, origin x = .static := by
    rw [hc, hedits, List.foldl_append, List.foldl_cons]
    have wf₁ := foldl_editChunks_wf w.chunks_wf (l₁.map (Edit.remove (D := Origin × D)))
    refine foldl_atStart_all (editChunks_wf wf₁ _) ?_ ?_
    · intro m hm
      refine refreshEdits_static (?_ : _ ∈ refreshEdits w.reg res.tagged)
      rw [hedits]
      exact List.mem_append_right _ (List.mem_cons_of_mem _ hm)
    · rw [atStart_remove_single wf₁ ((foldl_atStart_ne w.chunks_wf fun e he => ?_).trans hm)]
      · simp
      · obtain ⟨k', hk', rfl⟩ := List.mem_map.mp he
        intro heq
        subst heq
        exact hn hk'
  have := hstatic (tag .jit m') (by rw [hm']; simp)
  cases this

/-- A refresh that adds a static module at a JIT key leaves two modules there, or the wrong one. -/
theorem new_breaks {ops : List (Op D)} {w w' : World (Origin × D)} {counts : Option (Nat × Nat)} {res : EnumResult D}
    (hskip : ¬ (counts.isSome ∧ counts = w.reg.loadCounts)) {n : Nat × Module D} (hn : n ∈ res.newModules)
    (hk : n.2.start ∈ w.reg.jitKeys) (h : Modules.refresh w counts (some res.tagged) = some w') :
    ¬ InStep (ops ++ [.refresh counts (some res)]) w' := by
  intro hi'
  obtain ⟨hkeys, hc⟩ := refresh_cases hskip h
  obtain ⟨l₁, l₂, hl⟩ := List.append_of_mem hn
  obtain ⟨m', -, hm'⟩ := hi'.one _ (hkeys ▸ hk)
  have hedits : refreshEdits w.reg res.tagged = ((changedKeys w.reg.staticMods res.current).map .remove ++
      l₁.map (fun e => .add (tag .static e.2))) ++
        (.add (tag .static n.2) :: (l₂.map (fun e => .add (tag .static e.2)) ++
      ((removedKeys w.reg.staticMods res.current).filter (· ∉ w.reg.jitKeys)).map .remove)) := by
    unfold refreshEdits EnumResult.tagged
    rw [hl]
    simp [Function.comp_def]
  have hmem : tag .static n.2 ∈ atStart w'.chunks n.2.start := by
    rw [hc, hedits, List.foldl_append, List.foldl_cons]
    have wf₁ := foldl_editChunks_wf w.chunks_wf ((changedKeys w.reg.staticMods res.current).map .remove ++
      l₁.map (fun e => Edit.add (tag .static e.2)))
    refine foldl_atStart_mem (editChunks_wf wf₁ _) ?_ ?_
    · intro e he
      rcases List.mem_append.mp he with he | he
      · obtain ⟨e', -, rfl⟩ := List.mem_map.mp he
        simp
      · obtain ⟨k', hk', rfl⟩ := List.mem_map.mp he
        intro heq
        cases heq
        simp [hk] at hk'
    · exact (atStart_add wf₁ (tag .static n.2)) ▸ Multiset.mem_cons_self _ _
  rw [hm', Multiset.mem_singleton] at hmem
  exact absurd (congrArg origin hmem) (by simp [origin, tag])

theorem apply_breaks {ops : List (Op D)} {w w' : World (Origin × D)} {op : Op D} (hi : InStep ops w)
    (hap : ¬ Apart w op) (h : op.apply w = some w') : ¬ InStep (ops ++ [op]) w' := by
  cases op with
  | add a m =>
    simp only [Apart, not_or, not_forall, not_not] at hap
    obtain ⟨hk, x, hx, hs⟩ := hap
    intro hi'
    obtain ⟨hreg, hc⟩ := addJitModule_spec h
    obtain ⟨m', -, hm'⟩ := hi'.one m.start (by rw [hreg, recordJit_keys]; exact Finset.mem_insert_self _ _)
    simp only [hk, if_false, List.foldl_cons, List.foldl_nil] at hc
    rw [hc] at hm'
    have hcard := congrArg Multiset.card ((atStart_add w.chunks_wf (tag .jit m)).symm.trans hm')
    have hmem : x ∈ atStart w.chunks m.start := hs ▸ mem_published.mp hx
    have hpos := Multiset.card_pos_iff_exists_mem.mpr ⟨x, hmem⟩
    simp only [Multiset.card_cons, Multiset.card_singleton] at hcard
    change Multiset.card (atStart w.chunks m.start) + 1 = 1 at hcard
    omega
  | remove key => exact absurd trivial hap
  | removeByEhFrame a => exact absurd trivial hap
  | refresh counts res =>
    cases res with
    | none => exact absurd trivial hap
    | some res =>
      simp only [Apart, not_or] at hap
      obtain ⟨hskip, hap⟩ := hap
      by_cases hch : ∀ k ∈ changedKeys w.reg.staticMods res.current, k ∉ w.reg.jitKeys
      · have : ∃ n ∈ res.newModules, n.2.start ∈ w.reg.jitKeys := by
          by_contra hno
          push Not at hno
          exact hap ⟨hch, hno⟩
        obtain ⟨n, hn, hk⟩ := this
        exact new_breaks hskip hn hk h
      · push Not at hch
        obtain ⟨k, hk, hj⟩ := hch
        exact changed_breaks hi hskip hk hj h

/-! ## Runs -/

theorem runOps_snoc {ops : List (Op D)} {op : Op D} {w w' : World (Origin × D)} :
    runOps (ops ++ [op]) w = some w' ↔ ∃ v, runOps ops w = some v ∧ op.apply v = some w' := by
  unfold runOps
  rw [List.foldlM_append]
  cases List.foldlM Op.apply w ops with
  | none => simp
  | some v => simp

/-- A prefix of a run that completes, completes. -/
theorem runOps_append {ops₁ ops₂ : List (Op D)} {w w' : World (Origin × D)} (h : runOps (ops₁ ++ ops₂) w = some w') :
    ∃ v, runOps ops₁ w = some v ∧ runOps ops₂ v = some w' := by
  unfold runOps at *
  rw [List.foldlM_append] at h
  exact Option.bind_eq_some_iff.mp h

/-- Every state of a run is in step iff every operation of it keeps static and JIT modules
    apart. -/
theorem in_step_iff (counter : Nat) (ops : List (Op D)) (w : World (Origin × D))
    (h : runOps ops (World.new counter) = some w) :
    (∀ done rest v, ops = done ++ rest → runOps done (World.new counter) = some v → InStep done v) ↔
      ∀ done op rest v, ops = done ++ op :: rest → runOps done (World.new counter) = some v → Apart v op := by
  constructor
  · intro hall done op rest v heq hv
    by_contra hap
    rw [heq, List.append_cons] at h
    obtain ⟨v', hv', -⟩ := runOps_append h
    obtain ⟨v₁, hv₁, hop⟩ := runOps_snoc.mp hv'
    rw [hv] at hv₁
    cases hv₁
    exact apply_breaks (hall done (op :: rest) v heq hv) hap hop (hall _ rest v' (by simp [heq]) hv')
  · intro hap done
    induction done using List.reverseRecOn with
    | nil =>
      intro rest v _ hv
      cases hv
      refine ⟨fun k hk => absurd hk (Finset.notMem_empty k), ?_⟩
      intro x hx
      exact absurd hx (Multiset.notMem_zero x)
    | append_singleton done op ih =>
      intro rest v heq hv
      rw [List.append_assoc] at heq
      obtain ⟨v₁, hv₁, hop⟩ := runOps_snoc.mp hv
      exact apply_inStep (ih _ v₁ heq hv₁) (hap done op rest v₁ heq hv₁) hop

/-- A JIT module at `0x1000`. -/
def jitAt : Module Unit := ⟨⟨0x1000, 0x1100⟩, 0x1000, 0x1000, ()⟩

/-- A JIT module at `0x4000`. -/
def jitBeside : Module Unit := ⟨⟨0x4000, 0x4100⟩, 0x4000, 0x4000, ()⟩

/-- An image at `0x1000` without unwind info, and one at `0x9000` with it. -/
def loadedTwo : EnumResult Unit :=
  ⟨((∅ : AList fun _ : Nat => Nat).insert 0x1000 1).insert 0x9000 2, [(0x9000, ⟨⟨0x9000, 0xa000⟩, 0x9000, 0, ()⟩)]⟩

/-- The image at `0x9000` is gone, and the one at `0x1000` is another, with unwind info. -/
def replacedOne : EnumResult Unit :=
  ⟨(∅ : AList fun _ : Nat => Nat).insert 0x1000 3, [(0x1000, ⟨⟨0x1000, 0x2000⟩, 0x1000, 0, ()⟩)]⟩

/-- A scan, a registration beside what it found, a refresh that drops one image and replaces
    another, and a removal. -/
def besideOps : List (Op Unit) :=
  [.refresh (some (2, 0)) (some loadedTwo), .add 0x5000 jitBeside, .refresh (some (3, 1)) (some replacedOne),
    .removeByEhFrame 0x5000]

/-- The refresh leaves the JIT module published beside the replaced image. -/
theorem in_step_iff_beside : ∃ w : World (Origin × Unit), runOps (besideOps.take 3) (World.new 0) = some w ∧
    InStep (besideOps.take 3) w ∧ atStart w.chunks 0x4000 = {tag .jit jitBeside} ∧ atStart w.chunks 0x9000 = 0 := by
  obtain ⟨w, h⟩ : ∃ w : World (Origin × Unit), runOps besideOps (World.new 0) = some w := ⟨_, rfl⟩
  have hin := (in_step_iff 0 besideOps w h).mpr (by
    intro done op rest v heq hv
    match done with
    | [] =>
      cases heq
      cases hv
      exact Or.inr ⟨by decide, by decide⟩
    | [_] =>
      cases heq
      cases hv
      exact Or.inr (by decide)
    | [_, _] =>
      cases heq
      cases hv
      exact Or.inr ⟨by decide, by decide⟩
    | [_, _, _] =>
      cases heq
      exact trivial
    | _ :: _ :: _ :: _ :: done => simp [besideOps] at heq)
  exact ⟨_, rfl, hin (besideOps.take 3) (besideOps.drop 3) _ rfl rfl, by decide, by decide⟩

/-! ## A registered module lost -/

/-- Another image without unwind info at `0x1000`. -/
def changedOne : EnumResult Unit := ⟨((∅ : AList fun _ : Nat => Nat).insert 0x1000 3).insert 0x9000 2, []⟩

/-- A JIT module is registered at the base of an image that has none; the image changes and
    the refresh drops the JIT module, whose key stays registered. -/
theorem changed_image_drops_jit_module :
    ∃ w : World (Origin × Unit),
      runOps [.refresh none (some loadedTwo), .add 0x5000 jitAt, .refresh none (some changedOne)] (World.new 0) =
        some w ∧
      0x1000 ∈ w.reg.jitKeys ∧ (∀ x ∈ w.published, x.start ≠ 0x1000) ∧
      ¬ InStep [.refresh none (some loadedTwo), .add 0x5000 jitAt, .refresh none (some changedOne)] w := by
  refine ⟨_, rfl, by decide, by decide, ?_⟩
  intro hi
  obtain ⟨m, -, hm⟩ := hi.one 0x1000 (by decide)
  have hmem : tag .jit m ∈ ({tag .jit m} : Multiset (Module (Origin × Unit))) := Multiset.mem_singleton_self _
  rw [← hm] at hmem
  revert hmem
  generalize tag Origin.jit m = x
  revert x
  decide

end FramehopUnwind.Modules
