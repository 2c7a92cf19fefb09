/-
  FramehopUnwind.Modules.Loader — refreshing against the dynamic loader
  (src/modules/mod.rs `refresh`, src/modules/elf.rs `load_counts` and `enumerate`).

  The loader holds images and counts loads and unloads; the counts are what `load_counts`
  reads, when the C library reports them. A refresh reads the counts and skips if they are
  the stored ones; otherwise it scans the images in one step and publishes. It holds the
  registry lock throughout, so JIT operations and other refreshes wait; loads and unloads
  do not, and may fall between any two of its steps.

  `System` carries what is assumed of the system: which images can be loaded, that equal
  key and fingerprint mean the same image, and that JIT code never has a static image's key.
  `seen` is history: the images of the last published scan.

  Proved, for every run:
  - `publish_serves`: a published scan serves exactly the images it saw, through every early
    return of `refresh`.
  - `Inv.counted`: stored counts that are the loader's mean nothing happened since the scan.
  - `refresh_loses_nothing`: after a refresh that no load or unload overlaps, the published
    static modules are those of the loaded images.
-/

import FramehopUnwind.Modules.EhFrameKeys
import FramehopUnwind.Modules.Elf

namespace FramehopUnwind.Modules

open Unwinder Lib.Runs Relation

/-! ## The system -/

structure System where
  G : Gimli
  fingerprintOf : List Nat → Bytes → Nat
  /-- The images that can ever be loaded. -/
  images : Set Image
  isJit : Nat → Bool
  /-- Whether the C library reports the counts. -/
  reports : Bool
  same : ∀ i ∈ images, ∀ j ∈ images, i.key ≠ none → i.key = j.key →
    i.fingerprint fingerprintOf = j.fingerprint fingerprintOf → i = j
  apart : ∀ i ∈ images, ∀ k, i.key = some k → isJit k = false

abbrev StaticModules := EnumResult ModuleUnwindDataInternal

/-- Where the refresh that holds the lock is. -/
inductive Phase where
  | idle
  | scanning (counts : Option (Nat × Nat))
  /-- The scan gave `res`; `images` is history, what it saw. -/
  | publishing (counts : Option (Nat × Nat)) (images : List Image) (res : StaticModules)

structure St where
  loaded : List Image
  adds : Nat
  subs : Nat
  w : World ModuleUnwindDataInternal
  phase : Phase
  seen : List Image

variable (S : System)

/-- With no image there is no entry to read the counts from. -/
def loadCounts (s : St) : Option (Nat × Nat) := if S.reports ∧ s.loaded ≠ [] then some (s.adds, s.subs) else none

/-- A load or an unload. Images loaded together occupy different addresses. -/
inductive LoaderStep : St → St → Prop
  | load (s : St) (i : Image) : i ∈ S.images → (∀ j ∈ s.loaded, j.key = none ∨ j.key ≠ i.key) →
      LoaderStep s { s with loaded := s.loaded ++ [i], adds := s.adds + 1 }
  | unload (s : St) (l r : List Image) (i : Image) : s.loaded = l ++ i :: r →
      LoaderStep s { s with loaded := l ++ r, subs := s.subs + 1 }

/-- A refresh takes the lock and reads the counts. -/
inductive Begin : St → St → Prop
  | skip (s : St) : s.phase = .idle → (loadCounts S s).isSome ∧ loadCounts S s = s.w.reg.loadCounts → Begin s s
  | scan (s : St) : s.phase = .idle → ¬ ((loadCounts S s).isSome ∧ loadCounts S s = s.w.reg.loadCounts) →
      Begin s { s with phase := .scanning (loadCounts S s) }

/-- A JIT operation whose module starts at its key, a key no image has. -/
def JitOp.Proper : JitOp ModuleUnwindDataInternal → Prop
  | .add key _ m => m.start = key ∧ S.isJit key = true
  | .remove _ => True
  | .removeByEhFrame _ => True

inductive OwnStep : St → St → Prop
  | begin (s t : St) : Begin S s t → OwnStep s t
  /-- The scan sees the images at once; in which order a `HashMap` lists them is left open. -/
  | scan (s : St) (counts : Option (Nat × Nat)) (res : StaticModules) : s.phase = .scanning counts →
      (∀ k, res.current.lookup k = (enumerate S.G S.fingerprintOf s.w.reg.staticMods s.loaded).current.lookup k) →
      res.newModules = (enumerate S.G S.fingerprintOf s.w.reg.staticMods s.loaded).newModules →
      OwnStep s { s with phase := .publishing counts s.loaded res }
  | publish (s : St) (counts : Option (Nat × Nat)) (images : List Image) (res : StaticModules)
      (w : World ModuleUnwindDataInternal) : s.phase = .publishing counts images res →
      refresh s.w counts (some res) = some w → OwnStep s { s with w := w, phase := .idle, seen := images }
  | jit (s : St) (op : JitOp ModuleUnwindDataInternal) (w : World ModuleUnwindDataInternal) : s.phase = .idle →
      op.Proper S → op.apply s.w = some w → OwnStep s { s with w := w }

def Step (s t : St) : Prop := LoaderStep S s t ∨ OwnStep S s t

def init (s : St) : Prop :=
  s.loaded = [] ∧ s.adds = 0 ∧ s.subs = 0 ∧ s.phase = .idle ∧ s.seen = [] ∧ ∃ counter, s.w = World.new counter

/-! ## One refresh -/

/-- The modules of the images keyed `k`. -/
def modulesAt (images : List Image) (k : Nat) : Multiset UnwindModule :=
  ((keyed images k).filterMap (Image.module S.G) : List UnwindModule)

/-- The published list serves exactly `images`, as far as static starts go, and
    `static_mods` records them: each entry is an image's, and an image without one has no
    module. -/
structure Serves (w : World ModuleUnwindDataInternal) (images : List Image) : Prop where
  known : ∀ i ∈ images, i ∈ S.images
  distinct : DistinctKeys images
  modules : ∀ k, S.isJit k = false → atStart w.chunks k = modulesAt S images k
  recorded : ∀ k fp, w.reg.staticMods.lookup k = some fp →
    ∃ i ∈ images, i.key = some k ∧ i.fingerprint S.fingerprintOf = fp
  unrecorded : ∀ i ∈ images, ∀ k, i.key = some k → w.reg.staticMods.lookup k = none → i.module S.G = none

/-- What a scan of `images` gives to a registry that knows `known`. -/
structure ScanOf (known : AList fun _ : Nat => Nat) (images : List Image) (res : StaticModules) : Prop where
  current : ∀ k, res.current.lookup k = (keyed images k).head?.map (Image.fingerprint S.fingerprintOf)
  newModules : res.newModules = images.filterMap (Image.newModule S.G S.fingerprintOf known)

theorem modulesAt_nil {images : List Image} {k : Nat} (h : keyed images k = []) : modulesAt S images k = 0 := by
  simp [modulesAt, h]

theorem modulesAt_single {images : List Image} {k : Nat} {i : Image} (h : keyed images k = [i]) :
    modulesAt S images k = ((i.module S.G).toList : List UnwindModule) := by
  unfold modulesAt
  rw [h]
  cases hm : i.module S.G <;> simp [hm]

theorem modulesAt_le_one {images : List Image} (h : DistinctKeys images) (k : Nat) :
    Multiset.card (modulesAt S images k) ≤ 1 := by
  rcases keyed_le_one h k with hk | ⟨i, -, -, hk⟩
  · simp [modulesAt_nil S hk]
  · rw [modulesAt_single S hk]
    cases i.module S.G <;> simp

/-- An image at a key is the only one there. -/
theorem keyed_eq {images : List Image} (h : DistinctKeys images) {i : Image} (hi : i ∈ images) {k : Nat}
    (hk : i.key = some k) : keyed images k = [i] := by
  have hmem : i ∈ keyed images k := List.mem_filter.mpr ⟨hi, by simpa using hk⟩
  rcases keyed_le_one h k with he | ⟨j, -, -, he⟩
  · rw [he] at hmem
    cases hmem
  · rw [he] at hmem ⊢
    rw [List.mem_singleton.mp hmem]

/-- A new module starts at its image's key. -/
theorem newModule_start {known : AList fun _ : Nat => Nat} {i : Image} {n : Nat × UnwindModule}
    (h : i.newModule S.G S.fingerprintOf known = some n) : i.key = some n.2.start := by
  unfold Image.newModule at h
  cases hk : i.key with
  | none => simp [hk] at h
  | some key =>
    simp only [hk] at h
    split at h
    · cases h
    · obtain ⟨spec, hs, rfl⟩ := Option.map_eq_some_iff.mp h
      have hm : i.module S.G = some (buildModule S.G spec) := by simp [Image.module, hk, hs]
      exact hk.symm.trans (Image.module_start S.G hm)

/-- The new modules at a start are those of the images keyed there that are not known. -/
theorem newModules_at (known : AList fun _ : Nat => Nat) (images : List Image) (k : Nat) :
    ((images.filterMap (Image.newModule S.G S.fingerprintOf known)).map Prod.snd).filter (fun m => m.start = k) =
      (keyed images k).filterMap fun i =>
        if known.lookup k = some (i.fingerprint S.fingerprintOf) then none else i.module S.G := by
  induction images with
  | nil => rfl
  | cons i images ih =>
    rw [List.filterMap_cons]
    by_cases hk : i.key = some k
    · have hcons : keyed (i :: images) k = i :: keyed images k := List.filter_cons_of_pos (by simpa using hk)
      rw [hcons, List.filterMap_cons, ← ih]
      by_cases hl : known.lookup k = some (i.fingerprint S.fingerprintOf)
      · have hnone : i.newModule S.G S.fingerprintOf known = none := by simp [Image.newModule, hk, hl]
        simp [hnone, hl]
      · have hm : i.newModule S.G S.fingerprintOf known = (i.rawSpec k).map fun s => (s.key, buildModule S.G s) := by
          simp [Image.newModule, hk, hl]
        have hm' : i.module S.G = (i.rawSpec k).map (buildModule S.G) := by simp [Image.module, hk]
        cases hr : i.rawSpec k with
        | none => simp [hm, hm', hr, hl]
        | some spec =>
          have hstart := newModule_start S (n := (spec.key, buildModule S.G spec)) (by rw [hm, hr]; rfl)
          rw [hk] at hstart
          simp only [hm, hm', hr, hl, Option.map_some, if_false, List.map_cons]
          rw [List.filter_cons_of_pos (by simpa using (Option.some.inj hstart).symm)]
    · have hskip : keyed (i :: images) k = keyed images k := List.filter_cons_of_neg (by simpa using hk)
      rw [hskip, ← ih]
      cases hn : i.newModule S.G S.fingerprintOf known with
      | none => rfl
      | some n =>
        have hstart := newModule_start S hn
        simp only [List.map_cons]
        rw [List.filter_cons_of_neg]
        intro he
        exact hk (by rw [hstart, of_decide_eq_true he])

variable {S}

theorem ScanOf.current_none {known : AList fun _ : Nat => Nat} {images : List Image} {res : StaticModules}
    (h : ScanOf S known images res) {k : Nat} (hk : keyed images k = []) : res.current.lookup k = none := by
  simp [h.current, hk]

theorem ScanOf.current_some {known : AList fun _ : Nat => Nat} {images : List Image} {res : StaticModules}
    (h : ScanOf S known images res) {k : Nat} {i : Image} (hk : keyed images k = [i]) :
    res.current.lookup k = some (i.fingerprint S.fingerprintOf) := by
  simp [h.current, hk]

/-- A start that `static_mods` does not record is served no module. -/
theorem Serves.unrecorded_at {w : World ModuleUnwindDataInternal} {seen : List Image} (hs : Serves S w seen) {k : Nat}
    (hl : w.reg.staticMods.lookup k = none) : modulesAt S seen k = 0 := by
  rcases keyed_le_one hs.distinct k with hk | ⟨i, hi, hik, hk⟩
  · exact modulesAt_nil S hk
  · rw [modulesAt_single S hk, hs.unrecorded i hi k hik hl]
    rfl

/-- The new modules of an enumeration that start at `k`. -/
def addedAt (res : StaticModules) (k : Nat) : List UnwindModule :=
  (res.newModules.map Prod.snd).filter fun m => m.start = k

/-- The modules at a start once the changed ones are dropped and the new ones added. -/
def updatedAt (w : World ModuleUnwindDataInternal) (res : StaticModules) (k : Nat) : Multiset UnwindModule :=
  (if k ∈ changedKeys w.reg.staticMods res.current then 0 else atStart w.chunks k) +
    (addedAt res k : Multiset UnwindModule)

/-- The modules at a static start after the edits of a refresh, if no start has two. -/
theorem refreshEdits_at {w : World ModuleUnwindDataInternal} {res : StaticModules} {k : Nat}
    (h1 : Multiset.card (atStart w.chunks k) ≤ 1) (hj : k ∉ w.reg.jitKeys)
    (h2 : Multiset.card (updatedAt w res k) ≤ 1) :
    atStart ((refreshEdits w.reg res).foldl editChunks w.chunks) k =
      if k ∈ removedKeys w.reg.staticMods res.current then 0 else updatedAt w res k := by
  have hmap : (res.newModules.map fun e => Edit.add e.2) = (res.newModules.map Prod.snd).map Edit.add := by
    simp [List.map_map, Function.comp_def]
  unfold refreshEdits
  rw [List.foldl_append, List.foldl_append, hmap]
  have wf₁ := foldl_editChunks_wf w.chunks_wf ((changedKeys w.reg.staticMods res.current).map .remove)
  have e₁ := foldl_removes w.chunks_wf (changedKeys w.reg.staticMods res.current) h1
  have e₂ := foldl_adds wf₁ k (res.newModules.map Prod.snd)
  rw [e₁] at e₂
  change _ = updatedAt w res k at e₂
  have wf₂ := foldl_editChunks_wf wf₁ ((res.newModules.map Prod.snd).map .add)
  rw [foldl_removes wf₂ _ (by rw [e₂]; exact h2), e₂]
  simp [hj]

section Scan

variable {w : World ModuleUnwindDataInternal} {seen images : List Image} {res : StaticModules} {k : Nat} {n : Image}

theorem ScanOf.addedAt_eq (h : ScanOf S w.reg.staticMods images res) (k : Nat) :
    addedAt res k = (keyed images k).filterMap fun i =>
      if w.reg.staticMods.lookup k = some (i.fingerprint S.fingerprintOf) then none else i.module S.G := by
  rw [addedAt, h.newModules, newModules_at]

/-- At a key with no image any more, nothing changes before the removals. -/
theorem ScanOf.updatedAt_gone (h : ScanOf S w.reg.staticMods images res) (hkey : keyed images k = []) :
    updatedAt w res k = atStart w.chunks k := by
  have hch : k ∉ changedKeys w.reg.staticMods res.current := by
    rw [mem_changedKeys]
    intro h₀
    obtain ⟨_, _, -, hc, -⟩ := h₀
    rw [h.current_none hkey] at hc
    cases hc
  rw [updatedAt, h.addedAt_eq, hkey, List.filterMap_nil, if_neg hch, Multiset.coe_nil, add_zero]

/-- A known image keeps what is at its key. -/
theorem ScanOf.updatedAt_known (h : ScanOf S w.reg.staticMods images res) (hkey : keyed images k = [n])
    (hl : w.reg.staticMods.lookup k = some (n.fingerprint S.fingerprintOf)) :
    updatedAt w res k = atStart w.chunks k := by
  have hch : k ∉ changedKeys w.reg.staticMods res.current := by
    rw [mem_changedKeys]
    intro h₀
    obtain ⟨fp, fp', h1, h2, hne⟩ := h₀
    rw [hl] at h1
    rw [h.current_some hkey] at h2
    cases h1
    cases h2
    exact hne rfl
  rw [updatedAt, h.addedAt_eq, hkey, if_neg hch]
  simp [hl]

/-- A new or a changed image: nothing is left of the old one. -/
theorem ScanOf.updatedAt_new (h : ScanOf S w.reg.staticMods images res) (hs : Serves S w seen) (hk : S.isJit k = false)
    (hkey : keyed images k = [n]) (hl : w.reg.staticMods.lookup k ≠ some (n.fingerprint S.fingerprintOf)) :
    updatedAt w res k = modulesAt S images k := by
  have hnil : (if k ∈ changedKeys w.reg.staticMods res.current then 0 else atStart w.chunks k) = 0 := by
    split
    · rfl
    · rename_i hch
      rw [hs.modules k hk]
      apply hs.unrecorded_at
      cases hl' : w.reg.staticMods.lookup k with
      | none => rfl
      | some fp =>
        refine absurd (mem_changedKeys.mpr ⟨fp, _, hl', h.current_some hkey, ?_⟩) hch
        intro heq
        subst heq
        exact hl hl'
  have hone : addedAt res k = (n.module S.G).toList := by
    rw [h.addedAt_eq, hkey]
    cases hm : n.module S.G <;> simp [hl, hm]
  rw [updatedAt, hnil, hone, zero_add, modulesAt_single S hkey]

/-- After the edits of a refresh, a static start has the module of the image scanned there. -/
theorem ScanOf.modules_at (h : ScanOf S w.reg.staticMods images res) (hs : Serves S w seen)
    (hknown : ∀ i ∈ images, i ∈ S.images) (hd : DistinctKeys images) (hk : S.isJit k = false)
    (hj : k ∉ w.reg.jitKeys) :
    atStart ((refreshEdits w.reg res).foldl editChunks w.chunks) k = modulesAt S images k := by
  have hold := hs.modules k hk
  have h1 : Multiset.card (atStart w.chunks k) ≤ 1 := hold ▸ modulesAt_le_one S hs.distinct k
  rcases keyed_le_one hd k with hkey | ⟨n, hn, hnk, hkey⟩
  · have hup := h.updatedAt_gone hkey
    rw [refreshEdits_at h1 hj (hup ▸ h1), hup, modulesAt_nil S hkey]
    split
    · rfl
    · rename_i hr
      rw [mem_removedKeys, not_and_or, not_not] at hr
      rw [hold, hs.unrecorded_at (hr.resolve_right fun hne => hne (h.current_none hkey))]
  · have hr : k ∉ removedKeys w.reg.staticMods res.current := by
      rw [mem_removedKeys]
      intro h₀
      obtain ⟨-, hc⟩ := h₀
      rw [h.current_some hkey] at hc
      cases hc
    by_cases hl : w.reg.staticMods.lookup k = some (n.fingerprint S.fingerprintOf)
    · -- the image served so far is this one
      obtain ⟨i, hi, hik, hfp⟩ := hs.recorded k _ hl
      have hin : i = n := S.same i (hs.known i hi) n (hknown n hn) (by simp [hik]) (hik.trans hnk.symm) hfp
      subst hin
      have hup := h.updatedAt_known hkey hl
      rw [refreshEdits_at h1 hj (hup ▸ h1), hup, if_neg hr, hold, modulesAt_single S hkey,
        modulesAt_single S (keyed_eq hs.distinct hi hik)]
    · have hup := h.updatedAt_new hs hk hkey hl
      rw [refreshEdits_at h1 hj (hup ▸ modulesAt_le_one S hd k), hup, if_neg hr]

end Scan

/-- A refresh that publishes a scan of `images` serves `images`. -/
theorem publish_serves {w w' : World ModuleUnwindDataInternal} {seen images : List Image} {counts : Option (Nat × Nat)}
    {res : StaticModules} (hs : Serves S w seen) (hknown : ∀ i ∈ images, i ∈ S.images) (hd : DistinctKeys images)
    (hscan : ScanOf S w.reg.staticMods images res) (hjit : ∀ k ∈ w.reg.jitKeys, S.isJit k = true)
    (hskip : ¬ (counts.isSome ∧ counts = w.reg.loadCounts)) (h : refresh w counts (some res) = some w') :
    Serves S w' images := by
  obtain ⟨-, hc⟩ := refresh_cases hskip h
  obtain ⟨-, hreg⟩ := refresh_registry hskip h
  refine ⟨hknown, hd, ?_, ?_, ?_⟩
  · intro k hk
    rw [hc]
    exact hscan.modules_at hs hknown hd hk fun hm => by simp [hjit k hm] at hk
  · intro k fp hl
    rcases hreg with hreg | ⟨hreg, -, hrem, hch⟩
    · rw [hreg] at hl
      rcases keyed_le_one hd k with hkey | ⟨n, hn, hnk, hkey⟩
      · rw [hscan.current_none hkey] at hl
        cases hl
      · rw [hscan.current_some hkey] at hl
        exact ⟨n, hn, hnk, Option.some.inj hl⟩
    · -- nothing was published, so every recorded image is there still
      rw [hreg] at hl
      rcases keyed_le_one hd k with hkey | ⟨n, hn, hnk, hkey⟩
      · have := mem_removedKeys.mpr ⟨by rw [hl]; simp, hscan.current_none hkey⟩
        rw [hrem] at this
        cases this
      · refine ⟨n, hn, hnk, ?_⟩
        by_contra hne
        have := mem_changedKeys.mpr ⟨fp, _, hl, hscan.current_some hkey, hne⟩
        rw [hch] at this
        cases this
  · intro i hi k hik hl
    have hkey := keyed_eq hd hi hik
    rcases hreg with hreg | ⟨hreg, hnew, -, -⟩
    · rw [hreg, hscan.current_some hkey] at hl
      cases hl
    · rw [hreg] at hl
      rw [hscan.newModules] at hnew
      have hat := newModules_at S w.reg.staticMods images k
      rw [hnew, hkey] at hat
      cases hm : i.module S.G with
      | none => rfl
      | some m => simp [hl, hm] at hat

/-! ## JIT operations -/

theorem forgetJitEhFrame_static (reg : Registry) (key : Nat) :
    (forgetJitEhFrame reg key).staticMods = reg.staticMods ∧
      (forgetJitEhFrame reg key).loadCounts = reg.loadCounts := by
  unfold forgetJitEhFrame
  split
  · exact ⟨rfl, rfl⟩
  · simp only
    split <;> exact ⟨rfl, rfl⟩

theorem recordJit_static (reg : Registry) (key a : Nat) :
    (recordJit reg key a).staticMods = reg.staticMods ∧ (recordJit reg key a).loadCounts = reg.loadCounts := by
  have h := forgetJitEhFrame_static { reg with jitKeys := insert key reg.jitKeys } key
  unfold recordJit insertEhFrame
  simp only
  split <;> exact h

/-- An operation changes static starts and the static half of the registry in nothing. -/
structure LeavesStatic (w w' : World ModuleUnwindDataInternal) : Prop where
  modules : ∀ k, S.isJit k = false → atStart w'.chunks k = atStart w.chunks k
  staticMods : w'.reg.staticMods = w.reg.staticMods
  loadCounts : w'.reg.loadCounts = w.reg.loadCounts
  jitKeys : (∀ k ∈ w.reg.jitKeys, S.isJit k = true) → ∀ k ∈ w'.reg.jitKeys, S.isJit k = true

theorem removeJitLocked_static {w w' : World ModuleUnwindDataInternal} {key : Nat}
    (hjit : ∀ k ∈ w.reg.jitKeys, S.isJit k = true) (h : removeJitLocked w key = some w') :
    LeavesStatic (S := S) w w' := by
  rcases removeJitLocked_cases h with ⟨-, rfl⟩ | ⟨hk, hreg, hc⟩
  · exact ⟨fun _ _ => rfl, rfl, rfl, id⟩
  · have hs := forgetJitEhFrame_static { w.reg with jitKeys := w.reg.jitKeys.erase key } key
    refine ⟨?_, by rw [hreg]; exact hs.1, by rw [hreg]; exact hs.2, ?_⟩
    · intro k hkj
      rw [hc]
      refine atStart_ne w.chunks_wf (e := .remove key) ?_
      intro heq
      subst heq
      exact absurd (hjit _ hk) (by rw [show editStart _ = key from rfl] at hkj; simp [hkj])
    · intro _ k hm
      rw [hreg, eraseJit_keys] at hm
      exact hjit k (Finset.mem_of_mem_erase hm)

theorem jitOp_static {w w' : World ModuleUnwindDataInternal} {op : JitOp ModuleUnwindDataInternal} (hp : op.Proper S)
    (hjit : ∀ k ∈ w.reg.jitKeys, S.isJit k = true) (h : op.apply w = some w') : LeavesStatic (S := S) w w' := by
  cases op with
  | add key a m =>
    obtain ⟨hstart, hkey⟩ := hp
    have hreg := (addJitModule_spec h).1
    have hs := recordJit_static w.reg key a
    refine ⟨?_, by rw [hreg]; exact hs.1, by rw [hreg]; exact hs.2, ?_⟩
    · intro k hkj
      refine addJitModule_at_ne h hstart ?_
      intro heq
      subst heq
      rw [hkey] at hkj
      cases hkj
    · intro _ k hm
      rw [hreg, recordJit_keys] at hm
      rcases Finset.mem_insert.mp hm with rfl | hm
      · exact hkey
      · exact hjit k hm
  | remove key => exact removeJitLocked_static hjit h
  | removeByEhFrame a =>
    simp only [JitOp.apply, removeJitModuleByEhFrame] at h
    split at h
    · cases h
      exact ⟨fun _ _ => rfl, rfl, rfl, id⟩
    · exact removeJitLocked_static hjit h

/-! ## The invariant -/

/-- The counts are not ahead of the loader's, and if they are the loader's then `images` are
    what is loaded. -/
def Current (s : St) (counts : Option (Nat × Nat)) (images : List Image) : Prop :=
  ∀ a b, counts = some (a, b) → a ≤ s.adds ∧ b ≤ s.subs ∧ (a = s.adds → b = s.subs → s.loaded = images)

def PhaseInv (s : St) : Prop :=
  match s.phase with
  | .idle => True
  | .scanning counts =>
    ¬ (counts.isSome ∧ counts = s.w.reg.loadCounts) ∧ ∀ a b, counts = some (a, b) → a ≤ s.adds ∧ b ≤ s.subs
  | .publishing counts images res =>
    ¬ (counts.isSome ∧ counts = s.w.reg.loadCounts) ∧ (∀ i ∈ images, i ∈ S.images) ∧ DistinctKeys images ∧
      ScanOf S s.w.reg.staticMods images res ∧ Current s counts images

structure Inv (s : St) : Prop where
  known : ∀ i ∈ s.loaded, i ∈ S.images
  distinct : DistinctKeys s.loaded
  serves : Serves S s.w s.seen
  jitKeys : ∀ k ∈ s.w.reg.jitKeys, S.isJit k = true
  counted : Current s s.w.reg.loadCounts s.seen
  phase : PhaseInv (S := S) s

/-- A load or unload moves a count, so no counts read before it are the loader's any more. -/
theorem Current.loader {s t : St} (h : LoaderStep S s t) {counts : Option (Nat × Nat)} {images : List Image}
    (hc : ∀ a b, counts = some (a, b) → a ≤ s.adds ∧ b ≤ s.subs) : Current t counts images := by
  intro a b he
  obtain ⟨ha, hb⟩ := hc a b he
  cases h with
  | load i _ _ => exact ⟨by simp only; omega, hb, fun h _ => by simp only at h; omega⟩
  | unload l r i _ => exact ⟨ha, by simp only; omega, fun _ h => by simp only at h; omega⟩

theorem Current.le {s : St} {counts : Option (Nat × Nat)} {images : List Image} (h : Current s counts images) :
    ∀ a b, counts = some (a, b) → a ≤ s.adds ∧ b ≤ s.subs :=
  fun a b he => ⟨(h a b he).1, (h a b he).2.1⟩

theorem loader_frame {s t : St} (h : LoaderStep S s t) : t.w = s.w ∧ t.phase = s.phase ∧ t.seen = s.seen := by
  cases h <;> exact ⟨rfl, rfl, rfl⟩

theorem loader_inv {s t : St} (hi : Inv (S := S) s) (h : LoaderStep S s t) : Inv (S := S) t := by
  obtain ⟨hw, hp, hseen⟩ := loader_frame h
  have hloaded : (∀ i ∈ t.loaded, i ∈ S.images) ∧ DistinctKeys t.loaded := by
    cases h with
    | load i hi' hne =>
      refine ⟨?_, List.pairwise_append.mpr ⟨hi.distinct, by simp, ?_⟩⟩
      · intro j hj
        rcases List.mem_append.mp hj with hj | hj
        · exact hi.known j hj
        · rwa [List.mem_singleton.mp hj]
      · intro j hj i' hi''
        rw [List.mem_singleton.mp hi'']
        exact hne j hj
    | unload l r i he =>
      have hsub : (l ++ r).Sublist s.loaded := by
        rw [he]
        exact List.Sublist.append_left (List.sublist_cons_self i r) l
      exact ⟨fun j hj => hi.known j (hsub.subset hj), hi.distinct.sublist hsub⟩
  refine ⟨hloaded.1, hloaded.2, by rw [hw, hseen]; exact hi.serves, by rw [hw]; exact hi.jitKeys,
    by rw [hw]; exact Current.loader h hi.counted.le, ?_⟩
  have hph := hi.phase
  unfold PhaseInv at hph ⊢
  rw [hp, hw]
  split at hph
  · trivial
  · exact ⟨hph.1, fun a b he => (Current.loader h hph.2 : Current _ _ []).le a b he⟩
  · exact ⟨hph.1, hph.2.1, hph.2.2.1, hph.2.2.2.1, Current.loader h hph.2.2.2.2.le⟩

theorem loadCounts_le {s : St} : ∀ a b, loadCounts S s = some (a, b) → a = s.adds ∧ b = s.subs := by
  intro a b h
  unfold loadCounts at h
  split at h
  · cases h
    exact ⟨rfl, rfl⟩
  · cases h

theorem own_inv {s t : St} (hi : Inv (S := S) s) (h : OwnStep S s t) : Inv (S := S) t := by
  cases h with
  | begin _ hb =>
    cases hb with
    | skip hidle _ => exact hi
    | scan hidle hskip =>
      refine ⟨hi.known, hi.distinct, hi.serves, hi.jitKeys, hi.counted, hskip, ?_⟩
      intro a b he
      obtain ⟨rfl, rfl⟩ := loadCounts_le a b he
      exact ⟨Nat.le_refl _, Nat.le_refl _⟩
  | scan counts res hp hcur hnew =>
    have hph := hi.phase
    simp only [PhaseInv, hp] at hph
    refine ⟨hi.known, hi.distinct, hi.serves, hi.jitKeys, hi.counted, hph.1, hi.known, hi.distinct, ⟨?_, ?_⟩,
      fun a b he => ⟨(hph.2 a b he).1, (hph.2 a b he).2, fun _ _ => rfl⟩⟩
    · intro k
      rw [hcur, enumerate_current _ _ _ hi.distinct]
    · rw [hnew, enumerate_newModules]
  | publish counts images res w hp hr =>
    have hph := hi.phase
    simp only [PhaseInv, hp] at hph
    obtain ⟨hskip, hknown, hd, hscan, hcurrent⟩ := hph
    obtain ⟨hkeys, -⟩ := refresh_cases hskip hr
    obtain ⟨hcounts, -⟩ := refresh_registry hskip hr
    refine ⟨hi.known, hi.distinct, publish_serves hi.serves hknown hd hscan hi.jitKeys hskip hr, ?_, ?_, trivial⟩
    · simp only [hkeys]
      exact hi.jitKeys
    · simp only [hcounts]
      exact hcurrent
  | jit op w hp hproper hop =>
    have hs := jitOp_static hproper hi.jitKeys hop
    refine ⟨hi.known, hi.distinct, ⟨hi.serves.known, hi.serves.distinct, ?_, ?_, ?_⟩, hs.jitKeys hi.jitKeys, ?_, ?_⟩
    · intro k hk
      rw [hs.modules k hk]
      exact hi.serves.modules k hk
    · simp only [hs.staticMods]
      exact hi.serves.recorded
    · simp only [hs.staticMods]
      exact hi.serves.unrecorded
    · simp only [hs.loadCounts]
      exact hi.counted
    · simp only [PhaseInv, hp]

theorem loader_run_inv {s : St} (h : Reach init (Step S) s) : Inv (S := S) s := by
  refine h.invariant ?_ ?_
  · intro s h0
    obtain ⟨hl, ha, hb, hp, hseen, counter, hw⟩ := h0
    refine ⟨by simp [hl], by simp [hl, DistinctKeys], ⟨by simp [hseen], by simp [hseen, DistinctKeys], ?_, ?_, ?_⟩,
      ?_, ?_, by simp [PhaseInv, hp]⟩
    · intro k _
      rw [hw, hseen]
      rfl
    · rw [hw]
      intro k fp hl
      cases hl
    · simp [hseen]
    · rw [hw]
      exact fun k hk => absurd hk (Finset.notMem_empty k)
    · rw [hw]
      intro a b he
      cases he
  · intro s t _ hi hs
    rcases hs with hs | hs
    · exact loader_inv hi hs
    · exact own_inv hi hs

/-! ## A refresh that no load or unload overlaps -/

/-- What stays true from a refresh's start on, while nothing is loaded or unloaded. -/
def Undisturbed (s : St) : Prop :=
  match s.phase with
  | .idle => s.loaded = s.seen
  | .scanning _ => True
  | .publishing _ images _ => s.loaded = images

theorem begin_undisturbed {s t : St} (hi : Inv (S := S) s) (h : Begin S s t) : Undisturbed t ∧ t.loaded = s.loaded := by
  cases h with
  | skip hidle hskip =>
    refine ⟨?_, rfl⟩
    simp only [Undisturbed, hidle]
    obtain ⟨⟨a, b⟩, he⟩ := Option.isSome_iff_exists.mp hskip.1
    obtain ⟨ha, hb⟩ := loadCounts_le a b he
    exact (hi.counted a b (hskip.2 ▸ he)).2.2 ha hb
  | scan hidle hskip => exact ⟨trivial, rfl⟩

theorem own_undisturbed {s t : St} (hi : Inv (S := S) s) (hu : Undisturbed s) (h : OwnStep S s t) :
    Undisturbed t ∧ t.loaded = s.loaded := by
  cases h with
  | begin _ hb => exact begin_undisturbed hi hb
  | scan counts res hp _ _ => exact ⟨rfl, rfl⟩
  | publish counts images res w hp _ =>
    simp only [Undisturbed, hp] at hu
    exact ⟨hu, rfl⟩
  | jit op w hp _ _ =>
    simp only [Undisturbed, hp] at hu ⊢
    exact ⟨hu, trivial⟩

theorem quiet_run {s t : St} (hi : Inv (S := S) s) (hu : Undisturbed s) (h : ReflTransGen (OwnStep S) s t) :
    Inv (S := S) t ∧ Undisturbed t ∧ t.loaded = s.loaded := by
  induction h with
  | refl => exact ⟨hi, hu, rfl⟩
  | tail _ hs ih =>
    obtain ⟨hi', hu', hl⟩ := ih
    obtain ⟨hu'', hl'⟩ := own_undisturbed hi' hu' hs
    exact ⟨own_inv hi' hs, hu'', hl'.trans hl⟩

/-- The images keyed `k` have the modules that start at `k`. -/
theorem modulesAt_eq (images : List Image) (k : Nat) :
    (keyed images k).filterMap (Image.module S.G) =
      (images.filterMap (Image.module S.G)).filter fun m => m.start = k := by
  induction images with
  | nil => rfl
  | cons i images ih =>
    unfold keyed at ih ⊢
    cases hm : i.module S.G with
    | none =>
      rw [List.filterMap_cons_none hm, ← ih]
      by_cases hk : i.key = some k
      · rw [List.filter_cons_of_pos (by simpa using hk), List.filterMap_cons_none hm]
      · rw [List.filter_cons_of_neg (by simpa using hk)]
    | some m =>
      have hkey := Image.module_start S.G hm
      rw [List.filterMap_cons_some hm]
      by_cases hk : m.start = k
      · rw [List.filter_cons_of_pos (by simpa [hkey] using hk), List.filterMap_cons_some hm,
          List.filter_cons_of_pos (by simpa using hk), ih]
      · rw [List.filter_cons_of_neg (by simpa [hkey] using hk), List.filter_cons_of_neg (by simpa using hk), ih]

/-- Start by start, and so as a whole, the published static modules are those of the images. -/
theorem Serves.published {w : World ModuleUnwindDataInternal} {images : List Image} (h : Serves S w images) :
    w.published.filter (fun m => S.isJit m.start = false) =
      ((images.filterMap (Image.module S.G) : List UnwindModule) : Multiset UnwindModule) := by
  refine Multiset.ext.mpr ?_
  intro m
  by_cases hj : S.isJit m.start = false
  · have hat := h.modules m.start hj
    unfold modulesAt at hat
    rw [modulesAt_eq, ← Multiset.filter_coe] at hat
    have hcount := congrArg (Multiset.count m) hat
    unfold atStart at hcount
    rw [Multiset.count_filter_of_pos (by rfl), Multiset.count_filter_of_pos (by rfl)] at hcount
    rw [Multiset.count_filter_of_pos (p := fun m : UnwindModule => S.isJit m.start = false) hj]
    exact hcount
  · rw [Multiset.count_filter_of_neg (p := fun m : UnwindModule => S.isJit m.start = false) hj, eq_comm,
      Multiset.count_eq_zero]
    intro hm
    obtain ⟨i, hi, hm⟩ := List.mem_filterMap.mp (Multiset.mem_coe.mp hm)
    exact hj (S.apart i (h.known i hi) _ (Image.module_start S.G hm))

/-- In every run: when a refresh begins, whatever refreshes and JIT operations follow with
    no load or unload, each time the lock is free the published static modules are one per
    loaded image with usable unwind info and nothing else. The refresh ends, unless the
    generation counter runs out. -/
theorem refresh_loses_nothing {s s₁ : St} (h : Reach init (Step S) s) (hb : Begin S s s₁) :
    (∀ s₂, ReflTransGen (OwnStep S) s₁ s₂ → s₂.phase = .idle →
      s₂.loaded = s.loaded ∧ s₂.w.published.filter (fun m => S.isJit m.start = false) =
        ((s.loaded.filterMap (Image.module S.G) : List UnwindModule) : Multiset UnwindModule)) ∧
    ((∃ s₂, ReflTransGen (OwnStep S) s₁ s₂ ∧ s₂.phase = .idle) ∨
      2 ^ 64 ≤ s.w.counter + 1 +
        (refreshEdits s.w.reg (enumerate S.G S.fingerprintOf s.w.reg.staticMods s.loaded)).length) := by
  have hi := loader_run_inv h
  refine ⟨?_, ?_⟩
  · intro s₂ hq hidle
    obtain ⟨hu, hl⟩ := begin_undisturbed hi hb
    obtain ⟨hi₂, hu₂, hl₂⟩ := quiet_run (own_inv hi (.begin s s₁ hb)) hu hq
    simp only [Undisturbed, hidle] at hu₂
    refine ⟨hl₂.trans hl, ?_⟩
    rw [hi₂.serves.published, ← hu₂, hl₂, hl]
  · cases hb with
    | skip hidle _ => exact Or.inl ⟨s, .refl, hidle⟩
    | scan hidle hskip =>
      cases hr : refresh s.w (loadCounts S s) (some (enumerate S.G S.fingerprintOf s.w.reg.staticMods s.loaded)) with
      | some w =>
        have hscan := OwnStep.scan (S := S) { s with phase := .scanning (loadCounts S s) } _ _ rfl (fun _ => rfl) rfl
        exact Or.inl ⟨_, (ReflTransGen.single hscan).tail (.publish _ _ _ _ w rfl hr), rfl⟩
      | none =>
        right
        unfold refresh at hr
        simp only [hskip, if_false] at hr
        split at hr
        · cases hr
        · have := withWriter_none (Option.map_eq_none_iff.mp hr)
          exact this

/-- An image of one segment at `0x10000` with an eh_frame_hdr that points 64 bytes past its field. -/
def smallImage : Image where
  bias := 0x10000
  phdrs := [⟨ptLoad, 5, 0, 0x200⟩, ⟨ptGnuEhFrame, 4, 0x100, 8⟩]
  name := []
  memory a := if a = 0x10100 then 1 else if a = 0x10101 then 0x1b else if a = 0x10104 then 0x40 else 0

/-- A system where only that image is ever loaded. -/
def smallSystem : System where
  G := ⟨fun _ _ _ => [], fun _ _ _ _ _ _ => rfl, fun _ _ _ _ => none, fun _ _ _ _ _ => none, fun _ _ _ => none⟩
  fingerprintOf parts _ := parts.sum
  images := {smallImage}
  isJit k := k = 0x90000
  reports := true
  same i hi j hj _ _ _ := by rw [Set.mem_singleton_iff.mp hi, Set.mem_singleton_iff.mp hj]
  apart i hi k hk := by
    have hkey : smallImage.key = some 0x10000 := by decide
    rw [Set.mem_singleton_iff.mp hi, hkey] at hk
    cases hk
    rfl

theorem refresh_loses_nothing_one :
    ∃ s s₁ s₂ : St, Reach init (Step smallSystem) s ∧ Begin smallSystem s s₁ ∧
      ReflTransGen (OwnStep smallSystem) s₁ s₂ ∧ s₂.phase = .idle ∧ (smallImage.module smallSystem.G).isSome ∧
      s₂.w.published.filter (fun m => smallSystem.isJit m.start = false) =
        ((smallImage.module smallSystem.G).toList : Multiset UnwindModule) := by
  let s₀ : St := ⟨[], 0, 0, World.new 0, .idle, []⟩
  let s : St := ⟨[smallImage], 1, 0, World.new 0, .idle, []⟩
  have h : Reach init (Step smallSystem) s :=
    (Reach.start (s := s₀) ⟨rfl, rfl, rfl, rfl, rfl, 0, rfl⟩).tail
      (Or.inl (.load s₀ smallImage (Set.mem_singleton _) fun j hj => by cases hj))
  have hb : Begin smallSystem s _ := .scan s rfl (by rintro ⟨-, he⟩; cases he)
  obtain ⟨hserves, hends⟩ := refresh_loses_nothing h hb
  obtain ⟨s₂, hq, hidle⟩ := hends.resolve_right (by decide)
  refine ⟨s, _, s₂, h, hb, hq, hidle, by decide, ?_⟩
  rw [(hserves s₂ hq hidle).2]
  cases hm : smallImage.module smallSystem.G <;> simp [s, hm]

end FramehopUnwind.Modules
