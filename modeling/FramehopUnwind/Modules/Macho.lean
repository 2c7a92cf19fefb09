/-
  FramehopUnwind.Modules.Macho — following dyld's images (src/modules/macho.rs, and the
  callbacks' side of src/modules/mod.rs).

  `init_callbacks` takes four steps: begin a batch, register the add callback, which dyld at
  once calls for every loaded image, register the remove callback, end the batch. Other
  threads load and unload images before, between and after them; dyld maps an image where no
  loaded image is, and calls the callbacks registered at that time once for each event, under
  its lock. A callback holds the registry lock throughout, so an event is one step.

  An image is its load commands and its slide. What framehop makes of its sections is a
  parameter (`data`); the module's name is for debugging and left out. `batching` and
  `pending`, which the registry has on macOS only, stand beside it.

  Proved:
  - `MacInv.step`: what one event keeps.
  - `published_follows_dyld`: in a run where no image with unwind info is unloaded between the
    two registrations, and where the address the remove callback reports is the unloaded image's
    own, the published modules are those of the loaded images once the batch has ended.
  - `unload_between_registrations`: an image unloaded between them is published for good.
-/

import FramehopUnwind.Lib.Runs
import FramehopUnwind.Lib.Word
import FramehopUnwind.Modules.Registry

namespace FramehopUnwind.Modules.Macho

open Unwinder Lib.Word Lib.Runs

/-! ## Images -/

/-- A fixed 16-byte name field. -/
abbrev Name := List UInt8

/-- `name_eq`: the field is the name, padded with a NUL unless it is full. -/
def nameEq (field name : Name) : Bool :=
  name.length ≤ 16 && field.take name.length == name && (name.length == 16 || field[name.length]? == some 0)

/-- `__TEXT` -/
def textName : Name := [0x5f, 0x5f, 0x54, 0x45, 0x58, 0x54]

/-- `__unwind_info` -/
def unwindInfoName : Name := [0x5f, 0x5f, 0x75, 0x6e, 0x77, 0x69, 0x6e, 0x64, 0x5f, 0x69, 0x6e, 0x66, 0x6f]

/-- `__eh_frame` -/
def ehFrameName : Name := [0x5f, 0x5f, 0x65, 0x68, 0x5f, 0x66, 0x72, 0x61, 0x6d, 0x65]

structure Section64 where
  sectname : Name
  addr : Nat
  size : Nat
  deriving DecidableEq, Repr

structure Segment where
  segname : Name
  vmaddr : Nat
  vmsize : Nat
  sections : List Section64
  deriving DecidableEq, Repr

inductive LoadCommand where
  | segment64 (s : Segment)
  | other (cmd : Nat)
  deriving DecidableEq, Repr

structure Image where
  commands : List LoadCommand
  slide : Nat
  deriving DecidableEq, Repr

def Image.segments (i : Image) : List Segment :=
  i.commands.filterMap fun
    | .segment64 s => some s
    | .other _ => none

/-- The `__TEXT` segments, in the order of their commands. -/
def Image.texts (i : Image) : List Segment := i.segments.filter fun s => nameEq s.segname textName

/-- `image_key`: the first `__TEXT` decides. -/
def imageKey (i : Image) : Option Nat := i.texts.head?.map fun s => wrappingAdd s.vmaddr i.slide

def rotateLeft32 (x : Nat) : Nat := x * 2 ^ 32 % 2 ^ 64 + x / 2 ^ 32

/-- One of the sections framehop unwinds by. -/
def Image.hasUnwindInfo (i : Image) : Bool :=
  i.segments.any fun s => s.sections.any fun sec =>
    nameEq sec.sectname unwindInfoName || nameEq sec.sectname ehFrameName

variable {D : Type} (data : Image → D)

/-- `build_image`: the last `__TEXT` decides. -/
def buildImage (i : Image) : Option (Nat × Nat × Option (Module D)) :=
  i.texts.getLast?.map fun text =>
    let baseAvma := wrappingAdd text.vmaddr i.slide
    let fp := text.vmaddr ^^^ rotateLeft32 text.vmsize
    (baseAvma, fp,
      if i.hasUnwindInfo then
        some ⟨⟨baseAvma, wrappingAdd baseAvma text.vmsize⟩, baseAvma, text.vmaddr, data i⟩
      else none)

/-! ## The callbacks -/

/-- The steps `init_callbacks` has taken. -/
inductive Phase where
  | start
  | begun
  | adds
  | both
  | ended
  deriving DecidableEq, Repr

/-- The add callback is registered. -/
def Phase.addsRegistered : Phase → Bool
  | .adds | .both | .ended => true
  | .start | .begun => false

/-- The remove callback is registered. -/
def Phase.removesRegistered : Phase → Bool
  | .both | .ended => true
  | .start | .begun | .adds => false

structure Mac (D : Type) where
  w : World D
  batching : Bool
  pending : List (Nat × Nat × Module D)
  loaded : List Image
  phase : Phase

def Mac.new (counter : Nat) : Mac D := ⟨World.new counter, false, [], [], .start⟩

def macosBeginBatch (s : Mac D) : Mac D := { s with batching := true }

/-- `static_mods.insert`, for each batched image. -/
def insertPending (mods : AList fun _ : Nat => Nat) (pending : List (Nat × Nat × Module D)) :
    AList fun _ : Nat => Nat :=
  pending.foldl (fun mods e => mods.insert e.1 e.2.1) mods

def macosEndBatch (s : Mac D) : Option (Mac D) :=
  let pending := s.pending
  let s := { s with batching := false, pending := [] }
  if pending = [] then some s
  else
    let reg := { s.w.reg with staticMods := insertPending s.w.reg.staticMods pending }
    (withWriter (pending.map fun e => .add e.2.2) { s.w with reg := reg }).map fun w => { s with w := w }

def macosAddImage (s : Mac D) (key fp : Nat) (m : Module D) : Option (Mac D) :=
  if s.batching then some { s with pending := s.pending ++ [(key, fp, m)] }
  else
    let edits := if s.w.reg.staticMods.lookup key ≠ none then [.remove key, .add m] else [.add m]
    (withWriter edits s.w).map fun w =>
      { s with w := { w with reg := { w.reg with staticMods := w.reg.staticMods.insert key fp } } }

def macosRemoveImage (s : Mac D) (key : Nat) : Option (Mac D) :=
  let s := if s.batching then { s with pending := s.pending.filter fun e => e.1 ≠ key } else s
  if s.w.reg.staticMods.lookup key = none then some s
  else
    let s := { s with w := { s.w with reg := { s.w.reg with staticMods := s.w.reg.staticMods.erase key } } }
    if key ∈ s.w.reg.jitKeys then some s
    else (withWriter [.remove key] s.w).map fun w => { s with w := w }

def onAddImage (s : Mac D) (i : Image) : Option (Mac D) :=
  match buildImage data i with
  | some (key, fp, some m) => macosAddImage s key fp m
  | _ => some s

def onRemoveImage (s : Mac D) (i : Image) : Option (Mac D) :=
  match imageKey i with
  | some key => macosRemoveImage s key
  | none => some s

/-! ## Events -/

/-- Where the image is, by its `__TEXT`. -/
def Image.key (i : Image) : Option Nat := i.texts.getLast?.map fun s => wrappingAdd s.vmaddr i.slide

inductive MacEvent where
  | beginBatch
  | registerAdd
  | registerRemove
  | endBatch
  | load (i : Image)
  | unload (i : Image)

/-- `none` for an event that cannot happen: a step of `init_callbacks` out of its turn, an image
    mapped where another one is, an unload of what is not loaded. -/
def MacEvent.run (s : Mac D) : MacEvent → Option (Mac D)
  | .beginBatch => if s.phase = .start then some { macosBeginBatch s with phase := .begun } else none
  | .registerAdd =>
    if s.phase = .begun then (s.loaded.foldlM (onAddImage data) s).map fun s => { s with phase := .adds } else none
  | .registerRemove => if s.phase = .adds then some { s with phase := .both } else none
  | .endBatch => if s.phase = .both then (macosEndBatch s).map fun s => { s with phase := .ended } else none
  | .load i =>
    if i.key = none ∨ ∀ j ∈ s.loaded, j.key ≠ i.key then
      (if s.phase.addsRegistered then onAddImage data s i else some s).map fun s => { s with loaded := s.loaded ++ [i] }
    else none
  | .unload i =>
    if i ∈ s.loaded then
      (if s.phase.removesRegistered then onRemoveImage s i else some s).map fun s =>
        { s with loaded := s.loaded.erase i }
    else none

/-- The modules of the loaded images that have unwind info. -/
def Image.module (i : Image) : Option (Module D) := (buildImage data i).bind fun r => r.2.2

/-- The image's first `__TEXT`, which the remove callback goes by, is at the address of just those
    loaded images with unwind info that its last one is at: the image itself, if it has any. -/
def TakesOwn (s : Mac D) (i : Image) : Prop :=
  ∀ j ∈ s.loaded, j.module data ≠ none → (imageKey i = j.key ↔ i.key = j.key)

/-- An image with unwind info is not unloaded between the two registrations, and an unload that is
    reported is reported as the image's own. -/
def MacEvent.Meets (s : Mac D) : MacEvent → Prop
  | .unload i => (s.phase = .adds → i.module data = none) ∧ (s.phase.removesRegistered = true → TakesOwn data s i)
  | _ => True

def MacRun (s s' : Mac D) : Prop := ∃ e : MacEvent, e.Meets data s ∧ e.run data s = some s'

def Start (s : Mac D) : Prop := ∃ counter, s = Mac.new counter

/-- The published modules are those of the loaded images, one for each that has unwind info. -/
def Follows (s : Mac D) : Prop :=
  s.w.published = ((s.loaded.filterMap (Image.module data) : List (Module D)) : Multiset (Module D))

/-! ## What publishing does to the modules -/

theorem adds_published {chunks : Chunks D} (wf : WF chunks) (ms : List (Module D)) :
    (((ms.map .add).foldl editChunks chunks).flatten : Multiset (Module D)) = ms + chunks.flatten := by
  induction ms generalizing chunks with
  | nil => simp
  | cons m ms ih =>
    have hadd := editChunks_modules wf (.add m)
    simp only at hadd
    rw [List.map_cons, List.foldl_cons, ih (editChunks_wf wf _), hadd, ← Multiset.cons_coe, Multiset.cons_add,
      Multiset.add_cons]

theorem remove_published {chunks : Chunks D} (wf : WF chunks) {k : Nat} {m : Module D} {rest : Multiset (Module D)}
    (h : (chunks.flatten : Multiset (Module D)) = m ::ₘ rest) (hm : m.start = k) (hrest : ∀ x ∈ rest, x.start ≠ k) :
    ((editChunks chunks (.remove k)).flatten : Multiset (Module D)) = rest := by
  have hmem : ∀ x, x ∈ chunks.flatten ↔ x = m ∨ x ∈ rest := by
    intro x
    rw [← Multiset.mem_coe, h, Multiset.mem_cons]
  rcases editChunks_modules wf (.remove k) with ⟨hnone, -⟩ | ⟨m', hm', he⟩
  · exact absurd hm (hnone m ((hmem m).mpr (Or.inl rfl)))
  · have hin : m' ∈ chunks.flatten := by
      rw [← Multiset.mem_coe, he]
      exact Multiset.mem_cons_self _ _
    obtain rfl : m' = m := ((hmem m').mp hin).resolve_right fun hr => hrest m' hr hm'
    exact Multiset.cons_inj_right m' |>.mp (he.symm.trans h)

/-! ## The images' entries -/

/-- What the add callback records for an image. -/
def Image.entry (i : Image) : Option (Nat × Nat × Module D) :=
  match buildImage data i with
  | some (key, fp, some m) => some (key, fp, m)
  | _ => none

def entries (images : List Image) : List (Nat × Nat × Module D) := images.filterMap (Image.entry data)

variable {data}

theorem onAddImage_entry (s : Mac D) (i : Image) :
    onAddImage data s i = match i.entry data with
      | some (key, fp, m) => macosAddImage s key fp m
      | none => some s := by
  unfold onAddImage Image.entry
  rcases buildImage data i with _ | ⟨key, fp, _ | m⟩ <;> rfl

theorem Image.module_entry (i : Image) : i.module data = (i.entry data).map fun e => e.2.2 := by
  unfold Image.module Image.entry
  rcases buildImage data i with _ | ⟨key, fp, _ | m⟩ <;> rfl

theorem Image.entry_key {i : Image} {e : Nat × Nat × Module D} (h : i.entry data = some e) :
    i.key = some e.1 ∧ e.2.2.start = e.1 := by
  unfold Image.entry buildImage at h
  unfold Image.key
  cases ht : i.texts.getLast? with
  | none =>
    rw [ht] at h
    cases h
  | some text =>
    rw [ht] at h
    simp only [Option.map_some] at h
    split at h
    · rename_i heq
      split at heq
      · cases heq
        cases h
        exact ⟨rfl, rfl⟩
      · cases heq
    · cases h

theorem modules_entries (images : List Image) :
    images.filterMap (Image.module data) = (entries data images).map fun e => e.2.2 := by
  unfold entries
  rw [List.map_filterMap]
  refine List.filterMap_congr ?_
  intro i _
  exact i.module_entry

/-- An image apart from the others. -/
theorem entries_erase {images : List Image} {i : Image} (hi : i ∈ images) :
    (entries data images).Perm ((i.entry data).toList ++ entries data (images.erase i)) := by
  refine ((List.perm_cons_erase hi).filterMap _).trans (List.Perm.of_eq ?_)
  rw [List.filterMap_cons]
  cases i.entry data <;> rfl

/-- No other image is where a loaded image is. -/
theorem erase_entry_key {images : List Image} (hd : (images.filterMap Image.key).Nodup) {i : Image} (hi : i ∈ images)
    {e : Nat × Nat × Module D} (he : e ∈ entries data (images.erase i)) : i.key ≠ some e.1 := by
  intro hk
  have hperm := (List.perm_cons_erase hi).filterMap Image.key
  rw [List.filterMap_cons, hk] at hperm
  have hnot := (List.nodup_cons.mp (hperm.nodup_iff.mp hd)).1
  obtain ⟨j, hj, hej⟩ := List.mem_filterMap.mp he
  exact hnot (List.mem_filterMap.mpr ⟨j, hj, (Image.entry_key hej).1⟩)

/-! ## The invariant -/

/-- Nothing is published or recorded yet. -/
def Unpublished (w : World D) : Prop := w.published = 0 ∧ ∀ k, w.reg.staticMods.lookup k = none

variable (data)

/-- What each step of `init_callbacks` leaves. -/
def Mac.InPhase (s : Mac D) : Prop :=
  match s.phase with
  | .start => s.batching = false ∧ s.pending = [] ∧ Unpublished s.w
  | .begun => s.batching = true ∧ s.pending = [] ∧ Unpublished s.w
  | .adds | .both => s.batching = true ∧ s.pending.Perm (entries data s.loaded) ∧ Unpublished s.w
  | .ended => s.batching = false ∧ s.w.published =
      (((entries data s.loaded).map fun e => e.2.2 : List (Module D)) : Multiset (Module D)) ∧
      ∀ k, s.w.reg.staticMods.lookup k ≠ none ↔ ∃ e ∈ entries data s.loaded, e.1 = k

/-- The modules of the images are published, and their keys recorded. -/
def Published (w : World D) (images : List Image) : Prop :=
  w.published = (((entries data images).map fun e => e.2.2 : List (Module D)) : Multiset (Module D)) ∧
    ∀ k, w.reg.staticMods.lookup k ≠ none ↔ ∃ e ∈ entries data images, e.1 = k

structure MacInv (s : Mac D) : Prop where
  distinct : (s.loaded.filterMap Image.key).Nodup
  jit : s.w.reg.jitKeys = ∅
  phase : s.InPhase data

variable {data}

theorem Published.perm {w : World D} {images images' : List Image} (h : Published data w images)
    (hperm : (entries data images).Perm (entries data images')) : Published data w images' := by
  refine ⟨h.1.trans (Multiset.coe_eq_coe.mpr (hperm.map _)), ?_⟩
  intro k
  rw [h.2 k]
  exact exists_congr fun e => and_congr_left fun _ => hperm.mem_iff

theorem MacInv.start (counter : Nat) : MacInv data (Mac.new counter : Mac D) := by
  refine ⟨List.nodup_nil, rfl, rfl, rfl, rfl, ?_⟩
  intro k
  rfl

/-- A batched image waits. -/
theorem onAddImage_batching {s : Mac D} (hb : s.batching = true) (i : Image) :
    onAddImage data s i = some { s with pending := s.pending ++ (i.entry data).toList } := by
  rw [onAddImage_entry]
  cases i.entry data with
  | none => simp
  | some e => simp [macosAddImage, hb]

/-- The replay of the loaded images. -/
theorem replay_batching {s : Mac D} (hb : s.batching = true) (images : List Image) :
    images.foldlM (onAddImage data) s = some { s with pending := s.pending ++ entries data images } := by
  induction images generalizing s with
  | nil => simp [entries]
  | cons i images ih =>
    rw [List.foldlM_cons, onAddImage_batching hb]
    simp only [Option.bind_eq_bind, Option.bind_some]
    rw [ih (s := { s with pending := s.pending ++ (i.entry data).toList }) hb]
    simp only [entries, List.filterMap_cons, List.append_assoc]
    cases i.entry data <;> rfl

theorem lookup_insertPending (mods : AList fun _ : Nat => Nat) (pending : List (Nat × Nat × Module D)) (k : Nat) :
    (insertPending mods pending).lookup k ≠ none ↔ mods.lookup k ≠ none ∨ ∃ e ∈ pending, e.1 = k := by
  unfold insertPending
  induction pending generalizing mods with
  | nil => simp
  | cons e pending ih =>
    rw [List.foldl_cons, ih]
    by_cases hk : e.1 = k
    · subst hk
      simp [AList.lookup_insert]
    · rw [AList.lookup_insert_ne (Ne.symm hk)]
      simp [hk]

/-- The end of the batch publishes what is pending. -/
theorem MacInv.endBatch {s t : Mac D} (hi : MacInv data s) (hp : s.phase = .both) (h : macosEndBatch s = some t) :
    MacInv data { t with phase := .ended } := by
  have hphase := hi.phase
  unfold Mac.InPhase at hphase
  rw [hp] at hphase
  obtain ⟨-, hpend, hpub, hmods⟩ := hphase
  unfold macosEndBatch at h
  simp only at h
  split at h
  · rename_i hnil
    cases h
    rw [hnil, List.nil_perm] at hpend
    refine ⟨hi.distinct, hi.jit, rfl, ?_, ?_⟩
    · simp only [hpend]
      exact hpub
    · intro k
      simp only [hpend]
      simp [hmods k]
  · obtain ⟨w, hw, rfl⟩ := Option.map_eq_some_iff.mp h
    obtain ⟨hreg, hc⟩ := withWriter_spec hw
    refine ⟨hi.distinct, by rw [hreg]; exact hi.jit, rfl, ?_, ?_⟩
    · have hadds := adds_published s.w.chunks_wf (s.pending.map fun e => e.2.2)
      rw [List.map_map] at hadds
      have hzero : (s.w.chunks.flatten : Multiset (Module D)) = 0 := hpub
      show (w.chunks.flatten : Multiset (Module D)) = _
      rw [hc]
      refine (Eq.trans hadds ?_)
      rw [hzero, add_zero]
      exact Multiset.coe_eq_coe.mpr (hpend.map _)
    · intro k
      simp only [hreg]
      rw [lookup_insertPending]
      simp only [hmods k, ne_eq, not_true_eq_false, false_or]
      exact ⟨fun ⟨e, he, hk⟩ => ⟨e, hpend.mem_iff.mp he, hk⟩, fun ⟨e, he, hk⟩ => ⟨e, hpend.mem_iff.mpr he, hk⟩⟩

theorem entries_append (images : List Image) (i : Image) :
    entries data (images ++ [i]) = entries data images ++ (i.entry data).toList := by
  unfold entries
  rw [List.filterMap_append, List.filterMap_cons, List.filterMap_nil]
  cases i.entry data <;> rfl

/-- An image that is loaded where none is has no module there yet. -/
theorem fresh_entry {images : List Image} {i : Image} (hfresh : i.key = none ∨ ∀ j ∈ images, j.key ≠ i.key)
    {e e' : Nat × Nat × Module D} (he : i.entry data = some e) (he' : e' ∈ entries data images) : e'.1 ≠ e.1 := by
  have hk := (Image.entry_key he).1
  obtain ⟨j, hj, hej⟩ := List.mem_filterMap.mp he'
  have hjk := (Image.entry_key hej).1
  intro heq
  rcases hfresh with hnone | hne
  · rw [hnone] at hk
    cases hk
  · exact hne j hj (by rw [hjk, hk, heq])

/-- After the batch, an add publishes its module at once. -/
theorem add_ended {s t : Mac D} (hb : s.batching = false) (hserves : Published data s.w s.loaded) {i : Image}
    (hfresh : i.key = none ∨ ∀ j ∈ s.loaded, j.key ≠ i.key) (h : onAddImage data s i = some t) :
    t.loaded = s.loaded ∧ t.phase = s.phase ∧ t.batching = false ∧ t.w.reg.jitKeys = s.w.reg.jitKeys ∧
      Published data t.w (s.loaded ++ [i]) := by
  obtain ⟨hpub, hmods⟩ := hserves
  rw [onAddImage_entry] at h
  unfold Published
  rw [entries_append]
  cases he : i.entry data with
  | none =>
    rw [he] at h
    cases h
    rw [Option.toList_none, List.append_nil]
    exact ⟨rfl, rfl, hb, rfl, hpub, hmods⟩
  | some e =>
    obtain ⟨key, fp, m⟩ := e
    have hnew : s.w.reg.staticMods.lookup key = none := by
      by_contra hne
      obtain ⟨e', he', hk⟩ := (hmods key).mp hne
      exact fresh_entry hfresh he he' hk
    rw [he] at h
    simp only [macosAddImage, hb, hnew, ne_eq, not_true_eq_false, if_false, Bool.false_eq_true] at h
    obtain ⟨w, hw, rfl⟩ := Option.map_eq_some_iff.mp h
    obtain ⟨hreg, hc⟩ := withWriter_spec hw
    refine ⟨rfl, rfl, rfl, by simp only [hreg], ?_, ?_⟩
    · have hadd := adds_published s.w.chunks_wf [m]
      rw [List.map_cons, List.map_nil] at hadd
      show (w.chunks.flatten : Multiset (Module D)) = _
      rw [hc, hadd, show (s.w.chunks.flatten : Multiset (Module D)) = _ from hpub, Option.toList_some, List.map_append,
        add_comm, Multiset.coe_add]
      rfl
    · intro k
      simp only [hreg, Option.toList_some, List.mem_append, List.mem_singleton, or_and_right, exists_or, exists_eq_left]
      by_cases hk : key = k
      · subst hk
        simp [AList.lookup_insert]
      · rw [AList.lookup_insert_ne (Ne.symm hk), hmods k]
        simp [hk]

theorem MacInv.load {s t : Mac D} (hi : MacInv data s) {i : Image}
    (hfresh : i.key = none ∨ ∀ j ∈ s.loaded, j.key ≠ i.key)
    (h : (if s.phase.addsRegistered then onAddImage data s i else some s) = some t) :
    MacInv data { t with loaded := t.loaded ++ [i] } := by
  have hdistinct : ((s.loaded ++ [i]).filterMap Image.key).Nodup := by
    rw [List.filterMap_append, List.filterMap_cons, List.filterMap_nil]
    cases hk : i.key with
    | none => simpa using hi.distinct
    | some k =>
      refine List.nodup_append.mpr ⟨hi.distinct, List.nodup_singleton _, ?_⟩
      intro a ha b hb
      obtain ⟨j, hj, hjk⟩ := List.mem_filterMap.mp ha
      rw [List.mem_singleton.mp hb]
      intro heq
      rcases hfresh with hnone | hne
      · rw [hnone] at hk
        cases hk
      · exact hne j hj (by rw [hjk, hk, heq])
  have hphase := hi.phase
  unfold Mac.InPhase at hphase
  cases hp : s.phase with
  | start | begun =>
    simp only [hp, Phase.addsRegistered, if_false, Bool.false_eq_true] at h hphase
    cases h
    refine ⟨hdistinct, hi.jit, ?_⟩
    unfold Mac.InPhase
    rw [hp]
    exact hphase
  | adds | both =>
    simp only [hp, Phase.addsRegistered, if_true] at h hphase
    rw [onAddImage_batching hphase.1] at h
    cases h
    refine ⟨hdistinct, hi.jit, ?_⟩
    unfold Mac.InPhase
    simp only [hp, entries_append]
    exact ⟨hphase.1, hphase.2.1.append_right _, hphase.2.2⟩
  | ended =>
    simp only [hp, Phase.addsRegistered, if_true] at h hphase
    obtain ⟨hl, hph, hb', hjit, hserves⟩ := add_ended hphase.1 hphase.2 hfresh h
    refine ⟨by simp only [hl]; exact hdistinct, by simp only [hjit]; exact hi.jit, ?_⟩
    unfold Mac.InPhase
    simp only [hph, hp, hl]
    exact ⟨hb', hserves⟩

/-- An image without a key, or without unwind info, left nothing behind. -/
theorem entries_erase_none {images : List Image} {i : Image} (hi : i ∈ images) (he : i.entry data = none) :
    (entries data images).Perm (entries data (images.erase i)) := by
  have h : (entries data images).Perm ((i.entry data).toList ++ entries data (images.erase i)) := entries_erase hi
  rw [he] at h
  exact h

/-- `TakesOwn`, of what the callbacks recorded. -/
theorem TakesOwn.entry {s : Mac D} {i : Image} (h : TakesOwn data s i) {e : Nat × Nat × Module D}
    (he : e ∈ entries data s.loaded) : imageKey i = some e.1 ↔ i.key = some e.1 := by
  obtain ⟨j, hj, hej⟩ := List.mem_filterMap.mp he
  rw [← (Image.entry_key hej).1]
  exact h j hj (by simp [Image.module_entry, hej])

/-- Of these entries, `key` is that of the image's own. -/
def Reports (es : List (Nat × Nat × Module D)) (i : Image) (key : Nat) : Prop := ∀ e ∈ es, e.1 = key ↔ i.key = some e.1

theorem Reports.self {images : List Image} {i : Image} {key : Nat} (h : Reports (entries data images) i key)
    (hi : i ∈ images) {e : Nat × Nat × Module D} (he : i.entry data = some e) : e.1 = key :=
  (h e (List.mem_filterMap.mpr ⟨i, hi, he⟩)).mpr (Image.entry_key he).1

theorem Reports.other {images : List Image} {i : Image} {key : Nat} (h : Reports (entries data images) i key)
    (hd : (images.filterMap Image.key).Nodup) (hi : i ∈ images) {e : Nat × Nat × Module D}
    (he : e ∈ entries data (images.erase i)) : e.1 ≠ key := by
  intro heq
  have hmem : e ∈ entries data images := (entries_erase hi).mem_iff.mpr (List.mem_append_right _ he)
  exact erase_entry_key hd hi he ((h e hmem).mp heq)

/-- A batched unload takes back the image's entry and no other. -/
theorem pending_unload {images : List Image} (hd : (images.filterMap Image.key).Nodup) {i : Image}
    (hi : i ∈ images) {k : Nat}
    (hk : Reports (entries data images) i k) {pending : List (Nat × Nat × Module D)}
    (h : pending.Perm (entries data images)) :
    (pending.filter fun e => e.1 ≠ k).Perm (entries data (images.erase i)) := by
  refine ((h.trans (entries_erase hi)).filter _).trans (List.Perm.of_eq ?_)
  have hself : ((i.entry data).toList.filter fun e => e.1 ≠ k) = [] := by
    cases he : i.entry data with
    | none => rfl
    | some e => simp [hk.self hi he]
  have hother : ((entries data (images.erase i)).filter fun e => e.1 ≠ k) = entries data (images.erase i) := by
    refine List.filter_eq_self.mpr ?_
    intro e he
    simpa using hk.other hd hi he
  rw [List.filter_append, hself, hother, List.nil_append]

/-- What `macos_remove_image` leaves: batched entries under other keys only, and the published
    modules less one at the key, if it is a static module's and no JIT module's. -/
theorem macosRemoveImage_cases {s t : Mac D} {key : Nat} (h : macosRemoveImage s key = some t) :
    t.batching = s.batching ∧ t.loaded = s.loaded ∧ t.phase = s.phase ∧
    (s.batching = true → t.pending = s.pending.filter fun e => e.1 ≠ key) ∧
    (s.w.reg.staticMods.lookup key = none ∧ t.w = s.w ∨
      s.w.reg.staticMods.lookup key ≠ none ∧ key ∈ s.w.reg.jitKeys ∨
      s.w.reg.staticMods.lookup key ≠ none ∧ key ∉ s.w.reg.jitKeys ∧
        withWriter [.remove key]
          { s.w with reg := { s.w.reg with staticMods := s.w.reg.staticMods.erase key } } = some t.w) := by
  -- the batch first, in one form for both cases
  obtain ⟨pending, hs, hpending⟩ : ∃ pending,
      (if s.batching then { s with pending := s.pending.filter fun e => e.1 ≠ key } else s) =
        { s with pending := pending } ∧
        (s.batching = true → pending = s.pending.filter fun e => e.1 ≠ key) := by
    split
    · exact ⟨_, rfl, fun _ => rfl⟩
    · rename_i hb
      exact ⟨s.pending, rfl, fun h => absurd h hb⟩
  unfold macosRemoveImage at h
  rw [hs] at h
  dsimp only at h
  split at h
  case isTrue hnone =>
    cases h
    exact ⟨rfl, rfl, rfl, hpending, .inl ⟨hnone, rfl⟩⟩
  case isFalse hsome =>
    split at h
    case isTrue hjit =>
      cases h
      exact ⟨rfl, rfl, rfl, hpending, .inr (.inl ⟨hsome, hjit⟩)⟩
    case isFalse hjit =>
      obtain ⟨w, hw, rfl⟩ := Option.map_eq_some_iff.mp h
      exact ⟨rfl, rfl, rfl, hpending, .inr (.inr ⟨hsome, hjit, hw⟩)⟩

/-- After the batch, a remove takes its image's module and no other. -/
theorem remove_ended {s t : Mac D} (hi : MacInv data s) (hp : s.phase = .ended) {i : Image}
    (hmem : i ∈ s.loaded) {k : Nat} (hk : Reports (entries data s.loaded) i k) (h : macosRemoveImage s k = some t) :
    t.loaded = s.loaded ∧ t.phase = s.phase ∧ t.batching = false ∧ t.w.reg.jitKeys = ∅ ∧
      Published data t.w (s.loaded.erase i) := by
  have hphase := hi.phase
  unfold Mac.InPhase at hphase
  rw [hp] at hphase
  obtain ⟨hb, hpub, hmods⟩ := hphase
  have hperm : (entries data s.loaded).Perm ((i.entry data).toList ++ entries data (s.loaded.erase i)) :=
    entries_erase hmem
  have hother : ∀ e ∈ entries data (s.loaded.erase i), e.1 ≠ k := fun e he => hk.other hi.distinct hmem he
  obtain ⟨hbatch, hloaded, hphase, -, hcases⟩ := macosRemoveImage_cases h
  rcases hcases with ⟨hnone, hw⟩ | ⟨-, hjit⟩ | ⟨hsome, -, hw⟩
  · -- the image has no unwind info
    have he : i.entry data = none := by
      cases he : i.entry data with
      | none => rfl
      | some e => exact absurd hnone ((hmods k).mpr ⟨e, hperm.mem_iff.mpr (by simp [he]), hk.self hmem he⟩)
    have hserves : Published data s.w s.loaded := ⟨hpub, hmods⟩
    rw [hw]
    exact ⟨hloaded, hphase, hbatch.trans hb, hi.jit, hserves.perm (entries_erase_none hmem he)⟩
  · rw [hi.jit] at hjit
    cases hjit
  · obtain ⟨hreg, hc⟩ := withWriter_spec hw
    obtain ⟨e, he, hek⟩ := (hmods k).mp hsome
    have hentry : i.entry data = some e := by
      rcases List.mem_append.mp (hperm.mem_iff.mp he) with he | he
      · exact Option.mem_toList.mp he
      · exact absurd hek (hother e he)
    rw [hentry] at hperm
    refine ⟨hloaded, hphase, hbatch.trans hb, by rw [hreg]; exact hi.jit, ?_, ?_⟩
    · have hcons : (s.w.chunks.flatten : Multiset (Module D)) =
          e.2.2 ::ₘ ((entries data (s.loaded.erase i)).map fun e => e.2.2 : List (Module D)) :=
        hpub.trans (Multiset.coe_eq_coe.mpr (hperm.map _))
      show (t.w.chunks.flatten : Multiset (Module D)) = _
      rw [hc]
      refine remove_published s.w.chunks_wf hcons ((Image.entry_key hentry).2.trans hek) ?_
      intro x hx
      obtain ⟨e', he', rfl⟩ := List.mem_map.mp (Multiset.mem_coe.mp hx)
      obtain ⟨j, -, hej⟩ := List.mem_filterMap.mp he'
      rw [(Image.entry_key hej).2]
      exact hother e' he'
    · intro k'
      simp only [hreg]
      by_cases hkk : k' = k
      · subst hkk
        rw [AList.lookup_erase]
        simp only [ne_eq, not_true_eq_false, false_iff, not_exists, not_and]
        exact hother
      · rw [AList.lookup_erase_ne hkk, hmods k']
        refine exists_congr fun e' => and_congr_left fun hk' => ?_
        rw [hperm.mem_iff]
        have hne : e' ≠ e := fun heq => hkk (by rw [← hk', heq, hek])
        simp [hne]

/-- What holds of the loaded images holds without one of them. -/
theorem MacInv.erase {s t : Mac D} (hi : MacInv data s) (i : Image) (hl : t.loaded = s.loaded)
    (hjit : t.w.reg.jitKeys = ∅)
    (hphase : Mac.InPhase data { t with loaded := t.loaded.erase i }) :
    MacInv data { t with loaded := t.loaded.erase i } := by
  refine ⟨?_, hjit, hphase⟩
  rw [hl]
  exact hi.distinct.sublist (List.erase_sublist.filterMap _)

/-- An image that the callbacks hold nothing of is unloaded without a trace. -/
theorem MacInv.unload_untold {s : Mac D} (hi : MacInv data s) {i : Image} (hmem : i ∈ s.loaded)
    (hnone : s.phase.addsRegistered = true → i.entry data = none) :
    MacInv data { s with loaded := s.loaded.erase i } := by
  refine hi.erase i rfl hi.jit ?_
  have hphase := hi.phase
  unfold Mac.InPhase at hphase ⊢
  cases hp : s.phase with
  | start | begun =>
    rw [hp] at hphase
    exact hphase
  | adds | both =>
    rw [hp] at hphase hnone
    exact ⟨hphase.1, hphase.2.1.trans (entries_erase_none hmem (hnone rfl)), hphase.2.2⟩
  | ended =>
    rw [hp] at hphase hnone
    obtain ⟨hb, hserves⟩ : s.batching = false ∧ Published data s.w s.loaded := hphase
    exact ⟨hb, hserves.perm (entries_erase_none hmem (hnone rfl))⟩

theorem MacInv.unload {s t : Mac D} (hi : MacInv data s) {i : Image} (hmem : i ∈ s.loaded)
    (hmeets : s.phase = .adds → i.module data = none) (hown : s.phase.removesRegistered = true → TakesOwn data s i)
    (h : (if s.phase.removesRegistered then onRemoveImage s i else some s) = some t) :
    MacInv data { t with loaded := t.loaded.erase i } := by
  split at h
  case isFalse hoff =>
    cases h
    refine hi.unload_untold hmem ?_
    intro hadds
    have hp : s.phase = .adds := by
      revert hoff hadds
      cases s.phase <;> simp [Phase.removesRegistered, Phase.addsRegistered]
    have := hmeets hp
    rwa [Image.module_entry, Option.map_eq_none_iff] at this
  case isTrue hon =>
    have hown := hown hon
    unfold onRemoveImage at h
    cases hkey : imageKey i with
    | none =>
      rw [hkey] at h
      cases h
      refine hi.unload_untold hmem fun _ => ?_
      cases he : i.entry data with
      | none => rfl
      | some e =>
        have := (hown.entry (List.mem_filterMap.mpr ⟨i, hmem, he⟩)).mpr (Image.entry_key he).1
        rw [hkey] at this
        cases this
    | some k =>
      have hk : Reports (entries data s.loaded) i k := by
        intro e he
        rw [← hown.entry he, hkey, Option.some.injEq, eq_comm]
      rw [hkey] at h
      cases hp : s.phase with
      | start | begun | adds =>
        rw [hp] at hon
        cases hon
      | both =>
        have hphase := hi.phase
        unfold Mac.InPhase at hphase
        rw [hp] at hphase
        obtain ⟨hb, hpend, hunp⟩ := hphase
        obtain ⟨hbatch, hl, hph, hpending, ⟨-, hw⟩ | ⟨hsome, -⟩ | ⟨hsome, -⟩⟩ := macosRemoveImage_cases h
        · refine hi.erase i hl (by rw [hw]; exact hi.jit) ?_
          unfold Mac.InPhase
          simp only [hph, hp, hl, hw, hpending hb]
          exact ⟨hbatch.trans hb, pending_unload hi.distinct hmem hk hpend, hunp⟩
        · exact absurd (hunp.2 k) hsome
        · exact absurd (hunp.2 k) hsome
      | ended =>
        obtain ⟨hl, hph, hb, hjit, hserves⟩ := remove_ended hi hp hmem hk h
        refine hi.erase i hl hjit ?_
        unfold Mac.InPhase
        simp only [hph, hp, hl]
        exact ⟨hb, hserves⟩

/-! ## Runs -/

/-- What one event keeps. -/
theorem MacInv.step {s t : Mac D} (hi : MacInv data s) (h : MacRun data s t) : MacInv data t := by
  obtain ⟨e, hmeets, hrun⟩ := h
  have hphase := hi.phase
  unfold Mac.InPhase at hphase
  cases e with
  | beginBatch =>
    simp only [MacEvent.run] at hrun
    split at hrun
    · rename_i hp
      cases hrun
      rw [hp] at hphase
      exact ⟨hi.distinct, hi.jit, rfl, hphase.2⟩
    · cases hrun
  | registerAdd =>
    simp only [MacEvent.run] at hrun
    split at hrun
    · rename_i hp
      rw [hp] at hphase
      rw [replay_batching hphase.1, Option.map_some] at hrun
      cases hrun
      refine ⟨hi.distinct, hi.jit, hphase.1, ?_, hphase.2.2⟩
      rw [hphase.2.1]
      exact List.Perm.refl _
    · cases hrun
  | registerRemove =>
    simp only [MacEvent.run] at hrun
    split at hrun
    · rename_i hp
      cases hrun
      rw [hp] at hphase
      exact ⟨hi.distinct, hi.jit, hphase⟩
    · cases hrun
  | endBatch =>
    simp only [MacEvent.run] at hrun
    split at hrun
    · rename_i hp
      obtain ⟨t', ht', rfl⟩ := Option.map_eq_some_iff.mp hrun
      exact hi.endBatch hp ht'
    · cases hrun
  | load i =>
    simp only [MacEvent.run] at hrun
    split at hrun
    · rename_i hfresh
      obtain ⟨t', ht', rfl⟩ := Option.map_eq_some_iff.mp hrun
      exact hi.load hfresh ht'
    · cases hrun
  | unload i =>
    simp only [MacEvent.run] at hrun
    split at hrun
    · rename_i hmem
      obtain ⟨t', ht', rfl⟩ := Option.map_eq_some_iff.mp hrun
      exact hi.unload hmem hmeets.1 hmeets.2 ht'
    · cases hrun

/-- In every run in which no image with unwind info is unloaded between the two registrations, and
    the unloads that are reported are reported as the image's own: once the batch has ended, the
    published modules are exactly one for each loaded image that has unwind info. -/
theorem published_follows_dyld {s : Mac D} (h : Reach Start (MacRun data) s) (hend : s.phase = .ended) :
    Follows data s := by
  have hi : MacInv data s := by
    refine h.invariant ?_ fun _ _ _ hi hs => hi.step hs
    rintro s₀ ⟨counter, rfl⟩
    exact MacInv.start counter
  have hphase := hi.phase
  unfold Mac.InPhase at hphase
  rw [hend] at hphase
  rw [Follows, modules_entries]
  exact hphase.2.1

/-- An image of one page with unwind info, at its slide. -/
def sampleImage (slide : Nat) : Image where
  commands := [.segment64 ⟨textName ++ List.replicate 10 0, 0, 0x1000,
    [⟨unwindInfoName ++ List.replicate 3 0, 0x800, 0x100⟩]⟩]
  slide := slide

/-- One image is there before the add callback, a second comes before the remove callback, and the
    first goes after the batch. -/
theorem published_follows_dyld_reload : ∃ s : Mac Unit, Reach Start (MacRun fun _ => ()) s ∧ s.phase = .ended ∧
    s.loaded = [sampleImage 0x5000] ∧ Follows (fun _ => ()) s := by
  have hstart : Reach Start (MacRun fun _ => ()) (Mac.new 0 : Mac Unit) := Reach.start ⟨0, rfl⟩
  have hend := hstart
    |>.tail ⟨.load (sampleImage 0x1000), trivial, rfl⟩
    |>.tail ⟨.beginBatch, trivial, rfl⟩
    |>.tail ⟨.registerAdd, trivial, rfl⟩
    |>.tail ⟨.load (sampleImage 0x5000), trivial, rfl⟩
    |>.tail ⟨.registerRemove, trivial, rfl⟩
    |>.tail ⟨.endBatch, trivial, rfl⟩
  have hreach := hend.tail ⟨.unload (sampleImage 0x1000), ⟨nofun, fun _ _ _ _ => Iff.rfl⟩, rfl⟩
  exact ⟨_, hreach, rfl, rfl, published_follows_dyld hreach rfl⟩

/-- An image unloaded between the two registrations is not reported, and is published for good. -/
theorem unload_between_registrations : ∃ s : Mac Unit,
    [MacEvent.load (sampleImage 0x1000), .beginBatch, .registerAdd, .unload (sampleImage 0x1000), .registerRemove,
      .endBatch].foldlM (MacEvent.run fun _ => ()) (Mac.new 0) = some s ∧
    s.phase = .ended ∧ s.loaded = [] ∧ ¬ Follows (fun _ => ()) s := by
  refine ⟨_, rfl, rfl, rfl, ?_⟩
  intro h
  have hcard := congrArg Multiset.card h
  cases hcard

end FramehopUnwind.Modules.Macho
