/-
  FramehopUnwind.Modules.Elf — enumerating loaded ELF objects (src/modules/elf.rs).

  An `Image` is what `dl_iterate_phdr` hands to the callback, with the memory it points to.
  The callback keys the image by its lowest load address, records its fingerprint, and
  builds a module unless the key and fingerprint are known or the unwind sections cannot be
  used. Sums the source leaves unchecked wrap, as in a release build. A module's name is
  for debugging and left out; the hash behind the fingerprint is a parameter.

  Proved, for images with distinct keys:
  - `enumerate_current`: the enumeration maps each key to its image's fingerprint.
  - `enumerate_newModules`: it builds the modules of the images that are not known.
-/

import FramehopUnwind.Modules.Registry
import FramehopUnwind.Unwinder.Dwarf

namespace FramehopUnwind.Modules

open Unwinder Lib.Word

/-! ## Images -/

def ptLoad : Nat := 1
def ptGnuEhFrame : Nat := 0x6474e550

structure Phdr where
  pType : Nat
  pFlags : Nat
  pVaddr : Nat
  pMemsz : Nat
  deriving DecidableEq, Repr

structure Image where
  /-- `dlpi_addr`, the load bias. -/
  bias : Nat
  /-- Empty also for a null `dlpi_phdr`. -/
  phdrs : List Phdr
  name : Bytes
  /-- The byte mapped at an address. -/
  memory : Nat → UInt8

def Image.bytes (i : Image) (start len : Nat) : Bytes := (List.range len).map fun n => i.memory (start + n)

/-- The union of the loadable segments, the first executable one, the last eh_frame_hdr. -/
structure Geometry where
  avmaLo : Nat
  avmaHi : Nat
  textSvma : Option Range
  hdrPhdr : Option Phdr
  deriving DecidableEq, Repr

/-- Whether `PF_X` is set. -/
def Phdr.executable (ph : Phdr) : Bool := ph.pFlags % 2 = 1

def Geometry.addPhdr (bias : Nat) (g : Geometry) (ph : Phdr) : Geometry :=
  if ph.pType = ptLoad then
    let lo := wrappingAdd bias ph.pVaddr
    let hi := wrappingAdd lo ph.pMemsz
    { g with
      avmaLo := if lo < g.avmaLo then lo else g.avmaLo
      avmaHi := if g.avmaHi < hi then hi else g.avmaHi
      textSvma :=
        if ph.executable ∧ g.textSvma = none then some ⟨ph.pVaddr, wrappingAdd ph.pVaddr ph.pMemsz⟩ else g.textSvma }
  else if ph.pType = ptGnuEhFrame then { g with hdrPhdr := some ph }
  else g

def Image.geometry (i : Image) : Geometry := i.phdrs.foldl (Geometry.addPhdr i.bias) ⟨u64Max, 0, none, none⟩

/-- The image's key, its lowest load address; `none` without loadable segments. -/
def Image.key (i : Image) : Option Nat :=
  let g := i.geometry
  if g.avmaLo = u64Max ∨ g.avmaHi ≤ g.avmaLo then none else some g.avmaLo

/-! ## The eh_frame_hdr -/

def leBytes (b : Bytes) : Nat := b.foldr (fun x acc => x.toNat + 256 * acc) 0

/-- A `w`-bit value, sign-extended to a word. -/
def signExtend (w v : Nat) : Nat := if v < 2 ^ (w - 1) then v else 2 ^ 64 - 2 ^ w + v

/-- `n` bytes at the front, if there are that many. -/
def getBytes (b : Bytes) (n : Nat) : Option Bytes := if n ≤ b.length then some (b.take n) else none

/-- `decode_value`: the value and its size. -/
def decodeValue (b : Bytes) (fmt : Nat) : Option (Nat × Nat) :=
  match fmt with
  | 0x02 => (getBytes b 2).map fun v => (leBytes v, 2)
  | 0x0a => (getBytes b 2).map fun v => (signExtend 16 (leBytes v), 2)
  | 0x03 => (getBytes b 4).map fun v => (leBytes v, 4)
  | 0x0b => (getBytes b 4).map fun v => (signExtend 32 (leBytes v), 4)
  | 0x04 => (getBytes b 8).map fun v => (leBytes v, 8)
  | 0x0c => (getBytes b 8).map fun v => (leBytes v, 8)
  | 0x00 => (getBytes b 8).map fun v => (leBytes v, 8)
  | _ => none

/-- `decode_eh_frame_start` of the header `b` at `hdr`. -/
def decodeEhFrameStart (b : Bytes) (hdr : Nat) : Option Nat :=
  match b with
  | version :: enc :: _ :: _ :: field =>
    if version ≠ 1 then none
    else
      let app := enc.toNat &&& 0x70
      let fmt := enc.toNat &&& 0x0f
      let fieldAvma := wrappingAdd hdr 4
      match decodeValue field fmt with
      | none => none
      | some (value, _) =>
        match app with
        | 0x00 => some (wrappingAdd 0 value)
        | 0x10 => some (wrappingAdd fieldAvma value)
        | _ => none
  | _ => none

def containingSegmentEnd (bias : Nat) (addr : Nat) : List Phdr → Option Nat
  | [] => none
  | ph :: rest =>
    let lo := wrappingAdd bias ph.pVaddr
    let hi := wrappingAdd lo ph.pMemsz
    if ph.pType = ptLoad ∧ lo ≤ addr ∧ addr < hi then some hi else containingSegmentEnd bias addr rest

/-! ## The callback -/

structure RawSpec where
  key : Nat
  baseAvma : Nat
  avma : Range
  ehFrameHdr : Bytes
  ehFrameHdrSvma : Range
  ehFrame : Bytes
  ehFrameSvma : Range
  textSvma : Option Range
  deriving DecidableEq, Repr

/-- The unwind sections of an image with a key, if they can be used. -/
def Image.rawSpec (i : Image) (key : Nat) : Option RawSpec :=
  let g := i.geometry
  match g.hdrPhdr with
  | none => none
  | some hdrPhdr =>
    let hdrAvma := wrappingAdd i.bias hdrPhdr.pVaddr
    let hdrLen := hdrPhdr.pMemsz
    if hdrLen < 4 then none
    else
      match decodeEhFrameStart (i.bytes hdrAvma hdrLen) hdrAvma with
      | none => none
      | some ehFrameAvma =>
        match containingSegmentEnd i.bias ehFrameAvma i.phdrs with
        | none => none
        | some ehFrameEnd =>
          if ehFrameEnd ≤ ehFrameAvma then none
          else
            let ehFrameLen := ehFrameEnd - ehFrameAvma
            let hdrSvma := wrappingSub hdrAvma i.bias
            let ehFrameSvma := wrappingSub ehFrameAvma i.bias
            some
              { key := key
                baseAvma := i.bias
                avma := ⟨g.avmaLo, g.avmaHi⟩
                ehFrameHdr := i.bytes hdrAvma hdrLen
                ehFrameHdrSvma := ⟨hdrSvma, wrappingAdd hdrSvma hdrLen⟩
                ehFrame := i.bytes ehFrameAvma ehFrameLen
                ehFrameSvma := ⟨ehFrameSvma, wrappingAdd ehFrameSvma ehFrameLen⟩
                textSvma := g.textSvma }

variable (G : Gimli)

def buildModule (s : RawSpec) : UnwindModule :=
  Module.new G s.avma s.baseAvma
    { baseSvma := 0
      textSvma := s.textSvma
      ehFrameSvma := some s.ehFrameSvma
      ehFrame := some s.ehFrame
      ehFrameHdrSvma := some s.ehFrameHdrSvma
      ehFrameHdr := some s.ehFrameHdr
      debugFrame := none }

variable (fingerprintOf : List Nat → Bytes → Nat)

def Image.fingerprint (i : Image) : Nat :=
  let g := i.geometry
  let hdr := match g.hdrPhdr with
    | some p => (p.pVaddr, p.pMemsz)
    | none => (0, 0)
  fingerprintOf [hdr.1, hdr.2, wrappingSub g.avmaHi g.avmaLo] i.name

structure Collector where
  current : AList fun _ : Nat => Nat
  specs : List RawSpec

def callback (known : AList fun _ : Nat => Nat) (c : Collector) (i : Image) : Collector :=
  match i.key with
  | none => c
  | some key =>
    let fp := i.fingerprint fingerprintOf
    let c := { c with current := c.current.insert key fp }
    if known.lookup key = some fp then c
    else
      match i.rawSpec key with
      | none => c
      | some s => { c with specs := c.specs ++ [s] }

def enumerate (known : AList fun _ : Nat => Nat) (images : List Image) : EnumResult ModuleUnwindDataInternal :=
  let c := images.foldl (callback fingerprintOf known) ⟨∅, []⟩
  ⟨c.current, c.specs.map fun s => (s.key, buildModule G s)⟩

/-! ## What an enumeration gives -/

/-- The module of an image with usable unwind info. -/
def Image.module (i : Image) : Option UnwindModule := (i.key.bind i.rawSpec).map (buildModule G)

theorem Image.rawSpec_key {i : Image} {key : Nat} {s : RawSpec} (h : i.rawSpec key = some s) :
    s.key = key ∧ s.avma.start = i.geometry.avmaLo := by
  unfold Image.rawSpec at h
  simp only at h
  repeat' split at h
  all_goals cases h
  exact ⟨rfl, rfl⟩

theorem Image.key_eq {i : Image} {key : Nat} (h : i.key = some key) : i.geometry.avmaLo = key := by
  unfold Image.key at h
  simp only at h
  split at h
  · cases h
  · exact Option.some.inj h

/-- An image's module starts at its key. -/
theorem Image.module_start {i : Image} {m : UnwindModule} (h : i.module G = some m) : i.key = some m.start := by
  obtain ⟨s, hs, rfl⟩ := Option.map_eq_some_iff.mp h
  obtain ⟨key, hk, hr⟩ := Option.bind_eq_some_iff.mp hs
  have hstart : (buildModule G s).start = key := (Image.rawSpec_key hr).2.trans (Image.key_eq hk)
  rw [hstart]
  exact hk

/-- The images keyed `k`. -/
def keyed (images : List Image) (k : Nat) : List Image := images.filter fun i => i.key = some k

/-- Loaded images occupy different addresses. -/
def DistinctKeys (images : List Image) : Prop := images.Pairwise fun i j => i.key = none ∨ i.key ≠ j.key

theorem keyed_le_one {images : List Image} (h : DistinctKeys images) (k : Nat) :
    keyed images k = [] ∨ ∃ i ∈ images, i.key = some k ∧ keyed images k = [i] := by
  induction images with
  | nil => exact Or.inl rfl
  | cons i images ih =>
    obtain ⟨hi, hrest⟩ := List.pairwise_cons.mp h
    by_cases hk : i.key = some k
    · right
      refine ⟨i, by simp, hk, ?_⟩
      have hnone : keyed images k = [] := by
        refine List.filter_eq_nil_iff.mpr ?_
        intro j hj
        rcases hi j hj with e | e
        · rw [e] at hk; cases hk
        · simpa [← hk] using Ne.symm e
      unfold keyed at hnone ⊢
      rw [List.filter_cons_of_pos (by simpa using hk), hnone]
    · have hskip : keyed (i :: images) k = keyed images k := List.filter_cons_of_neg (by simpa using hk)
      rw [hskip]
      rcases ih hrest with e | ⟨j, hj, hjk, e⟩
      · exact Or.inl e
      · exact Or.inr ⟨j, by simp [hj], hjk, e⟩

/-- The module the callback builds for an image: none if it is known. -/
def Image.newModule (known : AList fun _ : Nat => Nat) (i : Image) : Option (Nat × UnwindModule) :=
  match i.key with
  | none => none
  | some key =>
    if known.lookup key = some (i.fingerprint fingerprintOf) then none
    else (i.rawSpec key).map fun s => (s.key, buildModule G s)

theorem callback_cases (known : AList fun _ : Nat => Nat) (c : Collector) (i : Image) :
    (∀ k, (callback fingerprintOf known c i).current.lookup k =
      if i.key = some k then some (i.fingerprint fingerprintOf) else c.current.lookup k) ∧
    (callback fingerprintOf known c i).specs.map (fun s => (s.key, buildModule G s)) =
      c.specs.map (fun s => (s.key, buildModule G s)) ++ (i.newModule G fingerprintOf known).toList := by
  unfold callback Image.newModule
  cases hk : i.key with
  | none => simp
  | some key =>
    have hlook : ∀ k, (c.current.insert key (i.fingerprint fingerprintOf)).lookup k =
        if some key = some k then some (i.fingerprint fingerprintOf) else c.current.lookup k := by
      intro k
      by_cases e : key = k
      · subst e
        simp [AList.lookup_insert]
      · rw [AList.lookup_insert_ne (Ne.symm e)]
        simp [e]
    by_cases hn : known.lookup key = some (i.fingerprint fingerprintOf)
    · simp only [hn, if_true]
      exact ⟨hlook, by simp⟩
    · simp only [hn, if_false]
      cases i.rawSpec key with
      | none => exact ⟨hlook, by simp⟩
      | some s => exact ⟨hlook, by simp⟩

theorem enumerate_newModules (known : AList fun _ : Nat => Nat) (images : List Image) :
    (enumerate G fingerprintOf known images).newModules = images.filterMap (Image.newModule G fingerprintOf known) := by
  have hrun : ∀ (images : List Image) (c : Collector),
      (images.foldl (callback fingerprintOf known) c).specs.map (fun s => (s.key, buildModule G s)) =
        c.specs.map (fun s => (s.key, buildModule G s)) ++
          images.filterMap (Image.newModule G fingerprintOf known) := by
    intro images
    induction images with
    | nil => simp
    | cons i images ih =>
      intro c
      rw [List.foldl_cons, ih, (callback_cases G fingerprintOf known c i).2, List.filterMap_cons]
      cases i.newModule G fingerprintOf known <;> simp
  exact (hrun images ⟨∅, []⟩).trans (List.nil_append _)

theorem enumerate_current (known : AList fun _ : Nat => Nat) {images : List Image} (h : DistinctKeys images) (k : Nat) :
    (enumerate G fingerprintOf known images).current.lookup k =
      (keyed images k).head?.map (Image.fingerprint fingerprintOf) := by
  have hrun : ∀ (images : List Image) (c : Collector), DistinctKeys images →
      (images.foldl (callback fingerprintOf known) c).current.lookup k =
        ((keyed images k).head?.map (Image.fingerprint fingerprintOf)).or (c.current.lookup k) := by
    intro images
    induction images with
    | nil => intro c _; rfl
    | cons i images ih =>
      intro c hd
      obtain ⟨hi, hrest⟩ := List.pairwise_cons.mp hd
      rw [List.foldl_cons, ih _ hrest, (callback_cases G fingerprintOf known c i).1]
      by_cases hk : i.key = some k
      · have hnone : keyed images k = [] := by
          refine List.filter_eq_nil_iff.mpr ?_
          intro j hj
          rcases hi j hj with e | e
          · rw [e] at hk; cases hk
          · simpa [← hk] using Ne.symm e
        have hcons : keyed (i :: images) k = i :: keyed images k := List.filter_cons_of_pos (by simpa using hk)
        rw [hcons, hnone]
        simp [hk]
      · have hskip : keyed (i :: images) k = keyed images k := List.filter_cons_of_neg (by simpa using hk)
        rw [hskip, if_neg hk]
  rw [show (enumerate G fingerprintOf known images).current.lookup k =
    (images.foldl (callback fingerprintOf known) ⟨∅, []⟩).current.lookup k from rfl, hrun images _ h]
  simp

end FramehopUnwind.Modules
