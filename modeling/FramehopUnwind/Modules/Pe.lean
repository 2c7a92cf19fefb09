/-
  FramehopUnwind.Modules.Pe — a loaded PE image's sections (src/modules/pe.rs `build_pe_module` and
  `PeSectionInfo`; the PE arm of `ModuleUnwindDataInternal::new` in
  vendor/framehop/src/unwinder.rs).

  The image is its bytes by offset from the base; a read of the mapped headers is at its offset.
  Sums, products and differences that the code does not check are made in `Arith`, which stops at
  the first that leaves 64 bits, as a build with overflow checks does.

  A section is looked up by name, the first match deciding; its length is its virtual size, cut at
  the end of the image, and an empty one is none. framehop first asks for a section's range, then
  takes its bytes, after which the section is gone; it makes the range relative to the base again
  and drops a section whose offsets do not fit 32 bits.

  Proved:
  - `secLoop_spec`: what a lookup finds lies inside the image.
  - `rangeAndData_spec`: framehop keeps each section, at its own offsets.
  - `pe_sections_in_image`: over every image, no sum overflows, and the module's sections are the
    bytes of the ranges framehop has for them.
-/

import FramehopUnwind.Unwinder.Dwarf

namespace FramehopUnwind.Modules.Pe

open Unwinder

/-! ## Arithmetic -/

/-- A computation that stops at an overflow. -/
abbrev Arith (α : Type) := Except Unit α

def add (a b : Nat) : Arith Nat := if a + b < 2 ^ 64 then .ok (a + b) else .error ()

def mul (a b : Nat) : Arith Nat := if a * b < 2 ^ 64 then .ok (a * b) else .error ()

def sub (a b : Nat) : Arith Nat := if b ≤ a then .ok (a - b) else .error ()

@[simp] theorem ok_bind {α β : Type} (a : α) (f : α → Arith β) : (.ok a >>= f : Arith β) = f a := rfl

@[simp] theorem add_ok {a b : Nat} (h : a + b < 2 ^ 64) : add a b = .ok (a + b) := if_pos h

@[simp] theorem mul_ok {a b : Nat} (h : a * b < 2 ^ 64) : mul a b = .ok (a * b) := if_pos h

@[simp] theorem sub_ok {a b : Nat} (h : b ≤ a) : sub a b = .ok (a - b) := if_pos h

/-! ## The image -/

/-- The image's bytes, by offset from its base. -/
abbrev Mem := Nat → UInt8

def readU16 (mem : Mem) (off : Nat) : Nat := (mem off).toNat + 2 ^ 8 * (mem (off + 1)).toNat

def readU32 (mem : Mem) (off : Nat) : Nat := readU16 mem off + 2 ^ 16 * readU16 mem (off + 2)

/-- The `len` bytes at `rva`. -/
def mapped (mem : Mem) (rva len : Nat) : Bytes := (List.range len).map fun j => mem (rva + j)

/-- The field is the name, padded with a NUL unless it is full. -/
def sectionNameEq (field name : Bytes) : Bool :=
  name.length ≤ 8 && field.take name.length == name && (name.length == 8 || field[name.length]? == some 0)

/-- `.pdata` -/
def pdataName : Bytes := [0x2e, 0x70, 0x64, 0x61, 0x74, 0x61]

/-- `.xdata` -/
def xdataName : Bytes := [0x2e, 0x78, 0x64, 0x61, 0x74, 0x61]

/-- `.rdata` -/
def rdataName : Bytes := [0x2e, 0x72, 0x64, 0x61, 0x74, 0x61]

/-- `.text` -/
def textName : Bytes := [0x2e, 0x74, 0x65, 0x78, 0x74]

/-- `__unwind_info` -/
def unwindInfoName : Bytes := [0x5f, 0x5f, 0x75, 0x6e, 0x77, 0x69, 0x6e, 0x64, 0x5f, 0x69, 0x6e, 0x66, 0x6f]

def sectionHeaderSize : Nat := 40

/-- A section's offset in the image and its bytes. -/
abbrev Section := Nat × Bytes

/-- The loop of `sec`, with `n` headers to go from the `i`-th on. -/
def secLoop (mem : Mem) (size sectionTable : Nat) (want : Bytes) : (n i : Nat) → Arith (Option Section)
  | 0, _ => .ok none
  | n + 1, i => do
    let off ← mul i sectionHeaderSize
    let shOff ← add sectionTable off
    if sectionNameEq (mapped mem shOff 8) want then
      let virtualSizeOff ← add shOff 8
      let rvaOff ← add shOff 12
      let virtualSize := readU32 mem virtualSizeOff
      let rva := readU32 mem rvaOff
      -- the difference saturates
      let len := min virtualSize (size - rva)
      return if len = 0 then none else some (rva, mapped mem rva len)
    else secLoop mem size sectionTable want n (i + 1)

structure PeSectionInfo where
  baseSvma : Nat
  pdata : Option Section
  xdata : Option Section
  rdata : Option Section
  text : Option Section
  deriving DecidableEq, Repr

/-- `build_pe_module` up to its section info. -/
def peSections (mem : Mem) (base size : Nat) : Arith (Option PeSectionInfo) :=
  if readU16 mem 0 ≠ 0x5a4d then return none
  else
    let eLfanew := readU32 mem 0x3c
    if readU32 mem eLfanew ≠ 0x4550 then return none
    else do
      let fileHeader ← add eLfanew 4
      let numSectionsOff ← add fileHeader 2
      let sizeOfOptionalOff ← add fileHeader 16
      let optionalHeader ← add fileHeader 20
      let sectionTable ← add optionalHeader (readU16 mem sizeOfOptionalOff)
      let sec (want : Bytes) := secLoop mem size sectionTable want (readU16 mem numSectionsOff) 0
      match ← sec pdataName with
      | none => return none
      | some pdata => do
        let xdata ← sec xdataName
        let rdata ← sec rdataName
        let text ← sec textName
        return some ⟨base, some pdata, xdata, rdata, text⟩

/-! ## What framehop asks for -/

def PeSectionInfo.slot (info : PeSectionInfo) (name : Bytes) : Option Section :=
  if name = pdataName then info.pdata
  else if name = xdataName then info.xdata
  else if name = rdataName then info.rdata
  else if name = textName then info.text
  else none

/-- `slot(name).take()`'s effect. -/
def PeSectionInfo.take (info : PeSectionInfo) (name : Bytes) : PeSectionInfo :=
  if name = pdataName then { info with pdata := none }
  else if name = xdataName then { info with xdata := none }
  else if name = rdataName then { info with rdata := none }
  else if name = textName then { info with text := none }
  else info

def PeSectionInfo.sectionSvmaRange (info : PeSectionInfo) (name : Bytes) : Arith (Option Range) :=
  match info.slot name with
  | none => return none
  | some (rva, bytes) => do
    let start ← add info.baseSvma rva
    let stop ← add start bytes.length
    return some ⟨start, stop⟩

def PeSectionInfo.sectionData (info : PeSectionInfo) (name : Bytes) : Option Bytes × PeSectionInfo :=
  ((info.slot name).map Prod.snd, info.take name)

structure DataAtRvaRange where
  data : Bytes
  rvaRange : Range
  deriving DecidableEq, Repr

/-- `u32::try_from(..).ok()`. -/
def toU32 (a : Nat) : Option Nat := if a < 2 ^ 32 then some a else none

/-- The range relative to the base, as `u32`s. -/
def rvaRange (base : Nat) (range : Range) : Arith (Option Range) := do
  match toU32 (← sub range.start base) with
  | none => return none
  | some start =>
    match toU32 (← sub range.stop base) with
    | none => return none
    | some stop => return some ⟨start, stop⟩

/-- `range_and_data`, and the section info it leaves. -/
def rangeAndData (info : PeSectionInfo) (name : Bytes) : Arith (Option DataAtRvaRange × PeSectionInfo) := do
  match ← info.sectionSvmaRange name with
  | none => return (none, info)
  | some range =>
    match ← rvaRange info.baseSvma range with
    | none => return (none, info)
    | some range =>
      let (data, info) := info.sectionData name
      return (data.map fun data => ⟨data, range⟩, info)

/-- `ModuleUnwindDataInternal` of a PE module. -/
inductive PeUnwindData where
  | peUnwindInfo (pdata : Bytes) (rdata xdata text : Option DataAtRvaRange)
  /-- Mach-O's data, which a PE module's section info never gives. -/
  | compactUnwindInfo
  | none
  deriving DecidableEq, Repr

/-- `ModuleUnwindDataInternal::new`; a PE module's info has none of the DWARF sections. -/
def PeUnwindData.new (info : PeSectionInfo) : Arith PeUnwindData :=
  match info.sectionData unwindInfoName with
  | (some _, _) => return .compactUnwindInfo
  | (.none, info) =>
    match info.sectionData pdataName with
    | (.none, _) => return .none
    | (some pdata, info) => do
      let (rdata, info) ← rangeAndData info rdataName
      let (xdata, info) ← rangeAndData info xdataName
      let (text, _) ← rangeAndData info textName
      return .peUnwindInfo pdata rdata xdata text

def buildPeModule (mem : Mem) (base size : Nat) : Arith (Option (Module PeUnwindData)) := do
  match ← peSections mem base size with
  | none => return none
  | some info =>
    let stop ← add base size
    let unwindData ← PeUnwindData.new info
    return some ⟨⟨base, stop⟩, base, info.baseSvma, unwindData⟩

/-! ## The sections found -/

theorem readU16_lt (mem : Mem) (off : Nat) : readU16 mem off < 2 ^ 16 := by
  have h0 := (mem off).toNat_lt
  have h1 := (mem (off + 1)).toNat_lt
  unfold readU16
  omega

theorem readU32_lt (mem : Mem) (off : Nat) : readU32 mem off < 2 ^ 32 := by
  have h0 := readU16_lt mem off
  have h1 := readU16_lt mem (off + 2)
  unfold readU32
  omega

@[simp] theorem mapped_length (mem : Mem) (rva len : Nat) : (mapped mem rva len).length = len := by simp [mapped]

/-- The section of the `i`-th header of a table, if it has the name: its bytes are the image's from
    its virtual address on, as many as its virtual size has and the image holds. -/
structure AtHeader (mem : Mem) (size sectionTable : Nat) (want : Bytes) (i : Nat) (s : Section) : Prop where
  name : sectionNameEq (mapped mem (sectionTable + i * sectionHeaderSize) 8) want = true
  rva : s.1 = readU32 mem (sectionTable + i * sectionHeaderSize + 12)
  len : s.2.length = min (readU32 mem (sectionTable + i * sectionHeaderSize + 8)) (size - s.1)
  bytes : s.2 = mapped mem s.1 s.2.length
  nonempty : 0 < s.2.length

/-- A section of the image ends inside it. -/
theorem AtHeader.inside {mem : Mem} {size sectionTable i : Nat} {want : Bytes} {s : Section}
    (h : AtHeader mem size sectionTable want i s) : s.1 + s.2.length ≤ size := by
  have hlen := h.len
  have hpos := h.nonempty
  omega

theorem secLoop_spec {mem : Mem} {size sectionTable : Nat} (want : Bytes) (ht : sectionTable < 2 ^ 33) :
    ∀ n i, i + n ≤ 2 ^ 16 → ∃ r, secLoop mem size sectionTable want n i = .ok r ∧
      ∀ s, r = some s → ∃ j < i + n, AtHeader mem size sectionTable want j s := by
  intro n
  induction n with
  | zero =>
    intro i _
    exact ⟨none, rfl, by simp⟩
  | succ n ih =>
    intro i hi
    have hmul : mul i sectionHeaderSize = .ok (i * sectionHeaderSize) :=
      mul_ok (by simp only [sectionHeaderSize]; omega)
    have hoff : ∀ d, d ≤ 12 → sectionTable + i * sectionHeaderSize + d < 2 ^ 64 := by
      intro d hd
      simp only [sectionHeaderSize]
      omega
    have hsh : sectionTable + i * sectionHeaderSize < 2 ^ 64 := hoff 0 (by decide)
    unfold secLoop
    simp only [hmul, ok_bind, add_ok hsh]
    split
    case isTrue hname =>
      simp only [add_ok (hoff 8 (by decide)), add_ok (hoff 12 (by decide)), ok_bind]
      refine ⟨_, rfl, ?_⟩
      intro s hs
      refine ⟨i, by omega, ?_⟩
      split at hs
      · cases hs
      · rename_i hlen
        obtain rfl := Option.some.inj hs
        refine ⟨hname, rfl, mapped_length .., ?_, ?_⟩
        · rw [mapped_length]
        · rw [mapped_length]
          exact Nat.pos_of_ne_zero hlen
    case isFalse =>
      obtain ⟨r, hr, hspec⟩ := ih (i + 1) (by omega)
      refine ⟨r, hr, ?_⟩
      intro s hs
      obtain ⟨j, hj, hat⟩ := hspec s hs
      exact ⟨j, by omega, hat⟩

/-- Where the section table is, behind the optional header. -/
def sectionTable (mem : Mem) : Nat := readU32 mem 0x3c + 4 + 20 + readU16 mem (readU32 mem 0x3c + 4 + 16)

def numSections (mem : Mem) : Nat := readU16 mem (readU32 mem 0x3c + 4 + 2)

/-- A section of the image's table with this name. -/
def InTable (mem : Mem) (size : Nat) (name : Bytes) (s : Section) : Prop :=
  ∃ i < numSections mem, AtHeader mem size (sectionTable mem) name i s

theorem sec_spec (mem : Mem) (size : Nat) (want : Bytes) :
    ∃ r, secLoop mem size (sectionTable mem) want (numSections mem) 0 = .ok r ∧ ∀ s, r = some s →
      InTable mem size want s := by
  have ht : sectionTable mem < 2 ^ 33 := by
    have h1 := readU32_lt mem 0x3c
    have h2 := readU16_lt mem (readU32 mem 0x3c + 4 + 16)
    unfold sectionTable
    omega
  obtain ⟨r, hr, hspec⟩ := secLoop_spec want ht (numSections mem) 0 (by
    have := readU16_lt mem (readU32 mem 0x3c + 4 + 2)
    unfold numSections
    omega)
  refine ⟨r, hr, ?_⟩
  intro s hs
  obtain ⟨i, hi, hat⟩ := hspec s hs
  exact ⟨i, by omega, hat⟩

/-- Every section the info has is in the table under its own name. -/
def PeSectionInfo.FromTable (info : PeSectionInfo) (mem : Mem) (size : Nat) : Prop :=
  ∀ name s, info.slot name = some s → InTable mem size name s

theorem peSections_spec (mem : Mem) (base size : Nat) : ∃ sections, peSections mem base size = .ok sections ∧
    ∀ info, sections = some info → info.baseSvma = base ∧ (∃ pdata, info.pdata = some pdata) ∧
      info.FromTable mem size := by
  unfold peSections
  split
  · exact ⟨none, rfl, by simp⟩
  dsimp only
  split
  · exact ⟨none, rfl, by simp⟩
  have h1 := readU32_lt mem 0x3c
  have h2 := readU16_lt mem (readU32 mem 0x3c + 4 + 16)
  obtain ⟨pdata, hp, hpspec⟩ := sec_spec mem size pdataName
  obtain ⟨xdata, hx, hxspec⟩ := sec_spec mem size xdataName
  obtain ⟨rdata, hr, hrspec⟩ := sec_spec mem size rdataName
  obtain ⟨text, ht, htspec⟩ := sec_spec mem size textName
  unfold sectionTable numSections at hp hx hr ht
  simp (disch := omega) only [add_ok, ok_bind, hp]
  cases pdata with
  | none => exact ⟨none, rfl, by simp⟩
  | some pdata =>
    simp only [hx, hr, ht, ok_bind]
    refine ⟨_, rfl, ?_⟩
    rintro info ⟨⟩
    refine ⟨rfl, ⟨pdata, rfl⟩, ?_⟩
    intro name s hs
    unfold PeSectionInfo.slot at hs
    split at hs
    case isTrue hname => exact hname ▸ hpspec s hs
    split at hs
    case isTrue hname => exact hname ▸ hxspec s hs
    split at hs
    case isTrue hname => exact hname ▸ hrspec s hs
    split at hs
    case isTrue hname => exact hname ▸ htspec s hs
    case isFalse => cases hs

/-! ## What framehop makes of them -/

/-- The section's bytes at its own range of offsets. -/
def Section.atRva (s : Section) : DataAtRvaRange := ⟨s.2, ⟨s.1, s.1 + s.2.length⟩⟩

theorem take_baseSvma (info : PeSectionInfo) (name : Bytes) : (info.take name).baseSvma = info.baseSvma := by
  unfold PeSectionInfo.take
  split_ifs <;> rfl

/-- Taking a section leaves the others. -/
theorem take_slot_ne (info : PeSectionInfo) {name name' : Bytes} (h : name' ≠ name) :
    (info.take name).slot name' = info.slot name' := by
  unfold PeSectionInfo.take
  split_ifs with h₁ h₂ h₃ h₄
  · subst h₁
    simp only [PeSectionInfo.slot, if_neg h]
  · subst h₂
    simp only [PeSectionInfo.slot, if_neg h]
  · subst h₃
    simp only [PeSectionInfo.slot, if_neg h]
  · subst h₄
    simp only [PeSectionInfo.slot, if_neg h]
  · rfl

/-- The range of a section inside the image comes back as its offsets. -/
theorem rvaRange_spec {base rva len size : Nat} (hsize : size < 2 ^ 32) (h : rva + len ≤ size) :
    rvaRange base ⟨base + rva, base + rva + len⟩ = .ok (some ⟨rva, rva + len⟩) := by
  have hstart : base + rva - base = rva := by omega
  have hstop : base + rva + len - base = rva + len := by omega
  have hrva : toU32 rva = some rva := if_pos (by omega)
  have hend : toU32 (rva + len) = some (rva + len) := if_pos (by omega)
  unfold rvaRange
  simp (disch := omega) only [sub_ok, ok_bind]
  simp only [hstart, hstop, hrva, hend]
  rfl

/-- `range_and_data` gives a section at its own offsets, and leaves the others. -/
theorem rangeAndData_spec (info : PeSectionInfo) {size : Nat} (hsize : size < 2 ^ 32)
    (hbase : info.baseSvma + size < 2 ^ 64) (name : Bytes)
    (h : ∀ s, info.slot name = some s → s.1 + s.2.length ≤ size) :
    ∃ info', rangeAndData info name = .ok ((info.slot name).map Section.atRva, info') ∧ info'.baseSvma = info.baseSvma ∧
      ∀ name', name' ≠ name → info'.slot name' = info.slot name' := by
  unfold rangeAndData PeSectionInfo.sectionSvmaRange
  cases hs : info.slot name with
  | none => exact ⟨info, rfl, rfl, fun _ _ => rfl⟩
  | some s =>
    obtain ⟨rva, bytes⟩ := s
    have hin : rva + bytes.length ≤ size := h _ hs
    refine ⟨info.take name, ?_, take_baseSvma info name, fun name' hne => take_slot_ne info hne⟩
    simp (disch := omega) only [add_ok, ok_bind]
    simp only [pure, Except.pure, ok_bind, rvaRange_spec hsize hin, PeSectionInfo.sectionData, hs]
    rfl

theorem newPe_spec {info : PeSectionInfo} {size : Nat} (hsize : size < 2 ^ 32) (hbase : info.baseSvma + size < 2 ^ 64)
    (h : ∀ name s, info.slot name = some s → s.1 + s.2.length ≤ size) {pdata : Section} (hp : info.pdata = some pdata) :
    PeUnwindData.new info = .ok (.peUnwindInfo pdata.2 (info.rdata.map Section.atRva) (info.xdata.map Section.atRva)
      (info.text.map Section.atRva)) := by
  have hmacho : info.sectionData unwindInfoName = (none, info) := rfl
  have hdata : info.sectionData pdataName = (some pdata.2, info.take pdataName) := by
    simp only [PeSectionInfo.sectionData, PeSectionInfo.slot, if_true, hp, Option.map_some]
  have hslot : ∀ name s, (info.take pdataName).slot name = some s → s.1 + s.2.length ≤ size := by
    intro name s hs
    by_cases hname : name = pdataName
    · subst hname
      cases hs
    · rw [take_slot_ne info hname] at hs
      exact h name s hs
  -- one section after the other, each leaving the rest
  obtain ⟨i₁, h₁, hb₁, hs₁⟩ := rangeAndData_spec (info.take pdataName) hsize hbase rdataName (hslot rdataName)
  have hslot₁ : ∀ s, i₁.slot xdataName = some s → s.1 + s.2.length ≤ size := by
    rw [hs₁ xdataName (by decide)]
    exact hslot xdataName
  obtain ⟨i₂, h₂, hb₂, hs₂⟩ := rangeAndData_spec i₁ hsize (by rw [hb₁]; exact hbase) xdataName hslot₁
  have htext : i₂.slot textName = info.text := by
    rw [hs₂ textName (by decide), hs₁ textName (by decide)]
    rfl
  obtain ⟨i₃, h₃, -, -⟩ := rangeAndData_spec i₂ hsize (by rw [hb₂, hb₁]; exact hbase) textName (by
    rw [htext]
    exact hslot textName)
  have hrdata : (info.take pdataName).slot rdataName = info.rdata := rfl
  have hxdata : i₁.slot xdataName = info.xdata := hs₁ xdataName (by decide)
  rw [hrdata] at h₁
  rw [hxdata] at h₂
  rw [htext] at h₃
  unfold PeUnwindData.new
  rw [hmacho]
  dsimp only
  rw [hdata]
  simp only [h₁, h₂, h₃, ok_bind]
  rfl

/-- For every image, loaded at `base` with a 32-bit SizeOfImage and below the top of the address
    space: no sum overflows; each section handed to framehop is the one of a header of that name,
    its bytes those of the image at [rva, rva + len), which ends inside the image; and framehop
    has `.pdata`'s bytes, and for each of the others the bytes and the range [rva, rva + len). -/
theorem pe_sections_in_image (mem : Mem) (base size : Nat) (hsize : size < 2 ^ 32) (hbase : base + size < 2 ^ 64) :
    ∃ sections, peSections mem base size = .ok sections ∧
      (sections = none → buildPeModule mem base size = .ok none) ∧
      ∀ info, sections = some info →
        (∀ name s, info.slot name = some s → InTable mem size name s ∧ s.2 = mapped mem s.1 s.2.length ∧
          s.1 + s.2.length ≤ size) ∧
        ∃ pdata, info.pdata = some pdata ∧
          buildPeModule mem base size = .ok (some ⟨⟨base, base + size⟩, base, base,
            .peUnwindInfo pdata.2 (info.rdata.map Section.atRva) (info.xdata.map Section.atRva)
              (info.text.map Section.atRva)⟩) := by
  obtain ⟨sections, hsec, hspec⟩ := peSections_spec mem base size
  refine ⟨sections, hsec, ?_, ?_⟩
  · rintro rfl
    rw [buildPeModule, hsec]
    rfl
  · rintro info rfl
    obtain ⟨hb, ⟨pdata, hp⟩, htable⟩ := hspec info rfl
    have hin : ∀ name s, info.slot name = some s → s.1 + s.2.length ≤ size := by
      intro name s hs
      obtain ⟨i, -, hat⟩ := htable name s hs
      exact hat.inside
    refine ⟨?_, pdata, hp, ?_⟩
    · intro name s hs
      obtain ⟨i, hi, hat⟩ := htable name s hs
      exact ⟨⟨i, hi, hat⟩, hat.bytes, hat.inside⟩
    · have hnew := newPe_spec hsize (by rw [hb]; exact hbase) hin hp
      simp only [buildPeModule, hsec, ok_bind, add_ok hbase, hnew, hb]
      rfl

/-- An image of 256 bytes: its headers at 0x40, and two sections, `.pdata` at 0xd0 with 16 bytes and
    `.xdata` at 0xe0, which claims 4096. -/
def sampleMem : Mem := fun off =>
  (List.lookup off
    [(0, 0x4d), (1, 0x5a), (0x3c, 0x40), (0x40, 0x50), (0x41, 0x45), (0x46, 2),
      (0x58, 0x2e), (0x59, 0x70), (0x5a, 0x64), (0x5b, 0x61), (0x5c, 0x74), (0x5d, 0x61), (0x60, 0x10), (0x64, 0xd0),
      (0x80, 0x2e), (0x81, 0x78), (0x82, 0x64), (0x83, 0x61), (0x84, 0x74), (0x85, 0x61), (0x89, 0x10),
        (0x8c, 0xe0)]).getD 0

/-- `.xdata` is cut at the end of the image, and framehop has the cut range. -/
theorem pe_sections_in_image_cut : ∃ (m : Module PeUnwindData) (pdata : Bytes) (xdata : DataAtRvaRange),
    buildPeModule sampleMem 0x140000000 0x100 = .ok (some m) ∧
      m.unwindData = .peUnwindInfo pdata none (some xdata) none ∧
    xdata.rvaRange = ⟨0xe0, 0x100⟩ ∧ xdata.data = mapped sampleMem 0xe0 0x20 := by
  have hsec : peSections sampleMem 0x140000000 0x100 =
      .ok (some ⟨0x140000000, some (0xd0, mapped sampleMem 0xd0 0x10),
        some (0xe0, mapped sampleMem 0xe0 0x20), none, none⟩) := by
    rfl
  obtain ⟨sections, hs, -, hspec⟩ := pe_sections_in_image sampleMem 0x140000000 0x100 (by decide) (by decide)
  obtain rfl := Except.ok.inj (hs.symm.trans hsec)
  obtain ⟨-, pdata, -, hbuild⟩ := hspec _ rfl
  exact ⟨_, _, _, hbuild, rfl, rfl, rfl⟩

end FramehopUnwind.Modules.Pe
