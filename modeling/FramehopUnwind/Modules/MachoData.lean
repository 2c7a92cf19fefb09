/-
  FramehopUnwind.Modules.MachoData — the unwind data of a Mach-O image (`build_image` in
  src/modules/macho.rs, and the Mach-O branch of `ModuleUnwindDataInternal::new` in
  vendor/framehop/src/unwinder.rs).

  The second pass over the load commands keeps the last section of each name and the last
  `__TEXT` segment, whose bytes are the image's memory, read in place. Sums that the source leaves
  unchecked wrap, as in a release build.

  Proved:
  - `textBytes_of_image`: both passes take the same `__TEXT` segment, so its bytes start at the base.
  - `macho_analysis_sees_code`: what instruction analysis is given for an address is the memory of
    the function around it, and the stub sections are told as the image has them.
-/

import FramehopUnwind.Modules.Macho
import FramehopUnwind.Unwinder.WithCache

namespace FramehopUnwind.Modules.Macho

open Unwinder Unwinder.Compact Lib.Word

/-! ## Sections -/

/-- `__text` -/
def textSectionName : Name := [0x5f, 0x5f, 0x74, 0x65, 0x78, 0x74]

/-- `__stubs` -/
def stubsName : Name := [0x5f, 0x5f, 0x73, 0x74, 0x75, 0x62, 0x73]

/-- `__stub_helper` -/
def stubHelperName : Name := [0x5f, 0x5f, 0x73, 0x74, 0x75, 0x62, 0x5f, 0x68, 0x65, 0x6c, 0x70, 0x65, 0x72]

/-- `__got` -/
def gotName : Name := [0x5f, 0x5f, 0x67, 0x6f, 0x74]

def Image.sections (i : Image) : List Section64 := i.segments.flatMap Segment.sections

/-- The last section of a name is the one that is kept. -/
def Image.lastSection (i : Image) (name : Name) : Option Section64 :=
  (i.sections.filter fun sec => nameEq sec.sectname name).getLast?

def Section64.svma (sec : Section64) : Range := ⟨sec.addr, wrappingAdd sec.addr sec.size⟩

/-- The bytes mapped at `ptr`. -/
def mapped (mem : Nat → UInt8) (ptr len : Nat) : Bytes := (List.range len).map fun k => mem (wrappingAdd ptr k)

def Image.sectionBytes (mem : Nat → UInt8) (i : Image) (sec : Section64) : Bytes :=
  mapped mem (wrappingAdd sec.addr i.slide) sec.size

/-- `base_addresses_for_sections`; the sections a Mach-O image does not have are at 0. -/
def Image.baseAddresses (i : Image) : BaseAddresses where
  ehFrame := startAddr ((i.lastSection ehFrameName).map Section64.svma)
  ehFrameHdr := startAddr none
  text := startAddr ((i.lastSection textSectionName).map Section64.svma)
  got := startAddr ((i.lastSection gotName).map Section64.svma)

def Image.textData (mem : Nat → UInt8) (i : Image) : Option TextByteData :=
  i.texts.getLast?.map fun text =>
    ⟨mapped mem (wrappingAdd text.vmaddr i.slide) text.vmsize, ⟨text.vmaddr, wrappingAdd text.vmaddr text.vmsize⟩⟩

/-- What `Module::new` makes of the sections of an image with the base `baseSvma`. -/
def Image.unwindData (G : Gimli) (mem : Nat → UInt8) (baseSvma : Nat) (i : Image) : UnwindData :=
  let ehFrame := (i.lastSection ehFrameName).map (i.sectionBytes mem)
  match i.lastSection unwindInfoName with
  | some unwindInfo =>
    .compactUnwindInfoAndEhFrame
      { unwindInfo := i.sectionBytes mem unwindInfo
        ehFrame := ehFrame
        stubsSvma := (i.lastSection stubsName).map Section64.svma
        stubHelperSvma := (i.lastSection stubHelperName).map Section64.svma
        baseAddresses := i.baseAddresses
        textData := i.textData mem }
  | none =>
    match ehFrame with
    | none => .dwarf .none
    | some ehFrame =>
      match DwarfCfiIndex.tryNew (G.entries .ehFrame ehFrame i.baseAddresses) baseSvma with
      | .ok index => .dwarf (.dwarfCfiIndexAndEhFrame index ehFrame i.baseAddresses)
      | .error _ => .dwarf .none

/-- The data of `build_image`'s module: its base is the last `__TEXT`'s address. -/
def machoData (G : Gimli) (mem : Nat → UInt8) (i : Image) : UnwindData :=
  i.unwindData G mem ((i.texts.getLast?.map Segment.vmaddr).getD 0)

/-! ## The code that analysis sees -/

variable {G : Gimli} {mem : Nat → UInt8} {i : Image} {m : Module UnwindData} {d : CompactUnwindInfoAndEhFrame}

theorem mapped_length (ptr len : Nat) : (mapped mem ptr len).length = len := by simp [mapped]

theorem module_of_image (h : i.module (machoData G mem) = some m) : ∃ text, i.texts.getLast? = some text ∧
    m.baseAvma = wrappingAdd text.vmaddr i.slide ∧ m.baseSvma = text.vmaddr ∧ m.unwindData = machoData G mem i := by
  unfold Image.module buildImage at h
  cases htext : i.texts.getLast? with
  | none =>
    rw [htext] at h
    cases h
  | some text =>
    rw [htext] at h
    simp only [Option.map_some, Option.bind_some] at h
    split at h
    · cases h
      exact ⟨text, rfl, rfl, rfl, rfl⟩
    · cases h

/-- The table's data, where the image has one. -/
structure FromImage (mem : Nat → UInt8) (i : Image) (d : CompactUnwindInfoAndEhFrame) : Prop where
  stubs : d.stubsSvma = (i.lastSection stubsName).map Section64.svma
  stubHelper : d.stubHelperSvma = (i.lastSection stubHelperName).map Section64.svma
  text : d.textData = i.textData mem

theorem fromImage (h : machoData G mem i = .compactUnwindInfoAndEhFrame d) : FromImage mem i d := by
  unfold machoData Image.unwindData at h
  dsimp only at h
  split at h
  · cases h
    exact ⟨rfl, rfl, rfl⟩
  · split at h
    · cases h
    · split at h <;> cases h

theorem textBytes_of_image {text : Segment} (htext : i.texts.getLast? = some text) (hd : FromImage mem i d) :
    (d.unwinder text.vmaddr).textBytes = some ⟨0, mapped mem (wrappingAdd text.vmaddr i.slide) text.vmsize⟩ := by
  have hdata : d.textData = some ⟨mapped mem (wrappingAdd text.vmaddr i.slide) text.vmsize,
      ⟨text.vmaddr, wrappingAdd text.vmaddr text.vmsize⟩⟩ := by
    rw [hd.text, Image.textData, htext]
    rfl
  simp [CompactUnwindInfoAndEhFrame.unwinder, textBytesOf, hdata]

theorem wrappingAdd_assoc (a b c : Nat) : wrappingAdd (wrappingAdd a b) c = wrappingAdd a (b + c) := by
  unfold wrappingAdd
  omega

theorem mapped_wrappingAdd (a b len : Nat) : mapped mem (wrappingAdd a b) len = mapped mem (a + b) len := by
  unfold mapped
  congr 1
  funext k
  rw [wrappingAdd_assoc, wrappingAdd, wrappingAdd, Nat.add_assoc]

theorem find_rel {chunks : Chunks UnwindData} {pc rel : Nat} (h : findModuleForAddress chunks pc = some (m, rel)) :
    m.baseAvma + rel = pc := by
  unfold findModuleForAddress at h
  split at h
  · cases h
  · split at h
    · cases h
    · split at h
      · cases h
        omega
      · cases h

theorem getRange_mapped {ptr len start stop : Nat} (hstart : start ≤ stop) (hstop : stop ≤ len) :
    getRange (mapped mem ptr len) start stop = some (mapped mem (wrappingAdd ptr start) (stop - start)) := by
  unfold getRange
  rw [if_pos ⟨hstart, by rw [mapped_length]; exact hstop⟩]
  congr 1
  apply List.ext_getElem
  · simp only [List.length_take, List.length_drop, mapped_length]
    omega
  · intro k hk hk'
    simp only [mapped, List.getElem_take, List.getElem_drop, List.getElem_map, List.getElem_range, wrappingAdd_assoc]

/-- The bytes of a function are there exactly if it lies in the `__TEXT` segment. -/
theorem functionBytes_of_image {text : Segment} (htext : i.texts.getLast? = some text) (hd : FromImage mem i d)
    (f : Function) (hf : f.startAddress ≤ f.endAddress) :
    functionBytes (d.unwinder text.vmaddr).textBytes f =
      if f.endAddress ≤ text.vmsize then
        some (mapped mem (wrappingAdd (wrappingAdd text.vmaddr i.slide) f.startAddress) (f.endAddress - f.startAddress))
      else none := by
  rw [textBytes_of_image htext hd]
  simp only [functionBytes, Option.bind_some, Nat.zero_le, and_self, if_true, Nat.sub_zero]
  split
  case isTrue hle => exact getRange_mapped hf hle
  case isFalse hgt =>
    unfold getRange
    rw [if_neg (by rw [mapped_length]; omega)]

/-- A section in the 4 GiB from the base on. -/
structure Near (base : Nat) (sec : Section64) : Prop where
  low : base ≤ sec.addr
  high : sec.addr + sec.size < base + 2 ^ 32
  small : sec.addr + sec.size < 2 ^ 64

theorem inRange_section {base rel : Nat} {sec : Section64} (h : Near base sec) :
    inRange (relativeRange (some sec.svma) base) rel = true ↔
      sec.addr ≤ base + rel ∧ base + rel < sec.addr + sec.size := by
  have hlow := h.low
  have hhigh := h.high
  have hsmall := h.small
  have hstart : wrappingSub sec.addr base % 2 ^ 32 = sec.addr - base := by
    unfold wrappingSub
    omega
  have hstop : wrappingSub (wrappingAdd sec.addr sec.size) base % 2 ^ 32 = sec.addr + sec.size - base := by
    unfold wrappingSub wrappingAdd
    omega
  simp only [inRange, relativeRange, Section64.svma, hstart, hstop, Bool.and_eq_true, decide_eq_true_eq]
  omega

/-- What the compact unwinder is given for an address in a Mach-O image is what is mapped there: for
    a function around the address that lies in `__TEXT`, and for no other, it has the function's
    bytes, and they are the memory from as many bytes before the address as the function's start is
    on to the function's end; and it takes the address for one in a stub section exactly if that
    section of the image covers it. -/
theorem macho_analysis_sees_code (hm : i.module (machoData G mem) = some m)
    (hd : m.unwindData = .compactUnwindInfoAndEhFrame d)
    {chunks : Chunks UnwindData} {pc rel : Nat} (hfind : findModuleForAddress chunks pc = some (m, rel)) :
    (∀ f : Function, f.startAddress ≤ rel → rel < f.endAddress →
      functionBytes (d.unwinder m.baseSvma).textBytes f =
        if f.endAddress ≤ ((i.texts.getLast?.map Segment.vmsize).getD 0) then
          some (mapped mem (pc - (rel - f.startAddress)) (f.endAddress - f.startAddress))
        else none) ∧
    (∀ sec, i.lastSection stubsName = some sec → Near m.baseSvma sec →
      (inRange (d.unwinder m.baseSvma).stubsRange rel = true ↔
        sec.addr ≤ m.baseSvma + rel ∧ m.baseSvma + rel < sec.addr + sec.size)) ∧
    ∀ sec, i.lastSection stubHelperName = some sec → Near m.baseSvma sec →
      (inRange (d.unwinder m.baseSvma).stubHelperRange rel = true ↔
        sec.addr ≤ m.baseSvma + rel ∧ m.baseSvma + rel < sec.addr + sec.size) := by
  obtain ⟨text, htext, havma, hsvma, hdata⟩ := module_of_image hm
  have himage : FromImage mem i d := fromImage (hdata.symm.trans hd)
  rw [hsvma]
  refine ⟨?_, ?_, ?_⟩
  · intro f hstart hend
    have hpc := find_rel hfind
    have hplace : pc - (rel - f.startAddress) = m.baseAvma + f.startAddress := by omega
    rw [functionBytes_of_image htext himage f (by omega), hplace, mapped_wrappingAdd, havma, htext]
    rfl
  · intro sec hsec hnear
    have hstubs : (d.unwinder text.vmaddr).stubsRange = relativeRange (some sec.svma) text.vmaddr := by
      simp [CompactUnwindInfoAndEhFrame.unwinder, himage.stubs, hsec]
    rw [hstubs]
    exact inRange_section hnear
  · intro sec hsec hnear
    have hhelper : (d.unwinder text.vmaddr).stubHelperRange = relativeRange (some sec.svma) text.vmaddr := by
      simp [CompactUnwindInfoAndEhFrame.unwinder, himage.stubHelper, hsec]
    rw [hhelper]
    exact inRange_section hnear

/-- An image with a table and stubs, mapped at 0x10000. -/
def tableImage : Image :=
  ⟨[.segment64 ⟨textName ++ List.replicate 10 0, 0x1000, 0x2000,
    [⟨unwindInfoName ++ List.replicate 3 0, 0x2f00, 16⟩, ⟨stubsName ++ List.replicate 9 0, 0x2000, 0x60⟩]⟩], 0xf000⟩

def imageMemory : Nat → UInt8 := UInt8.ofNat

def tableData : CompactUnwindInfoAndEhFrame where
  unwindInfo := mapped imageMemory 0x11f00 16
  ehFrame := none
  stubsSvma := some ⟨0x2000, 0x2060⟩
  stubHelperSvma := none
  baseAddresses := tableImage.baseAddresses
  textData := some ⟨mapped imageMemory 0x10000 0x2000, ⟨0x1000, 0x3000⟩⟩

def tableModule : Module UnwindData :=
  ⟨⟨0x10000, 0x12000⟩, 0x10000, 0x1000, machoData trampolineGimli imageMemory tableImage⟩

theorem tableModule_data : tableModule.unwindData = .compactUnwindInfoAndEhFrame tableData := rfl

/-- At 0x10120, in a function from 0x10100 to 0x10180; the stubs are not near it. -/
theorem macho_analysis_sees_code_table :
    functionBytes (tableData.unwinder 0x1000).textBytes ⟨0x100, 0x180, 0⟩ = some (mapped imageMemory 0x10100 0x80) ∧
      inRange (tableData.unwinder 0x1000).stubsRange 0x120 = false := by
  obtain ⟨hcode, hstubs, -⟩ :=
    macho_analysis_sees_code (show tableImage.module _ = some tableModule from rfl) tableModule_data
    (show findModuleForAddress [[tableModule]] 0x10120 = some (tableModule, 0x120) from rfl)
  refine ⟨hcode ⟨0x100, 0x180, 0⟩ (by decide) (by decide), ?_⟩
  rw [Bool.eq_false_iff]
  intro h
  have hin := (hstubs _ rfl ⟨by decide, by decide, by decide⟩).mp h
  exact absurd hin.1 (by decide)

end FramehopUnwind.Modules.Macho
