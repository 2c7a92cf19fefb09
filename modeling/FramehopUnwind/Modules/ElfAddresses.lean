/-
  FramehopUnwind.Modules.ElfAddresses — the address spaces of an ELF module
  (src/modules/elf.rs, `find_module_for_address` of vendor/framehop/src/unwinder.rs and the
  header's parse in vendor/framehop/src/dwarf.rs).

  A module keeps two kinds of addresses: runtime addresses, and link-time ones, which are
  the runtime ones minus the load bias. Its base is the bias itself, so a lookup's address
  relative to the base is the link-time one, as a `u32`.

  `EhFrameHdrParser` stands for gimli's parse of an `.eh_frame_hdr`, with what the encoding's
  specification says of its `eh_frame_ptr` as fields.

  Proved, for an image that gets a module:
  - `elf_addresses_iff`: every address of the image is found and translates to its link-time
    address iff the bias is at or below the image and the image ends within 2^32 bytes of it.
  - `ehFramePtr_agrees_iff`: the `.eh_frame` start that gimli reads is the recorded one iff
    the pointer is pc-relative or the bias is 0.
-/

import FramehopUnwind.Modules.Elf

namespace FramehopUnwind.Modules

open Unwinder Lib.Word

variable {G : Gimli}

/-! ## What the callback builds -/

/-- The runtime range of a section, from its start and length. -/
def sectionRange (start len : Nat) : Range := ⟨start, wrappingAdd start len⟩

/-- The link-time range is the runtime range minus the bias. -/
def TranslatedBy (bias : Nat) (svma avma : Range) : Prop :=
  svma.start = wrappingSub avma.start bias ∧ svma.stop = wrappingSub avma.stop bias

/-- What an image with usable unwind info has: its header, the `.eh_frame` start the header
    gives, and the end of the segment that holds it. -/
structure Sections (i : Image) (s : RawSpec) (hdr : Phdr) (ehFrameAvma ehFrameEnd : Nat) : Prop where
  hdr_eq : i.geometry.hdrPhdr = some hdr
  start : decodeEhFrameStart s.ehFrameHdr (wrappingAdd i.bias hdr.pVaddr) = some ehFrameAvma
  stop : containingSegmentEnd i.bias ehFrameAvma i.phdrs = some ehFrameEnd
  lt : ehFrameAvma < ehFrameEnd
  hdrBytes : s.ehFrameHdr = i.bytes (wrappingAdd i.bias hdr.pVaddr) hdr.pMemsz
  bytes : s.ehFrame = i.bytes ehFrameAvma (ehFrameEnd - ehFrameAvma)
  hdrSvma : s.ehFrameHdrSvma = sectionRange (wrappingSub (wrappingAdd i.bias hdr.pVaddr) i.bias) hdr.pMemsz
  svma : s.ehFrameSvma = sectionRange (wrappingSub ehFrameAvma i.bias) (ehFrameEnd - ehFrameAvma)

theorem Image.rawSpec_sections {i : Image} {key : Nat} {s : RawSpec} (h : i.rawSpec key = some s) :
    s.baseAvma = i.bias ∧ s.avma = ⟨i.geometry.avmaLo, i.geometry.avmaHi⟩ ∧
      ∃ hdr ehFrameAvma ehFrameEnd, Sections i s hdr ehFrameAvma ehFrameEnd := by
  unfold Image.rawSpec at h
  simp only at h
  split at h
  · cases h
  rename_i hdr hhdr
  split at h
  · cases h
  split at h
  · cases h
  rename_i ehFrameAvma hstart
  split at h
  · cases h
  rename_i ehFrameEnd hstop
  split at h
  · cases h
  rename_i hlt
  cases h
  exact ⟨rfl, rfl, hdr, ehFrameAvma, ehFrameEnd, hhdr, hstart, hstop, by omega, rfl, rfl, rfl, rfl⟩

/-! ## Addresses of the image -/

/-- Every address of the image is found in an unwinder that holds only its module, and the
    module's link-time base plus the relative address is the address minus the bias. -/
def Translates (i : Image) (m : UnwindModule) : Prop :=
  ∀ a, i.geometry.avmaLo ≤ a → a < i.geometry.avmaHi → ∃ rel,
    findModuleForAddress (editChunks [] (.add m)) a = some (m, rel) ∧
      wrappingAdd m.baseSvma rel = wrappingSub a i.bias

/-- The ranges of `.eh_frame_hdr` and `.eh_frame` handed to framehop are the runtime ranges of
    the sections, minus the bias. -/
def SectionsTranslate (i : Image) (s : RawSpec) : Prop :=
  ∃ hdr ehFrameAvma ehFrameEnd, Sections i s hdr ehFrameAvma ehFrameEnd ∧
    TranslatedBy i.bias s.ehFrameHdrSvma (sectionRange (wrappingAdd i.bias hdr.pVaddr) hdr.pMemsz) ∧
    TranslatedBy i.bias s.ehFrameSvma (sectionRange ehFrameAvma (ehFrameEnd - ehFrameAvma))

theorem translatedBy_sectionRange (bias start len : Nat) :
    TranslatedBy bias (sectionRange (wrappingSub start bias) len) (sectionRange start len) := by
  refine ⟨rfl, ?_⟩
  simp only [sectionRange, wrappingAdd, wrappingSub]
  omega

theorem Image.sections_translate {i : Image} {key : Nat} {s : RawSpec} (h : i.rawSpec key = some s) :
    SectionsTranslate i s := by
  obtain ⟨-, -, hdr, ehFrameAvma, ehFrameEnd, hs⟩ := Image.rawSpec_sections h
  refine ⟨hdr, ehFrameAvma, ehFrameEnd, hs, ?_, ?_⟩
  · rw [hs.hdrSvma]
    exact translatedBy_sectionRange _ _ _
  · rw [hs.svma]
    exact translatedBy_sectionRange _ _ _

/-- A module alone is found by the addresses it covers, at their distance from its base. -/
theorem find_alone {D : Type} (m : Module D) (a rel : Nat) :
    findModuleForAddress (editChunks [] (.add m)) a = some (m, rel) ↔
      m.start ≤ a ∧ Covers m a ∧ rel = a - m.baseAvma := by
  have hc : editChunks [] (.add m) = [[m]] := rfl
  have hwf : WF (editChunks [] (.add m)) := editChunks_wf wf_nil (.add m)
  rw [findModuleForAddress_iff hwf (by simp [hc])]
  constructor
  · intro h
    exact ⟨h.1.le, h.2⟩
  · intro h
    refine ⟨⟨by simp [hc], h.1, ?_⟩, h.2⟩
    intro x hx _
    rw [hc] at hx
    obtain rfl : x = m := by simpa using hx
    exact Nat.le_refl _

theorem Image.key_range {i : Image} {key : Nat} (h : i.key = some key) :
    i.geometry.avmaLo < i.geometry.avmaHi := by
  unfold Image.key at h
  simp only at h
  split at h
  · cases h
  · omega

theorem Image.translates_iff {i : Image} {s : RawSpec} (hs : i.key.bind i.rawSpec = some s) :
    Translates i (buildModule G s) ↔ i.bias ≤ i.geometry.avmaLo ∧ i.geometry.avmaHi - i.bias ≤ 2 ^ 32 := by
  obtain ⟨key, hk, hr⟩ := Option.bind_eq_some_iff.mp hs
  have hlt := Image.key_range hk
  obtain ⟨hbase, havma, -⟩ := Image.rawSpec_sections hr
  have hstart : (buildModule G s).start = i.geometry.avmaLo := congrArg Range.start havma
  have hcovers : ∀ a, Covers (buildModule G s) a ↔
      (a = i.geometry.avmaLo ∨ a < i.geometry.avmaHi) ∧ i.bias ≤ a ∧ a - i.bias < 2 ^ 32 := by
    intro a
    rw [← hbase]
    unfold Covers
    rw [hstart, show (buildModule G s).avmaRange.stop = i.geometry.avmaHi from congrArg Range.stop havma]
    rfl
  constructor
  · intro htrans
    -- the lowest address decides the first condition, the highest one the second
    obtain ⟨rel, hlow, -⟩ := htrans i.geometry.avmaLo (Nat.le_refl _) hlt
    obtain ⟨rel', hhigh, -⟩ := htrans (i.geometry.avmaHi - 1) (by omega) (by omega)
    have h1 := ((hcovers _).mp ((find_alone _ _ _).mp hlow).2.1).2
    have h2 := ((hcovers _).mp ((find_alone _ _ _).mp hhigh).2.1).2
    omega
  · intro h₀ a hlo hhi
    obtain ⟨hle, hend⟩ := h₀
    refine ⟨a - i.bias, (find_alone _ _ _).mpr ⟨hstart.trans_le hlo, (hcovers a).mpr ⟨Or.inr hhi, ?_⟩, ?_⟩, ?_⟩
    · omega
    · rw [← hbase]
      rfl
    · have hzero : (buildModule G s).baseSvma = 0 := rfl
      rw [hzero]
      simp only [wrappingAdd, wrappingSub]
      omega

/-- The image's addresses are found and translate to their link-time addresses, and its
    sections' ranges are translated likewise, iff the bias is at or below the image and the image
    ends within 2^32 bytes of it, however short it is. -/
theorem elf_addresses_iff (i : Image) (s : RawSpec) (hs : i.key.bind i.rawSpec = some s) :
    Translates i (buildModule G s) ∧ SectionsTranslate i s ↔
      i.bias ≤ i.geometry.avmaLo ∧ i.geometry.avmaHi - i.bias ≤ 2 ^ 32 := by
  rw [Image.translates_iff hs]
  obtain ⟨key, -, hr⟩ := Option.bind_eq_some_iff.mp hs
  exact and_iff_left (Image.sections_translate hr)

theorem noEntries_wider (a b : BaseAddresses) (_ : a.Le b)
    (_ : ∀ e ∈ ([] : List (Option Entry)), e ≠ none ∧ e ≠ some (.fde none)) : ([] : List (Option Entry)) = [] := rfl

/-- gimli over sections without entries. -/
def noEntries : Gimli where
  entries _ _ _ := []
  entries_wider _ _ := noEntries_wider
  fdeFromOffset _ _ _ _ := none
  unwindInfoForAddress _ _ _ _ _ := none
  hdrTableLookup _ _ _ := none

/-- An object of one loadable segment, with a header of these bytes in it. -/
def sampleImage (bias vaddr : Nat) (hdr : Bytes) : Image where
  bias := bias
  phdrs := [⟨ptLoad, 5, vaddr, 0x4000⟩, ⟨ptGnuEhFrame, 4, vaddr + 0x100, hdr.length⟩]
  name := []
  memory a := hdr.getD (a - (bias + vaddr + 0x100)) 0

/-- A pc-relative `eh_frame_ptr`, to the end of the header; its table is empty. -/
def pcrelHdr : Bytes := [1, 0x1b, 3, 0x3b, 8, 0, 0, 0, 0, 0, 0, 0]

/-- A position-independent object, loaded where the loader likes. -/
theorem elf_addresses_iff_pie : ∃ s, (sampleImage 0x7f0000000000 0 pcrelHdr).key.bind
      (sampleImage 0x7f0000000000 0 pcrelHdr).rawSpec = some s ∧
    Translates (sampleImage 0x7f0000000000 0 pcrelHdr) (buildModule noEntries s) := by
  obtain ⟨s, hs⟩ := Option.isSome_iff_exists.mp (show ((sampleImage 0x7f0000000000 0 pcrelHdr).key.bind
    (sampleImage 0x7f0000000000 0 pcrelHdr).rawSpec).isSome = true by decide +kernel)
  exact ⟨s, hs, ((elf_addresses_iff _ s hs).mpr (by decide)).1⟩

/-- An object linked 4 GiB up and loaded there: it is 16 KiB long, and not all of its addresses
    are found. -/
theorem linked_high_not_found :
    ∃ s, (sampleImage 0 0x100000000 pcrelHdr).key.bind (sampleImage 0 0x100000000 pcrelHdr).rawSpec = some s ∧
      (sampleImage 0 0x100000000 pcrelHdr).geometry.avmaHi - (sampleImage 0 0x100000000 pcrelHdr).geometry.avmaLo <
        2 ^ 32 ∧
      ¬ Translates (sampleImage 0 0x100000000 pcrelHdr) (buildModule noEntries s) := by
  obtain ⟨s, hs⟩ := Option.isSome_iff_exists.mp (show ((sampleImage 0 0x100000000 pcrelHdr).key.bind
    (sampleImage 0 0x100000000 pcrelHdr).rawSpec).isSome = true by decide +kernel)
  refine ⟨s, hs, by decide, ?_⟩
  rw [Image.translates_iff hs]
  decide

/-! ## Two readings of the header -/

/-- gimli's `Pointer`: an address, or where the address is stored. -/
inductive Pointer where
  | direct (address : Nat)
  | indirect (address : Nat)
  deriving DecidableEq, Repr

/-- The size in bytes of a fixed-size format, and whether it is signed. -/
def lsbFormat : Nat → Option (Nat × Bool)
  | 0x00 => some (8, false)
  | 0x02 => some (2, false)
  | 0x03 => some (4, false)
  | 0x04 => some (8, false)
  | 0x0a => some (2, true)
  | 0x0b => some (4, true)
  | 0x0c => some (8, true)
  | _ => none

/-- The value of an encoded field in its format. -/
def lsbValue (field : Bytes) (fmt : Nat) : Option Int :=
  match lsbFormat fmt with
  | none => none
  | some (size, signed) =>
    if size ≤ field.length then
      let v : Int := leBytes (field.take size)
      some (if signed then v.bmod (2 ^ (8 * size)) else v)
    else none

/-- gimli's parse of an `.eh_frame_hdr` with 8-byte addresses: its `eh_frame_ptr`. An absolute
    pointer that it resolves is the field's value, a pc-relative one is added to the link-time
    address of the field. -/
structure EhFrameHdrParser where
  parse : Bytes → BaseAddresses → Option Pointer
  absolute : ∀ enc fdeCountEnc tableEnc field bases p v,
    parse (1 :: enc :: fdeCountEnc :: tableEnc :: field) bases = some (.direct p) → enc.toNat &&& 0x70 = 0 →
    lsbValue field (enc.toNat &&& 0x0f) = some v → (p : Int) = v % 2 ^ 64
  pcrel : ∀ enc fdeCountEnc tableEnc field bases p v start,
    parse (1 :: enc :: fdeCountEnc :: tableEnc :: field) bases = some (.direct p) → enc.toNat &&& 0x70 = 0x10 →
    lsbValue field (enc.toNat &&& 0x0f) = some v → bases.ehFrameHdr = some start → (p : Int) = (start + 4 + v) % 2 ^ 64

theorem leBytes_lt (b : Bytes) : leBytes b < 256 ^ b.length := by
  induction b with
  | nil => simp [leBytes]
  | cons x b ih =>
    have hx := x.toNat_lt
    have hcons : leBytes (x :: b) = x.toNat + 256 * leBytes b := rfl
    rw [hcons, List.length_cons, Nat.pow_succ]
    omega

theorem getBytes_map {b : Bytes} {n v size : Nat} {f : Nat → Nat}
    (h : ((getBytes b n).map fun x => (f (leBytes x), n)) = some (v, size)) :
    n ≤ b.length ∧ v = f (leBytes (b.take n)) ∧ leBytes (b.take n) < 256 ^ n := by
  unfold getBytes at h
  split at h
  · rename_i hn
    cases h
    refine ⟨hn, rfl, ?_⟩
    have := leBytes_lt (b.take n)
    rwa [List.length_take_of_le hn] at this
  · cases h

theorem lsbValue_eq {b : Bytes} {fmt size : Nat} {signed : Bool} (hfmt : lsbFormat fmt = some (size, signed))
    (hlen : size ≤ b.length) :
    lsbValue b fmt =
      some (if signed then (leBytes (b.take size) : Int).bmod (2 ^ (8 * size)) else leBytes (b.take size)) := by
  simp only [lsbValue, hfmt, hlen, if_true]

/-- `decode_value` gives the field's value as a word. -/
theorem decodeValue_lsb {b : Bytes} {fmt v size : Nat} (h : decodeValue b fmt = some (v, size)) :
    ∃ x, lsbValue b fmt = some x ∧ (v : Int) % 2 ^ 64 = x % 2 ^ 64 := by
  unfold decodeValue at h
  split at h
  · obtain ⟨hn, rfl, -⟩ := getBytes_map (f := id) h
    exact ⟨_, lsbValue_eq rfl hn, rfl⟩
  · obtain ⟨hn, rfl, hlt⟩ := getBytes_map (f := signExtend 16) h
    refine ⟨_, lsbValue_eq rfl hn, ?_⟩
    simp only [signExtend, Int.bmod, if_true]
    split <;> split <;> omega
  · obtain ⟨hn, rfl, -⟩ := getBytes_map (f := id) h
    exact ⟨_, lsbValue_eq rfl hn, rfl⟩
  · obtain ⟨hn, rfl, hlt⟩ := getBytes_map (f := signExtend 32) h
    refine ⟨_, lsbValue_eq rfl hn, ?_⟩
    simp only [signExtend, Int.bmod, if_true]
    split <;> split <;> omega
  · obtain ⟨hn, rfl, -⟩ := getBytes_map (f := id) h
    exact ⟨_, lsbValue_eq rfl hn, rfl⟩
  · obtain ⟨hn, rfl, hlt⟩ := getBytes_map (f := id) h
    refine ⟨_, lsbValue_eq rfl hn, ?_⟩
    simp only [Int.bmod, if_true, id]
    split <;> omega
  · obtain ⟨hn, rfl, -⟩ := getBytes_map (f := id) h
    exact ⟨_, lsbValue_eq rfl hn, rfl⟩
  · cases h

/-- The encodings of `eh_frame_ptr` that the callback can use. -/
theorem decodeEhFrameStart_cases {b : Bytes} {hdr a : Nat} (h : decodeEhFrameStart b hdr = some a) :
    ∃ enc fdeCountEnc tableEnc field v size, b = 1 :: enc :: fdeCountEnc :: tableEnc :: field ∧
      decodeValue field (enc.toNat &&& 0x0f) = some (v, size) ∧
      (enc.toNat &&& 0x70 = 0 ∧ a = wrappingAdd 0 v ∨
        enc.toNat &&& 0x70 = 0x10 ∧ a = wrappingAdd (wrappingAdd hdr 4) v) := by
  unfold decodeEhFrameStart at h
  split at h
  · rename_i version enc fdeCountEnc tableEnc field
    split at h
    · cases h
    rename_i hversion
    obtain rfl : version = 1 := by simpa using hversion
    simp only at h
    split at h
    · cases h
    rename_i v size hv
    split at h
    · rename_i happ
      exact ⟨enc, fdeCountEnc, tableEnc, field, v, size, rfl, hv, Or.inl ⟨happ, (Option.some.inj h).symm⟩⟩
    · rename_i happ
      exact ⟨enc, fdeCountEnc, tableEnc, field, v, size, rfl, hv, Or.inr ⟨happ, (Option.some.inj h).symm⟩⟩
    · cases h
  · cases h

theorem containingSegmentEnd_lt {bias addr stop : Nat} {phdrs : List Phdr}
    (h : containingSegmentEnd bias addr phdrs = some stop) : stop < 2 ^ 64 := by
  induction phdrs with
  | nil => cases h
  | cons ph phdrs ih =>
    simp only [containingSegmentEnd] at h
    split at h
    · cases h
      exact Nat.mod_lt _ (by decide)
    · exact ih h

/-- The header's `eh_frame_ptr` is relative to its own address. -/
def PcRelative (hdr : Bytes) : Prop := ∃ enc, hdr[1]? = some enc ∧ enc.toNat &&& 0x70 = 0x10

/-- The `.eh_frame` start `p` that the header's table counts from is the recorded one, and an FDE
    at the link-time address `x` has its bytes at the offset counted from `p`. -/
def EhFramePtrAgrees (i : Image) (ehFrame : Bytes) (bases : BaseAddresses) (p : Nat) : Prop :=
  bases.ehFrame = some p ∧
    ∀ x, wrappingSub x p < ehFrame.length → ehFrame[wrappingSub x p]? = some (i.memory (wrappingAdd x i.bias))

/-- Where the two readings of the header meet. -/
theorem ehFramePtr_eq_iff {P : EhFrameHdrParser} {i : Image} {s : RawSpec} {hdr : Phdr} {ehFrameAvma ehFrameEnd p : Nat}
    {bases : BaseAddresses} (hs : Sections i s hdr ehFrameAvma ehFrameEnd)
    (hbase : bases.ehFrameHdr = some s.ehFrameHdrSvma.start) (hp : P.parse s.ehFrameHdr bases = some (.direct p)) :
    p = wrappingSub ehFrameAvma i.bias ↔ PcRelative s.ehFrameHdr ∨ i.bias % 2 ^ 64 = 0 := by
  obtain ⟨enc, fdeCountEnc, tableEnc, field, v, size, hb, hv, happ⟩ := decodeEhFrameStart_cases hs.start
  obtain ⟨x, hx, hvx⟩ := decodeValue_lsb hv
  have hrel : PcRelative s.ehFrameHdr ↔ enc.toNat &&& 0x70 = 0x10 := by simp [PcRelative, hb]
  rw [hrel]
  rw [hb] at hp
  rcases happ with ⟨happ, rfl⟩ | ⟨happ, rfl⟩
  · have hpx := P.absolute _ _ _ _ _ _ _ hp happ hx
    rw [happ]
    simp only [wrappingAdd, wrappingSub]
    omega
  · have hpx := P.pcrel _ _ _ _ _ _ _ _ hp happ hx hbase
    rw [hs.hdrSvma] at hpx
    simp only [happ, true_or, iff_true, sectionRange, wrappingAdd, wrappingSub] at hpx ⊢
    omega

/-- An FDE's bytes, at its offset from the start of the section. -/
theorem ehFrame_bytes {i : Image} {s : RawSpec} {hdr : Phdr} {ehFrameAvma ehFrameEnd : Nat}
    (hs : Sections i s hdr ehFrameAvma ehFrameEnd) (x : Nat)
    (hx : wrappingSub x (wrappingSub ehFrameAvma i.bias) < s.ehFrame.length) :
    s.ehFrame[wrappingSub x (wrappingSub ehFrameAvma i.bias)]? = some (i.memory (wrappingAdd x i.bias)) := by
  have hend := containingSegmentEnd_lt hs.stop
  have hlt := hs.lt
  rw [hs.bytes] at hx ⊢
  simp only [Image.bytes, List.length_map, List.length_range] at hx
  have haddr : ehFrameAvma + wrappingSub x (wrappingSub ehFrameAvma i.bias) = wrappingAdd x i.bias := by
    simp only [wrappingAdd, wrappingSub] at hx ⊢
    omega
  rw [Image.bytes, List.getElem?_map, List.getElem?_range hx, Option.map_some, haddr]

/-- The `.eh_frame` start that gimli reads from a module's header is the recorded one, and FDE
    offsets from it find the FDEs' bytes, iff the header's pointer is pc-relative or the image is
    loaded where it was linked. -/
theorem ehFramePtr_agrees_iff (P : EhFrameHdrParser) (i : Image) (m : UnwindModule) (h : i.module G = some m)
    (hdr ehFrame : Bytes) (bases : BaseAddresses) (hdata : m.unwindData = .ehFrameHdrAndEhFrame hdr ehFrame bases)
    (p : Nat) (hp : P.parse hdr bases = some (.direct p)) :
    EhFramePtrAgrees i ehFrame bases p ↔ PcRelative hdr ∨ i.bias % 2 ^ 64 = 0 := by
  obtain ⟨s, hs, rfl⟩ := Option.map_eq_some_iff.mp h
  obtain ⟨key, -, hr⟩ := Option.bind_eq_some_iff.mp hs
  obtain ⟨-, -, phdr, ehFrameAvma, ehFrameEnd, hsec⟩ := Image.rawSpec_sections hr
  cases hdata
  rw [← ehFramePtr_eq_iff hsec rfl hp]
  have hstart : s.ehFrameSvma.start = wrappingSub ehFrameAvma i.bias := by
    rw [hsec.svma]
    rfl
  constructor
  · intro h₀
    obtain ⟨hbase, -⟩ := h₀
    rw [← hstart]
    exact (Option.some.inj hbase).symm
  · rintro rfl
    refine ⟨congrArg some hstart, ?_⟩
    intro x hx
    exact ehFrame_bytes hsec x hx

/-- The parser that follows the specification to the letter. -/
def lsbParser : EhFrameHdrParser where
  parse
    | 1 :: enc :: _ :: _ :: field, bases =>
      let base : Option Nat := match enc.toNat &&& 0x70 with
        | 0x00 => some 0
        | 0x10 => bases.ehFrameHdr.map (· + 4)
        | _ => none
      match lsbValue field (enc.toNat &&& 0x0f), base with
      | some v, some base =>
        let address := ((base + v) % 2 ^ 64).toNat
        some (if enc.toNat &&& 0x80 = 0 then .direct address else .indirect address)
      | _, _ => none
    | _, _ => none
  absolute enc fdeCountEnc tableEnc field bases p v h happ hv := by
    simp only [happ, hv] at h
    split at h
    · injection h with h
      injection h with h
      omega
    · cases h
  pcrel enc fdeCountEnc tableEnc field bases p v start h happ hv hstart := by
    simp only [happ, hv, hstart, Option.map_some] at h
    split at h
    · injection h with h
      injection h with h
      omega
    · cases h

/-- The encoding of a module's `eh_frame_ptr`, and what the two readings of it give. -/
def readings (P : EhFrameHdrParser) (m : UnwindModule) : Option UInt8 × Option Pointer × Option Nat :=
  match m.unwindData with
  | .ehFrameHdrAndEhFrame hdr _ bases => (hdr[1]?, P.parse hdr bases, bases.ehFrame)
  | _ => (none, none, none)

theorem readings_direct {P : EhFrameHdrParser} {i : Image} {enc : UInt8} {p : Nat} {start : Option Nat}
    (h : (i.module G).map (readings P) = some (some enc, some (.direct p), start)) :
    ∃ m hdr ehFrame bases, i.module G = some m ∧ m.unwindData = .ehFrameHdrAndEhFrame hdr ehFrame bases ∧
      hdr[1]? = some enc ∧ P.parse hdr bases = some (.direct p) ∧ bases.ehFrame = start := by
  obtain ⟨m, hm, hr⟩ := Option.map_eq_some_iff.mp h
  unfold readings at hr
  split at hr
  · rename_i hdr ehFrame bases hdata
    simp only [Prod.mk.injEq] at hr
    exact ⟨m, hdr, ehFrame, bases, hm, hdata, hr⟩
  · cases hr

/-- A pc-relative pointer, in an object loaded at a bias. -/
theorem ehFramePtr_agrees_iff_pie :
    ∃ m hdr ehFrame bases, (sampleImage 0x10000 0 pcrelHdr).module noEntries = some m ∧
      m.unwindData = .ehFrameHdrAndEhFrame hdr ehFrame bases ∧ lsbParser.parse hdr bases = some (.direct 0x10c) ∧
      EhFramePtrAgrees (sampleImage 0x10000 0 pcrelHdr) ehFrame bases 0x10c := by
  obtain ⟨m, hdr, ehFrame, bases, hm, hdata, henc, hp, -⟩ := readings_direct
    (show ((sampleImage 0x10000 0 pcrelHdr).module noEntries).map (readings lsbParser) =
      some (some 0x1b, some (.direct 0x10c), some 0x10c) by decide +kernel)
  refine ⟨m, hdr, ehFrame, bases, hm, hdata, hp, (ehFramePtr_agrees_iff _ _ m hm _ _ _ hdata _ hp).mpr ?_⟩
  exact Or.inl ⟨0x1b, henc, by decide⟩

/-- An absolute `eh_frame_ptr` of `0x12000`, as relocated at load time. -/
def absoluteHdr : Bytes := [1, 0x03, 3, 0x3b, 0x00, 0x20, 0x01, 0, 0, 0, 0, 0]

/-- With an absolute pointer the recorded start is `0x2000` and the table's is `0x12000`. -/
theorem absolute_ehFramePtr_differs :
    ∃ m hdr ehFrame bases, (sampleImage 0x10000 0 absoluteHdr).module noEntries = some m ∧
      m.unwindData = .ehFrameHdrAndEhFrame hdr ehFrame bases ∧ lsbParser.parse hdr bases = some (.direct 0x12000) ∧
      ¬ EhFramePtrAgrees (sampleImage 0x10000 0 absoluteHdr) ehFrame bases 0x12000 := by
  obtain ⟨m, hdr, ehFrame, bases, hm, hdata, -, hp, hstart⟩ := readings_direct
    (show ((sampleImage 0x10000 0 absoluteHdr).module noEntries).map (readings lsbParser) =
      some (some 0x03, some (.direct 0x12000), some 0x2000) by decide +kernel)
  refine ⟨m, hdr, ehFrame, bases, hm, hdata, hp, ?_⟩
  intro hagrees
  obtain ⟨hbase, -⟩ := hagrees
  rw [hstart] at hbase
  cases hbase

end FramehopUnwind.Modules
