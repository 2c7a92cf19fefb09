/-
  FramehopUnwind.Modules.MachoKeys — the key an image is added and removed under
  (src/modules/macho.rs: image_key, build_image, and the two callbacks).

  The functions walk the load commands from the mapped header, each command `cmdsize` after the
  one before: `image_key` returns at the first `__TEXT`; the first pass of `build_image`
  overwrites what it found until the last. They are here as the loops they are; `Macho` has what
  they compute of the list of commands.

  Proved:
  - `imageKey_image` / `buildImage_image`: what the loops compute.
  - `image_keys_agree_iff`: the keys agree iff the first and the last `__TEXT` are at one address,
    and then an image's remove event takes the module its add event published.
  - `two_texts_leave_module`: an image with two of them is published for good.
-/

import FramehopUnwind.Modules.Macho

namespace FramehopUnwind.Modules.Macho

open Unwinder Lib.Word

/-! ## The loops over the header -/

def lcSegment64 : Nat := 0x19

/-- What the image's memory holds at a command: its fixed part, and the segment command there. -/
structure RawCommand where
  cmd : Nat
  cmdsize : Nat
  seg : Segment

/-- `LC_SEGMENT_64` with the name `__TEXT`. -/
def RawCommand.isText (lc : RawCommand) : Bool := lc.cmd == lcSegment64 && nameEq lc.seg.segname textName

/-- The loop of `image_key`, with `n` commands to go from `p` on. -/
def imageKeyLoop (mem : Nat → RawCommand) (slide : Nat) : (n p : Nat) → Option Nat
  | 0, _ => none
  | n + 1, p =>
    let lc := mem p
    if lc.isText then some (wrappingAdd lc.seg.vmaddr slide) else imageKeyLoop mem slide n (p + lc.cmdsize)

/-- The first pass of `build_image`: `text_vmaddr` and `text_vmsize`. -/
def firstPass (mem : Nat → RawCommand) : (n p : Nat) → Option Nat × Nat → Option Nat × Nat
  | 0, _, text => text
  | n + 1, p, text =>
    let lc := mem p
    firstPass mem n (p + lc.cmdsize) (if lc.isText then (some lc.seg.vmaddr, lc.seg.vmsize) else text)

/-- Whether `unwind_info` and `eh_frame` are there, after one more section. -/
def seeSection (found : Bool × Bool) (sec : Section64) : Bool × Bool :=
  if nameEq sec.sectname unwindInfoName then (true, found.2)
  else if nameEq sec.sectname ehFrameName then (found.1, true)
  else found

/-- The second pass of `build_image`, of which framehop's data comes from `data`. -/
def secondPass (mem : Nat → RawCommand) : (n p : Nat) → Bool × Bool → Bool × Bool
  | 0, _, found => found
  | n + 1, p, found =>
    let lc := mem p
    secondPass mem n (p + lc.cmdsize) (if lc.cmd = lcSegment64 then lc.seg.sections.foldl seeSection found else found)

/-- A header as dyld passes it, with the memory after it. -/
structure Header where
  addr : Nat
  ncmds : Nat
  slide : Nat
  mem : Nat → RawCommand

/-- The first command, after the 32 bytes of the header. -/
def Header.commands (h : Header) : Nat := h.addr + 32

def Header.imageKey (h : Header) : Option Nat := imageKeyLoop h.mem h.slide h.ncmds h.commands

def RawCommand.command (lc : RawCommand) : LoadCommand :=
  if lc.cmd = lcSegment64 then .segment64 lc.seg else .other lc.cmd

/-- The commands the loops meet. -/
def commandsAt (mem : Nat → RawCommand) : (n p : Nat) → List LoadCommand
  | 0, _ => []
  | n + 1, p => (mem p).command :: commandsAt mem n (p + (mem p).cmdsize)

def Header.image (h : Header) : Image := ⟨commandsAt h.mem h.ncmds h.commands, h.slide⟩

variable {D : Type} (data : Image → D)

def Header.buildImage (h : Header) : Option (Nat × Nat × Option (Module D)) :=
  let text := firstPass h.mem h.ncmds h.commands (none, 0)
  match text.1 with
  | none => none
  | some textVmaddr =>
    let baseAvma := wrappingAdd textVmaddr h.slide
    let fp := textVmaddr ^^^ rotateLeft32 text.2
    let found := secondPass h.mem h.ncmds h.commands (false, false)
    if found.1 = false ∧ found.2 = false then some (baseAvma, fp, none)
    else some (baseAvma, fp, some ⟨⟨baseAvma, wrappingAdd baseAvma text.2⟩, baseAvma, textVmaddr, data h.image⟩)

theorem texts_cons (lc : RawCommand) (cmds : List LoadCommand) (slide : Nat) :
    (⟨lc.command :: cmds, slide⟩ : Image).texts =
      if lc.isText then lc.seg :: (⟨cmds, slide⟩ : Image).texts else (⟨cmds, slide⟩ : Image).texts := by
  by_cases hc : lc.cmd = lcSegment64
  · simp [Image.texts, Image.segments, RawCommand.command, RawCommand.isText, hc, List.filter_cons]
  · simp [Image.texts, Image.segments, RawCommand.command, RawCommand.isText, hc]

theorem imageKeyLoop_eq (mem : Nat → RawCommand) (slide n p : Nat) :
    imageKeyLoop mem slide n p = Macho.imageKey ⟨commandsAt mem n p, slide⟩ := by
  unfold Macho.imageKey
  induction n generalizing p with
  | zero => rfl
  | succ n ih =>
    rw [commandsAt, texts_cons, imageKeyLoop]
    dsimp only
    split
    · rfl
    · exact ih _

theorem firstPass_eq (mem : Nat → RawCommand) (slide n p : Nat) (text : Option Nat × Nat) :
    firstPass mem n p text =
      match (⟨commandsAt mem n p, slide⟩ : Image).texts.getLast? with
      | some s => (some s.vmaddr, s.vmsize)
      | none => text := by
  induction n generalizing p text with
  | zero => rfl
  | succ n ih =>
    rw [commandsAt, texts_cons, firstPass, ih]
    cases (mem p).isText with
    | true =>
      simp only [if_true, List.getLast?_cons]
      cases (⟨commandsAt mem n (p + (mem p).cmdsize), slide⟩ : Image).texts.getLast? <;> rfl
    | false => rfl

/-- One of the two is there iff it was, or a section is. -/
theorem foldl_seeSection (sections : List Section64) (found : Bool × Bool) :
    ((sections.foldl seeSection found).1 || (sections.foldl seeSection found).2) =
      (found.1 || found.2 ||
        sections.any fun sec => nameEq sec.sectname unwindInfoName || nameEq sec.sectname ehFrameName) := by
  induction sections generalizing found with
  | nil => simp
  | cons sec sections ih =>
    rw [List.foldl_cons, ih, List.any_cons]
    unfold seeSection
    split
    case isTrue hu => simp [hu]
    case isFalse hu =>
      split
      case isTrue he => simp [he]
      case isFalse he => simp [hu, he]

theorem secondPass_eq (mem : Nat → RawCommand) (slide n p : Nat) (found : Bool × Bool) :
    ((secondPass mem n p found).1 || (secondPass mem n p found).2) =
      (found.1 || found.2 || (⟨commandsAt mem n p, slide⟩ : Image).hasUnwindInfo) := by
  induction n generalizing p found with
  | zero => simp [secondPass, commandsAt, Image.hasUnwindInfo, Image.segments]
  | succ n ih =>
    rw [secondPass, ih]
    unfold Image.hasUnwindInfo Image.segments
    rw [commandsAt]
    by_cases hc : (mem p).cmd = lcSegment64
    · rw [if_pos hc, foldl_seeSection]
      simp [RawCommand.command, hc, Bool.or_assoc]
    · simp [RawCommand.command, hc]

theorem Header.imageKey_image (h : Header) : h.imageKey = Macho.imageKey h.image := imageKeyLoop_eq _ _ _ _

theorem Header.buildImage_image (h : Header) : h.buildImage data = Macho.buildImage data h.image := by
  have hfound := secondPass_eq h.mem h.slide h.ncmds h.commands (false, false)
  simp only [Bool.or_self, Bool.false_or] at hfound
  unfold Header.buildImage Macho.buildImage
  rw [firstPass_eq h.mem h.slide]
  change _ = Option.map _ h.image.texts.getLast?
  unfold Header.image
  cases (⟨commandsAt h.mem h.ncmds h.commands, h.slide⟩ : Image).texts.getLast? with
  | none => rfl
  | some text =>
    dsimp only [Option.map_some]
    rw [← hfound]
    generalize secondPass h.mem h.ncmds h.commands (false, false) = found
    obtain ⟨unwindInfo, ehFrame⟩ := found
    cases unwindInfo <;> cases ehFrame <;> rfl

/-! ## The two keys -/

/-- The first and the last `__TEXT` are at one 64-bit address. -/
def TextsAgree (i : Image) : Prop :=
  ∀ s ∈ i.texts.head?, ∀ t ∈ i.texts.getLast?, s.vmaddr ≡ t.vmaddr [MOD 2 ^ 64]

theorem imageKey_none {i : Image} : imageKey i = none ↔ i.texts = [] := by
  rw [imageKey, Option.map_eq_none_iff, List.head?_eq_none_iff]

theorem buildImage_none {i : Image} : buildImage data i = none ↔ i.texts = [] := by
  rw [buildImage, Option.map_eq_none_iff, List.getLast?_eq_none_iff]

theorem buildImage_key (i : Image) : (buildImage data i).map Prod.fst = i.key := by
  rw [buildImage, Image.key, Option.map_map]
  rfl

theorem wrappingAdd_eq_iff {a b slide : Nat} : wrappingAdd a slide = wrappingAdd b slide ↔ a ≡ b [MOD 2 ^ 64] :=
  ⟨fun h => Nat.ModEq.add_right_cancel' slide h, fun h => h.add_right slide⟩

theorem imageKey_eq_key_iff (i : Image) : imageKey i = i.key ↔ TextsAgree i := by
  unfold imageKey Image.key TextsAgree
  cases hh : i.texts.head? with
  | none =>
    rw [List.head?_eq_none_iff] at hh
    simp [hh]
  | some s =>
    obtain ⟨t, ht⟩ : ∃ t, i.texts.getLast? = some t := by
      rw [← Option.isSome_iff_exists, List.getLast?_isSome]
      rintro hnil
      rw [hnil] at hh
      cases hh
    simp only [ht, Option.map_some, Option.some.injEq, Option.mem_some_iff, forall_eq', wrappingAdd_eq_iff]

/-- `image_key` and `build_image` give the same key, or both none. -/
def SameKey (h : Header) : Prop :=
  (∀ k, h.imageKey = some k ↔ ∃ fp m, h.buildImage data = some (k, fp, m)) ∧
    (h.imageKey = none ↔ h.buildImage data = none)

theorem sameKey_iff (h : Header) : SameKey data h ↔ TextsAgree h.image := by
  have hkey : ∀ k, h.image.key = some k ↔ ∃ fp m, buildImage data h.image = some (k, fp, m) := by
    intro k
    rw [← buildImage_key data, Option.map_eq_some_iff]
    constructor
    · intro h₀
      obtain ⟨⟨_, fp, m⟩, h, rfl⟩ := h₀
      exact ⟨fp, m, h⟩
    · intro h₀
      obtain ⟨fp, m, h⟩ := h₀
      exact ⟨_, h, rfl⟩
  rw [← imageKey_eq_key_iff]
  unfold SameKey
  rw [h.imageKey_image, h.buildImage_image]
  constructor
  · intro h₀
    obtain ⟨hsome, -⟩ := h₀
    exact Option.ext fun k => (hsome k).trans (hkey k).symm
  · intro heq
    refine ⟨fun k => heq ▸ hkey k, ?_⟩
    rw [imageKey_none, buildImage_none]

variable {data}

/-- An image whose keys agree: its remove event drops its batched entry, and takes its module from
    the published ones, where it is the one that starts at its key. -/
theorem onRemoveImage_takes {i : Image} (hagree : imageKey i = i.key) {key fp : Nat} {m : Module D}
    (hb : buildImage data i = some (key, fp, some m)) {s s' : Mac D} (h : onRemoveImage s i = some s') :
    (s.batching = true → ∀ e ∈ s'.pending, e.1 ≠ key) ∧
    (s.w.reg.staticMods.lookup key ≠ none → key ∉ s.w.reg.jitKeys → ∀ rest : Multiset (Module D),
      s.w.published = m ::ₘ rest → (∀ x ∈ rest, x.start ≠ key) → s'.w.published = rest) := by
  have hentry : i.entry data = some (key, fp, m) := by rw [Image.entry, hb]
  obtain ⟨hkey, hstart⟩ := Image.entry_key hentry
  rw [onRemoveImage, hagree, hkey] at h
  obtain ⟨-, -, -, hpending, hcases⟩ := macosRemoveImage_cases h
  constructor
  · intro hb e he
    rw [hpending hb] at he
    simpa using (List.mem_filter.mp he).2
  · intro hlook hnot rest hpub hrest
    rcases hcases with ⟨hnone, -⟩ | ⟨-, hjit⟩ | ⟨-, -, hw⟩
    · exact absurd hnone hlook
    · exact absurd hjit hnot
    · change (s'.w.chunks.flatten : Multiset (Module D)) = rest
      rw [(withWriter_spec hw).2]
      exact remove_published s.w.chunks_wf hpub hstart hrest

variable (data)

/-- For every mapped header: the two functions give the same key iff the first and the last
    `__TEXT` are at one address; and then the remove event takes what the add event batched or
    published. -/
theorem image_keys_agree_iff (h : Header) :
    (SameKey data h ↔ TextsAgree h.image) ∧
    (TextsAgree h.image → ∀ key fp m, h.buildImage data = some (key, fp, some m) →
      ∀ s s' : Mac D, onRemoveImage s h.image = some s' →
        (s.batching = true → ∀ e ∈ s'.pending, e.1 ≠ key) ∧
        (s.w.reg.staticMods.lookup key ≠ none → key ∉ s.w.reg.jitKeys → ∀ rest : Multiset (Module D),
          s.w.published = m ::ₘ rest → (∀ x ∈ rest, x.start ≠ key) → s'.w.published = rest)) := by
  refine ⟨sameKey_iff data h, ?_⟩
  intro hagree key fp m hb s s' hremove
  rw [h.buildImage_image] at hb
  exact onRemoveImage_takes ((imageKey_eq_key_iff h.image).mpr hagree) hb hremove

/-- A header at 0x1000 with one command for each segment, of 152 bytes: room for one section. -/
def headerOf (segments : List Segment) (slide : Nat) : Header where
  addr := 0x1000
  ncmds := segments.length
  slide := slide
  mem p := ⟨lcSegment64, 152, segments.getD ((p - 0x1020) / 152) ⟨[], 0, 0, []⟩⟩

/-- A `__TEXT` segment of a page. -/
def textSegment (vmaddr : Nat) (sections : List Section64) : Segment :=
  ⟨textName ++ List.replicate 10 0, vmaddr, 0x1000, sections⟩

/-- One `__TEXT`, with unwind info. -/
def oneText : Header := headerOf [textSegment 0x1000 [⟨ehFrameName ++ List.replicate 6 0, 0x1800, 0x100⟩]] 0x10000

/-- Added and then removed: nothing stays. -/
theorem image_keys_agree_iff_one : SameKey (fun _ => ()) oneText ∧
    ∃ s s' : Mac Unit, onAddImage (fun _ => ()) (Mac.new 0) oneText.image = some s ∧
      onRemoveImage s oneText.image = some s' ∧ s.w.published ≠ 0 ∧ s'.w.published = 0 := by
  obtain ⟨hiff, htakes⟩ := image_keys_agree_iff (fun _ => ()) oneText
  have hagree : TextsAgree oneText.image := by
    intro s hs t ht
    obtain rfl := Option.some.inj hs
    obtain rfl := Option.some.inj ht
    rfl
  obtain ⟨s, s', hadd, hremove, hlook, hjit, hpub⟩ : ∃ s s' : Mac Unit,
      onAddImage (fun _ => ()) (Mac.new 0) oneText.image = some s ∧ onRemoveImage s oneText.image = some s' ∧
      s.w.reg.staticMods.lookup 0x11000 ≠ none ∧ 0x11000 ∉ s.w.reg.jitKeys ∧
      s.w.published = ⟨⟨0x11000, 0x12000⟩, 0x11000, 0x1000, ()⟩ ::ₘ 0 :=
    ⟨_, _, rfl, rfl, by decide, by decide, rfl⟩
  have hleft := (htakes hagree 0x11000 _ _ rfl s s' hremove).2 hlook hjit 0 hpub (by simp)
  exact ⟨hiff.mpr hagree, s, s', hadd, hremove, hpub ▸ Multiset.cons_ne_zero, hleft⟩

/-- A second `__TEXT`, at 0x5000. -/
def twoTexts : Header :=
  headerOf [textSegment 0x1000 [⟨ehFrameName ++ List.replicate 6 0, 0x1800, 0x100⟩], textSegment 0x5000 []] 0x10000

/-- Added at 0x15000, removed at 0x11000: its module stays published. -/
theorem two_texts_leave_module : twoTexts.imageKey = some 0x11000 ∧
    (twoTexts.buildImage fun _ => ()).map Prod.fst = some 0x15000 ∧
    ¬ SameKey (fun _ => ()) twoTexts ∧
    ∃ s s' : Mac Unit, onAddImage (fun _ => ()) (Mac.new 0) twoTexts.image = some s ∧
      onRemoveImage s twoTexts.image = some s' ∧ s'.w.published.map Module.start = {0x15000} := by
  refine ⟨by decide, by decide, ?_, _, _, rfl, rfl, by decide⟩
  intro h₀
  obtain ⟨h, -⟩ := h₀
  obtain ⟨fp, m, hb⟩ := (h 0x11000).mp (by decide)
  have hkey : (twoTexts.buildImage fun _ => ()).map Prod.fst = some 0x15000 := by decide
  rw [hb] at hkey
  cases hkey

end FramehopUnwind.Modules.Macho
