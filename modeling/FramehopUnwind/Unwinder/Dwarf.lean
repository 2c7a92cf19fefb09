/-
  FramehopUnwind.Unwinder.Dwarf — DWARF unwind data and its evaluation
  (vendor/framehop/src/dwarf.rs, and the module data of vendor/framehop/src/unwinder.rs).

  gimli, the DWARF parser, is not part of the repository: `Gimli` stands for it. It
  enumerates the entries of an unwind section, finds an FDE, computes the unwind row of an
  address and looks addresses up in an `.eh_frame_hdr` table. Its documented behaviour the
  code relies on is a field: a section that parses without an error under some base
  addresses parses to the same entries when further bases are given (`entries_wider`).
  An expression denotes the requests its evaluation makes (`Eval`): gimli asks for a
  register or a memory word and is resumed with it.

  `ModuleUnwindDataInternal` has the DWARF variants; the Mach-O compact and PE variants
  are not DWARF and are left out. A section's bytes are data for gimli only.
-/

import FramehopUnwind.Lib.Word
import FramehopUnwind.Unwinder.Edits

namespace FramehopUnwind.Unwinder

open Lib.Search Lib.Word

abbrev Bytes := List UInt8

/-- A bounded stack reader: `none` is its `Err(())`. -/
abbrev ReadStack := Nat → Option Nat

/-! ## What gimli gives -/

/-- `gimli::BaseAddresses`, for an `.eh_frame`. -/
structure BaseAddresses where
  ehFrameHdr : Option Nat
  text : Option Nat
  got : Option Nat
  ehFrame : Option Nat
  deriving DecidableEq, Repr

/-- Every base that `a` gives, `b` gives too. -/
def BaseAddresses.Le (a b : BaseAddresses) : Prop :=
  (∀ x ∈ a.ehFrameHdr, x ∈ b.ehFrameHdr) ∧ (∀ x ∈ a.text, x ∈ b.text) ∧ (∀ x ∈ a.got, x ∈ b.got) ∧
    ∀ x ∈ a.ehFrame, x ∈ b.ehFrame

/-- A parsed FDE: the words of its code range, and its offset in the section. -/
structure Fde where
  initialAddress : Nat
  len : Nat
  offset : Nat
  initialAddress_lt : initialAddress < 2 ^ 64
  len_lt : len < 2 ^ 64
  deriving DecidableEq, Repr

/-- An entry of an unwind section; an FDE may fail to parse. -/
inductive Entry where
  | cie
  | fde (parsed : Option Fde)
  deriving DecidableEq, Repr

/-- An expression's evaluation, as the requests gimli makes. -/
inductive Eval where
  | error
  /-- Done; the last piece is at an address, or is something else. -/
  | complete (address : Option Nat)
  | requiresRegister (register : Nat) (resume : Nat → Eval)
  | requiresMemory (address size : Nat) (space : Option Nat) (resume : Nat → Eval)
  | requiresOther

inductive CfaRule where
  | registerAndOffset (register : Nat) (offset : Int)
  | expression (e : Eval)

inductive RegisterRule where
  | undefined
  | sameValue
  | offset (offset : Int)
  | valOffset (offset : Int)
  | register (register : Nat)
  | expression (e : Eval)
  | valExpression (e : Eval)
  | architectural
  /-- A variant of gimli's non-exhaustive enum that framehop does not name. -/
  | other

/-- A register that a row leaves as it is: omitted, undefined or the same value. -/
def Kept (r : Option RegisterRule) : Prop := r = none ∨ r = some .undefined ∨ r = some .sameValue

structure UnwindTableRow where
  cfa : CfaRule
  register : Nat → Option RegisterRule

inductive UnwindSectionType where
  | ehFrame
  | debugFrame
  deriving DecidableEq, Repr

structure Gimli where
  /-- The entries in order; `none` is an error of the iterator, which ends it. -/
  entries : UnwindSectionType → Bytes → BaseAddresses → List (Option Entry)
  entries_wider : ∀ ty bytes a b, a.Le b → (∀ e ∈ entries ty bytes a, e ≠ none ∧ e ≠ some (.fde none)) →
    entries ty bytes b = entries ty bytes a
  /-- `fde_from_offset`, and whether the FDE's CIE marks a signal trampoline. -/
  fdeFromOffset : UnwindSectionType → Bytes → BaseAddresses → Nat → Option Bool
  /-- `unwind_info_for_address` of the FDE at an offset. -/
  unwindInfoForAddress : UnwindSectionType → Bytes → BaseAddresses → Nat → Nat → Option UnwindTableRow
  /-- The offset of the FDE that an `.eh_frame_hdr`'s table gives for an address. -/
  hdrTableLookup : Bytes → BaseAddresses → Nat → Option Nat

/-! ## The FDE index -/

inductive DwarfCfiIndexError where
  | gimli
  | couldNotSubtractBaseAddress
  | relativeAddressTooBig
  | fdeOffsetTooBig
  deriving DecidableEq, Repr

structure DwarfCfiIndex where
  sortedFdePcStarts : List Nat
  fdeOffsets : List Nat
  deriving DecidableEq, Repr

/-- An FDE's row of the index: its start relative to the base, and its offset, as `u32`s. -/
def indexRow (baseSvma : Nat) (fde : Fde) : Except DwarfCfiIndexError (Nat × Nat) :=
  if fde.initialAddress < baseSvma then .error .couldNotSubtractBaseAddress
  else if 2 ^ 32 ≤ fde.initialAddress - baseSvma then .error .relativeAddressTooBig
  else if 2 ^ 32 ≤ fde.offset then .error .fdeOffsetTooBig
  else .ok (fde.initialAddress - baseSvma, fde.offset)

/-- The loop of `try_new`. -/
def indexRows (baseSvma : Nat) : List (Option Entry) → Except DwarfCfiIndexError (List (Nat × Nat))
  | [] => .ok []
  | none :: _ => .error .gimli
  | some .cie :: es => indexRows baseSvma es
  | some (.fde none) :: _ => .error .gimli
  | some (.fde (some fde)) :: es =>
    match indexRow baseSvma fde with
    | .error e => .error e
    | .ok row =>
      match indexRows baseSvma es with
      | .error e => .error e
      | .ok rows => .ok (row :: rows)

def DwarfCfiIndex.tryNew (entries : List (Option Entry)) (baseSvma : Nat) : Except DwarfCfiIndexError DwarfCfiIndex :=
  match indexRows baseSvma entries with
  | .error e => .error e
  | .ok rows =>
    let sorted := rows.mergeSort fun a b => a.1 ≤ b.1
    .ok ⟨sorted.map (·.1), sorted.map (·.2)⟩

def DwarfCfiIndex.fdeOffsetForRelativeAddress (index : DwarfCfiIndex) (relLookupAddress : Nat) : Option Nat :=
  match binarySearchByKey index.sortedFdePcStarts relLookupAddress id with
  | .error 0 => none
  | .ok i => index.fdeOffsets[i]?
  | .error (i + 1) => index.fdeOffsets[i]?

/-! ## A module's unwind data -/

/-- The sections an ELF or JIT module is built from (`ExplicitModuleSectionInfo`); the
    other sections are absent on these paths. -/
structure ExplicitModuleSectionInfo where
  baseSvma : Nat
  textSvma : Option Range
  ehFrameSvma : Option Range
  ehFrame : Option Bytes
  ehFrameHdrSvma : Option Range
  ehFrameHdr : Option Bytes
  debugFrame : Option Bytes
  deriving DecidableEq, Repr

/-- A section's start, or 0: an absent section's base is given as 0, not left out. -/
def startAddr (r : Option Range) : Option Nat := some ((r.map Range.start).getD 0)

def baseAddressesForSections (info : ExplicitModuleSectionInfo) : BaseAddresses where
  ehFrame := startAddr info.ehFrameSvma
  ehFrameHdr := startAddr info.ehFrameHdrSvma
  text := startAddr info.textSvma
  got := startAddr none

inductive ModuleUnwindDataInternal where
  | ehFrameHdrAndEhFrame (ehFrameHdr ehFrame : Bytes) (bases : BaseAddresses)
  | dwarfCfiIndexAndEhFrame (index : DwarfCfiIndex) (ehFrame : Bytes) (bases : BaseAddresses)
  | dwarfCfiIndexAndDebugFrame (index : DwarfCfiIndex) (debugFrame : Bytes) (bases : BaseAddresses)
  | none
  deriving DecidableEq, Repr

variable (G : Gimli)

def ModuleUnwindDataInternal.new (info : ExplicitModuleSectionInfo) : ModuleUnwindDataInternal :=
  let bases := baseAddressesForSections info
  match info.ehFrame with
  | some ehFrame =>
    match info.ehFrameHdr with
    | some ehFrameHdr => .ehFrameHdrAndEhFrame ehFrameHdr ehFrame bases
    | .none =>
      match DwarfCfiIndex.tryNew (G.entries .ehFrame ehFrame bases) info.baseSvma with
      | .ok index => .dwarfCfiIndexAndEhFrame index ehFrame bases
      | .error _ => .none
  | .none =>
    match info.debugFrame with
    | some debugFrame =>
      match DwarfCfiIndex.tryNew (G.entries .debugFrame debugFrame bases) info.baseSvma with
      | .ok index => .dwarfCfiIndexAndDebugFrame index debugFrame bases
      | .error _ => .none
    | .none => .none

abbrev UnwindModule := Module ModuleUnwindDataInternal

def Module.new (avmaRange : Range) (baseAvma : Nat) (info : ExplicitModuleSectionInfo) : UnwindModule :=
  ⟨avmaRange, baseAvma, info.baseSvma, ModuleUnwindDataInternal.new G info⟩

/-! ## Evaluating rules -/

inductive DwarfUnwinderError where
  | fdeFromOffsetFailed
  | unwindInfoForAddressFailed
  | stackPointerMovedBackwards
  | didNotAdvance
  | couldNotRecoverCfa
  | couldNotRecoverReturnAddress
  | couldNotRecoverFramePointer
  deriving DecidableEq, Repr

/-- `eval_expr`: registers and 8-byte memory words are supplied, anything else fails. -/
def evalExpr (get : Nat → Option Nat) (read : ReadStack) : Eval → Option Nat
  | .error => none
  | .complete address => address
  | .requiresRegister register resume =>
    match get register with
    | none => none
    | some value => evalExpr get read (resume value)
  | .requiresMemory address size space resume =>
    if size = 8 ∧ space = none then
      match read address with
      | none => none
      | some value => evalExpr get read (resume value)
    else none
  | .requiresOther => none

def evalCfaRule (get : Nat → Option Nat) (read : ReadStack) : CfaRule → Option Nat
  | .registerAndOffset register offset => (get register).bind (addOffset · offset)
  | .expression e => evalExpr get read e

def evalRegisterRule (get : Nat → Option Nat) (read : ReadStack) (cfa val : Nat) : Option RegisterRule → Option Nat
  | none => none
  | some .undefined => none
  | some .sameValue => some val
  | some (.offset offset) => (addOffset cfa offset).bind read
  | some (.valOffset offset) => addOffset cfa offset
  | some (.register register) => get register
  | some (.expression e) => (evalExpr get read e).bind read
  | some (.valExpression e) => evalExpr get read e
  | some .architectural => none
  | some .other => none

/-! ## Frames, rules and architectures -/

inductive Error where
  | couldNotReadStack (address : Nat)
  | framepointerUnwindingMovedBackwards
  | didNotAdvance
  | integerOverflow
  | returnAddressIsNull
  deriving DecidableEq, Repr

inductive UnwinderError where
  | dwarf (e : DwarfUnwinderError)
  | noModuleUnwindData
  | ehFrameHdrCouldNotFindAddress
  | dwarfCfiIndexCouldNotFindAddress
  deriving DecidableEq, Repr

/-- An instruction pointer, or a return address, which is never 0. -/
inductive FrameAddress where
  | instructionPointer (address : Nat)
  | returnAddress (address : Nat) (pos : 0 < address)
  deriving DecidableEq, Repr

def FrameAddress.address : FrameAddress → Nat
  | .instructionPointer address => address
  | .returnAddress address _ => address

/-- A return address is looked up one byte earlier, inside the call. -/
def FrameAddress.addressForLookup : FrameAddress → Nat
  | .instructionPointer address => address
  | .returnAddress address _ => address - 1

def FrameAddress.isReturnAddress : FrameAddress → Bool
  | .instructionPointer _ => false
  | .returnAddress _ _ => true

inductive UnwindResult (R : Type) where
  | execRule (rule : R)
  | uncacheable (returnAddress : Nat)
  /-- The frame was a signal trampoline: the address is where its caller was interrupted. -/
  | interrupted (address : Nat)
  deriving DecidableEq, Repr

def okOr {α : Type} (e : Error) : Option α → Except Error α
  | none => .error e
  | some a => .ok a

def readOr (read : ReadStack) (address : Nat) : Except Error Nat := okOr (.couldNotReadStack address) (read address)

theorem okOr_ok {α : Type} {e : Error} {x : Option α} {a : α} (h : okOr e x = .ok a) : x = some a := by
  cases x with
  | none => cases h
  | some b => exact congrArg some (Except.ok.inj h)

theorem bind_ok {α β : Type} {x : Except Error α} {f : α → Except Error β} {b : β} (h : (x >>= f) = .ok b) :
    ∃ a, x = .ok a ∧ f a = .ok b := by
  cases x with
  | error e => cases h
  | ok a => exact ⟨a, rfl, h⟩

/-- An architecture: its registers, its cacheable rules and how it unwinds by a DWARF row.
    `rowRule` is the rule a row translates to, whatever the registers and the stack; only a
    row without one is evaluated against them. -/
structure Arch where
  Regs : Type
  Rule : Type
  exec : Rule → Bool → Regs → ReadStack → Except Error (Option Nat) × Regs
  fallbackRule : Rule
  ruleIfUncoveredByFde : Rule
  /-- `unwind_frame` of a row: first frame?, signal frame?. It writes registers only when it succeeds. -/
  unwindFrame : UnwindTableRow → Regs → Bool → Bool → ReadStack → Except DwarfUnwinderError (UnwindResult Rule × Regs)
  rowRule : UnwindTableRow → Bool → Option Rule
  unwindFrame_rule : ∀ row regs first signal read rule, rowRule row signal = some rule →
    unwindFrame row regs first signal read = .ok (.execRule rule, regs)
  unwindFrame_generic : ∀ row regs first signal read rule regs', rowRule row signal = none →
    unwindFrame row regs first signal read ≠ .ok (.execRule rule, regs')

end FramehopUnwind.Unwinder
