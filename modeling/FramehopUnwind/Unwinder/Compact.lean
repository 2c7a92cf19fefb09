/-
  FramehopUnwind.Unwinder.Compact — compact unwind info of Mach-O modules
  (vendor/framehop/src/macho.rs, and the Mach-O branch of `unwind_frame_impl` in
  vendor/framehop/src/unwinder.rs).

  The table gives a function for an address and the function an opcode, which an architecture
  turns into a rule or into the offset of an FDE. The table describes function bodies only: in the
  first frame the architecture looks at the function's code first, and stubs, which the table does
  not describe, are told by their sections.

  The parser of the table, `macho_unwind_info`, is not part of the repository: `UnwindInfo` stands
  for it, and its opcodes' parsers are parameters of the architectures. `Covering` is what its
  documentation says of a lookup.

  Differences of unsigned numbers wrap, as in a release build; a slice that ends before it starts
  or past its bytes panics.

  Proved:
  - `functionBytes_length`: the bytes of a function reach from its start to its end.
  - `unwindFrame_no_panic`: no table, section or address makes the driver panic.
  - `unwindFrame_of_function`: a caller's rule comes from the opcode of the function it is in.
-/

import FramehopUnwind.Unwinder.Dwarf

namespace FramehopUnwind.Unwinder.Compact

open Lib.Word

/-! ## What `macho_unwind_info` gives -/

structure Function where
  startAddress : Nat
  endAddress : Nat
  opcode : Nat
  deriving DecidableEq, Repr

/-- `UnwindInfo::parse` and then `lookup`; `.error ()` is an error of either. -/
structure UnwindInfo where
  lookup : Bytes → Nat → Except Unit (Option Function)

/-- A function that is found covers the address. -/
def UnwindInfo.Covering (I : UnwindInfo) : Prop :=
  ∀ bytes address f, I.lookup bytes address = .ok (some f) → f.startAddress ≤ address ∧ address < f.endAddress

/-! ## The unwinder -/

inductive CompactUnwindInfoUnwinderError where
  | badFormat
  | addressOutsideRange (address : Nat)
  | callerCannotBeFrameless
  | functionHasNoInfo
  | bpOffsetDoesNotFit
  | badOpcodeKind (kind : Nat)
  | noTextBytesToLookUpIndirectStackOffset
  | indirectStackOffsetOutOfBounds
  | stackAdjustOverflow
  | stackSizeDoesNotFit
  | stubFunctionCannotBeCaller
  | invalidFrameless
  deriving DecidableEq, Repr

inductive Fault where
  | error (e : CompactUnwindInfoUnwinderError)
  | panic
  deriving DecidableEq, Repr

inductive CuiUnwindResult (R : Type) where
  | execRule (rule : R)
  | needDwarf (fdeOffset : Nat)
  deriving DecidableEq, Repr

/-- `CompactUnwindInfoUnwinding`, with the rules of `UnwindRule` it uses. -/
structure CompactArch (R : Type) where
  ruleForStubFunctions : R
  ruleForFunctionStart : R
  /-- Function, first frame?, offset in the function, the function's bytes. -/
  unwindFrame : Function → Bool → Nat → Option Bytes → Except Fault (CuiUnwindResult R)
  ruleForStubHelper : Nat → R
  /-- The FDE that an opcode names is the same in every frame. -/
  needDwarf_caller : ∀ f offset bytes fdeOffset, unwindFrame f true offset bytes = .ok (.needDwarf fdeOffset) →
    unwindFrame f false offset bytes = .ok (.needDwarf fdeOffset)

structure TextBytes where
  offsetFromBaseAddress : Nat
  bytes : Bytes
  deriving DecidableEq, Repr

structure CompactUnwindInfoUnwinder where
  unwindInfoData : Bytes
  textBytes : Option TextBytes
  stubsRange : Nat × Nat
  stubHelperRange : Nat × Nat
  deriving DecidableEq, Repr

/-- `bytes.get(start..stop)`. -/
def getRange (bytes : Bytes) (start stop : Nat) : Option Bytes :=
  if start ≤ stop ∧ stop ≤ bytes.length then some ((bytes.drop start).take (stop - start)) else none

def functionBytes (text : Option TextBytes) (f : Function) : Option Bytes :=
  text.bind fun text =>
    if text.offsetFromBaseAddress ≤ f.startAddress ∧ text.offsetFromBaseAddress ≤ f.endAddress then
      getRange text.bytes (f.startAddress - text.offsetFromBaseAddress) (f.endAddress - text.offsetFromBaseAddress)
    else none

def inRange (range : Nat × Nat) (address : Nat) : Bool := range.1 ≤ address && address < range.2

variable {R : Type} (I : UnwindInfo) (C : CompactArch R)

def CompactUnwindInfoUnwinder.functionForAddress (u : CompactUnwindInfoUnwinder) (address : Nat) :
    Except CompactUnwindInfoUnwinderError Function :=
  match I.lookup u.unwindInfoData address with
  | .error _ => .error .badFormat
  | .ok none => .error (.addressOutsideRange address)
  | .ok (some f) => .ok f

def CompactUnwindInfoUnwinder.unwindFrame (u : CompactUnwindInfoUnwinder) (relLookupAddress : Nat)
    (isFirstFrame : Bool) :
    Except Fault (CuiUnwindResult R) :=
  if inRange u.stubsRange relLookupAddress then
    if isFirstFrame then .ok (.execRule C.ruleForStubFunctions) else .error (.error .stubFunctionCannotBeCaller)
  else if inRange u.stubHelperRange relLookupAddress then
    if isFirstFrame then .ok (.execRule (C.ruleForStubHelper (subU32 relLookupAddress u.stubHelperRange.1)))
    else .error (.error .stubFunctionCannotBeCaller)
  else
    match u.functionForAddress I relLookupAddress with
    | .error (.addressOutsideRange address) =>
      -- an address the table does not cover may be in a stub
      if isFirstFrame then .ok (.execRule C.ruleForStubFunctions) else .error (.error (.addressOutsideRange address))
    | .error e => .error (.error e)
    | .ok f =>
      if isFirstFrame ∧ relLookupAddress = f.startAddress then .ok (.execRule C.ruleForFunctionStart)
      else C.unwindFrame f isFirstFrame (subU32 relLookupAddress f.startAddress) (functionBytes u.textBytes f)

/-! ## A module's data -/

structure TextByteData where
  bytes : Bytes
  svmaRange : Range
  deriving DecidableEq, Repr

structure CompactUnwindInfoAndEhFrame where
  unwindInfo : Bytes
  ehFrame : Option Bytes
  stubsSvma : Option Range
  stubHelperSvma : Option Range
  baseAddresses : BaseAddresses
  textData : Option TextByteData
  deriving DecidableEq, Repr

/-- A section's range relative to the base, as `u32`s. -/
def relativeRange (range : Option Range) (baseSvma : Nat) : Nat × Nat :=
  match range with
  | some range => (wrappingSub range.start baseSvma % 2 ^ 32, wrappingSub range.stop baseSvma % 2 ^ 32)
  | none => (0, 0)

def textBytesOf (data : Option TextByteData) (baseSvma : Nat) : Option TextBytes :=
  data.bind fun data =>
    if baseSvma ≤ data.svmaRange.start ∧ data.svmaRange.start - baseSvma < 2 ^ 32 then
      some ⟨data.svmaRange.start - baseSvma, data.bytes⟩
    else none

def CompactUnwindInfoAndEhFrame.unwinder (d : CompactUnwindInfoAndEhFrame) (baseSvma : Nat) :
    CompactUnwindInfoUnwinder where
  unwindInfoData := d.unwindInfo
  textBytes := textBytesOf d.textData baseSvma
  stubsRange := relativeRange d.stubsSvma baseSvma
  stubHelperRange := relativeRange d.stubHelperSvma baseSvma

/-! ## The driver does not panic -/

theorem functionBytes_length {text : Option TextBytes} {f : Function} {bytes : Bytes}
    (h : functionBytes text f = some bytes) :
    bytes.length = f.endAddress - f.startAddress := by
  obtain ⟨t, -, h⟩ := Option.bind_eq_some_iff.mp h
  split at h
  case isFalse => cases h
  case isTrue hle =>
    unfold getRange at h
    split at h
    case isFalse => cases h
    case isTrue hrange =>
      obtain rfl := Option.some.inj h
      rw [List.length_take, List.length_drop]
      omega

/-- An architecture panics only on an offset past the function's bytes. -/
def CompactArch.PanicsPastEnd (C : CompactArch R) : Prop :=
  ∀ f first offset bytes, C.unwindFrame f first offset bytes = .error .panic →
    ∃ code, bytes = some code ∧ code.length < offset

theorem mapError_not_panic {α : Type} (x : Except CompactUnwindInfoUnwinderError α) :
    x.mapError .error ≠ .error Fault.panic := by
  cases x <;> simp [Except.mapError]

theorem eq_of_mapError {α : Type} {x : Except CompactUnwindInfoUnwinderError α} {r : α}
    (h : x.mapError Fault.error = .ok r) : x = .ok r := by
  cases x with
  | error e => cases h
  | ok r' =>
    cases h
    rfl

variable {I C}

theorem functionForAddress_covers (hI : I.Covering) {u : CompactUnwindInfoUnwinder} {address : Nat} {f : Function}
    (h : u.functionForAddress I address = .ok f) : f.startAddress ≤ address ∧ address < f.endAddress := by
  unfold CompactUnwindInfoUnwinder.functionForAddress at h
  split at h
  · cases h
  · cases h
  · rename_i f' hf
    cases h
    exact hI _ _ _ hf

theorem unwindFrame_no_panic (hI : I.Covering) (hC : C.PanicsPastEnd) (u : CompactUnwindInfoUnwinder) {address : Nat}
    (haddress : address < 2 ^ 32) (first : Bool) : u.unwindFrame I C address first ≠ .error .panic := by
  intro h
  unfold CompactUnwindInfoUnwinder.unwindFrame at h
  split at h
  · split at h <;> cases h
  split at h
  · split at h <;> cases h
  split at h
  · split at h <;> cases h
  · cases h
  · rename_i f hf
    obtain ⟨hstart, hend⟩ := functionForAddress_covers hI hf
    split at h
    · cases h
    · obtain ⟨code, hcode, hlt⟩ := hC _ _ _ _ h
      have hlen := functionBytes_length hcode
      rw [subU32_of_le hstart haddress] at hlt
      omega

/-- A table with one function. -/
def oneFunction (f : Function) : UnwindInfo where
  lookup _ address := .ok (if f.startAddress ≤ address ∧ address < f.endAddress then some f else none)

def noSections : CompactUnwindInfoUnwinder := ⟨[], none, (0, 0), (0, 0)⟩

/-! ## Inside a function -/

/-- Outside the stubs and past the function's start. -/
structure Inside (u : CompactUnwindInfoUnwinder) (address : Nat) (f : Function) : Prop where
  stubs : inRange u.stubsRange address = false
  stubHelper : inRange u.stubHelperRange address = false
  start : address ≠ f.startAddress

/-- For a caller, and inside a function, what the driver gives comes from the function's opcode. -/
theorem unwindFrame_of_function {u : CompactUnwindInfoUnwinder} {address : Nat} {first : Bool} {f : Function}
    {r : CuiUnwindResult R} (h : u.unwindFrame I C address first = .ok r) (hf : u.functionForAddress I address = .ok f)
    (hinside : first = true → Inside u address f) :
    C.unwindFrame f first (subU32 address f.startAddress) (functionBytes u.textBytes f) = .ok r := by
  unfold CompactUnwindInfoUnwinder.unwindFrame at h
  rw [hf] at h
  cases first with
  | true =>
    have hin := hinside rfl
    simpa [hin.stubs, hin.stubHelper, hin.start] using h
  | false =>
    split at h
    · cases h
    · split at h
      · cases h
      · simpa using h

/-- The FDE that the driver names in the first frame, it names for a caller. -/
theorem unwindFrame_caller {u : CompactUnwindInfoUnwinder} {address : Nat} {first : Bool} {fdeOffset : Nat}
    (h : u.unwindFrame I C address first = .ok (.needDwarf fdeOffset)) :
    u.unwindFrame I C address false = .ok (.needDwarf fdeOffset) := by
  cases first with
  | false => exact h
  | true =>
    unfold CompactUnwindInfoUnwinder.unwindFrame at h ⊢
    split at h
    · cases h
    rename_i hstubs
    split at h
    · cases h
    rename_i hhelper
    rw [if_neg hstubs, if_neg hhelper]
    split at h
    · cases h
    · cases h
    · rename_i f hf
      split at h
      · cases h
      · rw [if_neg (by simp)]
        exact C.needDwarf_caller f _ _ _ h

end FramehopUnwind.Unwinder.Compact
