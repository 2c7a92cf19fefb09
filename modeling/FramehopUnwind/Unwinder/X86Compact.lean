/-
  FramehopUnwind.Unwinder.X86Compact — compact unwind info on x86-64
  (vendor/framehop/src/x86_64/macho.rs).

  An opcode says how the body of a function has its frame: by the frame pointer, or by the stack
  pointer with a size that is in the opcode or in the immediate of the function's `sub`, and which
  registers are saved below the return address (`Describes`).

  The stub helper section has no opcodes. Its code is fixed but for the number of stubs: each pushes
  a word and jumps to a shared part, which pushes another and leaves for the binder
  (`stubHelperStep`, from the listing in the source). `ruleForStubHelper` goes by the offset in the
  section.

  Proved:
  - `x86_compact_rule_sound`: a caller's rule from the table recovers the state in which its function
    was entered, wherever the body has the frame that the opcode describes.
  - `x86_stub_helper_exact_iff`: from the start of any stub, the rule is right at every place the
    code comes to but one: before the second push, at offset 7, it takes the word for pushed.
-/

import FramehopUnwind.Unwinder.X86Analysis
import FramehopUnwind.Unwinder.Compact

namespace FramehopUnwind.Unwinder.X86

open Lib Lib.Word Lib.Machine Unwinder.Compact

/-! ## Opcodes -/

inductive RegisterName where
  | rbx | r12 | r13 | r14 | r15 | rbp
  deriving DecidableEq, Repr

/-- `OpcodeX86_64`; the saved registers of a frame-based function are not used. -/
inductive Opcode where
  | null
  | framelessImmediate (stackSizeInBytes : Nat) (savedRegs : List (Option RegisterName))
  | framelessIndirect (immediateOffsetFromFunctionStart stackAdjustInBytes : Nat)
      (savedRegs : List (Option RegisterName))
  | dwarf (ehFrameFde : Nat)
  | frameBased
  | unrecognizedKind (kind : Nat)
  | invalidFrameless
  deriving DecidableEq, Repr

/-- The saved registers from the return address inwards. -/
def fromOutside (savedRegs : List (Option RegisterName)) : List RegisterName := savedRegs.reverse.filterMap id

/-- The rule of a function with its frame below the return address. -/
def framelessRule (spOffsetBy8 stackSizeInBytes : Nat) (savedRegs : List (Option RegisterName)) :
    Except CompactUnwindInfoUnwinderError UnwindRule :=
  match (fromOutside savedRegs).idxOf? .rbp with
  | some pos =>
    match toI16 (((stackSizeInBytes : Int) - 2 * 8 - pos * 8).tdiv 8) with
    | some bpStorageOffsetFromSpBy8 => .ok (.offsetSpAndRestoreBp spOffsetBy8 bpStorageOffsetFromSpBy8)
    | none => .error .bpOffsetDoesNotFit
  | none => .ok (.offsetSp spOffsetBy8)

/-- `u32::from_le_bytes` of the four bytes at an offset. -/
def subImmediate (functionBytes : Bytes) (offset : Nat) : Option Nat :=
  match getRange functionBytes offset (offset + 4) with
  | some [b0, b1, b2, b3] => some (b0.toNat + b1.toNat * 2 ^ 8 + b2.toNat * 2 ^ 16 + b3.toNat * 2 ^ 24)
  | _ => none

/-- The last part of `unwind_frame`, for an address in a function's body. -/
def bodyRule (opcode : Opcode) (functionBytes : Option Bytes) :
    Except CompactUnwindInfoUnwinderError (CuiUnwindResult UnwindRule) :=
  match opcode with
  | .null => .error .functionHasNoInfo
  | .framelessImmediate stackSizeInBytes savedRegs =>
    if stackSizeInBytes = 8 then .ok (.execRule .justReturn)
    else (framelessRule (stackSizeInBytes / 8) stackSizeInBytes savedRegs).map .execRule
  | .framelessIndirect immediateOffsetFromFunctionStart stackAdjustInBytes savedRegs =>
    match functionBytes with
    | none => .error .noTextBytesToLookUpIndirectStackOffset
    | some functionBytes =>
      match subImmediate functionBytes immediateOffsetFromFunctionStart with
      | none => .error .indirectStackOffsetOutOfBounds
      | some immediate =>
        let stackSizeInBytes := immediate + stackAdjustInBytes
        if 2 ^ 32 ≤ stackSizeInBytes then .error .stackAdjustOverflow
        else if 2 ^ 16 ≤ stackSizeInBytes / 8 then .error .stackSizeDoesNotFit
        else (framelessRule (stackSizeInBytes / 8) stackSizeInBytes savedRegs).map .execRule
  | .dwarf ehFrameFde => .ok (.needDwarf ehFrameFde)
  | .frameBased => .ok (.execRule .useFramePointer)
  | .unrecognizedKind kind => .error (.badOpcodeKind kind)
  | .invalidFrameless => .error .invalidFrameless

/-- The first part of `unwind_frame`: in the first frame the code may tell the rule. -/
def firstFrameRule (opcode : Opcode) (offset : Nat) (functionBytes : Option Bytes) : Except Fault (Option UnwindRule) :=
  match functionBytes with
  | some functionBytes =>
    if functionBytes.length < offset then .error .panic
    else
      match ruleFromInstructionAnalysis functionBytes offset with
      | some rule => .ok (some rule)
      | none =>
        if opcode = .null then
          .ok (some (if functionBytes.take 4 = [0x55, 0x48, 0x89, 0xe5] then .useFramePointer else .justReturn))
        else .ok none
  | none => .ok (if opcode = .null then some .justReturn else none)

def unwindFrameCompact (parse : Nat → Opcode) (function : Function) (isFirstFrame : Bool) (offset : Nat)
    (functionBytes : Option Bytes) : Except Fault (CuiUnwindResult UnwindRule) :=
  let opcode := parse function.opcode
  let body := (bodyRule opcode functionBytes).mapError .error
  if isFirstFrame then
    match firstFrameRule opcode offset functionBytes with
    | .error e => .error e
    | .ok (some rule) => .ok (.execRule rule)
    | .ok none => body
  else body

def ruleForStubHelper (offset : Nat) : UnwindRule :=
  if offset < 0x7 then .offsetSp 2
  else if offset < 0x10 then .offsetSp 3
  else if (offset - 0x10) % 10 < 5 then .justReturn
  else .offsetSp 2

theorem needDwarf_caller {parse : Nat → Opcode} {f : Function} {offset fdeOffset : Nat} {bytes : Option Bytes}
    (h : unwindFrameCompact parse f true offset bytes = .ok (.needDwarf fdeOffset)) :
    unwindFrameCompact parse f false offset bytes = .ok (.needDwarf fdeOffset) := by
  simp only [unwindFrameCompact, if_true] at h
  split at h
  · cases h
  · cases h
  · exact h

def compactX86 (parse : Nat → Opcode) : CompactArch UnwindRule where
  ruleForStubFunctions := .justReturn
  ruleForFunctionStart := .justReturn
  unwindFrame := unwindFrameCompact parse
  ruleForStubHelper := ruleForStubHelper
  needDwarf_caller _ _ _ _ := needDwarf_caller

/-! ## The rules of the table do not panic -/

theorem firstFrameRule_panics {opcode : Opcode} {offset : Nat} {bytes : Option Bytes} {e : Fault}
    (h : firstFrameRule opcode offset bytes = .error e) : ∃ code, bytes = some code ∧ code.length < offset := by
  unfold firstFrameRule at h
  cases bytes with
  | none => cases h
  | some code =>
    dsimp only at h
    split at h
    case isTrue hlt => exact ⟨code, rfl, hlt⟩
    case isFalse =>
      split at h
      · cases h
      · split at h <;> cases h

theorem compactX86_panics (parse : Nat → Opcode) : (compactX86 parse).PanicsPastEnd := by
  intro f first offset bytes h
  simp only [compactX86, unwindFrameCompact] at h
  split at h
  · split at h
    case h_1 heq => exact firstFrameRule_panics heq
    case h_2 => cases h
    case h_3 => exact absurd h (mapError_not_panic _)
  · exact absurd h (mapError_not_panic _)

/-! ## Frames that an opcode describes -/

/-- The frame of a function without a frame pointer, entered in `s₀`: `stackSizeInBytes` down from
    above the return address, with the saved registers next to it. -/
structure FramelessFrame (stackSizeInBytes : Nat) (savedRegs : List (Option RegisterName))
    (s₀ s : X64.State) : Prop where
  words : 8 ∣ stackSizeInBytes
  room : 8 * ((fromOutside savedRegs).length + 1) ≤ stackSizeInBytes
  sp : s.sp + stackSizeInBytes = s₀.sp + 8
  saved : ∀ i, (fromOutside savedRegs)[i]? = some .rbp → s.mem (s₀.sp - 8 * (i + 1)) = some s₀.bp
  bp : .rbp ∉ fromOutside savedRegs → s.bp = s₀.bp

/-- `push rbp` and `mov rbp, rsp`. -/
def startsFramed (functionBytes : Option Bytes) : Bool :=
  match functionBytes with
  | some functionBytes => functionBytes.take 4 = [0x55, 0x48, 0x89, 0xe5]
  | none => false

/-- The frame that an opcode stands for. A function without one is taken to set up the frame pointer
    if it starts with that, and to have no frame at all otherwise. -/
def Frame (opcode : Opcode) (functionBytes : Option Bytes) (s₀ s : X64.State) : Prop :=
  match opcode with
  | .framelessImmediate stackSizeInBytes savedRegs => FramelessFrame stackSizeInBytes savedRegs s₀ s
  | .framelessIndirect immediateOffsetFromFunctionStart stackAdjustInBytes savedRegs =>
    ∃ immediate, functionBytes.bind (subImmediate · immediateOffsetFromFunctionStart) = some immediate ∧
      FramelessFrame (immediate + stackAdjustInBytes) savedRegs s₀ s
  | .frameBased => Framed s₀ s
  | .null => if startsFramed functionBytes then Framed s₀ s else s.sp = s₀.sp ∧ s.bp = s₀.bp
  | .dwarf _ | .unrecognizedKind _ | .invalidFrameless => False

/-- A state in the body of a function that was entered in `s₀`. -/
structure Describes (opcode : Opcode) (functionBytes : Option Bytes) (s₀ s : X64.State) : Prop where
  frame : Frame opcode functionBytes s₀ s
  returnAddress : s.mem s₀.sp = s₀.mem s₀.sp

variable {s₀ s : X64.State} {regs : UnwindRegs} {rule : UnwindRule}

theorem Framed.up (h : Framed s₀ s) : s.sp ≤ s₀.sp := by
  have := h.bp
  have := h.sp
  omega

theorem FramelessFrame.up {size : Nat} {savedRegs : List (Option RegisterName)}
    (h : FramelessFrame size savedRegs s₀ s) :
    s.sp ≤ s₀.sp := by
  have := h.sp
  have := h.room
  omega

/-- The rule of a frame below the return address gives the caller's frame. -/
theorem framelessRule_target {size : Nat} {savedRegs : List (Option RegisterName)} (hroom : Roomy s₀)
    (h : FramelessFrame size savedRegs s₀ s) (hrule : framelessRule (size / 8) size savedRegs = .ok rule) (first : Bool)
    (hregs : Agrees regs s) : target rule first regs s.mem = .ok (some (s₀.sp + 8, s₀.bp)) := by
  have hlow := hroom.low
  have hhigh := hroom.high
  have hsp := h.sp
  have hcap := h.room
  obtain ⟨n, rfl⟩ := h.words
  have hadd : checkedAdd regs.sp (n * 8) = some (s₀.sp + 8) := by
    rw [hregs.sp]
    exact checkedAdd_eq_some.mpr ⟨by omega, by omega⟩
  rw [Nat.mul_div_cancel_left _ (by decide)] at hrule
  unfold framelessRule at hrule
  split at hrule
  case h_1 pos hpos =>
    split at hrule
    case h_2 => cases hrule
    case h_1 k hk =>
      cases hrule
      obtain ⟨hpos, hword, -⟩ := List.idxOf?_eq_some_iff.mp hpos
      have hslot : ((8 * n : Nat) : Int) - 2 * 8 - pos * 8 = 8 * ((n : Int) - 2 - pos) := by
        push_cast
        ring
      rw [hslot, Int.mul_tdiv_cancel_left _ (by decide)] at hk
      obtain ⟨rfl, -, -⟩ := toI16_eq_some.mp hk
      have hloc : checkedAddSigned regs.sp (((n : Int) - 2 - pos) * 8) = some (s₀.sp - 8 * (pos + 1)) := by
        rw [hregs.sp]
        exact checkedAddSigned_eq_some.mpr ⟨by omega, by omega⟩
      exact target_restoreBp first hadd hloc (h.saved pos (List.getElem?_eq_some_iff.mpr ⟨hpos, hword⟩))
  case h_2 hnone =>
    cases hrule
    have hbp : s.bp = s₀.bp := h.bp (by simpa using hnone)
    rw [← hbp, ← hregs.bp]
    exact target_offsetSp first hadd

theorem target_justReturn (hroom : Roomy s₀) (hsp : s.sp = s₀.sp) (hbp : s.bp = s₀.bp) (first : Bool)
    (hregs : Agrees regs s) : target .justReturn first regs s.mem = .ok (some (s₀.sp + 8, s₀.bp)) := by
  have hhigh := hroom.high
  have hadd : checkedAdd s₀.sp 8 = some (s₀.sp + 8) := checkedAdd_eq_some.mpr ⟨by omega, rfl⟩
  simp [target, hregs.sp, hregs.bp, hsp, hbp, hadd, okOr, bind, Except.bind, pure, Except.pure]

theorem eq_of_map_execRule {x : Except CompactUnwindInfoUnwinderError UnwindRule}
    (h : x.map CuiUnwindResult.execRule = .ok (.execRule rule)) : x = .ok rule := by
  cases x with
  | error e => cases h
  | ok r =>
    cases h
    rfl

theorem bodyRule_target {opcode : Opcode} {bytes : Option Bytes} (hroom : Roomy s₀) (h : Frame opcode bytes s₀ s)
    (hrule : bodyRule opcode bytes = .ok (.execRule rule)) (first : Bool) (hregs : Agrees regs s) :
    s.sp ≤ s₀.sp ∧ target rule first regs s.mem = .ok (some (s₀.sp + 8, s₀.bp)) := by
  cases opcode with
  | null | dwarf | unrecognizedKind | invalidFrameless => cases hrule
  | framelessImmediate size savedRegs =>
    have h : FramelessFrame size savedRegs s₀ s := h
    refine ⟨h.up, ?_⟩
    unfold bodyRule at hrule
    dsimp only at hrule
    split at hrule
    case isTrue hsize =>
      -- a frame of one word has no place for a saved register
      cases hrule
      have hsp := h.sp
      have hcap := h.room
      have hnone : fromOutside savedRegs = [] := List.length_eq_zero_iff.mp (by omega)
      exact target_justReturn hroom (by omega) (h.bp (by simp [hnone])) first hregs
    case isFalse => exact framelessRule_target hroom h (eq_of_map_execRule hrule) first hregs
  | framelessIndirect offset adjust savedRegs =>
    obtain ⟨immediate, himmediate, h⟩ := h
    obtain ⟨code, rfl, himmediate⟩ := Option.bind_eq_some_iff.mp himmediate
    have himmediate : subImmediate code offset = some immediate := himmediate
    refine ⟨h.up, ?_⟩
    unfold bodyRule at hrule
    simp only [himmediate] at hrule
    split at hrule
    · cases hrule
    split at hrule
    · cases hrule
    exact framelessRule_target hroom h (eq_of_map_execRule hrule) first hregs
  | frameBased =>
    cases hrule
    exact ⟨Framed.up h, Framed.target h hroom first hregs⟩

/-! ## The table's rules -/

variable {I : UnwindInfo} {parse : Nat → Opcode} {u : CompactUnwindInfoUnwinder} {address : Nat} {first : Bool}
  {f : Function}

/-- In a function, and not in what looks like its prologue or epilogue. -/
structure InBody (u : CompactUnwindInfoUnwinder) (address : Nat) (f : Function) : Prop extends Inside u address f where
  code : ∀ code, functionBytes u.textBytes f = some code →
    ruleFromInstructionAnalysis code (subU32 address f.startAddress) = none

theorem firstFrameRule_body {opcode : Opcode} {offset : Nat} {bytes : Option Bytes} {o : Option UnwindRule}
    (h : firstFrameRule opcode offset bytes = .ok o)
    (hcode : ∀ code, bytes = some code → ruleFromInstructionAnalysis code offset = none) :
    o = if opcode = .null then some (if startsFramed bytes then .useFramePointer else .justReturn) else none := by
  unfold firstFrameRule at h
  cases bytes with
  | none =>
    cases h
    rfl
  | some code =>
    simp only [hcode code rfl] at h
    split at h
    · cases h
    · split at h
      case isTrue hnull =>
        cases h
        simp [hnull, startsFramed]
      case isFalse hnull =>
        cases h
        simp [hnull]

theorem rule_of_body (h : u.unwindFrame I (compactX86 parse) address first = .ok (.execRule rule))
    (hf : u.functionForAddress I address = .ok f) (hbody : first = true → InBody u address f) :
    bodyRule (parse f.opcode) (functionBytes u.textBytes f) = .ok (.execRule rule) ∨
      parse f.opcode = .null ∧ rule = if startsFramed
        (functionBytes u.textBytes f) then .useFramePointer else .justReturn := by
  have h := unwindFrame_of_function h hf (fun hfirst => (hbody hfirst).toInside)
  simp only [compactX86, unwindFrameCompact] at h
  split at h
  case isFalse => exact .inl (eq_of_mapError h)
  case isTrue hfirst =>
    split at h
    case h_1 => cases h
    case h_2 rule' hrule =>
      cases h
      have ho := firstFrameRule_body hrule (hbody hfirst).code
      split at ho
      case isTrue hnull => exact .inr ⟨hnull, Option.some.inj ho⟩
      case isFalse => cases ho
    case h_3 => exact .inl (eq_of_mapError h)

/-- A rule from the table recovers the caller: for an address in the body of a function, in a frame
    of any depth, if the registers are those of a state in which the body has the frame that the
    function's opcode describes, executing the rule gives the return address, stack pointer and frame
    pointer with which the function, as it was entered, would return. In the first frame this is so
    where the code does not look like a prologue or an epilogue, for a function without information
    too. -/
theorem x86_compact_rule_sound (h : u.unwindFrame I (compactX86 parse) address first = .ok (.execRule rule))
    (hf : u.functionForAddress I address = .ok f) (hbody : first = true → InBody u address f) (hroom : Roomy s₀)
    (hdescribes : Describes (parse f.opcode) (functionBytes u.textBytes f) s₀ s) (hregs : Agrees regs s) :
    exec rule first regs s.mem = callerOf regs s₀ := by
  have hframe := hdescribes.frame
  have hhigh := hroom.high
  have htarget : s.sp ≤ s₀.sp ∧ target rule first regs s.mem = .ok (some (s₀.sp + 8, s₀.bp)) := by
    rcases rule_of_body h hf hbody with hrule | ⟨hnull, rfl⟩
    · exact bodyRule_target hroom hframe hrule first hregs
    · rw [hnull] at hframe
      unfold Frame at hframe
      dsimp only at hframe
      split at hframe
      case isTrue hstarts =>
        rw [if_pos hstarts]
        exact ⟨hframe.up, hframe.target hroom first hregs⟩
      case isFalse hstarts =>
        rw [if_neg hstarts]
        exact ⟨hframe.1.le, target_justReturn hroom hframe.1 hframe.2 first hregs⟩
  exact exec_eq_callerOf htarget.2 (by rw [hregs.sp]; exact htarget.1) (by omega) hdescribes.returnAddress

/-- A frame of four words: the return address, the saved `rbp` and `rbx`, and a local. -/
def savesBp (_ : Nat) : Opcode := .framelessImmediate 32 [none, none, none, none, some .rbx, some .rbp]

/-- In the body of a function that was entered in `sampleState` and has a word of its own in `rbp`. -/
def savedBpState : X64.State :=
  ⟨fun r => if r = X64.rsp then 2 ^ 40 - 24 else 5, Function.update sampleState.mem (2 ^ 40 - 8) (some 7)⟩

theorem savedBpState_frame :
    FramelessFrame 32 [none, none, none, none, some .rbx, some .rbp] sampleState savedBpState where
  words := by decide
  room := by decide
  sp := by decide
  saved := by
    intro i hi
    match i, hi with
    | 0, _ => rfl
    | 1, h => cases h
    | i + 2, h => cases h
  bp := by decide

theorem x86_compact_rule_sound_savesBp :
    exec (.offsetSpAndRestoreBp 4 2) false (.new 0 (2 ^ 40 - 24) 5) savedBpState.mem =
      callerOf (.new 0 (2 ^ 40 - 24) 5) sampleState :=
  x86_compact_rule_sound
    (show noSections.unwindFrame (oneFunction ⟨0x100, 0x200, 0⟩) (compactX86 savesBp) 0x150 false =
      .ok (.execRule (.offsetSpAndRestoreBp 4 2)) by decide)
    (show noSections.functionForAddress (oneFunction ⟨0x100, 0x200, 0⟩) 0x150 = .ok ⟨0x100, 0x200, 0⟩ by decide)
    (fun hfirst => Bool.noConfusion hfirst) ⟨by decide, by decide⟩ ⟨savedBpState_frame, rfl⟩ ⟨rfl, rfl⟩

/-! ## Stub helpers -/

/-- The code of the section, as the source lists it: `binder` is what the shared part pushes, `word`
    what each stub pushes. -/
def stubHelperStep (binder : Nat) (word : Nat → Nat) (pc : Nat) (s : X64.State) : Machine.Outcome X64.State :=
  -- lea r11, qword [dyld_stub_binder + 8]
  if pc = 0x0 then .running 0x7 { s with regs := Function.update s.regs 11 binder }
  -- push r11
  else if pc = 0x7 then X64.pushWord (s.regs 11) 0x9 s
  -- jmp qword [dyld_stub_binder]
  else if pc = 0x9 then .left s
  else if 0x10 ≤ pc ∧ (pc - 0x10) % 10 = 0 then X64.pushWord (word ((pc - 0x10) / 10)) (pc + 5) s
  -- jmp shared
  else if 0x10 ≤ pc ∧ (pc - 0x10) % 10 = 5 then .running 0x0 s
  else .undefined

/-- How many words the code has pushed where it comes to `pc`. -/
def wordsPushed (pc : Nat) : Nat :=
  if pc = 0x9 then 2 else if 0x10 ≤ pc ∧ (pc - 0x10) % 10 = 0 then 0 else 1

/-- On the way from the start of stub `k`. -/
structure InStub (k : Nat) (s₀ : X64.State) (pc : Nat) (s : X64.State) : Prop where
  place : pc = 0x10 + 10 * k ∨ pc = 0x15 + 10 * k ∨ pc = 0x0 ∨ pc = 0x7 ∨ pc = 0x9
  pushed : Pushed s₀ s (wordsPushed pc)
  mem : ∀ a, s₀.sp ≤ a → s.mem a = s₀.mem a

variable {binder : Nat} {word : Nat → Nat}

theorem wordsPushed_stub (k : Nat) : wordsPushed (0x10 + 10 * k) = 0 := by
  unfold wordsPushed
  rw [if_neg (by omega), if_pos (by omega)]

theorem wordsPushed_jump (k : Nat) : wordsPushed (0x15 + 10 * k) = 1 := by
  unfold wordsPushed
  rw [if_neg (by omega), if_neg (by omega)]

/-- A push of the section's code. -/
theorem InStub.push {k pc v next : Nat} {s s' : X64.State} {pc' : Nat} (hroom : Roomy s₀) (h : InStub k s₀ pc s)
    (hpc : wordsPushed pc ≤ 1) (hnext : next = 0x15 + 10 * k ∨ next = 0x9)
    (hwords : wordsPushed next = wordsPushed pc + 1)
    (hstep : X64.pushWord v next s = .running pc' s') : InStub k s₀ pc' s' := by
  have hlow := hroom.low
  have hhigh := hroom.high
  have hsp := h.pushed.sp
  rcases X64.pushWord_cases v next (s := s) (by omega) (by omega) with hfault | ⟨s₁, hexec, hsp₁, hbp₁, hmem₁⟩
  · rw [hfault] at hstep
    cases hstep
  · cases hexec.symm.trans hstep
    refine ⟨by omega, ⟨by omega, hbp₁.trans h.pushed.bp⟩, ?_⟩
    intro a ha
    rw [hmem₁, Function.update_of_ne (by omega)]
    exact h.mem a ha

theorem InStub.step {k pc pc' : Nat} {s s' : X64.State} (hroom : Roomy s₀) (h : InStub k s₀ pc s)
    (hstep : stubHelperStep binder word pc s = .running pc' s') : InStub k s₀ pc' s' := by
  unfold stubHelperStep at hstep
  rcases h.place with rfl | rfl | rfl | rfl | rfl
  · rw [if_neg (by omega), if_neg (by omega), if_neg (by omega), if_pos (by omega)] at hstep
    have hnext : 0x10 + 10 * k + 5 = 0x15 + 10 * k := by omega
    rw [hnext] at hstep
    exact h.push hroom (by rw [wordsPushed_stub]; omega) (.inl rfl) (by rw [wordsPushed_stub, wordsPushed_jump]) hstep
  · rw [if_neg (by omega), if_neg (by omega), if_neg (by omega), if_neg (by omega), if_pos (by omega)] at hstep
    cases hstep
    have hpushed := h.pushed
    rw [wordsPushed_jump] at hpushed
    exact ⟨by simp, hpushed, h.mem⟩
  · cases hstep
    exact ⟨by simp, ⟨h.pushed.sp, h.pushed.bp⟩, h.mem⟩
  · exact h.push hroom (by decide) (.inr rfl) (by decide) hstep
  · cases hstep

/-- Where the rule counts the words right, it gives the caller's frame. -/
theorem InStub.target {k pc : Nat} (hroom : Roomy s₀) (h : InStub k s₀ pc s) (hne : pc ≠ 0x7) (first : Bool)
    (hregs : Agrees regs s) : target (ruleForStubHelper pc) first regs s.mem = .ok (some (s₀.sp + 8, s₀.bp)) := by
  have hhigh := hroom.high
  have hpushed := h.pushed
  have hbp : regs.bp = s₀.bp := hregs.bp.trans hpushed.bp
  have hplus : ∀ n, wordsPushed pc + 1 = n → checkedAdd regs.sp (n * 8) = some (s₀.sp + 8) := by
    intro n hn
    have hsp := hpushed.sp
    rw [hregs.sp]
    exact checkedAdd_eq_some.mpr ⟨by omega, by omega⟩
  rw [← hbp]
  rcases h.place with rfl | rfl | rfl | rfl | rfl
  · have hrule : ruleForStubHelper (0x10 + 10 * k) = .justReturn := by
      unfold ruleForStubHelper
      rw [if_neg (by omega), if_neg (by omega), if_pos (by omega)]
    rw [wordsPushed_stub] at hpushed
    rw [hrule, hbp]
    exact target_justReturn hroom hpushed.sp hpushed.bp first hregs
  · have hrule : ruleForStubHelper (0x15 + 10 * k) = .offsetSp 2 := by
      unfold ruleForStubHelper
      rw [if_neg (by omega), if_neg (by omega), if_neg (by omega)]
    rw [hrule]
    exact target_offsetSp first (hplus 2 (by rw [wordsPushed_jump]))
  · exact target_offsetSp first (hplus 2 rfl)
  · exact absurd rfl hne
  · exact target_offsetSp first (hplus 3 rfl)

/-- The rules for the stub helper section are exact: entered at any stub, in any state with a return
    address, at every place that the code comes to, executing the rule for that place recovers the
    caller of the stub, but before the second push: there the rule takes the word for pushed. -/
theorem x86_stub_helper_exact_iff (hroom : Roomy s₀) {returnAddress : Nat} (hmem : s₀.mem s₀.sp = some returnAddress)
    (hne : returnAddress ≠ 0) (k : Nat) : Along (stubHelperStep binder word) (0x10 + 10 * k) s₀ fun pc s =>
      ∀ first regs, Agrees regs s → (exec (ruleForStubHelper pc) first regs s.mem = callerOf regs s₀ ↔ pc ≠ 0x7) := by
  have hstart : InStub k s₀ (0x10 + 10 * k) s₀ := ⟨.inl rfl, ⟨by rw [wordsPushed_stub]; rfl, rfl⟩, fun _ _ => rfl⟩
  have hrun : Along (stubHelperStep binder word) (0x10 + 10 * k) s₀ (InStub k s₀) :=
    Along.of_step hstart (InStub.step hroom)
  intro n pc s hpc first regs hregs
  have h := hrun n pc s hpc
  have hhigh := hroom.high
  have hsp := h.pushed.sp
  constructor
  · rintro hexec rfl
    have hadd : checkedAdd regs.sp (3 * 8) = some (s₀.sp + 16) := by
      have hone : wordsPushed 0x7 = 1 := rfl
      rw [hregs.sp]
      exact checkedAdd_eq_some.mpr ⟨by omega, by omega⟩
    have hcaller : callerOf regs s₀ =
        (.ok (some returnAddress), ((regs.setIp returnAddress).set .rsp (s₀.sp + 8)).set .rbp s₀.bp) := by
      simp [callerOf, hmem, hne]
    have hfinish := (exec_of_target (target_offsetSp first hadd)).symm.trans (hexec.trans hcaller)
    obtain ⟨-, -, -, hregs'⟩ := finish_some_iff.mp hfinish
    have hsame := congrArg UnwindRegs.sp hregs'
    simp only [set_rbp_sp, set_sp] at hsame
    omega
  · intro hne
    exact exec_eq_callerOf (h.target hroom hne first hregs) (by rw [hregs.sp]; omega) (by omega) (h.mem _ le_rfl)

theorem x86_stub_helper_exact_iff_second : Along (stubHelperStep 0x276008 fun _ => 0x6238) 0x1a sampleState fun pc s =>
    ∀ first regs, Agrees regs s → (exec (ruleForStubHelper pc) first regs s.mem =
      callerOf regs sampleState ↔ pc ≠ 0x7) :=
  x86_stub_helper_exact_iff ⟨by decide, by decide⟩
    (show sampleState.mem sampleState.sp = some (2 ^ 40 + 1) by rfl) (by decide) 1

end FramehopUnwind.Unwinder.X86
