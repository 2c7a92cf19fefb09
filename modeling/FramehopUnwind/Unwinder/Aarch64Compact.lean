/-
  FramehopUnwind.Unwinder.Aarch64Compact — compact unwind info on aarch64
  (vendor/framehop/src/aarch64/macho.rs).

  The body of a function has a frame record that the frame pointer points to, or it has its frame
  by the stack pointer and its link register still holds the return address: such a function calls
  nothing, so it is in the first frame only.

  Frame records are a chain up the stack with a null frame pointer at its end, where unwinding stops.

  Proved:
  - `aarch64_compact_rule_sound`: a rule from the table recovers the state in which its function was
    entered, wherever the body has the frame that the opcode describes.
  - `aarch64_stub_helper_sound`: from the start of any stub, the rule for the stub helper section is
    right at every place the code comes to.
-/

import FramehopUnwind.Unwinder.Aarch64Prologue
import FramehopUnwind.Unwinder.Compact

namespace FramehopUnwind.Unwinder.Aarch64

open Lib Lib.A64 Lib.Word Lib.Machine Unwinder.Compact

/-! ## Opcodes -/

/-- `OpcodeArm64`; the saved register pairs of a frame-based function are not used. -/
inductive Opcode where
  | null
  | frameless (stackSizeInBytes : Nat)
  | dwarf (ehFrameFde : Nat)
  | frameBased
  | unrecognizedKind (kind : Nat)
  deriving DecidableEq, Repr

/-- The last part of `unwind_frame`, for an address in a function's body. -/
def bodyRule (opcode : Opcode) (isFirstFrame : Bool) :
    Except CompactUnwindInfoUnwinderError (CuiUnwindResult UnwindRule) :=
  match opcode with
  | .null => .error .functionHasNoInfo
  | .frameless stackSizeInBytes =>
    if isFirstFrame then
      if stackSizeInBytes = 0 then .ok (.execRule .noOp) else .ok (.execRule (.offsetSp (stackSizeInBytes / 16)))
    else .error .callerCannotBeFrameless
  | .dwarf ehFrameFde => .ok (.needDwarf ehFrameFde)
  | .frameBased => .ok (.execRule .useFramePointer)
  | .unrecognizedKind kind => .error (.badOpcodeKind kind)

/-- The first part of `unwind_frame`: in the first frame the code may tell the rule. -/
def firstFrameRule (opcode : Opcode) (offset : Nat) (functionBytes : Option Bytes) : Except Fault (Option UnwindRule) :=
  if opcode = .null then .ok (some .noOp)
  else
    match functionBytes with
    | some functionBytes =>
      if functionBytes.length < offset then .error .panic else .ok (ruleFromInstructionAnalysis functionBytes offset)
    | none => .ok none

def unwindFrameCompact (parse : Nat → Opcode) (function : Function) (isFirstFrame : Bool) (offset : Nat)
    (functionBytes : Option Bytes) : Except Fault (CuiUnwindResult UnwindRule) :=
  let opcode := parse function.opcode
  let body := (bodyRule opcode isFirstFrame).mapError .error
  if isFirstFrame then
    match firstFrameRule opcode offset functionBytes with
    | .error e => .error e
    | .ok (some rule) => .ok (.execRule rule)
    | .ok none => body
  else body

def ruleForStubHelper (offset : Nat) : UnwindRule :=
  if offset < 0xc then .noOp else if offset < 0x18 then .offsetSp 1 else .noOp

theorem bodyRule_needDwarf {opcode : Opcode} {first : Bool} {fdeOffset : Nat}
    (h : bodyRule opcode first = .ok (.needDwarf fdeOffset)) : opcode = .dwarf fdeOffset := by
  unfold bodyRule at h
  split at h
  case h_3 =>
    cases h
    rfl
  all_goals repeat' split at h
  all_goals cases h

theorem needDwarf_caller {parse : Nat → Opcode} {f : Function} {offset fdeOffset : Nat} {bytes : Option Bytes}
    (h : unwindFrameCompact parse f true offset bytes = .ok (.needDwarf fdeOffset)) :
    unwindFrameCompact parse f false offset bytes = .ok (.needDwarf fdeOffset) := by
  simp only [unwindFrameCompact, if_true] at h
  split at h
  · cases h
  · cases h
  · simp only [unwindFrameCompact, bodyRule_needDwarf (eq_of_mapError h)]
    rfl

def compactAarch64 (parse : Nat → Opcode) : CompactArch UnwindRule where
  ruleForStubFunctions := .noOp
  ruleForFunctionStart := .noOp
  unwindFrame := unwindFrameCompact parse
  ruleForStubHelper := ruleForStubHelper
  needDwarf_caller _ _ _ _ := needDwarf_caller

/-! ## The rules of the table do not panic -/

theorem firstFrameRule_panics {opcode : Opcode} {offset : Nat} {bytes : Option Bytes} {e : Fault}
    (h : firstFrameRule opcode offset bytes = .error e) : ∃ code, bytes = some code ∧ code.length < offset := by
  unfold firstFrameRule at h
  split at h
  · cases h
  · cases bytes with
    | none => cases h
    | some code =>
      dsimp only at h
      split at h
      case isTrue hlt => exact ⟨code, rfl, hlt⟩
      case isFalse => cases h

theorem compactAarch64_panics (parse : Nat → Opcode) : (compactAarch64 parse).PanicsPastEnd := by
  intro f first offset bytes h
  simp only [compactAarch64, unwindFrameCompact] at h
  split at h
  · split at h
    case h_1 heq => exact firstFrameRule_panics heq
    case h_2 => cases h
    case h_3 => exact absurd h (mapError_not_panic _)
  · exact absurd h (mapError_not_panic _)

/-! ## Frames that an opcode describes -/

variable {mask : PtrAuthMask} {s₀ s : State} {rule : UnwindRule}

/-- The frame pointer points to the record of the frame pointer and the link register. -/
structure FrameRecord (mask : PtrAuthMask) (s₀ s : State) : Prop where
  place : s.x fp + 16 = s₀.sp
  sp : s.sp ≤ s.x fp
  savedFp : s.mem (s.x fp) = some (s₀.x fp)
  savedLr : ∃ v, s.mem (s.x fp + 8) = some v ∧ mask.stripPtrAuth v = mask.stripPtrAuth (s₀.x lr)
  chained : s₀.x fp = 0 ∨ s.x fp < s₀.x fp

/-- The frame that an opcode stands for, in a function that was entered in `s₀`. -/
def Frame (mask : PtrAuthMask) (opcode : Opcode) (s₀ s : State) : Prop :=
  match opcode with
  | .null => s.sp = s₀.sp ∧ KeepsRegs mask s₀ s
  | .frameless stackSizeInBytes => 16 ∣ stackSizeInBytes ∧ s.sp + stackSizeInBytes = s₀.sp ∧ KeepsRegs mask s₀ s
  | .frameBased => FrameRecord mask s₀ s
  | .dwarf _ | .unrecognizedKind _ => False

/-- The caller, or the end of the chain of frame records. -/
def callerOrEnd (mask : PtrAuthMask) (opcode : Opcode) (s s₀ : State) : Except Error (Option Nat) × UnwindRegs :=
  if opcode = .frameBased ∧ s₀.x fp = 0 then (.ok none, unwindRegs mask s) else callerOf mask s s₀

/-- A frame by the frame pointer: the rule reads the record. -/
theorem exec_useFramePointer (hs₀ : Sound s₀) (h : FrameRecord mask s₀ s) (first : Bool) :
    exec .useFramePointer first (unwindRegs mask s) s.mem = callerOrEnd mask .frameBased s s₀ := by
  have hhigh := hs₀.high
  have hfp := h.place
  have hsp := h.sp
  obtain ⟨v, hv, hstrip⟩ := h.savedLr
  have hadd : checkedAdd (s.x fp) 16 = some s₀.sp := checkedAdd_eq_some.mpr ⟨by omega, by omega⟩
  unfold callerOrEnd
  by_cases hzero : s₀.x fp = 0
  · have ht : target .useFramePointer first (unwindRegs mask s) s.mem = .ok none := by
      simp [target, unwindRegs, UnwindRegs.newWithPtrAuthMask, hadd, okOr, readOr, hv, h.savedFp, hzero,
        bind, Except.bind, pure, Except.pure]
    simp [exec, ht, hzero]
  · have hup : ¬ s₀.x fp ≤ s.x fp := by
      have := h.chained
      omega
    have hmoved : ¬ s₀.sp ≤ s.sp := by omega
    have ht : target .useFramePointer first (unwindRegs mask s) s.mem = .ok (some (v, s₀.sp, s₀.x fp)) := by
      simp [target, unwindRegs, UnwindRegs.newWithPtrAuthMask, hadd, okOr, readOr, hv, h.savedFp, hzero,
        hup, hmoved, bind, Except.bind, pure, Except.pure]
    rw [if_neg (by simp [hzero])]
    exact exec_eq_callerOf v ht hstrip (by omega)

/-! ## The table's rules -/

variable {I : UnwindInfo} {parse : Nat → Opcode} {u : CompactUnwindInfoUnwinder} {address : Nat} {first : Bool}
  {f : Function}

/-- In a function, and not in what looks like its prologue or epilogue. -/
structure InBody (u : CompactUnwindInfoUnwinder) (address : Nat) (f : Function) : Prop extends Inside u address f where
  code : ∀ code, functionBytes u.textBytes f = some code →
    ruleFromInstructionAnalysis code (subU32 address f.startAddress) = none

theorem rule_of_body (h : u.unwindFrame I (compactAarch64 parse) address first = .ok (.execRule rule))
    (hf : u.functionForAddress I address = .ok f) (hbody : first = true → InBody u address f) :
    bodyRule (parse f.opcode) first = .ok (.execRule rule) ∨ first = true ∧ parse f.opcode = .null ∧ rule = .noOp := by
  have h := unwindFrame_of_function h hf (fun hfirst => (hbody hfirst).toInside)
  simp only [compactAarch64, unwindFrameCompact] at h
  split at h
  case isFalse => exact .inl (eq_of_mapError h)
  case isTrue hfirst =>
    split at h
    case h_1 => cases h
    case h_3 => exact .inl (eq_of_mapError h)
    case h_2 rule' hrule =>
      cases h
      unfold firstFrameRule at hrule
      split at hrule
      case isTrue hnull =>
        cases hrule
        exact .inr ⟨hfirst, hnull, rfl⟩
      case isFalse =>
        split at hrule
        case h_2 => cases hrule
        case h_1 code hcode =>
          split at hrule
          · cases hrule
          · rw [(hbody hfirst).code code hcode] at hrule
            cases hrule

/-- A rule from the table recovers the caller: for an address in the body of a function, in a frame
    of any depth, in a state in which the body has the frame that the function's opcode describes,
    executing the rule gives the return address, stack pointer and frame pointer with which the
    function, as it was entered, would return, or the end of the stack where the chain of frame
    records ends. In the first frame this is so where the code does not look like a prologue or an
    epilogue, for a function without information too. -/
theorem aarch64_compact_rule_sound (h : u.unwindFrame I (compactAarch64 parse) address first = .ok (.execRule rule))
    (hf : u.functionForAddress I address = .ok f) (hbody : first = true → InBody u address f) (hs₀ : Sound s₀)
    (hframe : Frame mask (parse f.opcode) s₀ s) :
    exec rule first (unwindRegs mask s) s.mem = callerOrEnd mask (parse f.opcode) s s₀ := by
  have hother : parse f.opcode ≠ .frameBased → callerOrEnd mask (parse f.opcode) s s₀ = callerOf mask s s₀ := by
    intro hne
    unfold callerOrEnd
    rw [if_neg (fun hend => hne hend.1)]
  rcases rule_of_body h hf hbody with hrule | ⟨rfl, hnull, rfl⟩
  · cases hopcode : parse f.opcode with
    | null | dwarf | unrecognizedKind =>
      rw [hopcode] at hrule
      cases hrule
    | frameBased =>
      rw [hopcode] at hrule hframe
      cases hrule
      exact exec_useFramePointer hs₀ hframe first
    | frameless size =>
      rw [← hopcode, hother (by rw [hopcode]; simp)]
      rw [hopcode] at hrule hframe
      obtain ⟨⟨n, rfl⟩, hsp, hkeeps⟩ := hframe
      unfold bodyRule at hrule
      dsimp only at hrule
      split at hrule
      case isFalse => cases hrule
      case isTrue hfirst =>
        subst hfirst
        rw [Nat.mul_div_cancel_left _ (by decide)] at hrule
        rw [← exec_offset hs₀ hsp hkeeps s.mem]
        split at hrule
        case isTrue hzero =>
          cases hrule
          rw [if_pos (by omega)]
        case isFalse hne =>
          cases hrule
          rw [if_neg (by omega)]
  · rw [hother (by rw [hnull]; simp)]
    rw [hnull] at hframe
    obtain ⟨hsp, hkeeps⟩ := hframe
    have hzero : s.sp + 16 * 0 = s₀.sp := hsp
    exact exec_offset hs₀ hzero hkeeps s.mem

/-- A state with a caller's frame pointer, and one in the body of a function that it enters. -/
def entryState : State := ⟨2 ^ 40, fun r => if r = fp then 2 ^ 40 + 64 else 7, fun a => some (a + 1)⟩

def recordState : State :=
  ⟨2 ^ 40 - 32, fun r => if r = fp then 2 ^ 40 - 16 else 5,
    Function.update (Function.update entryState.mem (2 ^ 40 - 16) (some (2 ^ 40 + 64))) (2 ^ 40 - 8) (some 7)⟩

theorem recordState_frame : FrameRecord ⟨2 ^ 47 - 1⟩ entryState recordState where
  place := by decide
  sp := by decide
  savedFp := rfl
  savedLr := ⟨7, rfl, by decide⟩
  chained := by decide

theorem aarch64_compact_rule_sound_record :
    exec .useFramePointer false (unwindRegs ⟨2 ^ 47 - 1⟩ recordState) recordState.mem =
      callerOrEnd ⟨2 ^ 47 - 1⟩ .frameBased recordState entryState :=
  aarch64_compact_rule_sound
    (show noSections.unwindFrame (oneFunction ⟨0x100, 0x200, 0⟩) (compactAarch64 fun _ => .frameBased) 0x150 false =
      .ok (.execRule .useFramePointer) by decide)
    (show noSections.functionForAddress (oneFunction ⟨0x100, 0x200, 0⟩) 0x150 = .ok ⟨0x100, 0x200, 0⟩ by decide)
    (fun hfirst => Bool.noConfusion hfirst) ⟨by decide, by decide, by decide⟩ recordState_frame

/-! ## Stub helpers -/

/-- The code of the section, as the source lists it: the words of the `adr` and the loads are
    parameters. -/
def stubHelperStep (adr binder : Nat) (word : Nat → Nat) (pc : Nat) (s : State) :
    Machine.Outcome State :=
  if pc = 0x0 then .running 0x4 (s.setX 17 adr)
  else if pc = 0x4 then .running 0x8 s
  -- stp x16, x17, [sp, #-0x10]!
  else if pc = 0x8 then storePair .pre 16 17 (-16) (pc + 4) s
  else if pc = 0xc then .running 0x10 s
  else if pc = 0x10 then .running 0x14 (s.setX 16 binder)
  -- br x16
  else if pc = 0x14 then .left s
  else if 0x18 ≤ pc ∧ (pc - 0x18) % 12 = 0 then .running (pc + 4) (s.setX 16 (word ((pc - 0x18) / 12)))
  -- b shared
  else if 0x18 ≤ pc ∧ (pc - 0x18) % 12 = 4 then .running 0x0 s
  else .undefined

/-- On the way from the start of stub `k`. -/
structure InStub (mask : PtrAuthMask) (k : Nat) (s₀ : State) (pc : Nat) (s : State) : Prop where
  place : pc < 0x18 ∨ pc = 0x18 + 12 * k ∨ pc = 0x1c + 12 * k
  sp : s.sp + (if 0xc ≤ pc ∧ pc < 0x18 then 16 else 0) = s₀.sp
  keeps : KeepsRegs mask s₀ s

theorem keepsRegs_setX {r : XReg} (hfp : fp ≠ r) (hlr : lr ≠ r) (s : State) (v : Nat) :
    KeepsRegs mask s (s.setX r v) := by
  refine ⟨?_, ?_⟩
  · rw [setX_x _ _ _ _ (by decide), if_neg hfp]
  · rw [setX_x _ _ _ _ (by decide), if_neg hlr]

variable {adr binder : Nat} {word : Nat → Nat} {k pc pc' : Nat} {s' : State}

/-- An instruction that leaves the stack pointer and goes on where it is to be the same. -/
theorem InStub.next (h : InStub mask k s₀ pc s) (hplace : pc' < 0x18 ∨ pc' = 0x18 + 12 * k ∨ pc' = 0x1c + 12 * k)
    (hsame : (0xc ≤ pc' ∧ pc' < 0x18) ↔ (0xc ≤ pc ∧ pc < 0x18)) (hsp : s'.sp = s.sp) (hkeeps : KeepsRegs mask s s') :
    InStub mask k s₀ pc' s' := by
  refine ⟨hplace, ?_, h.keeps.trans hkeeps⟩
  simp only [hsame, hsp]
  exact h.sp

theorem InStub.step (hs₀ : Sound s₀) (h : InStub mask k s₀ pc s)
    (hstep : stubHelperStep adr binder word pc s = .running pc' s') : InStub mask k s₀ pc' s' := by
  have hplace := h.place
  have hsame : KeepsRegs mask s s := ⟨rfl, rfl⟩
  unfold stubHelperStep at hstep
  split_ifs at hstep with h0 h4 h8 hc h10 h14 hstub hjump
  · cases hstep
    exact h.next (by omega) (by omega) (setX_sp ..) (keepsRegs_setX (by decide) (by decide) s adr)
  · cases hstep
    exact h.next (by omega) (by omega) rfl hsame
  · -- the one instruction that moves the stack pointer
    subst h8
    have hsp : s.sp = s₀.sp := h.sp
    have hlow := hs₀.low
    have hhigh := hs₀.high
    rcases storePair_cases .pre 16 17 (-16) (0x8 + 4) s with hfault | ⟨s₁, hexec, hsp₁, hx₁⟩
    · rw [hfault] at hstep
      cases hstep
    · cases hexec.symm.trans hstep
      have haddr : (addr s.sp (-16) : Int) = s.sp + -16 := addr_of_range (by omega) (by omega)
      have hdown : s'.sp = addr s.sp (-16) := hsp₁
      refine ⟨by omega, ?_, h.keeps.trans ⟨by rw [hx₁], by rw [hx₁]⟩⟩
      rw [if_pos (by omega)]
      omega
  · cases hstep
    exact h.next (by omega) (by omega) rfl hsame
  · cases hstep
    exact h.next (by omega) (by omega) (setX_sp ..) (keepsRegs_setX (by decide) (by decide) s binder)
  · cases hstep
    exact h.next (by omega) (by omega) (setX_sp ..) (keepsRegs_setX (by decide) (by decide) s _)
  · cases hstep
    exact h.next (by omega) (by omega) rfl hsame

/-- The rules for the stub helper section are right: entered at any stub, in any state, at every
    place that the code comes to, executing the rule for that place recovers the caller of the stub,
    whatever the stack holds. -/
theorem aarch64_stub_helper_sound (hs₀ : Sound s₀) (k : Nat) :
    Along (stubHelperStep adr binder word) (0x18 + 12 * k) s₀ fun pc s =>
      ∀ read, exec (ruleForStubHelper pc) true (unwindRegs mask s) read = callerOf mask s s₀ := by
  have hstart : InStub mask k s₀ (0x18 + 12 * k) s₀ := by
    refine ⟨.inr (.inl rfl), ?_, ⟨rfl, rfl⟩⟩
    rw [if_neg (by omega), Nat.add_zero]
  have hrun : Along (stubHelperStep adr binder word) (0x18 + 12 * k) s₀ (InStub mask k s₀) :=
    Along.of_step hstart (InStub.step hs₀)
  intro n pc s hpc read
  have h := hrun n pc s hpc
  have hsp := h.sp
  unfold ruleForStubHelper
  by_cases hlow : pc < 0xc
  · rw [if_neg (by omega)] at hsp
    rw [if_pos hlow]
    exact exec_offset hs₀ (show s.sp + 16 * 0 = s₀.sp from hsp) h.keeps read
  · rw [if_neg hlow]
    by_cases hhigh : pc < 0x18
    · rw [if_pos ⟨by omega, hhigh⟩] at hsp
      rw [if_pos hhigh]
      exact exec_offset hs₀ (show s.sp + 16 * 1 = s₀.sp from hsp) h.keeps read
    · rw [if_neg (by omega)] at hsp
      rw [if_neg hhigh]
      exact exec_offset hs₀ (show s.sp + 16 * 0 = s₀.sp from hsp) h.keeps read

theorem aarch64_stub_helper_sound_second : Along (stubHelperStep 0x264330 0x238008 fun _ => 0x12) 0x24 entryState
    fun pc s => ∀ read, exec (ruleForStubHelper pc) true (unwindRegs ⟨2 ^ 47 - 1⟩ s) read =
      callerOf ⟨2 ^ 47 - 1⟩ s entryState :=
  aarch64_stub_helper_sound ⟨by decide, by decide, by decide⟩ 1

end FramehopUnwind.Unwinder.Aarch64
