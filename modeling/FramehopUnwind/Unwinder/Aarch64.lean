/-
  FramehopUnwind.Unwinder.Aarch64 — unwinding on aarch64
  (vendor/framehop/src/aarch64: unwindregs.rs, unwind_rule.rs, dwarf.rs).

  The link register is kept stripped of its pointer-authentication bits: `setLr` applies
  the walk's mask, and so does the return address a rule gives. The generic DWARF path
  gives the evaluated link register as it is.

  Proved:
  - `exec_outcome`: a rule that yields a caller never moves the stack pointer down, and past the
    first frame moves it up.
  - `archAarch64`: a row's rule does not depend on the registers, the stack or the frame.
-/

import FramehopUnwind.Unwinder.Dwarf

namespace FramehopUnwind.Unwinder.Aarch64

open Lib.Word

/-! ## Registers -/

/-- The address bits of a pointer; a 64-bit mask. -/
structure PtrAuthMask where
  bits : Nat
  deriving DecidableEq, Repr

def PtrAuthMask.stripPtrAuth (mask : PtrAuthMask) (ptr : Nat) : Nat := ptr &&& mask.bits

structure UnwindRegs where
  lrMask : PtrAuthMask
  lr : Nat
  sp : Nat
  fp : Nat
  deriving DecidableEq, Repr

def UnwindRegs.newWithPtrAuthMask (mask : PtrAuthMask) (lr sp fp : Nat) : UnwindRegs :=
  ⟨mask, mask.stripPtrAuth lr, sp, fp⟩

def UnwindRegs.setLr (r : UnwindRegs) (lr : Nat) : UnwindRegs := { r with lr := r.lrMask.stripPtrAuth lr }

def UnwindRegs.setSp (r : UnwindRegs) (sp : Nat) : UnwindRegs := { r with sp := sp }

def UnwindRegs.setFp (r : UnwindRegs) (fp : Nat) : UnwindRegs := { r with fp := fp }

/-- `DwarfUnwindRegs::get`, by DWARF register number: SP, X29 and X30. -/
def UnwindRegs.dwarfGet (r : UnwindRegs) : Nat → Option Nat
  | 31 => some r.sp
  | 29 => some r.fp
  | 30 => some r.lr
  | _ => none

/-! ## Rules -/

inductive UnwindRule where
  | noOp
  | noOpIfFirstFrameOtherwiseFp
  | offsetSp (spOffsetBy16 : Nat)
  | offsetSpIfFirstFrameOtherwiseStackEndsHere (spOffsetBy16 : Nat)
  | offsetSpAndRestoreLr (spOffsetBy16 : Nat) (lrStorageOffsetFromSpBy8 : Int)
  | offsetSpAndRestoreFpAndLr (spOffsetBy16 : Nat) (fpStorageOffsetFromSpBy8 lrStorageOffsetFromSpBy8 : Int)
  | useFramePointer
  | useFramepointerWithOffsets (spOffsetFromFpBy8 : Nat) (fpStorageOffsetFromFpBy8 lrStorageOffsetFromFpBy8 : Int)
  deriving DecidableEq, Repr

/-- The word stored `offsetBy8` words from `base`. -/
def readStored (read : ReadStack) (base : Nat) (offsetBy8 : Int) : Except Error Nat := do
  let location ← okOr .integerOverflow (checkedAddSigned base (offsetBy8 * 8))
  readOr read location

/-- The new `(lr, sp, fp)` of a rule; `none` ends the stack. -/
def target (rule : UnwindRule) (isFirstFrame : Bool) (regs : UnwindRegs) (read : ReadStack) :
    Except Error (Option (Nat × Nat × Nat)) :=
  let lr := regs.lr
  let sp := regs.sp
  let fp := regs.fp
  match rule with
  | .noOp => if isFirstFrame then return some (lr, sp, fp) else throw .didNotAdvance
  | .noOpIfFirstFrameOtherwiseFp =>
    if isFirstFrame then return some (lr, sp, fp)
    else do
      let newSp ← okOr .integerOverflow (checkedAdd fp 16)
      let newLr ← readOr read (fp + 8)
      let newFp ← readOr read fp
      if newSp ≤ sp then throw .framepointerUnwindingMovedBackwards
      return some (newLr, newSp, newFp)
  | .offsetSpIfFirstFrameOtherwiseStackEndsHere spOffsetBy16 =>
    if isFirstFrame then do
      let newSp ← okOr .integerOverflow (checkedAdd sp (spOffsetBy16 * 16))
      return some (lr, newSp, fp)
    else return none
  | .offsetSp spOffsetBy16 =>
    if isFirstFrame then do
      let newSp ← okOr .integerOverflow (checkedAdd sp (spOffsetBy16 * 16))
      return some (lr, newSp, fp)
    else throw .didNotAdvance
  | .offsetSpAndRestoreLr spOffsetBy16 lrStorageOffsetFromSpBy8 => do
    let newSp ← okOr .integerOverflow (checkedAdd sp (spOffsetBy16 * 16))
    let newLr ← readStored read sp lrStorageOffsetFromSpBy8
    return some (newLr, newSp, fp)
  | .offsetSpAndRestoreFpAndLr spOffsetBy16 fpStorageOffsetFromSpBy8 lrStorageOffsetFromSpBy8 => do
    let newSp ← okOr .integerOverflow (checkedAdd sp (spOffsetBy16 * 16))
    let newLr ← readStored read sp lrStorageOffsetFromSpBy8
    let newFp ← readStored read sp fpStorageOffsetFromSpBy8
    return some (newLr, newSp, newFp)
  | .useFramePointer => do
    let newSp ← okOr .integerOverflow (checkedAdd fp 16)
    let newLr ← readOr read (fp + 8)
    let newFp ← readOr read fp
    if newFp = 0 then return none
    if newFp ≤ fp ∨ newSp ≤ sp then throw .framepointerUnwindingMovedBackwards
    return some (newLr, newSp, newFp)
  | .useFramepointerWithOffsets spOffsetFromFpBy8 fpStorageOffsetFromFpBy8 lrStorageOffsetFromFpBy8 => do
    let newSp ← okOr .integerOverflow (checkedAdd fp (spOffsetFromFpBy8 * 8))
    let newLr ← readStored read fp lrStorageOffsetFromFpBy8
    let newFp ← readStored read fp fpStorageOffsetFromFpBy8
    if newFp = 0 then return none
    if newFp ≤ fp ∨ newSp ≤ sp then throw .framepointerUnwindingMovedBackwards
    return some (newLr, newSp, newFp)

def exec (rule : UnwindRule) (isFirstFrame : Bool) (regs : UnwindRegs) (read : ReadStack) :
    Except Error (Option Nat) × UnwindRegs :=
  match target rule isFirstFrame regs read with
  | .error e => (.error e, regs)
  | .ok none => (.ok none, regs)
  | .ok (some (newLr, newSp, newFp)) =>
    let returnAddress := regs.lrMask.stripPtrAuth newLr
    if returnAddress = 0 then (.ok none, regs)
    else if isFirstFrame = false ∧ newSp = regs.sp then (.error .didNotAdvance, regs)
    else (.ok (some returnAddress), ((regs.setLr newLr).setSp newSp).setFp newFp)

/-! ## What executing a rule does -/

/-- A rule that does not fail keeps the stack pointer or moves it up. -/
theorem target_up {rule : UnwindRule} {first : Bool} {regs : UnwindRegs} {read : ReadStack} {newLr newSp newFp : Nat}
    (h : target rule first regs read = .ok (some (newLr, newSp, newFp))) : regs.sp ≤ newSp := by
  cases rule with
  | noOp =>
    cases first with
    | true =>
      cases h
      exact le_rfl
    | false => cases h
  | noOpIfFirstFrameOtherwiseFp =>
    cases first with
    | true =>
      cases h
      exact le_rfl
    | false =>
      obtain ⟨sp, -, h⟩ := bind_ok h
      obtain ⟨lr, -, h⟩ := bind_ok h
      obtain ⟨fp, -, h⟩ := bind_ok h
      dsimp only at h
      split at h
      · cases h
      · cases h
        omega
  | offsetSp n =>
    cases first with
    | true =>
      obtain ⟨sp, hsp, h⟩ := bind_ok h
      cases h
      exact le_of_checkedAdd (okOr_ok hsp)
    | false => cases h
  | offsetSpIfFirstFrameOtherwiseStackEndsHere n =>
    cases first with
    | true =>
      obtain ⟨sp, hsp, h⟩ := bind_ok h
      cases h
      exact le_of_checkedAdd (okOr_ok hsp)
    | false => cases h
  | offsetSpAndRestoreLr n lrOffset =>
    obtain ⟨sp, hsp, h⟩ := bind_ok h
    obtain ⟨lr, -, h⟩ := bind_ok h
    cases h
    exact le_of_checkedAdd (okOr_ok hsp)
  | offsetSpAndRestoreFpAndLr n fpOffset lrOffset =>
    obtain ⟨sp, hsp, h⟩ := bind_ok h
    obtain ⟨lr, -, h⟩ := bind_ok h
    obtain ⟨fp, -, h⟩ := bind_ok h
    cases h
    exact le_of_checkedAdd (okOr_ok hsp)
  | useFramePointer =>
    obtain ⟨sp, -, h⟩ := bind_ok h
    obtain ⟨lr, -, h⟩ := bind_ok h
    obtain ⟨fp, -, h⟩ := bind_ok h
    split at h
    · cases h
    · dsimp only at h
      split at h
      · cases h
      · cases h
        omega
  | useFramepointerWithOffsets n fpOffset lrOffset =>
    obtain ⟨sp, -, h⟩ := bind_ok h
    obtain ⟨lr, -, h⟩ := bind_ok h
    obtain ⟨fp, -, h⟩ := bind_ok h
    split at h
    · cases h
    · dsimp only at h
      split at h
      · cases h
      · cases h
        omega

/-- What a rule can do: it yields a caller at a non-zero address, with a stack pointer that is not
    lower, and past the first frame is higher; or the registers stay. -/
structure Outcome (first : Bool) (regs : UnwindRegs) (r : Except Error (Option Nat) × UnwindRegs) : Prop where
  moves : ∀ a, r.1 = .ok (some a) → a ≠ 0 ∧ regs.sp ≤ r.2.sp ∧ (first = false → regs.sp < r.2.sp)
  stays : (∀ a, r.1 ≠ .ok (some a)) → r.2 = regs

theorem exec_outcome (rule : UnwindRule) (first : Bool) (regs : UnwindRegs) (read : ReadStack) :
    Outcome first regs (exec rule first regs read) := by
  unfold exec
  split
  · exact ⟨nofun, fun _ => rfl⟩
  · exact ⟨nofun, fun _ => rfl⟩
  · rename_i newLr newSp newFp ht
    dsimp only
    split
    · exact ⟨nofun, fun _ => rfl⟩
    · rename_i h0
      split
      · exact ⟨nofun, fun _ => rfl⟩
      · rename_i hmoved
        refine ⟨?_, fun h => absurd rfl (h _)⟩
        intro a ha
        cases ha
        have hup := target_up ht
        refine ⟨h0, hup, ?_⟩
        intro hfirst
        have hne : newSp ≠ regs.sp := fun h => hmoved ⟨hfirst, h⟩
        exact lt_of_le_of_ne hup (Ne.symm hne)

/-! ## DWARF rows -/

/-- `.error ()` is `RegisterNotStoredRelativeToCfa`. -/
def registerRuleToCfaOffset : Option RegisterRule → Except Unit (Option Int)
  | none | some .undefined | some .sameValue => .ok none
  | some (.offset offset) => .ok (some offset)
  | _ => .error ()

/-- Whether a row's link register is explicitly undefined, rather than left out. -/
def isUndefined : Option RegisterRule → Bool
  | some .undefined => true
  | _ => false

/-- `none` is a `ConversionError`: the row takes the generic path. -/
def translateIntoUnwindRule (cfaRule : CfaRule) (fpRule lrRule : Option RegisterRule) : Option UnwindRule :=
  match cfaRule with
  | .registerAndOffset 31 offset => do
    let spOffsetBy16 ← toU16 (offset.tdiv 16)
    match registerRuleToCfaOffset lrRule, registerRuleToCfaOffset fpRule with
    | .ok none, .ok none =>
      if isUndefined lrRule then return .offsetSpIfFirstFrameOtherwiseStackEndsHere spOffsetBy16
      else return .offsetSp spOffsetBy16
    | .ok (some lrCfaOffset), .ok none =>
      let lrStorage ← toI16 ((wrappingAddSigned offset lrCfaOffset).tdiv 8)
      return .offsetSpAndRestoreLr spOffsetBy16 lrStorage
    | .ok (some lrCfaOffset), .ok (some fpCfaOffset) =>
      let lrStorage ← toI16 ((wrappingAddSigned offset lrCfaOffset).tdiv 8)
      let fpStorage ← toI16 ((wrappingAddSigned offset fpCfaOffset).tdiv 8)
      return .offsetSpAndRestoreFpAndLr spOffsetBy16 fpStorage lrStorage
    | _, _ => none
  | .registerAndOffset 29 offset =>
    match registerRuleToCfaOffset lrRule, registerRuleToCfaOffset fpRule with
    | .ok (some lrCfaOffset), .ok (some fpCfaOffset) =>
      if offset = 16 ∧ fpCfaOffset = -16 ∧ lrCfaOffset = -8 then some .useFramePointer
      else do
        let spOffsetFromFpBy8 ← toU16 (offset.tdiv 8)
        let lrStorage ← toI16 ((wrappingAddSigned offset lrCfaOffset).tdiv 8)
        let fpStorage ← toI16 ((wrappingAddSigned offset fpCfaOffset).tdiv 8)
        return .useFramepointerWithOffsets spOffsetFromFpBy8 fpStorage lrStorage
    | _, _ => none
  | _ => none

/-- The generic path of `unwind_frame`; the first frame's registers may stay unrecovered. -/
def unwindFrameGeneric (row : UnwindTableRow) (regs : UnwindRegs) (isFirstFrame : Bool) (read : ReadStack) :
    Except DwarfUnwinderError (UnwindResult UnwindRule × UnwindRegs) :=
  match evalCfaRule regs.dwarfGet read row.cfa with
  | none => .error .couldNotRecoverCfa
  | some cfa =>
    let fp := evalRegisterRule regs.dwarfGet read cfa regs.fp (row.register 29)
    let lr := evalRegisterRule regs.dwarfGet read cfa regs.lr (row.register 30)
    let write (fp lr : Nat) :=
      ((UnwindResult.uncacheable lr : UnwindResult UnwindRule), ((regs.setFp fp).setSp cfa).setLr lr)
    if isFirstFrame then .ok (write (fp.getD regs.fp) (lr.getD regs.lr))
    else if cfa ≤ regs.sp then .error .stackPointerMovedBackwards
    else
      match fp with
      | none => .error .couldNotRecoverFramePointer
      | some fp =>
        match lr with
        | none => .error .couldNotRecoverReturnAddress
        | some lr => .ok (write fp lr)

/-- The rule of a row; a trampoline's row is not treated apart. -/
def rowRule (row : UnwindTableRow) (_isSignalFrame : Bool) : Option UnwindRule :=
  translateIntoUnwindRule row.cfa (row.register 29) (row.register 30)

def unwindFrame (row : UnwindTableRow) (regs : UnwindRegs) (isFirstFrame isSignalFrame : Bool) (read : ReadStack) :
    Except DwarfUnwinderError (UnwindResult UnwindRule × UnwindRegs) :=
  match rowRule row isSignalFrame with
  | some rule => .ok (.execRule rule, regs)
  | none => unwindFrameGeneric row regs isFirstFrame read

theorem unwindFrameGeneric_ne (row : UnwindTableRow) (regs : UnwindRegs) (first : Bool) (read : ReadStack)
    (rule : UnwindRule) (regs' : UnwindRegs) :
    unwindFrameGeneric row regs first read ≠ .ok (.execRule rule, regs') := by
  intro h
  unfold unwindFrameGeneric at h
  split at h
  · cases h
  · simp only at h
    split at h
    · cases h
    · split at h
      · cases h
      · split at h
        · cases h
        · split at h <;> cases h

def archAarch64 : Arch where
  Regs := UnwindRegs
  Rule := UnwindRule
  exec := exec
  fallbackRule := .useFramePointer
  ruleIfUncoveredByFde := .noOpIfFirstFrameOtherwiseFp
  unwindFrame := unwindFrame
  rowRule := rowRule
  unwindFrame_rule row regs first signal read rule h := by simp [unwindFrame, h]
  unwindFrame_generic row regs first signal read rule regs' h := by
    simpa [unwindFrame, h] using unwindFrameGeneric_ne row regs first read rule regs'

end FramehopUnwind.Unwinder.Aarch64
