/-
  FramehopUnwind.Unwinder.Aarch64Accesses — the reads and unchecked sums of aarch64
  (vendor/framehop/src/aarch64: unwind_rule.rs `exec`, dwarf.rs `unwind_frame`).

  A rule's one plain sum, `fp + 8`, comes after `fp + 16` was checked. What may leave the word
  are the offsets of the saved `lr` and `fp` in a row's translation.

  Proved:
  - `exec_run`, `unwindFrame_run`: the programs compute what the functions do.
  - `exec_fits`: a rule's sums fit.
  - `unwindFrame_fits`: a row's fit iff those of its translation do.
  - `exec_reads`, `unwindFrame_reads`: every read is at a word.
-/

import FramehopUnwind.Unwinder.Accesses

namespace FramehopUnwind.Unwinder.Aarch64.Accesses

open Lib.Word Lib.Access

/-! ## Rules -/

/-- A word, or the error of a failed read. -/
def readOr (address : Nat) : Prog (Except Error Nat) :=
  .read address fun v => .done (okOr (.couldNotReadStack address) v)

def readStored (base : Nat) (offsetBy8 : Int) : Prog (Except Error Nat) :=
  match checkedAddSigned base (offsetBy8 * 8) with
  | none => .done (.error .integerOverflow)
  | some location => readOr location

/-- Two reads, the second if the first is answered. -/
def both (first second : Prog (Except Error Nat)) (f : Nat → Nat → Except Error (Option (Nat × Nat × Nat))) :
    Prog (Except Error (Option (Nat × Nat × Nat))) :=
  first.bind fun
    | .error e => .done (.error e)
    | .ok a =>
      second.bind fun
        | .error e => .done (.error e)
        | .ok b => .done (f a b)

/-- `lr` and `fp` from the frame record: `fp + 8` is a plain sum. -/
def frameRecord (fp : Nat) (f : Nat → Nat → Except Error (Option (Nat × Nat × Nat))) :
    Prog (Except Error (Option (Nat × Nat × Nat))) :=
  .sum (decide (fp + 8 < 2 ^ 64)) (both (readOr (fp + 8)) (readOr fp) f)

/-- The checks of a frame pointer that is followed. -/
def followed (regs : UnwindRegs) (newSp newLr newFp : Nat) : Except Error (Option (Nat × Nat × Nat)) :=
  if newFp = 0 then .ok none
  else if newFp ≤ regs.fp ∨ newSp ≤ regs.sp then .error .framepointerUnwindingMovedBackwards
  else .ok (some (newLr, newSp, newFp))

/-- A checked sum, or the rule fails. -/
def orOverflow (a b : Nat) (f : Nat → Prog (Except Error (Option (Nat × Nat × Nat)))) :
    Prog (Except Error (Option (Nat × Nat × Nat))) :=
  match checkedAdd a b with
  | none => .done (.error .integerOverflow)
  | some newSp => f newSp

def target (rule : UnwindRule) (isFirstFrame : Bool) (regs : UnwindRegs) :
    Prog (Except Error (Option (Nat × Nat × Nat))) :=
  let lr := regs.lr
  let sp := regs.sp
  let fp := regs.fp
  match rule with
  | .noOp => .done (if isFirstFrame then .ok (some (lr, sp, fp)) else .error .didNotAdvance)
  | .noOpIfFirstFrameOtherwiseFp =>
    if isFirstFrame then .done (.ok (some (lr, sp, fp)))
    else
      orOverflow fp 16 fun newSp =>
        frameRecord fp fun newLr newFp =>
          if newSp ≤ sp then .error .framepointerUnwindingMovedBackwards else .ok (some (newLr, newSp, newFp))
  | .offsetSpIfFirstFrameOtherwiseStackEndsHere spOffsetBy16 =>
    if isFirstFrame then orOverflow sp (spOffsetBy16 * 16) fun newSp => .done (.ok (some (lr, newSp, fp)))
    else .done (.ok none)
  | .offsetSp spOffsetBy16 =>
    if isFirstFrame then orOverflow sp (spOffsetBy16 * 16) fun newSp => .done (.ok (some (lr, newSp, fp)))
    else .done (.error .didNotAdvance)
  | .offsetSpAndRestoreLr spOffsetBy16 lrStorageOffsetFromSpBy8 =>
    orOverflow sp (spOffsetBy16 * 16) fun newSp =>
      (readStored sp lrStorageOffsetFromSpBy8).bind fun newLr => .done (newLr.map fun newLr => some (newLr, newSp, fp))
  | .offsetSpAndRestoreFpAndLr spOffsetBy16 fpStorageOffsetFromSpBy8 lrStorageOffsetFromSpBy8 =>
    orOverflow sp (spOffsetBy16 * 16) fun newSp =>
      both (readStored sp lrStorageOffsetFromSpBy8) (readStored sp fpStorageOffsetFromSpBy8) fun newLr newFp =>
        .ok (some (newLr, newSp, newFp))
  | .useFramePointer => orOverflow fp 16 fun newSp => frameRecord fp (followed regs newSp)
  | .useFramepointerWithOffsets spOffsetFromFpBy8 fpStorageOffsetFromFpBy8 lrStorageOffsetFromFpBy8 =>
    orOverflow fp (spOffsetFromFpBy8 * 8) fun newSp =>
      both (readStored fp lrStorageOffsetFromFpBy8) (readStored fp fpStorageOffsetFromFpBy8) (followed regs newSp)

def exec (rule : UnwindRule) (isFirstFrame : Bool) (regs : UnwindRegs) :
    Prog (Except Error (Option Nat) × UnwindRegs) :=
  (target rule isFirstFrame regs).bind fun
    | .error e => .done (.error e, regs)
    | .ok none => .done (.ok none, regs)
    | .ok (some (newLr, newSp, newFp)) =>
      let returnAddress := regs.lrMask.stripPtrAuth newLr
      if returnAddress = 0 then .done (.ok none, regs)
      else if isFirstFrame = false ∧ newSp = regs.sp then .done (.error .didNotAdvance, regs)
      else .done (.ok (some returnAddress), ((regs.setLr newLr).setSp newSp).setFp newFp)

variable (read : ReadStack) (regs : UnwindRegs)

@[simp] theorem readOr_run (address : Nat) : (readOr address).run read = Unwinder.readOr read address := rfl

@[simp] theorem readStored_run (base : Nat) (offset : Int) :
    (readStored base offset).run read = Aarch64.readStored read base offset := by
  unfold readStored Aarch64.readStored
  cases checkedAddSigned base (offset * 8) <;> rfl

@[simp] theorem both_run (first second : Prog (Except Error Nat))
    (f : Nat → Nat → Except Error (Option (Nat × Nat × Nat))) :
    (both first second f).run read = (do f (← first.run read) (← second.run read)) := by
  unfold both
  rw [Prog.run_bind]
  cases first.run read with
  | error e => rfl
  | ok a =>
    dsimp only
    rw [Prog.run_bind]
    cases second.run read <;> rfl

@[simp] theorem frameRecord_run (fp : Nat) (f : Nat → Nat → Except Error (Option (Nat × Nat × Nat))) :
    (frameRecord fp f).run read = (do f (← Unwinder.readOr read (fp + 8)) (← Unwinder.readOr read fp)) := by
  rw [frameRecord, Prog.run_sum, both_run, readOr_run, readOr_run]

@[simp] theorem orOverflow_run (a b : Nat) (f : Nat → Prog (Except Error (Option (Nat × Nat × Nat)))) :
    (orOverflow a b f).run read = (do (f (← okOr .integerOverflow (checkedAdd a b))).run read) := by
  unfold orOverflow
  cases checkedAdd a b <;> rfl

theorem followed_eq (newSp newLr newFp : Nat) :
    followed regs newSp newLr newFp =
      (do
        if newFp = 0 then return none
        if newFp ≤ regs.fp ∨ newSp ≤ regs.sp then throw .framepointerUnwindingMovedBackwards
        return some (newLr, newSp, newFp)) := by
  unfold followed
  split
  · rfl
  · split <;> rfl

@[simp] theorem target_run (rule : UnwindRule) (first : Bool) :
    (target rule first regs).run read = Aarch64.target rule first regs read := by
  cases rule with
  | noOp => cases first <;> rfl
  | noOpIfFirstFrameOtherwiseFp =>
    cases first with
    | true => rfl
    | false =>
      simp only [target, Aarch64.target, Bool.false_eq_true, if_false, orOverflow_run, frameRecord_run]
      cases okOr .integerOverflow (checkedAdd regs.fp 16) with
      | error e => rfl
      | ok newSp =>
        cases Unwinder.readOr read (regs.fp + 8) with
        | error e => rfl
        | ok newLr =>
          cases Unwinder.readOr read regs.fp with
          | error e => rfl
          | ok newFp =>
            simp only [bind, Except.bind, pure, Except.pure, throw, throwThe, MonadExceptOf.throw]
  | offsetSp n =>
    cases first with
    | true => exact orOverflow_run read _ _ _
    | false => rfl
  | offsetSpIfFirstFrameOtherwiseStackEndsHere n =>
    cases first with
    | true => exact orOverflow_run read _ _ _
    | false => rfl
  | offsetSpAndRestoreLr n lrOffset =>
    simp only [target, Aarch64.target, orOverflow_run, Prog.run_bind, readStored_run, Prog.run_done]
    cases okOr .integerOverflow (checkedAdd regs.sp (n * 16)) with
    | error e => rfl
    | ok newSp => cases Aarch64.readStored read regs.sp lrOffset <;> rfl
  | offsetSpAndRestoreFpAndLr n fpOffset lrOffset =>
    simp only [target, Aarch64.target, orOverflow_run, both_run, readStored_run]
    rfl
  | useFramePointer =>
    simp only [target, Aarch64.target, orOverflow_run, frameRecord_run]
    cases okOr .integerOverflow (checkedAdd regs.fp 16) with
    | error e => rfl
    | ok newSp =>
      cases Unwinder.readOr read (regs.fp + 8) with
      | error e => rfl
      | ok newLr =>
        cases Unwinder.readOr read regs.fp with
        | error e => rfl
        | ok newFp => exact followed_eq regs newSp newLr newFp
  | useFramepointerWithOffsets n fpOffset lrOffset =>
    simp only [target, Aarch64.target, orOverflow_run, both_run, readStored_run]
    cases okOr .integerOverflow (checkedAdd regs.fp (n * 8)) with
    | error e => rfl
    | ok newSp =>
      cases Aarch64.readStored read regs.fp lrOffset with
      | error e => rfl
      | ok newLr =>
        cases Aarch64.readStored read regs.fp fpOffset with
        | error e => rfl
        | ok newFp => exact followed_eq regs newSp newLr newFp

@[simp] theorem exec_run (rule : UnwindRule) (first : Bool) :
    (exec rule first regs).run read = Aarch64.exec rule first regs read := by
  unfold exec Aarch64.exec
  rw [Prog.run_bind, target_run]
  cases Aarch64.target rule first regs read with
  | error e => rfl
  | ok r =>
    cases r with
    | none => rfl
    | some r =>
      dsimp only
      split
      · rfl
      · split <;> rfl

@[simp] theorem readOr_fits (address : Nat) : (readOr address).Fits read := trivial

@[simp] theorem readStored_fits (base : Nat) (offset : Int) : (readStored base offset).Fits read := by
  unfold readStored
  cases checkedAddSigned base (offset * 8) <;> trivial

@[simp] theorem both_fits {first second : Prog (Except Error Nat)} (h₁ : first.Fits read) (h₂ : second.Fits read)
    (f : Nat → Nat → Except Error (Option (Nat × Nat × Nat))) : (both first second f).Fits read := by
  unfold both
  rw [Prog.fits_bind]
  refine ⟨h₁, ?_⟩
  split
  · trivial
  · rw [Prog.fits_bind]
    refine ⟨h₂, ?_⟩
    split <;> trivial

/-- Past a checked `fp + 16`, `fp + 8` fits. -/
theorem frameRecord_fits {fp newSp : Nat} (h : checkedAdd fp 16 = some newSp)
    (f : Nat → Nat → Except Error (Option (Nat × Nat × Nat))) : (frameRecord fp f).Fits read := by
  have := (checkedAdd_eq_some.mp h).1
  exact ⟨decide_eq_true (by omega), both_fits read (readOr_fits read _) (readOr_fits read _) f⟩

theorem orOverflow_fits {a b : Nat} {f : Nat → Prog (Except Error (Option (Nat × Nat × Nat)))}
    (h : ∀ newSp, checkedAdd a b = some newSp → (f newSp).Fits read) : (orOverflow a b f).Fits read := by
  unfold orOverflow
  cases hs : checkedAdd a b with
  | none => trivial
  | some newSp => exact h newSp hs

theorem target_fits (rule : UnwindRule) (first : Bool) : (target rule first regs).Fits read := by
  cases rule with
  | noOp => trivial
  | noOpIfFirstFrameOtherwiseFp =>
    cases first with
    | true => trivial
    | false => exact orOverflow_fits read fun newSp hs => frameRecord_fits read hs _
  | offsetSp n =>
    cases first with
    | true => exact orOverflow_fits read fun newSp _ => trivial
    | false => trivial
  | offsetSpIfFirstFrameOtherwiseStackEndsHere n =>
    cases first with
    | true => exact orOverflow_fits read fun newSp _ => trivial
    | false => trivial
  | offsetSpAndRestoreLr n lrOffset =>
    refine orOverflow_fits read fun newSp _ => ?_
    rw [Prog.fits_bind]
    exact ⟨readStored_fits read _ _, trivial⟩
  | offsetSpAndRestoreFpAndLr n fpOffset lrOffset =>
    exact orOverflow_fits read fun newSp _ => both_fits read (readStored_fits read _ _) (readStored_fits read _ _) _
  | useFramePointer => exact orOverflow_fits read fun newSp hs => frameRecord_fits read hs _
  | useFramepointerWithOffsets n fpOffset lrOffset =>
    exact orOverflow_fits read fun newSp _ => both_fits read (readStored_fits read _ _) (readStored_fits read _ _) _

theorem exec_fits (rule : UnwindRule) (first : Bool) : (exec rule first regs).Fits read := by
  unfold exec
  rw [Prog.fits_bind]
  refine ⟨target_fits read regs rule first, ?_⟩
  split
  · trivial
  · trivial
  · dsimp only
    split
    · trivial
    · split <;> trivial

section Words

variable {read regs}

theorem readOr_reads {address : Nat} (h : address < 2 ^ 64) : ∀ a ∈ (readOr address).reads read, a < 2 ^ 64 := by
  intro a ha
  rw [List.mem_singleton.mp ha]
  exact h

theorem readStored_reads (base : Nat) (offset : Int) : ∀ a ∈ (readStored base offset).reads read, a < 2 ^ 64 := by
  unfold readStored
  cases hs : checkedAddSigned base (offset * 8) with
  | none => exact nofun
  | some location => exact readOr_reads (checkedAddSigned_eq_some.mp hs).2

theorem both_reads {first second : Prog (Except Error Nat)} (h₁ : ∀ a ∈ first.reads read, a < 2 ^ 64)
    (h₂ : ∀ a ∈ second.reads read, a < 2 ^ 64) (f : Nat → Nat → Except Error (Option (Nat × Nat × Nat))) :
    ∀ a ∈ (both first second f).reads read, a < 2 ^ 64 := by
  unfold both
  rw [Prog.reads_bind, List.forall_mem_append]
  refine ⟨h₁, ?_⟩
  split
  · exact nofun
  · rw [Prog.reads_bind, List.forall_mem_append]
    refine ⟨h₂, ?_⟩
    split <;> exact nofun

theorem frameRecord_reads {fp newSp : Nat} (h : checkedAdd fp 16 = some newSp)
    (f : Nat → Nat → Except Error (Option (Nat × Nat × Nat))) : ∀ a ∈ (frameRecord fp f).reads read, a < 2 ^ 64 := by
  have := (checkedAdd_eq_some.mp h).1
  exact both_reads (readOr_reads (by omega)) (readOr_reads (by omega)) f

theorem orOverflow_reads {x y : Nat} {f : Nat → Prog (Except Error (Option (Nat × Nat × Nat)))}
    (h : ∀ newSp, checkedAdd x y = some newSp → ∀ a ∈ (f newSp).reads read, a < 2 ^ 64) :
    ∀ a ∈ (orOverflow x y f).reads read, a < 2 ^ 64 := by
  unfold orOverflow
  cases hs : checkedAdd x y with
  | none => exact nofun
  | some newSp => exact h newSp hs

theorem target_reads (rule : UnwindRule) (first : Bool) : ∀ a ∈ (target rule first regs).reads read, a < 2 ^ 64 := by
  cases rule with
  | noOp => exact nofun
  | noOpIfFirstFrameOtherwiseFp =>
    cases first with
    | true => exact nofun
    | false => exact orOverflow_reads fun newSp hs => frameRecord_reads hs _
  | offsetSp n =>
    cases first with
    | true => exact orOverflow_reads fun newSp _ => nofun
    | false => exact nofun
  | offsetSpIfFirstFrameOtherwiseStackEndsHere n =>
    cases first with
    | true => exact orOverflow_reads fun newSp _ => nofun
    | false => exact nofun
  | offsetSpAndRestoreLr n lrOffset =>
    refine orOverflow_reads fun newSp _ => ?_
    rw [Prog.reads_bind, Prog.reads_done, List.append_nil]
    exact readStored_reads _ _
  | offsetSpAndRestoreFpAndLr n fpOffset lrOffset =>
    exact orOverflow_reads fun newSp _ => both_reads (readStored_reads _ _) (readStored_reads _ _) _
  | useFramePointer => exact orOverflow_reads fun newSp hs => frameRecord_reads hs _
  | useFramepointerWithOffsets n fpOffset lrOffset =>
    exact orOverflow_reads fun newSp _ => both_reads (readStored_reads _ _) (readStored_reads _ _) _

theorem exec_reads (rule : UnwindRule) (first : Bool) : ∀ a ∈ (exec rule first regs).reads read, a < 2 ^ 64 := by
  unfold exec
  rw [Prog.reads_bind, List.forall_mem_append]
  refine ⟨target_reads rule first, ?_⟩
  split
  · exact nofun
  · exact nofun
  · dsimp only
    split
    · exact nofun
    · split <;> exact nofun

end Words

/-! ## Rows -/

/-- The saved `lr`'s offset and, if it is one, the saved `fp`'s. -/
def savedSums (offset lrCfaOffset fpCfaOffset : Int) : List (Int × Int) :=
  match toI16 ((wrappingAddSigned offset lrCfaOffset).tdiv 8) with
  | none => [(offset, lrCfaOffset)]
  | some _ => [(offset, lrCfaOffset), (offset, fpCfaOffset)]

/-- The sums `translate_into_unwind_rule` comes to. -/
def translationSums (row : UnwindTableRow) : List (Int × Int) :=
  match row.cfa, registerRuleToCfaOffset (row.register 30), registerRuleToCfaOffset (row.register 29) with
  | .registerAndOffset 31 offset, .ok (some lrCfaOffset), .ok none =>
    match toU16 (offset.tdiv 16) with
    | none => []
    | some _ => [(offset, lrCfaOffset)]
  | .registerAndOffset 31 offset, .ok (some lrCfaOffset), .ok (some fpCfaOffset) =>
    match toU16 (offset.tdiv 16) with
    | none => []
    | some _ => savedSums offset lrCfaOffset fpCfaOffset
  | .registerAndOffset 29 offset, .ok (some lrCfaOffset), .ok (some fpCfaOffset) =>
    if offset = 16 ∧ fpCfaOffset = -16 ∧ lrCfaOffset = -8 then []
    else
      match toU16 (offset.tdiv 8) with
      | none => []
      | some _ => savedSums offset lrCfaOffset fpCfaOffset
  | _, _, _ => []

def unwindFrameGeneric (row : UnwindTableRow) (regs : UnwindRegs) (isFirstFrame : Bool) :
    Prog (Except DwarfUnwinderError (UnwindResult UnwindRule × UnwindRegs)) :=
  (Accesses.evalCfaRule regs.dwarfGet row.cfa).bind fun
    | none => .done (.error .couldNotRecoverCfa)
    | some cfa =>
      let fp := Accesses.evalRegisterRule regs.dwarfGet cfa regs.fp (row.register 29)
      let lr := Accesses.evalRegisterRule regs.dwarfGet cfa regs.lr (row.register 30)
      let write (fp lr : Nat) :=
        ((UnwindResult.uncacheable lr : UnwindResult UnwindRule), ((regs.setFp fp).setSp cfa).setLr lr)
      if isFirstFrame then fp.bind fun fp => lr.bind fun lr => .done (.ok (write (fp.getD regs.fp) (lr.getD regs.lr)))
      else if cfa ≤ regs.sp then .done (.error .stackPointerMovedBackwards)
      else
        fp.bind fun
          | none => .done (.error .couldNotRecoverFramePointer)
          | some fp =>
            lr.bind fun
              | none => .done (.error .couldNotRecoverReturnAddress)
              | some lr => .done (.ok (write fp lr))

def unwindFrame (row : UnwindTableRow) (regs : UnwindRegs) (isFirstFrame isSignalFrame : Bool) :
    Prog (Except DwarfUnwinderError (UnwindResult UnwindRule × UnwindRegs)) :=
  .sums ((translationSums row).map fun s => signedFits s.1 s.2)
    (match rowRule row isSignalFrame with
    | some rule => .done (.ok (.execRule rule, regs))
    | none => unwindFrameGeneric row regs isFirstFrame)

@[simp] theorem unwindFrameGeneric_run (row : UnwindTableRow) (first : Bool) :
    (unwindFrameGeneric row regs first).run read = Aarch64.unwindFrameGeneric row regs first read := by
  unfold unwindFrameGeneric Aarch64.unwindFrameGeneric
  rw [Prog.run_bind, Accesses.evalCfaRule_run]
  cases Unwinder.evalCfaRule regs.dwarfGet read row.cfa with
  | none => rfl
  | some cfa =>
    dsimp only
    cases first with
    | true => simp only [if_true, Prog.run_bind, Accesses.evalRegisterRule_run, Prog.run_done]
    | false =>
      simp only [Bool.false_eq_true, if_false]
      split
      · rfl
      · rw [Prog.run_bind, Accesses.evalRegisterRule_run]
        cases Unwinder.evalRegisterRule regs.dwarfGet read cfa regs.fp (row.register 29) with
        | none => rfl
        | some fp =>
          dsimp only
          rw [Prog.run_bind, Accesses.evalRegisterRule_run]
          cases Unwinder.evalRegisterRule regs.dwarfGet read cfa regs.lr (row.register 30) <;> rfl

@[simp] theorem unwindFrame_run (row : UnwindTableRow) (first signal : Bool) :
    (unwindFrame row regs first signal).run read = Aarch64.unwindFrame row regs first signal read := by
  unfold unwindFrame Aarch64.unwindFrame
  rw [Prog.run_sums]
  cases rowRule row signal with
  | some rule => rfl
  | none => exact unwindFrameGeneric_run read regs row first

theorem unwindFrameGeneric_fits (row : UnwindTableRow) (first : Bool) :
    (unwindFrameGeneric row regs first).Fits read := by
  unfold unwindFrameGeneric
  rw [Prog.fits_bind]
  refine ⟨Accesses.evalCfaRule_fits _ _ _, ?_⟩
  split
  · trivial
  · dsimp only
    split
    · simp
    · split
      · trivial
      · rw [Prog.fits_bind]
        refine ⟨Accesses.evalRegisterRule_fits _ _ _ _ _, ?_⟩
        split
        · trivial
        · rw [Prog.fits_bind]
          refine ⟨Accesses.evalRegisterRule_fits _ _ _ _ _, ?_⟩
          split <;> trivial

theorem unwindFrame_fits (row : UnwindTableRow) (first signal : Bool) :
    (unwindFrame row regs first signal).Fits read ↔ ∀ s ∈ translationSums row, signedFits s.1 s.2 = true := by
  unfold unwindFrame
  rw [Prog.fits_sums, List.forall_mem_map]
  refine and_iff_left ?_
  split
  · trivial
  · exact unwindFrameGeneric_fits read regs row first

theorem unwindFrame_reads {read : ReadStack} {regs : UnwindRegs} (hread : read.Words) (h : regs.Words)
    {row : UnwindTableRow}
    (hrow : row.Words) (first signal : Bool) : ∀ a ∈ (unwindFrame row regs first signal).reads read, a < 2 ^ 64 := by
  have hfp : ∀ cfa, ∀ a ∈ (Accesses.evalRegisterRule regs.dwarfGet cfa regs.fp (row.register 29)).reads read,
      a < 2 ^ 64 :=
    fun _ => Accesses.evalRegisterRule_reads (dwarfGet_words h) hread (hrow.2 29)
  have hlr : ∀ cfa, ∀ a ∈ (Accesses.evalRegisterRule regs.dwarfGet cfa regs.lr (row.register 30)).reads read,
      a < 2 ^ 64 :=
    fun _ => Accesses.evalRegisterRule_reads (dwarfGet_words h) hread (hrow.2 30)
  unfold unwindFrame
  rw [Prog.reads_sums]
  split
  · exact nofun
  · unfold unwindFrameGeneric
    rw [Prog.reads_bind, List.forall_mem_append]
    refine ⟨Accesses.evalCfaRule_reads (dwarfGet_words h) hread hrow.1, ?_⟩
    split
    · exact nofun
    · dsimp only
      split
      · simp only [Prog.reads_bind, Prog.reads_done, List.append_nil, List.forall_mem_append]
        exact ⟨hfp _, hlr _⟩
      · split
        · exact nofun
        · rw [Prog.reads_bind, List.forall_mem_append]
          refine ⟨hfp _, ?_⟩
          split
          · exact nofun
          · rw [Prog.reads_bind, List.forall_mem_append]
            refine ⟨hlr _, ?_⟩
            split <;> exact nofun

end FramehopUnwind.Unwinder.Aarch64.Accesses
