/-
  FramehopUnwind.Unwinder.X86Accesses — the reads and unchecked sums of x86-64
  (vendor/framehop/src/x86_64: unwind_rule.rs `exec`, dwarf.rs `unwind_frame`).

  Three sums are not checked: `new_sp - 8` at the end of `exec`, `cfa - 8` where a row's return
  address rule gives nothing, and the offset of the saved `bp` from `sp` in a row's translation.

  Proved:
  - `exec_run`, `unwindFrame_run`: the programs compute what the functions do.
  - `exec_fits`: a rule's sums fit, unless its offset is 0 and `sp` is below 8.
  - `unwindFrame_fits`: when a row's do.
  - `exec_reads`, `unwindFrame_reads`: every read is at a word.
-/

import FramehopUnwind.Unwinder.Accesses

namespace FramehopUnwind.Unwinder.X86.Accesses

open Lib.Word Lib.Access

/-! ## Rules -/

def popRegisters : List Reg → Nat → UnwindRegs → Prog (Except Error Nat × UnwindRegs)
  | [], sp, regs => .done (.ok sp, regs)
  | reg :: rest, sp, regs =>
    .read sp fun
      | none => .done (.error (.couldNotReadStack sp), regs)
      | some value =>
        match checkedAdd sp 8 with
        | none => .done (.error .integerOverflow, regs)
        | some sp => popRegisters rest sp (regs.set reg value)

/-- The target of a rule that only adds to the stack pointer. -/
def offsetTarget (regs : UnwindRegs) (offset : Nat) : Except Error (Option (Nat × Nat)) :=
  match checkedAdd regs.sp offset with
  | none => .error .integerOverflow
  | some newSp => .ok (some (newSp, regs.bp))

def framePointerTarget (regs : UnwindRegs) : Prog (Except Error (Option (Nat × Nat))) :=
  match checkedAdd regs.bp 16 with
  | none => .done (.error .integerOverflow)
  | some newSp =>
    if newSp ≤ regs.sp then .done (.error .framepointerUnwindingMovedBackwards)
    else
      .read regs.bp fun
        | none => .done (.error (.couldNotReadStack regs.bp))
        | some newBp => .done (.ok (some (newSp, newBp)))

def target (rule : UnwindRule) (isFirstFrame : Bool) (regs : UnwindRegs) : Prog (Except Error (Option (Nat × Nat))) :=
  let sp := regs.sp
  match rule with
  | .endOfStack => .done (.ok none)
  | .justReturn => .done (offsetTarget regs 8)
  | .justReturnIfFirstFrameOtherwiseFp => if isFirstFrame then .done (offsetTarget regs 8) else framePointerTarget regs
  | .offsetSp spOffsetBy8 => .done (offsetTarget regs (spOffsetBy8 * 8))
  | .offsetSpAndRestoreBp spOffsetBy8 bpStorageOffsetFromSpBy8 =>
    match checkedAdd sp (spOffsetBy8 * 8) with
    | none => .done (.error .integerOverflow)
    | some newSp =>
      match checkedAddSigned sp (bpStorageOffsetFromSpBy8 * 8) with
      | none => .done (.error .integerOverflow)
      | some bpLocation =>
        .read bpLocation fun
          | some newBp => .done (.ok (some (newSp, newBp)))
          | none =>
            if isFirstFrame ∧ bpLocation < sp then .done (.ok (some (newSp, regs.bp)))
            else .done (.error (.couldNotReadStack bpLocation))
  | .useFramePointer => if regs.bp = 0 then .done (.ok none) else framePointerTarget regs
  | .offsetSpAndPopRegisters _ _ _ => .done (.ok none)

/-- The end of `exec`: `new_sp - 8` is not checked. -/
def finish (sp newSp newBp : Nat) (regs : UnwindRegs) : Prog (Except Error (Option Nat) × UnwindRegs) :=
  let location := wrappingSub newSp 8
  .sum (decide (8 ≤ newSp)) (.read location fun
    | none => .done (.error (.couldNotReadStack location), regs)
    | some returnAddress =>
      if returnAddress = 0 then .done (.ok none, regs)
      else if newSp = sp ∧ returnAddress = regs.ip then .done (.error .didNotAdvance, regs)
      else .done (.ok (some returnAddress), ((regs.setIp returnAddress).set .rsp newSp).set .rbp newBp))

def exec (rule : UnwindRule) (isFirstFrame : Bool) (regs : UnwindRegs) :
    Prog (Except Error (Option Nat) × UnwindRegs) :=
  match rule with
  | .offsetSpAndPopRegisters spOffsetBy8 registerCount encodedRegistersToPop =>
    match checkedAdd regs.sp (spOffsetBy8 * 8) with
    | none => .done (.error .integerOverflow, regs)
    | some sp =>
      (popRegisters (decode registerCount encodedRegistersToPop) sp regs).bind fun
        | (.error e, regs) => .done (.error e, regs)
        | (.ok sp', regs') =>
          match checkedAdd sp' 8 with
          | none => .done (.error .integerOverflow, regs')
          | some newSp => finish regs.sp newSp regs'.bp regs'
  | rule =>
    (target rule isFirstFrame regs).bind fun
      | .error e => .done (.error e, regs)
      | .ok none => .done (.ok none, regs)
      | .ok (some (newSp, newBp)) => finish regs.sp newSp newBp regs

variable (read : ReadStack) (regs : UnwindRegs)

@[simp] theorem popRegisters_run (rest : List Reg) (sp : Nat) :
    (popRegisters rest sp regs).run read = X86.popRegisters read rest sp regs := by
  induction rest generalizing sp regs with
  | nil => rfl
  | cons reg rest ih =>
    unfold popRegisters X86.popRegisters
    rw [Prog.run_read]
    cases read sp with
    | none => rfl
    | some value =>
      dsimp only
      cases checkedAdd sp 8 with
      | none => rfl
      | some sp' => exact ih (regs.set reg value) sp'

@[simp] theorem framePointerTarget_run : (framePointerTarget regs).run read = X86.framePointerTarget regs read := by
  unfold framePointerTarget X86.framePointerTarget
  simp only [okOr, readOr, bind, Except.bind, pure, Except.pure, throw, throwThe, MonadExceptOf.throw]
  cases checkedAdd regs.bp 16 with
  | none => rfl
  | some newSp =>
    dsimp only
    split
    · rfl
    · rw [Prog.run_read]
      cases read regs.bp <;> rfl

@[simp] theorem target_run (rule : UnwindRule) (first : Bool) :
    (target rule first regs).run read = X86.target rule first regs read := by
  have hoffset : ∀ by8, offsetTarget regs by8 =
      (do let newSp ← okOr .integerOverflow (checkedAdd regs.sp by8); return some (newSp, regs.bp)) := by
    intro by8
    unfold offsetTarget
    cases checkedAdd regs.sp by8 <;> rfl
  cases rule with
  | endOfStack => rfl
  | justReturn => exact hoffset 8
  | justReturnIfFirstFrameOtherwiseFp =>
    cases first with
    | true => exact hoffset 8
    | false => exact framePointerTarget_run read regs
  | offsetSp n => exact hoffset (n * 8)
  | offsetSpAndRestoreBp n m =>
    unfold target X86.target
    dsimp only
    cases checkedAdd regs.sp (n * 8) with
    | none => rfl
    | some newSp =>
      cases checkedAddSigned regs.sp (m * 8) with
      | none => rfl
      | some location =>
        simp only [Prog.run_read, okOr]
        cases hr : read location with
        | some newBp => simp [bind, Except.bind, pure, Except.pure, hr]
        | none =>
          simp only [bind, Except.bind, pure, Except.pure, hr]
          split <;> rfl
  | useFramePointer =>
    unfold target X86.target
    dsimp only
    split
    · rfl
    · exact framePointerTarget_run read regs
  | offsetSpAndPopRegisters n c e => rfl

@[simp] theorem finish_run (sp newSp newBp : Nat) :
    (finish sp newSp newBp regs).run read = X86.finish sp newSp newBp regs read := by
  unfold finish X86.finish
  dsimp only
  rw [Prog.run_sum, Prog.run_read]
  cases read (wrappingSub newSp 8) with
  | none => rfl
  | some a =>
    dsimp only
    split
    · rfl
    · split <;> rfl

@[simp] theorem exec_run (rule : UnwindRule) (first : Bool) :
    (exec rule first regs).run read = X86.exec rule first regs read := by
  have hrest : ∀ rule, ((target rule first regs).bind fun
      | .error e => .done (.error e, regs)
      | .ok none => .done (.ok none, regs)
      | .ok (some (newSp, newBp)) => finish regs.sp newSp newBp regs).run read =
      match X86.target rule first regs read with
      | .error e => (.error e, regs)
      | .ok none => (.ok none, regs)
      | .ok (some (newSp, newBp)) => X86.finish regs.sp newSp newBp regs read := by
    intro rule
    rw [Prog.run_bind, target_run]
    cases X86.target rule first regs read with
    | error e => rfl
    | ok r =>
      cases r with
      | none => rfl
      | some r => exact finish_run read regs _ _ _
  cases rule with
  | offsetSpAndPopRegisters n count ordering =>
    unfold exec X86.exec
    dsimp only
    cases checkedAdd regs.sp (n * 8) with
    | none => rfl
    | some sp =>
      dsimp only
      rw [Prog.run_bind, popRegisters_run]
      generalize X86.popRegisters read (decode count ordering) sp regs = popped
      obtain ⟨result, regs'⟩ := popped
      cases result with
      | error e => rfl
      | ok sp' =>
        dsimp only
        cases checkedAdd sp' 8 with
        | none => rfl
        | some newSp => exact finish_run read regs' _ _ _
  | _ => exact hrest _

/-- The rule's sums fit: only `new_sp - 8` may not, at an offset of 0. -/
def RuleFits (rule : UnwindRule) (regs : UnwindRegs) (read : ReadStack) : Prop :=
  match rule with
  | .offsetSp 0 => 8 ≤ regs.sp
  | .offsetSpAndRestoreBp 0 bpStorageOffsetFromSpBy8 =>
    ∀ location ∈ checkedAddSigned regs.sp (bpStorageOffsetFromSpBy8 * 8), read location ≠ none → 8 ≤ regs.sp
  | _ => True

theorem popRegisters_fits (rest : List Reg) (sp : Nat) : (popRegisters rest sp regs).Fits read := by
  induction rest generalizing sp regs with
  | nil => trivial
  | cons reg rest ih =>
    unfold popRegisters
    rw [Prog.fits_read]
    cases read sp with
    | none => trivial
    | some value =>
      dsimp only
      cases checkedAdd sp 8 with
      | none => trivial
      | some sp' => exact ih (regs.set reg value) sp'

theorem framePointerTarget_fits : (framePointerTarget regs).Fits read := by
  unfold framePointerTarget
  cases checkedAdd regs.bp 16 with
  | none => trivial
  | some newSp =>
    dsimp only
    split
    · trivial
    · rw [Prog.fits_read]
      cases read regs.bp <;> trivial

theorem target_fits (rule : UnwindRule) (first : Bool) : (target rule first regs).Fits read := by
  cases rule with
  | justReturnIfFirstFrameOtherwiseFp =>
    cases first with
    | true => trivial
    | false => exact framePointerTarget_fits read regs
  | offsetSpAndRestoreBp n m =>
    unfold target
    dsimp only
    cases checkedAdd regs.sp (n * 8) with
    | none => trivial
    | some newSp =>
      cases checkedAddSigned regs.sp (m * 8) with
      | none => trivial
      | some location =>
        dsimp only
        rw [Prog.fits_read]
        cases read location with
        | some newBp => trivial
        | none =>
          dsimp only
          split <;> trivial
  | useFramePointer =>
    unfold target
    dsimp only
    split
    · trivial
    · exact framePointerTarget_fits read regs
  | _ => trivial

theorem finish_fits (sp newSp newBp : Nat) : (finish sp newSp newBp regs).Fits read ↔ 8 ≤ newSp := by
  unfold finish
  rw [Prog.fits_sum, Prog.fits_read, decide_eq_true_eq]
  refine and_iff_left ?_
  cases read (wrappingSub newSp 8) with
  | none => trivial
  | some a =>
    dsimp only
    split
    · trivial
    · split <;> trivial

/-- Past its target, a rule's only sum is `new_sp - 8`. -/
theorem exec_fits_target (rule : UnwindRule) (first : Bool) (hrule : ∀ n c e, rule ≠ .offsetSpAndPopRegisters n c e) :
    (exec rule first regs).Fits read ↔ ∀ newSp newBp, X86.target rule first regs read = .ok (some (newSp, newBp)) →
      8 ≤ newSp := by
  have hexec : exec rule first regs = (target rule first regs).bind fun
      | .error e => .done (.error e, regs)
      | .ok none => .done (.ok none, regs)
      | .ok (some (newSp, newBp)) => finish regs.sp newSp newBp regs := by
    cases rule with
    | offsetSpAndPopRegisters n c e => exact absurd rfl (hrule n c e)
    | _ => rfl
  rw [hexec, Prog.fits_bind, target_run]
  refine (and_iff_right (target_fits read regs rule first)).trans ?_
  cases X86.target rule first regs read with
  | error e => exact iff_of_true trivial nofun
  | ok r =>
    cases r with
    | none => exact iff_of_true trivial nofun
    | some r =>
      obtain ⟨newSp, newBp⟩ := r
      refine (finish_fits read regs _ _ _).trans ⟨?_, fun h => h newSp newBp rfl⟩
      rintro h _ _ ⟨⟩
      exact h

/-- Where `OffsetSpAndRestoreBp` leads. -/
theorem restoreBp_target {n : Nat} {m : Int} {first : Bool} {newSp newBp : Nat}
    (h : X86.target (.offsetSpAndRestoreBp n m) first regs read = .ok (some (newSp, newBp))) :
    regs.sp + n * 8 = newSp ∧ ∃ location, checkedAddSigned regs.sp (m * 8) = some location ∧
      (read location ≠ none ∨ location < regs.sp) := by
  obtain ⟨sp, hsp, h⟩ := bind_ok h
  obtain ⟨location, hloc, h⟩ := bind_ok h
  have hsp := (checkedAdd_eq_some.mp (okOr_ok hsp)).2
  split at h
  · rename_i newBp hr
    cases h
    exact ⟨hsp, location, okOr_ok hloc, Or.inl (by rw [hr]; exact Option.some_ne_none _)⟩
  · split at h
    · rename_i hlt
      cases h
      exact ⟨hsp, location, okOr_ok hloc, Or.inr hlt.2⟩
    · cases h

/-- Where a rule leads that only adds to the stack pointer. -/
theorem offset_target {n newBp newSp newBp' : Nat}
    (h : (do let newSp ← okOr .integerOverflow (checkedAdd regs.sp n); return some (newSp, newBp)) =
      (.ok (some (newSp, newBp')) : Except Error (Option (Nat × Nat)))) : regs.sp + n = newSp := by
  obtain ⟨sp, hsp, h⟩ := bind_ok h
  cases h
  exact (checkedAdd_eq_some.mp (okOr_ok hsp)).2

theorem framePointer_target {newSp newBp : Nat} (h : X86.framePointerTarget regs read = .ok (some (newSp, newBp))) :
    8 ≤ newSp := by
  obtain ⟨sp, hsp, h⟩ := bind_ok h
  have := (checkedAdd_eq_some.mp (okOr_ok hsp)).2
  dsimp only at h
  split at h
  · cases h
  · obtain ⟨bp, -, h⟩ := bind_ok h
    cases h
    omega

theorem offsetSp_fits (n : Nat) (first : Bool) :
    (exec (.offsetSp n) first regs).Fits read ↔ RuleFits (.offsetSp n) regs read := by
  rw [exec_fits_target read regs _ _ (by simp)]
  cases n with
  | zero =>
    constructor
    · intro h
      cases hs : checkedAdd regs.sp (0 * 8) with
      | none =>
        unfold checkedAdd at hs
        split at hs
        · cases hs
        · show 8 ≤ regs.sp
          omega
      | some newSp =>
        have := h newSp regs.bp (by simp only [X86.target, hs]; rfl)
        rw [← (checkedAdd_eq_some.mp hs).2] at this
        exact this
    · intro h newSp newBp ht
      rw [← offset_target regs ht]
      exact h.trans (Nat.le_add_right _ _)
  | succ n =>
    refine iff_of_true ?_ trivial
    intro newSp newBp ht
    have := offset_target regs ht
    omega

theorem restoreBp_fits (n : Nat) (m : Int) (first : Bool) :
    (exec (.offsetSpAndRestoreBp n m) first regs).Fits read ↔ RuleFits (.offsetSpAndRestoreBp n m) regs read := by
  rw [exec_fits_target read regs _ _ (by simp)]
  cases n with
  | zero =>
    constructor
    · intro h location hloc hr
      obtain ⟨newBp, hr⟩ := Option.ne_none_iff_exists'.mp hr
      have hloc : checkedAddSigned regs.sp (m * 8) = some location := hloc
      by_cases hsp : regs.sp < 2 ^ 64
      · have hadd : checkedAdd regs.sp (0 * 8) = some regs.sp := checkedAdd_eq_some.mpr (by omega)
        refine h regs.sp newBp ?_
        simp only [X86.target, hadd, hloc, okOr, bind, Except.bind, hr]
        rfl
      · omega
    · intro h newSp newBp ht
      obtain ⟨hsp, location, hloc, hr⟩ := restoreBp_target read regs ht
      rcases hr with hr | hlt
      · have := h location hloc hr
        omega
      · -- a slot below the stack pointer is at least a word below it
        have := (checkedAddSigned_eq_some.mp hloc).1
        omega
  | succ n =>
    refine iff_of_true ?_ trivial
    intro newSp newBp ht
    have := (restoreBp_target read regs ht).1
    omega

theorem popRegisters_exec_fits (n count ordering : Nat) (first : Bool) :
    (exec (.offsetSpAndPopRegisters n count ordering) first regs).Fits read := by
  unfold exec
  dsimp only
  cases checkedAdd regs.sp (n * 8) with
  | none => trivial
  | some sp =>
    dsimp only
    rw [Prog.fits_bind]
    refine ⟨popRegisters_fits read regs _ _, ?_⟩
    generalize (popRegisters (decode count ordering) sp regs).run read = popped
    obtain ⟨result, regs'⟩ := popped
    cases result with
    | error e => trivial
    | ok sp' =>
      dsimp only
      cases hs : checkedAdd sp' 8 with
      | none => trivial
      | some newSp =>
        refine (finish_fits read regs' _ _ _).mpr ?_
        have := (checkedAdd_eq_some.mp hs).2
        omega

theorem exec_fits (rule : UnwindRule) (first : Bool) : (exec rule first regs).Fits read ↔ RuleFits rule regs read := by
  -- a rule fits whose target is at least a word up
  have hup : (∀ n c e, rule ≠ .offsetSpAndPopRegisters n c e) →
      (∀ newSp newBp, X86.target rule first regs read = .ok (some (newSp, newBp)) → 8 ≤ newSp) →
        (exec rule first regs).Fits read :=
    fun hrule h => (exec_fits_target read regs rule first hrule).mpr h
  cases rule with
  | endOfStack =>
    refine iff_of_true (hup (by simp) ?_) trivial
    intro newSp newBp h
    cases h
  | justReturn =>
    refine iff_of_true (hup (by simp) ?_) trivial
    intro newSp newBp h
    have := offset_target regs h
    omega
  | justReturnIfFirstFrameOtherwiseFp =>
    refine iff_of_true (hup (by simp) ?_) trivial
    intro newSp newBp h
    cases first with
    | true =>
      have := offset_target regs h
      omega
    | false => exact framePointer_target read regs h
  | offsetSp n => exact offsetSp_fits read regs n first
  | offsetSpAndRestoreBp n m => exact restoreBp_fits read regs n m first
  | useFramePointer =>
    refine iff_of_true (hup (by simp) ?_) trivial
    intro newSp newBp h
    simp only [X86.target] at h
    split at h
    · cases h
    · exact framePointer_target read regs h
  | offsetSpAndPopRegisters n count ordering =>
    exact iff_of_true (popRegisters_exec_fits read regs n count ordering first) trivial

section Words

variable {read regs} (hread : read.Words) (h : regs.Words)

theorem popRegisters_reads {rest : List Reg} {sp : Nat} (hsp : sp < 2 ^ 64) :
    ∀ a ∈ (popRegisters rest sp regs).reads read, a < 2 ^ 64 := by
  induction rest generalizing sp regs with
  | nil => exact nofun
  | cons reg rest ih =>
    unfold popRegisters
    rw [Prog.reads_read]
    intro a ha
    rcases List.mem_cons.mp ha with rfl | ha
    · exact hsp
    · cases hv : read sp with
      | none =>
        rw [hv] at ha
        cases ha
      | some value =>
        rw [hv] at ha
        dsimp only at ha
        cases hs : checkedAdd sp 8 with
        | none =>
          rw [hs] at ha
          cases ha
        | some sp' =>
          rw [hs] at ha
          exact ih (checkedAdd_words hs) a ha

include h in
theorem framePointerTarget_reads : ∀ a ∈ (framePointerTarget regs).reads read, a < 2 ^ 64 := by
  unfold framePointerTarget
  cases checkedAdd regs.bp 16 with
  | none => exact nofun
  | some newSp =>
    dsimp only
    split
    · exact nofun
    · rw [Prog.reads_read]
      intro a ha
      rcases List.mem_cons.mp ha with rfl | ha
      · exact h.2 _
      · cases hv : read regs.bp <;> rw [hv] at ha <;> cases ha

include h in
theorem target_reads (rule : UnwindRule) (first : Bool) : ∀ a ∈ (target rule first regs).reads read, a < 2 ^ 64 := by
  cases rule with
  | justReturnIfFirstFrameOtherwiseFp =>
    cases first with
    | true => exact nofun
    | false => exact framePointerTarget_reads h
  | offsetSpAndRestoreBp n m =>
    unfold target
    dsimp only
    cases checkedAdd regs.sp (n * 8) with
    | none => exact nofun
    | some newSp =>
      cases hloc : checkedAddSigned regs.sp (m * 8) with
      | none => exact nofun
      | some location =>
        dsimp only
        rw [Prog.reads_read]
        intro a ha
        rcases List.mem_cons.mp ha with rfl | ha
        · exact (checkedAddSigned_eq_some.mp hloc).2
        · cases hv : read location with
          | some newBp =>
            rw [hv] at ha
            cases ha
          | none =>
            rw [hv] at ha
            dsimp only at ha
            split at ha <;> cases ha
  | useFramePointer =>
    unfold target
    dsimp only
    split
    · exact nofun
    · exact framePointerTarget_reads h
  | _ => exact nofun

theorem finish_reads (sp newSp newBp : Nat) : ∀ a ∈ (finish sp newSp newBp regs).reads read, a < 2 ^ 64 := by
  unfold finish
  dsimp only
  rw [Prog.reads_sum, Prog.reads_read]
  intro a ha
  rcases List.mem_cons.mp ha with heq | ha
  · rw [heq]
    exact wrappingSub_words _ _
  · cases hv : read (wrappingSub newSp 8) with
    | none =>
      rw [hv] at ha
      cases ha
    | some v =>
      rw [hv] at ha
      dsimp only at ha
      split at ha
      · cases ha
      · split at ha <;> cases ha

include h in
theorem exec_reads (rule : UnwindRule) (first : Bool) : ∀ a ∈ (exec rule first regs).reads read, a < 2 ^ 64 := by
  have hrest : ∀ rule, ∀ a ∈ ((target rule first regs).bind fun
      | .error e => .done (.error e, regs)
      | .ok none => .done (.ok none, regs)
      | .ok (some (newSp, newBp)) => finish regs.sp newSp newBp regs).reads read, a < 2 ^ 64 := by
    intro rule a ha
    rw [Prog.reads_bind] at ha
    rcases List.mem_append.mp ha with ha | ha
    · exact target_reads h rule first a ha
    · split at ha
      · cases ha
      · cases ha
      · exact finish_reads _ _ _ a ha
  cases rule with
  | offsetSpAndPopRegisters n count ordering =>
    unfold exec
    dsimp only
    cases hs : checkedAdd regs.sp (n * 8) with
    | none => exact nofun
    | some sp =>
      dsimp only
      rw [Prog.reads_bind]
      intro a ha
      rcases List.mem_append.mp ha with ha | ha
      · exact popRegisters_reads (checkedAdd_words hs) a ha
      · split at ha
        · cases ha
        · split at ha
          · cases ha
          · exact finish_reads _ _ _ a ha
  | _ => exact hrest _

end Words

/-! ## Rows -/

/-- The sum `translate_into_unwind_rule` comes to, if it does: the saved `bp`'s offset from `sp`. -/
def translationSums (row : UnwindTableRow) : List (Int × Int) :=
  match row.register 16, row.cfa with
  | some (.offset raOffset), .registerAndOffset 7 offset =>
    match toU16 (offset.tdiv 8), registerRuleToCfaOffset (row.register 6) with
    | some _, .ok (some bpCfaOffset) => if raOffset = -8 then [(offset, bpCfaOffset)] else []
    | _, _ => []
  | _, _ => []

/-- The end of the generic path, past its reads. -/
def conclude (regs : UnwindRegs) (isFirstFrame isSignalFrame : Bool) (cfa newBp : Nat) (returnAddress : Option Nat) :
    Except DwarfUnwinderError (UnwindResult UnwindRule × UnwindRegs) :=
  match returnAddress with
  | none => .error .couldNotRecoverReturnAddress
  | some returnAddress =>
    if cfa = regs.sp ∧ returnAddress = regs.ip then .error .didNotAdvance
    else if isFirstFrame = false ∧ isSignalFrame = false ∧ cfa < regs.sp then .error .stackPointerMovedBackwards
    else
      let regs := ((regs.setIp returnAddress).set .rbp newBp).set .rsp cfa
      .ok (if isSignalFrame then .interrupted returnAddress else .uncacheable returnAddress, regs)

/-- The return address of the generic path: `cfa - 8` is not checked. -/
def returnAddressOrBelow (cfa : Nat) : Option Nat → Prog (Option Nat)
  | some ra => .done (some ra)
  | none => .sum (decide (8 ≤ cfa)) (.read (wrappingSub cfa 8) .done)

def unwindFrameGeneric (row : UnwindTableRow) (regs : UnwindRegs) (isFirstFrame isSignalFrame : Bool) :
    Prog (Except DwarfUnwinderError (UnwindResult UnwindRule × UnwindRegs)) :=
  (Accesses.evalCfaRule regs.dwarfGet row.cfa).bind fun
    | none => .done (.error .couldNotRecoverCfa)
    | some cfa =>
      (Accesses.evalRegisterRule regs.dwarfGet cfa regs.bp (row.register 6)).bind fun newBp =>
        (Accesses.evalRegisterRule regs.dwarfGet cfa regs.ip (row.register 16)).bind fun ra =>
          (returnAddressOrBelow cfa ra).bind fun ra =>
            .done (conclude regs isFirstFrame isSignalFrame cfa (newBp.getD regs.bp) ra)

def unwindFrame (row : UnwindTableRow) (regs : UnwindRegs) (isFirstFrame isSignalFrame : Bool) :
    Prog (Except DwarfUnwinderError (UnwindResult UnwindRule × UnwindRegs)) :=
  if isSignalFrame then unwindFrameGeneric row regs isFirstFrame isSignalFrame
  else
    .sums ((translationSums row).map fun s => signedFits s.1 s.2)
      (match translateIntoUnwindRule row.cfa (row.register 6) (row.register 16) with
      | some rule => .done (.ok (.execRule rule, regs))
      | none => unwindFrameGeneric row regs isFirstFrame isSignalFrame)

@[simp] theorem returnAddressOrBelow_run (cfa : Nat) (ra : Option Nat) :
    (returnAddressOrBelow cfa ra).run read = ra.or (read (wrappingSub cfa 8)) := by
  cases ra <;> rfl

@[simp] theorem unwindFrameGeneric_run (row : UnwindTableRow) (first signal : Bool) :
    (unwindFrameGeneric row regs first signal).run read = X86.unwindFrameGeneric row regs first signal read := by
  unfold unwindFrameGeneric X86.unwindFrameGeneric
  rw [Prog.run_bind, Accesses.evalCfaRule_run]
  cases Unwinder.evalCfaRule regs.dwarfGet read row.cfa with
  | none => rfl
  | some cfa =>
    simp only [Prog.run_bind, Accesses.evalRegisterRule_run, returnAddressOrBelow_run, Prog.run_done, conclude]
    cases Unwinder.evalRegisterRule regs.dwarfGet read cfa regs.ip (row.register 16) <;> rfl

@[simp] theorem unwindFrame_run (row : UnwindTableRow) (first signal : Bool) :
    (unwindFrame row regs first signal).run read = X86.unwindFrame row regs first signal read := by
  unfold unwindFrame X86.unwindFrame rowRule
  cases signal with
  | true => exact unwindFrameGeneric_run read regs row first true
  | false =>
    simp only [Bool.false_eq_true, if_false, Prog.run_sums]
    cases translateIntoUnwindRule row.cfa (row.register 6) (row.register 16) with
    | some rule => rfl
    | none => exact unwindFrameGeneric_run read regs row first false

/-- The one sum of a row's evaluation fits: the return address below the CFA. -/
def GenericFits (row : UnwindTableRow) (regs : UnwindRegs) (read : ReadStack) : Prop :=
  ∀ cfa, Unwinder.evalCfaRule regs.dwarfGet read row.cfa = some cfa →
    Unwinder.evalRegisterRule regs.dwarfGet read cfa regs.ip (row.register 16) = none → 8 ≤ cfa

/-- The row's sums fit: of its translation, which a signal frame's has none of, and of its
    evaluation, if it has no rule. -/
def RowFits (row : UnwindTableRow) (isSignalFrame : Bool) (regs : UnwindRegs) (read : ReadStack) : Prop :=
  (isSignalFrame = false → ∀ s ∈ translationSums row, signedFits s.1 s.2 = true) ∧
    (rowRule row isSignalFrame = none → GenericFits row regs read)

theorem unwindFrameGeneric_fits (row : UnwindTableRow) (first signal : Bool) :
    (unwindFrameGeneric row regs first signal).Fits read ↔ GenericFits row regs read := by
  unfold unwindFrameGeneric GenericFits
  rw [Prog.fits_bind, Accesses.evalCfaRule_run]
  refine (and_iff_right (Accesses.evalCfaRule_fits _ _ _)).trans ?_
  cases Unwinder.evalCfaRule regs.dwarfGet read row.cfa with
  | none => exact iff_of_true trivial (by simp)
  | some cfa =>
    simp only [Prog.fits_bind, Accesses.evalRegisterRule_fits, Accesses.evalRegisterRule_run, true_and,
      Prog.fits_done, and_true, Option.some.injEq, forall_eq']
    cases Unwinder.evalRegisterRule regs.dwarfGet read cfa regs.ip (row.register 16) with
    | some ra => exact iff_of_true trivial (by simp)
    | none => simp [returnAddressOrBelow]

theorem unwindFrame_fits (row : UnwindTableRow) (first signal : Bool) :
    (unwindFrame row regs first signal).Fits read ↔ RowFits row signal regs read := by
  unfold unwindFrame RowFits rowRule
  cases signal with
  | true => simpa using unwindFrameGeneric_fits read regs row first true
  | false =>
    simp only [Bool.false_eq_true, if_false, Prog.fits_sums, List.forall_mem_map, forall_const]
    refine and_congr_right fun _ => ?_
    cases translateIntoUnwindRule row.cfa (row.register 6) (row.register 16) with
    | some rule => exact iff_of_true trivial (by simp)
    | none => simpa using unwindFrameGeneric_fits read regs row first false

section Words

variable {read regs} (hread : read.Words) (h : regs.Words) {row : UnwindTableRow} (hrow : row.Words)
include hread h hrow

theorem unwindFrameGeneric_reads (first signal : Bool) :
    ∀ a ∈ (unwindFrameGeneric row regs first signal).reads read, a < 2 ^ 64 := by
  unfold unwindFrameGeneric
  rw [Prog.reads_bind, List.forall_mem_append]
  refine ⟨Accesses.evalCfaRule_reads (dwarfGet_words h) hread hrow.1, ?_⟩
  split
  · exact nofun
  · simp only [Prog.reads_bind, Prog.reads_done, List.append_nil, List.forall_mem_append]
    refine ⟨Accesses.evalRegisterRule_reads (dwarfGet_words h) hread (hrow.2 6),
      Accesses.evalRegisterRule_reads (dwarfGet_words h) hread (hrow.2 16), ?_⟩
    rw [Accesses.evalRegisterRule_run]
    cases Unwinder.evalRegisterRule regs.dwarfGet read _ regs.ip (row.register 16) with
    | some ra => exact nofun
    | none =>
      intro a ha
      rw [List.mem_singleton.mp ha]
      exact wrappingSub_words _ _

theorem unwindFrame_reads (first signal : Bool) : ∀ a ∈ (unwindFrame row regs first signal).reads read, a < 2 ^ 64 := by
  unfold unwindFrame
  split
  · exact unwindFrameGeneric_reads hread h hrow first signal
  · rw [Prog.reads_sums]
    split
    · exact nofun
    · exact unwindFrameGeneric_reads hread h hrow first signal

end Words

end FramehopUnwind.Unwinder.X86.Accesses
