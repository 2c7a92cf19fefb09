/-
  FramehopUnwind.Unwinder.Aarch64Translate — what the translation of a DWARF row preserves
  (`translate_into_unwind_rule` and the generic path in vendor/framehop/src/aarch64/dwarf.rs).

  As on x86-64, the generic path is a row's meaning, and executing the rule the row translates to
  is held against it. Three things differ by design. A rule keeps a register that its row omits or
  leaves undefined, where the generic path gives up past the first frame (`keepOmitted`). A rule
  gives the return address stripped, the generic path as it is. And a rule refuses some frames
  that the generic path goes on from: `Declines`.

  A rule counts the stack in units of 16 bytes and everything else in words of 8, and drops the
  rest of a row's offsets (`WordOffsets` rows have none).

  Proved:
  - `rowRule_cases`: which rows have a rule.
  - `target_useFramePointer`: going by the frame pointer is a case of going by it with offsets.
  - `aarch64_row_rule_exact_iff`: a rule yields a caller exactly where its row evaluates to that
    caller and the rule does not decline, on all registers and stacks, if and only if the row's
    offsets are whole units.
-/

import FramehopUnwind.Unwinder.Aarch64

namespace FramehopUnwind.Unwinder.Aarch64

open Lib.Word

/-! ## Which rows have a rule -/

theorem registerRuleToCfaOffset_none {r : Option RegisterRule} (h : registerRuleToCfaOffset r = .ok none) : Kept r := by
  unfold registerRuleToCfaOffset at h
  unfold Kept
  split at h <;> simp_all

theorem registerRuleToCfaOffset_some {r : Option RegisterRule} {o : Int}
    (h : registerRuleToCfaOffset r = .ok (some o)) :
    r = some (.offset o) := by
  unfold registerRuleToCfaOffset at h
  split at h <;> simp_all

/-- The row is the rule's source. -/
inductive Translates (row : UnwindTableRow) : UnwindRule → Prop where
  | offsetSp {offset : Int} {n : Nat} (cfa : row.cfa = .registerAndOffset 31 offset)
    (fits : toU16 (offset.tdiv 16) = some n) (lr : Kept (row.register 30)) (fp : Kept (row.register 29)) :
    Translates row (.offsetSp n)
  | stackEnds {offset : Int} {n : Nat} (cfa : row.cfa = .registerAndOffset 31 offset)
    (fits : toU16 (offset.tdiv 16) = some n) (lr : Kept (row.register 30)) (fp : Kept (row.register 29)) :
    Translates row (.offsetSpIfFirstFrameOtherwiseStackEndsHere n)
  | restoreLr {offset lo l : Int} {n : Nat} (cfa : row.cfa = .registerAndOffset 31 offset)
    (fits : toU16 (offset.tdiv 16) = some n) (lr : row.register 30 = some (.offset lo)) (fp : Kept (row.register 29))
    (lrFits : toI16 ((wrappingAddSigned offset lo).tdiv 8) = some l) : Translates row (.offsetSpAndRestoreLr n l)
  | restoreFpAndLr {offset lo fo l f : Int} {n : Nat} (cfa : row.cfa = .registerAndOffset 31 offset)
    (fits : toU16 (offset.tdiv 16) = some n) (lr : row.register 30 = some (.offset lo))
    (fp : row.register 29 = some (.offset fo)) (lrFits : toI16 ((wrappingAddSigned offset lo).tdiv 8) = some l)
    (fpFits : toI16 ((wrappingAddSigned offset fo).tdiv 8) = some f) : Translates row (.offsetSpAndRestoreFpAndLr n f l)
  | useFramePointer (cfa : row.cfa = .registerAndOffset 29 16) (lr : row.register 30 = some (.offset (-8)))
    (fp : row.register 29 = some (.offset (-16))) : Translates row .useFramePointer
  | withOffsets {offset lo fo l f : Int} {n : Nat} (cfa : row.cfa = .registerAndOffset 29 offset)
    (fits : toU16 (offset.tdiv 8) = some n) (lr : row.register 30 = some (.offset lo))
    (fp : row.register 29 = some (.offset fo)) (lrFits : toI16 ((wrappingAddSigned offset lo).tdiv 8) = some l)
    (fpFits : toI16 ((wrappingAddSigned offset fo).tdiv 8) = some f) :
      Translates row (.useFramepointerWithOffsets n f l)

theorem rowRule_cases {row : UnwindTableRow} {rule : UnwindRule} {signal : Bool} (h : rowRule row signal = some rule) :
    Translates row rule := by
  unfold rowRule translateIntoUnwindRule at h
  split at h
  case h_1 offset hcfa =>
    obtain ⟨n, hn, h⟩ := Option.bind_eq_some_iff.mp h
    split at h
    case h_1 hlr hfp =>
      split at h
      · cases h
        exact .stackEnds hcfa hn (registerRuleToCfaOffset_none hlr) (registerRuleToCfaOffset_none hfp)
      · cases h
        exact .offsetSp hcfa hn (registerRuleToCfaOffset_none hlr) (registerRuleToCfaOffset_none hfp)
    case h_2 lo hlr hfp =>
      obtain ⟨l, hl, h⟩ := Option.bind_eq_some_iff.mp h
      cases h
      exact .restoreLr hcfa hn (registerRuleToCfaOffset_some hlr) (registerRuleToCfaOffset_none hfp) hl
    case h_3 lo fo hlr hfp =>
      obtain ⟨l, hl, h⟩ := Option.bind_eq_some_iff.mp h
      obtain ⟨f, hf, h⟩ := Option.bind_eq_some_iff.mp h
      cases h
      exact .restoreFpAndLr hcfa hn (registerRuleToCfaOffset_some hlr) (registerRuleToCfaOffset_some hfp) hl hf
    case h_4 => cases h
  case h_2 offset hcfa =>
    split at h
    case h_2 => cases h
    case h_1 lo fo hlr hfp =>
      split at h
      case isTrue ho =>
        obtain ⟨rfl, rfl, rfl⟩ := ho
        cases h
        exact .useFramePointer hcfa (registerRuleToCfaOffset_some hlr) (registerRuleToCfaOffset_some hfp)
      case isFalse =>
        obtain ⟨n, hn, h⟩ := Option.bind_eq_some_iff.mp h
        obtain ⟨l, hl, h⟩ := Option.bind_eq_some_iff.mp h
        obtain ⟨f, hf, h⟩ := Option.bind_eq_some_iff.mp h
        cases h
        exact .withOffsets hcfa hn (registerRuleToCfaOffset_some hlr) (registerRuleToCfaOffset_some hfp) hl hf
  case h_3 => cases h

/-! ## The two ways to unwind -/

/-- The row with every register it omits or leaves undefined kept as it is. -/
def keepOmitted (row : UnwindTableRow) : UnwindTableRow where
  cfa := row.cfa
  register r :=
    match row.register r with
    | none | some .undefined => some .sameValue
    | some rule => some rule

variable {row : UnwindTableRow} {rule : UnwindRule} {regs regs' : UnwindRegs} {read : ReadStack} {first : Bool}
  {ra cfa lr fp : Nat}

theorem exec_some_iff (ht : target rule first regs read = .ok (some (lr, cfa, fp))) :
    exec rule first regs read = (.ok (some ra), regs') ↔
      regs.lrMask.stripPtrAuth lr = ra ∧ ra ≠ 0 ∧ ¬ (first = false ∧ cfa = regs.sp) ∧
        regs' = ((regs.setLr lr).setSp cfa).setFp fp := by
  unfold exec
  rw [ht]
  dsimp only
  constructor
  · intro h
    split at h
    case isTrue => cases h
    case isFalse h0 =>
      split at h
      case isTrue => cases h
      case isFalse hmoved =>
        cases h
        exact ⟨rfl, h0, hmoved, rfl⟩
  · rintro ⟨rfl, h0, hmoved, rfl⟩
    rw [if_neg h0, if_neg hmoved]

theorem exec_ne_of_target (ht : ∀ t, target rule first regs read ≠ .ok (some t)) :
    exec rule first regs read ≠ (.ok (some ra), regs') := by
  intro h
  unfold exec at h
  split at h
  · cases h
  · cases h
  · rename_i htarget
    exact ht _ htarget

theorem generic_some_iff (hcfa : evalCfaRule regs.dwarfGet read row.cfa = some cfa)
    (hfp : evalRegisterRule regs.dwarfGet read cfa regs.fp (row.register 29) = some fp)
    (hlr : evalRegisterRule regs.dwarfGet read cfa regs.lr (row.register 30) = some lr) {lr' : Nat} :
    unwindFrameGeneric row regs first read = .ok (.uncacheable lr', regs') ↔
      lr' = lr ∧ ¬ (first = false ∧ cfa ≤ regs.sp) ∧ regs' = ((regs.setLr lr).setSp cfa).setFp fp := by
  unfold unwindFrameGeneric
  simp only [hcfa, hfp, hlr, Option.getD_some]
  cases first with
  | true =>
    simp only [if_true, Except.ok.injEq, Prod.mk.injEq, UnwindResult.uncacheable.injEq, Bool.true_eq_false, false_and,
      not_false_eq_true, true_and]
    exact and_congr eq_comm eq_comm
  | false =>
    simp only [Bool.false_eq_true, if_false, true_and]
    split
    case isTrue h => simp [h]
    case isFalse h =>
      simp only [Except.ok.injEq, Prod.mk.injEq, UnwindResult.uncacheable.injEq, h, not_false_eq_true, true_and]
      exact and_congr eq_comm eq_comm

/-! ## When they agree -/

/-- Where a word stored so many words from a register is. -/
def slot (base : Nat) (offsetBy8 : Int) : Nat := (base + offsetBy8 * 8).toNat

/-- No frame record to go on to: a word of it cannot be read, its frame pointer is not above the
    present one, or the stack pointer would not move up. -/
def Unchained (regs : UnwindRegs) (read : ReadStack) (n : Nat) (f l : Int) : Prop :=
  read (slot regs.fp l) = none ∨ (∀ v, read (slot regs.fp f) = some v → v ≤ regs.fp) ∨ regs.fp + n * 8 ≤ regs.sp

/-- Frames in which the rule fails or ends the stack, whatever its row evaluates to. -/
def Declines (rule : UnwindRule) (first : Bool) (regs : UnwindRegs) (read : ReadStack) : Prop :=
  match rule with
  | .offsetSp _ | .offsetSpIfFirstFrameOtherwiseStackEndsHere _ => first = false
  | .offsetSpAndRestoreLr _ l => read (slot regs.sp l) = none
  | .offsetSpAndRestoreFpAndLr _ f l => read (slot regs.sp l) = none ∨ read (slot regs.sp f) = none
  | .useFramePointer => Unchained regs read 2 0 1
  | .useFramepointerWithOffsets n f l => Unchained regs read n f l
  | _ => False

/-- The register that a rule goes by is in a user address space, with room for any rule's offsets. -/
def InRange (rule : UnwindRule) (regs : UnwindRegs) : Prop :=
  match rule with
  | .useFramePointer => regs.fp + 2 ^ 20 ≤ 2 ^ 63
  | .useFramepointerWithOffsets _ _ _ => 2 ^ 20 ≤ regs.fp ∧ regs.fp + 2 ^ 20 ≤ 2 ^ 63
  | _ => 2 ^ 20 ≤ regs.sp ∧ regs.sp + 2 ^ 20 ≤ 2 ^ 63

/-- The offsets of a row are in the units that rules count in. -/
structure WordOffsets (row : UnwindTableRow) : Prop where
  sp : ∀ offset, row.cfa = .registerAndOffset 31 offset → 16 ∣ offset
  fp : ∀ offset, row.cfa = .registerAndOffset 29 offset → 8 ∣ offset
  stored : ∀ o, row.register 29 = some (.offset o) ∨ row.register 30 = some (.offset o) → 8 ∣ o

/-- The offsets of a row are `i64`s. -/
def I64Offsets (row : UnwindTableRow) : Prop :=
  ∀ o, row.register 29 = some (.offset o) ∨ row.register 30 = some (.offset o) → -2 ^ 63 ≤ o ∧ o < 2 ^ 63

theorem eval_kept {r : Nat} (h : Kept (row.register r)) {get : Nat → Option Nat} {val : Nat} :
    evalRegisterRule get read cfa val ((keepOmitted row).register r) = some val := by
  unfold keepOmitted
  dsimp only
  rcases h with h | h | h <;> rw [h] <;> rfl

theorem eval_stored {r : Nat} {o : Int} (h : row.register r = some (.offset o)) {get : Nat → Option Nat}
    {val base : Nat}
    {offset j : Int} (hcfa : (cfa : Int) = base + offset) (hj : j * 8 = offset + o) (hlt : cfa < 2 ^ 63)
    (h0 : 0 ≤ base + j * 8) (h1 : base + j * 8 < 2 ^ 63) :
    evalRegisterRule get read cfa val ((keepOmitted row).register r) = read (slot base j) := by
  have hslot : ((cfa : Int) + o).toNat = slot base j := by
    unfold slot
    omega
  unfold keepOmitted
  dsimp only
  rw [h]
  simp only [evalRegisterRule, addOffset_of_range cfa o hlt (by omega) (by omega), Option.bind_some, hslot]

theorem readStored_slot {base : Nat} {j : Int} (h0 : 0 ≤ base + j * 8) (h1 : base + j * 8 < 2 ^ 63) :
    readStored read base j = readOr read (slot base j) := by
  have hloc : checkedAddSigned base (j * 8) = some (slot base j) := by
    unfold slot
    exact checkedAddSigned_eq_some.mpr ⟨by omega, by omega⟩
  unfold readStored
  rw [hloc]
  rfl

/-- Going by the frame pointer is a case of going by it with offsets. -/
theorem target_useFramePointer (first : Bool) (regs : UnwindRegs) (read : ReadStack) :
    target .useFramePointer first regs read = target (.useFramepointerWithOffsets 2 0 1) first regs read := by
  have h16 : 2 * 8 = 16 := rfl
  simp only [target, h16]
  cases hadd : checkedAdd regs.fp 16 with
  | none => simp [okOr, bind, Except.bind]
  | some newSp =>
    obtain ⟨hlt, -⟩ := checkedAdd_eq_some.mp hadd
    have h1 : checkedAddSigned regs.fp (1 * 8) = some (regs.fp + 8) := checkedAddSigned_eq_some.mpr ⟨by omega, by omega⟩
    have h0 : checkedAddSigned regs.fp (0 * 8) = some regs.fp := checkedAddSigned_eq_some.mpr ⟨by omega, by omega⟩
    simp only [readStored, h0, h1]
    rfl

/-- The CFA of a row by the stack pointer. -/
theorem cfa_sp (read : ReadStack) {offset : Int} {n : Nat} (hcfa : row.cfa = .registerAndOffset 31 offset)
    (hn : toU16 (offset.tdiv 16) = some n) (h16 : 16 ∣ offset) (hsp : regs.sp + 2 ^ 20 ≤ 2 ^ 63) :
    evalCfaRule regs.dwarfGet read row.cfa = some (regs.sp + n * 16) ∧ offset = n * 16 ∧ n < 2 ^ 16 ∧
      checkedAdd regs.sp (n * 16) = some (regs.sp + n * 16) := by
  obtain ⟨h0, h1, hlt⟩ := toU16_tdiv (by decide) hn
  have hoff : offset = n * 16 := by omega
  have hnat : ((regs.sp : Int) + offset).toNat = regs.sp + n * 16 := by omega
  have heval := addOffset_of_range regs.sp offset (by omega) (by omega) (by omega)
  rw [hnat] at heval
  refine ⟨?_, hoff, hlt, checkedAdd_eq_some.mpr ⟨by omega, rfl⟩⟩
  rw [hcfa]
  exact heval

/-- The CFA of a row by the frame pointer. -/
theorem cfa_fp (read : ReadStack) {offset : Int} {n : Nat} (hcfa : row.cfa = .registerAndOffset 29 offset)
    (hn : toU16 (offset.tdiv 8) = some n) (h8 : 8 ∣ offset) (hfp : regs.fp + 2 ^ 20 ≤ 2 ^ 63) :
    evalCfaRule regs.dwarfGet read row.cfa = some (regs.fp + n * 8) ∧ offset = n * 8 ∧ n < 2 ^ 16 ∧
      checkedAdd regs.fp (n * 8) = some (regs.fp + n * 8) := by
  obtain ⟨h0, h1, hlt⟩ := toU16_tdiv (by decide) hn
  have hoff : offset = n * 8 := by omega
  have hnat : ((regs.fp : Int) + offset).toNat = regs.fp + n * 8 := by omega
  have heval := addOffset_of_range regs.fp offset (by omega) (by omega) (by omega)
  rw [hnat] at heval
  refine ⟨?_, hoff, hlt, checkedAdd_eq_some.mpr ⟨by omega, rfl⟩⟩
  rw [hcfa]
  exact heval

/-- Rule and row find a stored register in the same word. -/
theorem stored_slot (read : ReadStack) {r base : Nat} {offset o j : Int} (h : row.register r = some (.offset o))
    (hj : toI16 ((wrappingAddSigned offset o).tdiv 8) = some j) (hcfa : (cfa : Int) = base + offset) (h0 : 0 ≤ offset)
    (h1 : offset < 2 ^ 20) (h8 : 8 ∣ offset) (ho : 8 ∣ o) (h64 : -2 ^ 63 ≤ o ∧ o < 2 ^ 63) (hlow : 2 ^ 20 ≤ base)
    (hhigh : base + 2 ^ 20 ≤ 2 ^ 63) :
    (∀ get val, evalRegisterRule get read cfa val ((keepOmitted row).register r) = read (slot base j)) ∧
      readStored read base j = readOr read (slot base j) := by
  obtain ⟨hj, hj0, hj1, -, -⟩ := toI16_tdiv (by omega) h1 h64 hj
  have hstored : j * 8 = offset + o := by
    rw [hj]
    exact Int.tdiv_mul_cancel (Int.dvd_add h8 ho)
  refine ⟨?_, readStored_slot (by omega) (by omega)⟩
  intro get val
  exact eval_stored h hcfa hstored (by omega) (by omega) (by omega)

/-- Going by the frame pointer, with both words of the record at their slots. -/
theorem target_withOffsets {n newSp : Nat} {f l : Int} (first : Bool) (hsp : checkedAdd regs.fp (n * 8) = some newSp)
    (hl : readStored read regs.fp l = readOr read (slot regs.fp l))
    (hf : readStored read regs.fp f = readOr read (slot regs.fp f)) :
    (Unchained regs read n f l ∧ ∀ t, target (.useFramepointerWithOffsets n f l) first regs read ≠ .ok (some t)) ∨
      (¬ Unchained regs read n f l ∧ ∃ lr fp, read (slot regs.fp l) = some lr ∧ read (slot regs.fp f) = some fp ∧
        target (.useFramepointerWithOffsets n f l) first regs read = .ok (some (lr, newSp, fp))) := by
  obtain ⟨-, hnew⟩ := checkedAdd_eq_some.mp hsp
  simp only [target, hsp, hl, hf, readOr, okOr, bind, Except.bind, pure, Except.pure, throw, throwThe,
    MonadExceptOf.throw]
  unfold Unchained
  cases hlr : read (slot regs.fp l) with
  | none => exact .inl ⟨.inl rfl, by simp⟩
  | some lr =>
    cases hfp : read (slot regs.fp f) with
    | none => exact .inl ⟨.inr (.inl (by simp)), by simp⟩
    | some fp =>
      by_cases hup : fp ≤ regs.fp
      · refine .inl ⟨.inr (.inl ?_), ?_⟩
        · intro v hv
          cases hv
          exact hup
        · by_cases hzero : fp = 0
          · simp [hzero]
          · simp [hzero, hup]
      · by_cases hback : newSp ≤ regs.sp
        · have hzero : fp ≠ 0 := by omega
          exact .inl ⟨.inr (.inr (by omega)), by simp [hzero, hback]⟩
        · refine .inr ⟨?_, lr, fp, rfl, rfl, ?_⟩
          · rintro (h | h | h)
            · cases h
            · exact hup (h fp rfl)
            · omega
          · have hzero : fp ≠ 0 := by omega
            simp [hzero, hup, hback]

/-- The row's values for the caller's registers, with omitted ones kept. -/
structure Evaluates (row : UnwindTableRow) (regs : UnwindRegs) (read : ReadStack) (lr cfa fp : Nat) : Prop where
  evalCfa : evalCfaRule regs.dwarfGet read row.cfa = some cfa
  evalFp : evalRegisterRule regs.dwarfGet read cfa regs.fp ((keepOmitted row).register 29) = some fp
  evalLr : evalRegisterRule regs.dwarfGet read cfa regs.lr ((keepOmitted row).register 30) = some lr

theorem Evaluates.generic_iff (h : Evaluates row regs read lr cfa fp) {lr' : Nat} :
    unwindFrameGeneric (keepOmitted row) regs first read = .ok (.uncacheable lr', regs') ↔
      lr' = lr ∧ ¬ (first = false ∧ cfa ≤ regs.sp) ∧ regs' = ((regs.setLr lr).setSp cfa).setFp fp :=
  generic_some_iff (show evalCfaRule _ _ (keepOmitted row).cfa = some cfa from h.evalCfa) h.evalFp h.evalLr

/-- In the first frame, both rules that leave the link register add their offset. -/
theorem target_offset {n newSp : Nat} (hsp : checkedAdd regs.sp (n * 16) = some newSp) :
    target (.offsetSp n) true regs read = .ok (some (regs.lr, newSp, regs.fp)) ∧
      target (.offsetSpIfFirstFrameOtherwiseStackEndsHere n) true regs read = .ok (some (regs.lr, newSp, regs.fp)) := by
  simp only [target, hsp, if_true]
  exact ⟨rfl, rfl⟩

/-- A row in whole units: the rule's target is what the row evaluates to, unless the rule declines. -/
theorem translates_target (first : Bool) (read : ReadStack) (hrule : Translates row rule) (hwords : WordOffsets row)
    (h64 : I64Offsets row) (hregs : InRange rule regs) :
    (Declines rule first regs read ∧ ∀ t, target rule first regs read ≠ .ok (some t)) ∨
      (¬ Declines rule first regs read ∧ ∃ lr cfa fp, Evaluates row regs read lr cfa fp ∧ regs.sp ≤ cfa ∧
        target rule first regs read = .ok (some (lr, cfa, fp))) := by
  cases hrule with
  | @offsetSp offset n hcfa hn hlr hfp =>
    obtain ⟨heval, -, -, hadd⟩ := cfa_sp read hcfa hn (hwords.sp offset hcfa) hregs.2
    cases first with
    | false => exact .inl ⟨rfl, by simp [target, throw, throwThe, MonadExceptOf.throw]⟩
    | true =>
      exact .inr ⟨by simp [Declines], _, _, _, ⟨heval, eval_kept hfp, eval_kept hlr⟩, by omega, (target_offset hadd).1⟩
  | @stackEnds offset n hcfa hn hlr hfp =>
    obtain ⟨heval, -, -, hadd⟩ := cfa_sp read hcfa hn (hwords.sp offset hcfa) hregs.2
    cases first with
    | false => exact .inl ⟨rfl, by simp [target, pure, Except.pure]⟩
    | true =>
      exact .inr ⟨by simp [Declines], _, _, _, ⟨heval, eval_kept hfp, eval_kept hlr⟩, by omega, (target_offset hadd).2⟩
  | @restoreLr offset lo l n hcfa hn hlr hfp hl =>
    obtain ⟨hlow, hhigh⟩ := hregs
    have h16 := hwords.sp offset hcfa
    obtain ⟨heval, hoff, hlt, hadd⟩ := cfa_sp read hcfa hn h16 hhigh
    have hat : ((regs.sp + n * 16 : Nat) : Int) = regs.sp + offset := by omega
    obtain ⟨hlrEval, hlrRead⟩ := stored_slot read hlr hl hat (by omega) (by omega) (by omega)
      (hwords.stored lo (.inr hlr)) (h64 lo (.inr hlr)) hlow hhigh
    simp only [target, hadd, hlrRead, readOr, okOr, bind, Except.bind, pure, Except.pure, Declines]
    cases hread : read (slot regs.sp l) with
    | none => exact .inl ⟨rfl, by simp⟩
    | some lr =>
      exact .inr ⟨by simp, lr, _, _, ⟨heval, eval_kept hfp, (hlrEval _ _).trans hread⟩, by omega, rfl⟩
  | @restoreFpAndLr offset lo fo l f n hcfa hn hlr hfp hl hf =>
    obtain ⟨hlow, hhigh⟩ := hregs
    have h16 := hwords.sp offset hcfa
    obtain ⟨heval, hoff, hlt, hadd⟩ := cfa_sp read hcfa hn h16 hhigh
    have hat : ((regs.sp + n * 16 : Nat) : Int) = regs.sp + offset := by omega
    obtain ⟨hlrEval, hlrRead⟩ := stored_slot read hlr hl hat (by omega) (by omega) (by omega)
      (hwords.stored lo (.inr hlr)) (h64 lo (.inr hlr)) hlow hhigh
    obtain ⟨hfpEval, hfpRead⟩ := stored_slot read hfp hf hat (by omega) (by omega) (by omega)
      (hwords.stored fo (.inl hfp)) (h64 fo (.inl hfp)) hlow hhigh
    simp only [target, hadd, hlrRead, hfpRead, readOr, okOr, bind, Except.bind, pure, Except.pure, Declines]
    cases hl' : read (slot regs.sp l) with
    | none => exact .inl ⟨.inl rfl, by simp⟩
    | some lr =>
      cases hf' : read (slot regs.sp f) with
      | none => exact .inl ⟨.inr rfl, by simp⟩
      | some fp =>
        exact .inr ⟨by simp, lr, _, fp, ⟨heval, (hfpEval _ _).trans hf', (hlrEval _ _).trans hl'⟩, by omega, rfl⟩
  | useFramePointer hcfa hlr hfp =>
    have hhigh : regs.fp + 2 ^ 20 ≤ 2 ^ 63 := hregs
    obtain ⟨heval, -, -, hadd⟩ := cfa_fp read hcfa (show toU16 ((16 : Int).tdiv 8) = some 2 by decide) (by decide) hhigh
    have hat : ((regs.fp + 2 * 8 : Nat) : Int) = regs.fp + 16 := by omega
    have h0 : (0 : Int) ≤ regs.fp + 0 * 8 := by omega
    have h1 : (0 : Int) ≤ regs.fp + 1 * 8 := by omega
    rw [target_useFramePointer]
    rcases target_withOffsets (n := 2) (f := 0) (l := 1) first hadd (readStored_slot h1 (by omega))
      (readStored_slot h0 (by omega)) with hcase | ⟨hchained, lr, fp, hlr', hfp', ht⟩
    · exact .inl hcase
    · refine .inr ⟨hchained, lr, _, fp, ⟨heval, ?_, ?_⟩, ?_, ht⟩
      · exact (eval_stored hfp hat (by decide) (by omega) h0 (by omega)).trans hfp'
      · exact (eval_stored hlr hat (by decide) (by omega) h1 (by omega)).trans hlr'
      · unfold Unchained at hchained
        omega
  | @withOffsets offset lo fo l f n hcfa hn hlr hfp hl hf =>
    obtain ⟨hlow, hhigh⟩ := hregs
    have h8 := hwords.fp offset hcfa
    obtain ⟨heval, hoff, hlt, hadd⟩ := cfa_fp read hcfa hn h8 hhigh
    have hat : ((regs.fp + n * 8 : Nat) : Int) = regs.fp + offset := by omega
    obtain ⟨hlrEval, hlrRead⟩ := stored_slot read hlr hl hat (by omega) (by omega) (by omega)
      (hwords.stored lo (.inr hlr)) (h64 lo (.inr hlr)) hlow hhigh
    obtain ⟨hfpEval, hfpRead⟩ := stored_slot read hfp hf hat (by omega) (by omega) (by omega)
      (hwords.stored fo (.inl hfp)) (h64 fo (.inl hfp)) hlow hhigh
    rcases target_withOffsets first hadd hlrRead hfpRead with hcase | ⟨hchained, lr, fp, hlr', hfp', ht⟩
    · exact .inl hcase
    · refine .inr ⟨hchained, lr, _, fp, ⟨heval, (hfpEval _ _).trans hfp', (hlrEval _ _).trans hlr'⟩, ?_, ht⟩
      unfold Unchained at hchained
      omega

/-- A word of its own at every address, above the address. -/
def farWords : ReadStack := fun a => some (a + 2 ^ 30)

/-- All bits of a pointer are address bits. -/
def sampleRegs : UnwindRegs := ⟨⟨2 ^ 64 - 1⟩, 5, 2 ^ 20, 2 ^ 21⟩

theorem sampleRegs_strip {v : Nat} (h : v < 2 ^ 64) : sampleRegs.lrMask.stripPtrAuth v = v := by
  have hand : v &&& (2 ^ 64 - 1) = v % 2 ^ 64 := Nat.and_two_pow_sub_one_eq_mod v 64
  exact hand.trans (Nat.mod_eq_of_lt h)

theorem sampleRegs_inRange (rule : UnwindRule) : InRange rule sampleRegs := by
  have hsp : sampleRegs.sp = 2 ^ 20 := rfl
  have hfp : sampleRegs.fp = 2 ^ 21 := rfl
  unfold InRange
  split <;> omega

theorem eval_farWords {r : Nat} {o : Int} (h : row.register r = some (.offset o)) (cfa : Nat) (hlt : cfa < 2 ^ 63)
    (h0 : 0 ≤ cfa + o) (h1 : cfa + o < 2 ^ 63) {get : Nat → Option Nat} {val : Nat} :
    evalRegisterRule get farWords cfa val ((keepOmitted row).register r) = some ((cfa + o).toNat + 2 ^ 30) := by
  unfold keepOmitted
  dsimp only
  rw [h]
  simp only [evalRegisterRule, addOffset_of_range cfa o hlt h0 h1, Option.bind_some, farWords]

theorem wordOffsets_sp {offset : Int} (hcfa : row.cfa = .registerAndOffset 31 offset) (h16 : 16 ∣ offset)
    (hfp : ∀ {o}, row.register 29 = some (.offset o) → 8 ∣ o)
    (hlr : ∀ {o}, row.register 30 = some (.offset o) → 8 ∣ o) :
    WordOffsets row := by
  refine ⟨?_, ?_, ?_⟩
  · intro offset' h
    cases hcfa.symm.trans h
    exact h16
  · intro offset' h
    cases hcfa.symm.trans h
  · intro o h
    exact h.elim hfp hlr

theorem wordOffsets_fp {offset : Int} (hcfa : row.cfa = .registerAndOffset 29 offset) (h8 : 8 ∣ offset)
    (hfp : ∀ {o}, row.register 29 = some (.offset o) → 8 ∣ o)
    (hlr : ∀ {o}, row.register 30 = some (.offset o) → 8 ∣ o) :
    WordOffsets row := by
  refine ⟨?_, ?_, ?_⟩
  · intro offset' h
    cases hcfa.symm.trans h
  · intro offset' h
    cases hcfa.symm.trans h
    exact h8
  · intro o h
    exact h.elim hfp hlr

/-- If a rule and its row agree on a stack of distinct words, the rule's target is the row's. -/
theorem target_of_agree {newSp newFp newLr : Nat}
    (ht : target rule true sampleRegs farWords = .ok (some (newLr, newSp, newFp))) (h0 : newLr ≠ 0)
    (h64 : newLr < 2 ^ 64) (heval : Evaluates row sampleRegs farWords lr cfa fp) (hlr : lr < 2 ^ 64)
    (h : ∀ ra regs', exec rule true sampleRegs farWords = (.ok (some ra), regs') →
      ∃ lr, unwindFrameGeneric (keepOmitted row) sampleRegs true farWords = .ok (.uncacheable lr, regs')) :
    newSp = cfa ∧ newFp = fp ∧ newLr = lr := by
  have hstrip := sampleRegs_strip h64
  obtain ⟨lr', hgeneric⟩ := h newLr _ ((exec_some_iff ht).mpr ⟨hstrip, h0, by simp, rfl⟩)
  obtain ⟨-, -, hregs⟩ := heval.generic_iff.mp hgeneric
  have hsp := congrArg UnwindRegs.sp hregs
  have hfp := congrArg UnwindRegs.fp hregs
  have hlrs : sampleRegs.lrMask.stripPtrAuth newLr = sampleRegs.lrMask.stripPtrAuth lr := congrArg UnwindRegs.lr hregs
  rw [hstrip, sampleRegs_strip hlr] at hlrs
  exact ⟨hsp, hfp, hlrs⟩

theorem kept_dvd {r : Nat} {o : Int} (h : Kept (row.register r)) (ho : row.register r = some (.offset o)) : 8 ∣ o := by
  rcases h with h | h | h <;> rw [h] at ho <;> cases ho

theorem stored_dvd {r : Nat} {o o' : Int} (h : row.register r = some (.offset o)) (h8 : 8 ∣ o)
    (ho : row.register r = some (.offset o')) : 8 ∣ o' := by
  cases h.symm.trans ho
  exact h8

/-- The CFA of a row on the sample, by either register. -/
theorem cfa_sample {r base : Nat} {offset : Int} (hcfa : row.cfa = .registerAndOffset r offset)
    (hget : sampleRegs.dwarfGet r = some base) (hlt : base < 2 ^ 63) (h0 : 0 ≤ base + offset)
    (h1 : base + offset < 2 ^ 63) :
    evalCfaRule sampleRegs.dwarfGet farWords row.cfa = some (base + offset).toNat := by
  rw [hcfa]
  simp only [evalCfaRule, hget, Option.bind_some, addOffset_of_range base offset hlt h0 h1]

/-- A rule that adds its offset and leaves the other registers. -/
theorem words_of_offset {offset : Int} {n : Nat} (hcfa : row.cfa = .registerAndOffset 31 offset)
    (hn : toU16 (offset.tdiv 16) = some n) (hlr : Kept (row.register 30)) (hfp : Kept (row.register 29))
    (ht : ∀ {newSp}, checkedAdd sampleRegs.sp (n * 16) = some newSp →
      target rule true sampleRegs farWords = .ok (some (5, newSp, 2 ^ 21)))
    (h : ∀ ra regs', exec rule true sampleRegs farWords = (.ok (some ra), regs') →
      ∃ lr, unwindFrameGeneric (keepOmitted row) sampleRegs true farWords = .ok (.uncacheable lr, regs')) :
    WordOffsets row := by
  have hsp₀ : sampleRegs.sp = 2 ^ 20 := rfl
  obtain ⟨h0, h1, hlt⟩ := toU16_tdiv (by decide) hn
  have hadd : checkedAdd sampleRegs.sp (n * 16) = some (2 ^ 20 + n * 16) := checkedAdd_eq_some.mpr ⟨by omega, rfl⟩
  have hcfa' := cfa_sample hcfa (rfl : sampleRegs.dwarfGet 31 = some (2 ^ 20)) (by decide) (by omega) (by omega)
  obtain ⟨hsp, -, -⟩ :=
    target_of_agree (ht hadd) (by decide) (by decide) ⟨hcfa', eval_kept hfp, eval_kept hlr⟩ (by decide) h
  exact wordOffsets_sp hcfa (by omega) (kept_dvd hfp) (kept_dvd hlr)

theorem Translates.words_of_agree (hrule : Translates row rule) (h64 : I64Offsets row)
    (h : ∀ ra regs', exec rule true sampleRegs farWords = (.ok (some ra), regs') →
      ∃ lr, unwindFrameGeneric (keepOmitted row) sampleRegs true farWords = .ok (.uncacheable lr, regs')) :
    WordOffsets row := by
  have hsp₀ : sampleRegs.sp = 2 ^ 20 := rfl
  have hfp₀ : sampleRegs.fp = 2 ^ 21 := rfl
  cases hrule with
  | @offsetSp offset n hcfa hn hlr hfp => exact words_of_offset hcfa hn hlr hfp (fun hadd => (target_offset hadd).1) h
  | @stackEnds offset n hcfa hn hlr hfp => exact words_of_offset hcfa hn hlr hfp (fun hadd => (target_offset hadd).2) h
  | @restoreLr offset lo l n hcfa hn hlr hfp hl =>
    obtain ⟨h0, h1, hlt⟩ := toU16_tdiv (by decide) hn
    obtain ⟨hl', hl0, hl1, hl2, hl3⟩ := toI16_tdiv (by omega) (by omega) (h64 lo (.inr hlr)) hl
    have hadd : checkedAdd sampleRegs.sp (n * 16) = some (2 ^ 20 + n * 16) := checkedAdd_eq_some.mpr ⟨by omega, rfl⟩
    have hlrRead : readStored farWords sampleRegs.sp l = .ok (slot (2 ^ 20) l + 2 ^ 30) :=
      readStored_slot (by omega) (by omega)
    have ht : target (.offsetSpAndRestoreLr n l) true sampleRegs farWords =
        .ok (some (slot (2 ^ 20) l + 2 ^ 30, 2 ^ 20 + n * 16, 2 ^ 21)) := by
      simp only [target, hadd, hlrRead]
      rfl
    have hcfa' := cfa_sample hcfa (rfl : sampleRegs.dwarfGet 31 = some (2 ^ 20)) (by decide) (by omega) (by omega)
    unfold slot at ht
    obtain ⟨hsp, -, hlrs⟩ := target_of_agree ht (by omega) (by omega)
      ⟨hcfa', eval_kept hfp, eval_farWords hlr _ (by omega) (by omega) (by omega)⟩ (by omega) h
    exact wordOffsets_sp hcfa (by omega) (kept_dvd hfp) (stored_dvd hlr (by omega))
  | @restoreFpAndLr offset lo fo l f n hcfa hn hlr hfp hl hf =>
    obtain ⟨h0, h1, hlt⟩ := toU16_tdiv (by decide) hn
    obtain ⟨-, hl0, hl1, hl2, hl3⟩ := toI16_tdiv (by omega) (by omega) (h64 lo (.inr hlr)) hl
    obtain ⟨-, hf0, hf1, hf2, hf3⟩ := toI16_tdiv (by omega) (by omega) (h64 fo (.inl hfp)) hf
    have hadd : checkedAdd sampleRegs.sp (n * 16) = some (2 ^ 20 + n * 16) := checkedAdd_eq_some.mpr ⟨by omega, rfl⟩
    have hlrRead : readStored farWords sampleRegs.sp l = .ok (slot (2 ^ 20) l + 2 ^ 30) :=
      readStored_slot (by omega) (by omega)
    have hfpRead : readStored farWords sampleRegs.sp f = .ok (slot (2 ^ 20) f + 2 ^ 30) :=
      readStored_slot (by omega) (by omega)
    have ht : target (.offsetSpAndRestoreFpAndLr n f l) true sampleRegs farWords =
        .ok (some (slot (2 ^ 20) l + 2 ^ 30, 2 ^ 20 + n * 16, slot (2 ^ 20) f + 2 ^ 30)) := by
      simp only [target, hadd, hlrRead, hfpRead]
      rfl
    have hcfa' := cfa_sample hcfa (rfl : sampleRegs.dwarfGet 31 = some (2 ^ 20)) (by decide) (by omega) (by omega)
    unfold slot at ht
    obtain ⟨hsp, hfps, hlrs⟩ := target_of_agree ht (by omega) (by omega)
      ⟨hcfa', eval_farWords hfp _ (by omega) (by omega) (by omega),
        eval_farWords hlr _ (by omega) (by omega) (by omega)⟩
      (by omega) h
    exact wordOffsets_sp hcfa (by omega) (stored_dvd hfp (by omega)) (stored_dvd hlr (by omega))
  | useFramePointer hcfa hlr hfp =>
    exact wordOffsets_fp hcfa (by decide) (stored_dvd hfp (by decide)) (stored_dvd hlr (by decide))
  | @withOffsets offset lo fo l f n hcfa hn hlr hfp hl hf =>
    obtain ⟨h0, h1, hlt⟩ := toU16_tdiv (by decide) hn
    obtain ⟨-, hl0, hl1, hl2, hl3⟩ := toI16_tdiv (by omega) (by omega) (h64 lo (.inr hlr)) hl
    obtain ⟨-, hf0, hf1, hf2, hf3⟩ := toI16_tdiv (by omega) (by omega) (h64 fo (.inl hfp)) hf
    have hadd : checkedAdd sampleRegs.fp (n * 8) = some (2 ^ 21 + n * 8) := checkedAdd_eq_some.mpr ⟨by omega, rfl⟩
    have hlrRead : readStored farWords sampleRegs.fp l = readOr farWords (slot sampleRegs.fp l) :=
      readStored_slot (by omega) (by omega)
    have hfpRead : readStored farWords sampleRegs.fp f = readOr farWords (slot sampleRegs.fp f) :=
      readStored_slot (by omega) (by omega)
    have hchained : ¬ Unchained sampleRegs farWords n f l := by
      unfold Unchained farWords slot
      rintro (hnone | hall | hback)
      · cases hnone
      · have := hall _ rfl
        omega
      · omega
    rcases target_withOffsets true hadd hlrRead hfpRead with ⟨hbad, -⟩ | ⟨-, lr, fp, hlr', hfp', ht⟩
    · exact absurd hbad hchained
    · cases hlr'
      cases hfp'
      have hcfa' := cfa_sample hcfa (rfl : sampleRegs.dwarfGet 29 = some (2 ^ 21)) (by decide) (by omega) (by omega)
      unfold slot at ht
      obtain ⟨hsp, hfps, hlrs⟩ := target_of_agree ht (by omega) (by omega)
        ⟨hcfa', eval_farWords hfp _ (by omega) (by omega) (by omega),
          eval_farWords hlr _ (by omega) (by omega) (by omega)⟩
        (by omega) h
      exact wordOffsets_fp hcfa (by omega) (stored_dvd hfp (by omega)) (stored_dvd hlr (by omega))

/-- Executing a row's rule yields a caller exactly where the row, with omitted registers kept,
    evaluates to that caller, its stripped return address is not null and the rule does not decline,
    on all registers in range and all stacks, for the first frame or a later one, if and only if the
    row's offsets are in the units that rules count in. -/
theorem aarch64_row_rule_exact_iff {signal : Bool} (h : rowRule row signal = some rule) (h64 : I64Offsets row) :
    (∀ first regs read, InRange rule regs → ∀ ra regs', exec rule first regs read = (.ok (some ra), regs') ↔
      (∃ lr, unwindFrameGeneric (keepOmitted row) regs first read = .ok (.uncacheable lr, regs') ∧
        regs.lrMask.stripPtrAuth lr = ra) ∧ ra ≠ 0 ∧ ¬ Declines rule first regs read) ↔ WordOffsets row := by
  have hrule := rowRule_cases h
  constructor
  · -- one stack with a word of its own at every address tells all offsets apart
    intro hall
    have hagree : ∀ ra regs', exec rule true sampleRegs farWords = (.ok (some ra), regs') →
        ∃ lr, unwindFrameGeneric (keepOmitted row) sampleRegs true farWords = .ok (.uncacheable lr, regs') := by
      intro ra regs' hexec
      obtain ⟨⟨lr, hlr, -⟩, -⟩ := (hall true sampleRegs farWords (sampleRegs_inRange rule) ra regs').mp hexec
      exact ⟨lr, hlr⟩
    exact hrule.words_of_agree h64 hagree
  · intro hwords first regs read hregs ra regs'
    rcases translates_target first read hrule hwords h64
        hregs with ⟨hdeclines, ht⟩ | ⟨hdeclines, lr, cfa, fp, heval, hup, ht⟩
    · have hexec : exec rule first regs read ≠ (.ok (some ra), regs') := exec_ne_of_target ht
      tauto
    · rw [exec_some_iff ht]
      simp only [heval.generic_iff]
      have hsame : cfa = regs.sp ↔ cfa ≤ regs.sp := by omega
      rw [hsame]
      constructor
      · rintro ⟨hra, h0, hmoved, hregs'⟩
        exact ⟨⟨lr, ⟨rfl, hmoved, hregs'⟩, hra⟩, h0, hdeclines⟩
      · rintro ⟨⟨lr', ⟨rfl, hmoved, hregs'⟩, hra⟩, h0, -⟩
        exact ⟨hra, h0, hmoved, hregs'⟩

/-- A frame of 32 bytes with its record at the bottom. -/
def recordRow : UnwindTableRow where
  cfa := .registerAndOffset 31 32
  register
    | 29 => some (.offset (-32))
    | 30 => some (.offset (-24))
    | _ => none

theorem recordRow_stored {o : Int}
    (h : recordRow.register 29 = some (.offset o) ∨ recordRow.register 30 = some (.offset o)) :
    o = -32 ∨ o = -24 := by
  rcases h with h | h
  · cases h
    exact .inl rfl
  · cases h
    exact .inr rfl

theorem recordRow_words : WordOffsets recordRow :=
  wordOffsets_sp (show recordRow.cfa = .registerAndOffset 31 32 from rfl) (by decide)
    (fun h => by rcases recordRow_stored (.inl h) with rfl | rfl <;> decide)
    (fun h => by rcases recordRow_stored (.inr h) with rfl | rfl <;> decide)

theorem aarch64_row_rule_exact_iff_record : rowRule recordRow false = some (.offsetSpAndRestoreFpAndLr 2 0 1) ∧
    ∀ first regs read, InRange (.offsetSpAndRestoreFpAndLr 2 0 1) regs →
      ∀ ra regs', exec (.offsetSpAndRestoreFpAndLr 2 0 1) first regs read = (.ok (some ra), regs') ↔
        (∃ lr, unwindFrameGeneric (keepOmitted recordRow) regs first read = .ok (.uncacheable lr, regs') ∧
          regs.lrMask.stripPtrAuth lr = ra) ∧ ra ≠ 0 ∧ ¬ Declines (.offsetSpAndRestoreFpAndLr 2 0 1) first regs read :=
  ⟨rfl, (aarch64_row_rule_exact_iff (show rowRule recordRow false = _ from rfl)
    (fun o ho => by rcases recordRow_stored ho with rfl | rfl <;> decide)).mpr recordRow_words⟩

end FramehopUnwind.Unwinder.Aarch64
