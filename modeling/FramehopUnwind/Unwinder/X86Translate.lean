/-
  FramehopUnwind.Unwinder.X86Translate — what the translation of a DWARF row preserves
  (`translate_into_unwind_rule` and the generic path in vendor/framehop/src/x86_64/dwarf.rs).

  A row is unwound by the rule it translates to, which the cache keeps, or evaluated as it is. The
  two are meant to agree: here the generic path is the row's meaning, and executing the rule is
  held against it.

  A rule counts in words of 8 bytes and drops the rest of a row's offset (`WordOffsets` rows have
  none). It refuses some frames that the generic path goes on from: `Declines`. A null return
  address ends the stack for a rule only.

  Proved:
  - `rowRule_cases`: which rows have a rule.
  - `x86_row_rule_exact_iff`: a rule yields a caller exactly where its row evaluates to that caller and
    the rule does not decline, on all registers and stacks, if and only if the row ends the stack or
    its offsets are whole words.
-/

import FramehopUnwind.Unwinder.X86

namespace FramehopUnwind.Unwinder.X86

open Lib.Word

theorem registerRuleToCfaOffset_none {r : Option RegisterRule} (h : registerRuleToCfaOffset r = .ok none) : Kept r := by
  unfold registerRuleToCfaOffset at h
  unfold Kept
  split at h <;> simp_all

theorem registerRuleToCfaOffset_some {r : Option RegisterRule} {o : Int}
    (h : registerRuleToCfaOffset r = .ok (some o)) :
    r = some (.offset o) := by
  unfold registerRuleToCfaOffset at h
  split at h <;> simp_all

/-- The row is the rule's source: its return address is below the CFA, and its CFA and frame pointer
    are the rule's. -/
inductive Translates (row : UnwindTableRow) : UnwindRule → Prop where
  | offsetSp {offset : Int} {n : Nat} (cfa : row.cfa = .registerAndOffset 7 offset)
      (fits : toU16 (offset.tdiv 8) = some n)
    (bp : Kept (row.register 6)) : Translates row (.offsetSp n)
  | offsetSpAndRestoreBp {offset o k : Int} {n : Nat} (cfa : row.cfa = .registerAndOffset 7 offset)
    (fits : toU16 (offset.tdiv 8) = some n) (bp : row.register 6 = some (.offset o))
    (storage : toI16 ((wrappingAddSigned offset o).tdiv 8) = some k) : Translates row (.offsetSpAndRestoreBp n k)
  | useFramePointer (cfa : row.cfa = .registerAndOffset 6 16) (bp : row.register 6 = some (.offset (-16))) :
    Translates row .useFramePointer

theorem rowRule_cases {row : UnwindTableRow} {rule : UnwindRule} (h : rowRule row false = some rule) :
    (rule = .endOfStack ∧ (row.register 16 = none ∨ row.register 16 = some .undefined)) ∨
      (row.register 16 = some (.offset (-8)) ∧ Translates row rule) := by
  unfold rowRule translateIntoUnwindRule at h
  simp only [Bool.false_eq_true, if_false] at h
  split at h
  case h_1 hra => exact .inl ⟨(Option.some.inj h).symm, .inl hra⟩
  case h_2 hra => exact .inl ⟨(Option.some.inj h).symm, .inr hra⟩
  case h_4 => cases h
  case h_3 o hra =>
    split at h
    case isFalse => cases h
    case isTrue ho =>
      subst ho
      refine .inr ⟨hra, ?_⟩
      split at h
      case h_1 offset hcfa =>
        split at h
        case h_1 => cases h
        case h_2 n hn =>
          split at h
          case h_1 => cases h
          case h_2 hbp =>
            cases h
            exact .offsetSp hcfa hn (registerRuleToCfaOffset_none hbp)
          case h_3 o hbp =>
            obtain ⟨k, hk, rfl⟩ := Option.map_eq_some_iff.mp h
            exact .offsetSpAndRestoreBp hcfa hn (registerRuleToCfaOffset_some hbp) hk
      case h_2 offset hcfa =>
        split at h
        case h_2 => cases h
        case h_1 o hbp =>
          split at h
          case isFalse => cases h
          case isTrue ho =>
            obtain ⟨rfl, rfl⟩ := ho
            cases h
            exact .useFramePointer hcfa (registerRuleToCfaOffset_some hbp)
      case h_3 => cases h

/-! ## The two ways to unwind -/

variable {row : UnwindTableRow} {rule : UnwindRule} {regs regs' : UnwindRegs} {read : ReadStack} {first : Bool}
  {ra cfa : Nat}

/-- The frame pointer of the generic path. -/
def newBp (row : UnwindTableRow) (regs : UnwindRegs) (read : ReadStack) (cfa : Nat) : Nat :=
  (evalRegisterRule regs.dwarfGet read cfa regs.bp (row.register 6)).getD regs.bp

theorem generic_some_iff (hra : row.register 16 = some (.offset (-8)))
    (hcfa : evalCfaRule regs.dwarfGet read row.cfa = some cfa) (h8 : 8 ≤ cfa) (hlt : cfa < 2 ^ 63) :
    unwindFrameGeneric row regs first false read = .ok (.uncacheable ra, regs') ↔
      read (wrappingSub cfa 8) = some ra ∧ ¬ (cfa = regs.sp ∧ ra = regs.ip) ∧ ¬ (first = false ∧ cfa < regs.sp) ∧
        regs' = ((regs.setIp ra).set .rsp cfa).set .rbp (newBp row regs read cfa) := by
  have hsub : wrappingSub cfa 8 = cfa - 8 := by
    unfold wrappingSub
    omega
  have hbelow : addOffset cfa (-8) = some (cfa - 8) := by
    have hloc : ((cfa : Int) + -8).toNat = cfa - 8 := by omega
    unfold addOffset
    rw [if_pos (by omega), hloc]
  have heval : evalRegisterRule regs.dwarfGet read cfa regs.ip (row.register 16) = read (cfa - 8) := by
    rw [hra]
    simp [evalRegisterRule, hbelow]
  unfold unwindFrameGeneric newBp
  simp only [hcfa, heval, hsub]
  cases hread : read (cfa - 8) with
  | none => simp
  | some ra' =>
    simp only [Bool.false_eq_true, if_false, true_and]
    constructor
    · intro h
      split_ifs at h with hmoved hback
      cases h
      exact ⟨rfl, hmoved, hback, set_comm _ (by decide) _ _⟩
    · rintro ⟨hra', hmoved, hback, rfl⟩
      cases hra'
      rw [if_neg hmoved, if_neg hback, set_comm _ (by decide : Reg.rsp ≠ Reg.rbp)]

/-- Where the rule's target is the row's CFA and frame pointer, the two agree. -/
theorem exec_iff_generic (hra : row.register 16 = some (.offset (-8)))
    (hcfa : evalCfaRule regs.dwarfGet read row.cfa = some cfa) (h8 : 8 ≤ cfa) (hlt : cfa < 2 ^ 63) (hup : regs.sp ≤ cfa)
    (ht : target rule first regs read = .ok (some (cfa, newBp row regs read cfa))) :
    exec rule first regs read = (.ok (some ra), regs') ↔
      unwindFrameGeneric row regs first false read = .ok (.uncacheable ra, regs') ∧ ra ≠ 0 := by
  rw [exec_of_target ht, finish_some_iff, generic_some_iff hra hcfa h8 hlt]
  have hback : ¬ (first = false ∧ cfa < regs.sp) := by omega
  tauto

theorem exec_ne_of_target (hrule : Translates row rule) (ht : ∀ t, target rule first regs read ≠ .ok (some t)) :
    exec rule first regs read ≠ (.ok (some ra), regs') := by
  intro h
  cases htarget : target rule first regs read with
  | error e => cases hrule <;> simp [exec, htarget] at h
  | ok t =>
    cases t with
    | none => cases hrule <;> simp [exec, htarget] at h
    | some t => exact ht t htarget

/-! ## When they agree -/

/-- Frames in which the rule fails or ends the stack, whatever its row evaluates to. -/
def Declines (rule : UnwindRule) (first : Bool) (regs : UnwindRegs) (read : ReadStack) : Prop :=
  match rule with
  | .endOfStack => True
  | .offsetSpAndRestoreBp _ k => read (regs.sp + k * 8).toNat = none ∧ ¬ (first = true ∧ k < 0)
  | .useFramePointer => regs.bp = 0 ∨ regs.bp + 16 ≤ regs.sp ∨ read regs.bp = none
  | _ => False

/-- The register that a rule goes by is in a user address space, with room for any rule's offsets. -/
def InRange (rule : UnwindRule) (regs : UnwindRegs) : Prop :=
  match rule with
  | .useFramePointer => regs.bp + 16 < 2 ^ 63
  | _ => 2 ^ 20 ≤ regs.sp ∧ regs.sp + 2 ^ 20 ≤ 2 ^ 63

/-- The offsets of a row by the stack pointer are in words. -/
def WordOffsets (row : UnwindTableRow) : Prop :=
  ∀ offset, row.cfa = .registerAndOffset 7 offset → 8 ∣ offset ∧ ∀ o, row.register 6 = some (.offset o) → 8 ∣ o

theorem evalCfa_sp {offset : Int} (h : row.cfa = .registerAndOffset 7 offset) (hv : regs.sp < 2 ^ 63)
    (h0 : 0 ≤ regs.sp + offset) (h1 : regs.sp + offset < 2 ^ 63) :
    evalCfaRule regs.dwarfGet read row.cfa = some (regs.sp + offset).toNat := by
  rw [h]
  exact addOffset_of_range regs.sp offset hv h0 h1

theorem newBp_kept (h : Kept (row.register 6)) : newBp row regs read cfa = regs.bp := by
  unfold newBp
  rcases h with h | h | h <;> rw [h] <;> rfl

theorem newBp_offset {o : Int} (h : row.register 6 = some (.offset o)) (hcfa : cfa < 2 ^ 63) (h0 : 0 ≤ cfa + o)
    (h1 : cfa + o < 2 ^ 63) : newBp row regs read cfa = (read (cfa + o).toNat).getD regs.bp := by
  unfold newBp
  rw [h]
  simp only [evalRegisterRule, addOffset_of_range _ _ hcfa h0 h1, Option.bind_some]

theorem target_restoreBp_none {n newSp loc : Nat} {k : Int} (hsp : checkedAdd regs.sp (n * 8) = some newSp)
    (hloc : checkedAddSigned regs.sp (k * 8) = some loc) (hbp : read loc = none) :
    target (.offsetSpAndRestoreBp n k) first regs read =
      if first = true ∧ loc < regs.sp then .ok (some (newSp, regs.bp)) else .error (.couldNotReadStack loc) := by
  simp only [target, hsp, hloc, okOr, bind, Except.bind, hbp]
  rfl

/-- A row in words: its CFA, and the rule's target there unless the rule declines. -/
theorem translates_target (first : Bool) (read : ReadStack) (hrule : Translates row rule) (hwords : WordOffsets row)
    (hi64 : ∀ o, row.register 6 = some (.offset o) → -2 ^ 63 ≤ o ∧ o < 2 ^ 63) (hregs : InRange rule regs) :
    ∃ cfa, evalCfaRule regs.dwarfGet read row.cfa = some cfa ∧ 8 ≤ cfa ∧ cfa < 2 ^ 63 ∧
      ((Declines rule first regs read ∧ ∀ t, target rule first regs read ≠ .ok (some t)) ∨
        (¬ Declines rule first regs read ∧ regs.sp ≤ cfa ∧
          target rule first regs read = .ok (some (cfa, newBp row regs read cfa)))) := by
  cases hrule with
  | @offsetSp offset n hcfa hn hkept =>
    obtain ⟨hlow, hsp⟩ := hregs
    obtain ⟨h8, -⟩ := hwords offset hcfa
    obtain ⟨h0, h1, hlt⟩ := toU16_tdiv (by decide) hn
    have hoff : offset = 8 * n := by omega
    refine ⟨_, evalCfa_sp hcfa (by omega) (by omega) (by omega), by omega, by omega, .inr ⟨id, by omega, ?_⟩⟩
    rw [newBp_kept hkept]
    exact target_offsetSp first (checkedAdd_eq_some.mpr ⟨by omega, by omega⟩)
  | @offsetSpAndRestoreBp offset o k n hcfa hn hslot hk =>
    obtain ⟨hlow, hsp⟩ := hregs
    obtain ⟨h8, ho8⟩ := hwords offset hcfa
    obtain ⟨h0, h1, hlt⟩ := toU16_tdiv (by decide) hn
    obtain ⟨hk, hk0, hk1, hs0, hs1⟩ := toI16_tdiv (by omega) (by omega) (hi64 o hslot) hk
    have hoff : offset = 8 * n := by omega
    have hstore : k * 8 = offset + o := by
      rw [hk]
      exact Int.tdiv_mul_cancel (Int.dvd_add h8 (ho8 o hslot))
    have hadd : checkedAdd regs.sp (n * 8) = some ((regs.sp : Int) + offset).toNat :=
      checkedAdd_eq_some.mpr ⟨by omega, by omega⟩
    have hloc : checkedAddSigned regs.sp (k * 8) = some (regs.sp + k * 8).toNat :=
      checkedAddSigned_eq_some.mpr ⟨by omega, by omega⟩
    refine ⟨_, evalCfa_sp hcfa (by omega) (by omega) (by omega), by omega, by omega, ?_⟩
    rw [newBp_offset hslot (by omega) (by omega) (by omega)]
    have hsame : ((((regs.sp : Int) + offset).toNat : Int) + o).toNat = (regs.sp + k * 8).toNat := by omega
    rw [hsame]
    cases hread : read (regs.sp + k * 8).toNat with
    | some v => exact .inr ⟨by simp [Declines, hread], by omega, target_restoreBp first hadd hloc hread⟩
    | none =>
      rw [target_restoreBp_none hadd hloc hread]
      have hbelow : (regs.sp + k * 8).toNat < regs.sp ↔ k < 0 := by omega
      by_cases hfirst : first = true ∧ k < 0
      · refine .inr ⟨by simp [Declines, hread, hfirst], by omega, ?_⟩
        rw [if_pos ⟨hfirst.1, hbelow.mpr hfirst.2⟩]
        rfl
      · refine .inl ⟨⟨hread, hfirst⟩, ?_⟩
        rw [if_neg (by rw [hbelow]; exact hfirst)]
        simp
  | useFramePointer hcfa hslot =>
    have hbp : regs.bp + 16 < 2 ^ 63 := hregs
    have heval : evalCfaRule regs.dwarfGet read row.cfa = some (regs.bp + 16) := by
      rw [hcfa]
      exact addOffset_of_range regs.bp 16 (by omega) (by omega) (by omega)
    refine ⟨_, heval, by omega, by omega, ?_⟩
    rw [newBp_offset hslot (by omega) (by omega) (by omega)]
    have hsame : (((regs.bp + 16 : Nat) : Int) + -16).toNat = regs.bp := by omega
    rw [hsame]
    have hadd : checkedAdd regs.bp 16 = some (regs.bp + 16) := checkedAdd_eq_some.mpr ⟨by omega, rfl⟩
    simp only [target, framePointerTarget, Declines, hadd, okOr, readOr, bind, Except.bind, pure, Except.pure, throw,
      throwThe, MonadExceptOf.throw]
    by_cases hzero : regs.bp = 0
    · exact .inl ⟨.inl hzero, by simp [hzero]⟩
    by_cases hback : regs.bp + 16 ≤ regs.sp
    · exact .inl ⟨.inr (.inl hback), by simp [hzero, hback]⟩
    cases hread : read regs.bp with
    | none => exact .inl ⟨.inr (.inr rfl), by simp [hzero, hback]⟩
    | some v => exact .inr ⟨by simp [hzero, hback], by omega, by simp [hzero, hback]⟩

/-- A word of its own at every address. -/
def distinctWords : ReadStack := fun a => some (a + 1)

def sampleRegs : UnwindRegs := .new 0 (2 ^ 20) (2 ^ 20)

theorem sampleRegs_inRange (rule : UnwindRule) : InRange rule sampleRegs := by
  have hsp : sampleRegs.sp = 2 ^ 20 := rfl
  have hbp : sampleRegs.bp = 2 ^ 20 := rfl
  unfold InRange
  split <;> omega

/-- If a rule and its row agree on a stack of distinct words, the rule's target is the row's. -/
theorem target_of_agree (hra : row.register 16 = some (.offset (-8))) {newSp bp : Nat}
    (ht : target rule true sampleRegs distinctWords = .ok (some (newSp, bp)))
    (hcfa : evalCfaRule sampleRegs.dwarfGet distinctWords row.cfa = some cfa) (h8 : 8 ≤ cfa) (hlt : cfa < 2 ^ 63)
    (h : ∀ ra regs', exec rule true sampleRegs distinctWords = (.ok (some ra), regs') →
      unwindFrameGeneric row sampleRegs true false distinctWords = .ok (.uncacheable ra, regs')) :
    newSp = cfa ∧ bp = newBp row sampleRegs distinctWords cfa := by
  have hyields : finish sampleRegs.sp newSp bp sampleRegs distinctWords = (.ok (some (wrappingSub newSp 8 + 1)),
      ((sampleRegs.setIp (wrappingSub newSp 8 + 1)).set .rsp newSp).set .rbp bp) := by
    apply finish_some_iff.mpr
    refine ⟨rfl, Nat.succ_ne_zero _, ?_, rfl⟩
    intro hsame
    exact Nat.succ_ne_zero _ hsame.2
  obtain ⟨-, -, -, hregs⟩ := (generic_some_iff hra hcfa h8 hlt).mp (h _ _ ((exec_of_target ht).trans hyields))
  have hsp := congrArg UnwindRegs.sp hregs
  have hbp := congrArg UnwindRegs.bp hregs
  simp only [set_rbp_sp, set_sp] at hsp
  simp only [set_bp] at hbp
  exact ⟨hsp, hbp⟩

/-- Executing a row's rule yields a caller exactly where the row evaluates to that caller, its
    return address is not null and the rule does not decline, on all registers in range and all
    stacks, for the first frame or a later one, if and only if the row ends the stack, where the rule
    declines, or its offsets from the stack pointer are whole words. -/
theorem x86_row_rule_exact_iff (h : rowRule row false = some rule)
    (hi64 : ∀ o, row.register 6 = some (.offset o) → -2 ^ 63 ≤ o ∧ o < 2 ^ 63) :
    (∀ first regs read, InRange rule regs → ∀ ra regs', exec rule first regs read = (.ok (some ra), regs') ↔
      unwindFrameGeneric row regs first false read = .ok (.uncacheable ra, regs') ∧ ra ≠ 0 ∧
        ¬ Declines rule first regs read) ↔ rule = .endOfStack ∨ WordOffsets row := by
  rcases rowRule_cases h with ⟨rfl, -⟩ | ⟨hra, hrule⟩
  · refine iff_of_true ?_ (.inl rfl)
    intro first regs read _ ra regs'
    exact iff_of_false nofun fun hrow => hrow.2.2 trivial
  have hne : rule ≠ .endOfStack := by cases hrule <;> exact nofun
  rw [or_iff_right hne]
  constructor
  · -- one stack with a word of its own at every address tells all offsets apart
    intro hall
    have hagree : ∀ ra regs', exec rule true sampleRegs distinctWords = (.ok (some ra), regs') →
        unwindFrameGeneric row sampleRegs true false distinctWords = .ok (.uncacheable ra, regs') := by
      intro ra regs' hexec
      exact ((hall true sampleRegs distinctWords (sampleRegs_inRange rule) ra regs').mp hexec).1
    have hsample : sampleRegs.sp = 2 ^ 20 := rfl
    have hsampleBp : sampleRegs.bp = 2 ^ 20 := rfl
    intro offset' hcfa'
    cases hrule with
    | useFramePointer hcfa hslot =>
      rw [hcfa] at hcfa'
      cases hcfa'
    | @offsetSp offset n hcfa hn hkept =>
      cases hcfa.symm.trans hcfa'
      obtain ⟨h0, h1, hlt⟩ := toU16_tdiv (by decide) hn
      have ht : target (.offsetSp n) true sampleRegs distinctWords =
          .ok (some (sampleRegs.sp + n * 8, sampleRegs.bp)) :=
        target_offsetSp true (checkedAdd_eq_some.mpr ⟨by omega, rfl⟩)
      obtain ⟨hsp, -⟩ := target_of_agree hra ht
        (evalCfa_sp hcfa (by omega) (by omega) (by omega)) (by omega) (by omega) hagree
      refine ⟨by omega, ?_⟩
      intro o ho
      rcases hkept with hk | hk | hk <;> rw [hk] at ho <;> cases ho
    | @offsetSpAndRestoreBp offset o k n hcfa hn hslot hk =>
      cases hcfa.symm.trans hcfa'
      obtain ⟨h0, h1, hlt⟩ := toU16_tdiv (by decide) hn
      obtain ⟨hkd, hk0, hk1, hs0, hs1⟩ := toI16_tdiv (by omega) (by omega) (hi64 o hslot) hk
      have hloc : checkedAddSigned sampleRegs.sp (k * 8) = some (sampleRegs.sp + k * 8).toNat :=
        checkedAddSigned_eq_some.mpr ⟨by omega, by omega⟩
      have hadd : checkedAdd sampleRegs.sp (n * 8) = some (sampleRegs.sp + n * 8) :=
        checkedAdd_eq_some.mpr ⟨by omega, rfl⟩
      have ht := target_restoreBp true hadd hloc (rfl : distinctWords (sampleRegs.sp + k * 8).toNat = _)
      obtain ⟨hsp, hbp⟩ := target_of_agree hra ht
        (evalCfa_sp hcfa (by omega) (by omega) (by omega)) (by omega) (by omega) hagree
      rw [newBp_offset hslot (by omega) (by omega) (by omega)] at hbp
      simp only [distinctWords, Option.getD_some] at hbp
      refine ⟨by omega, ?_⟩
      intro o' ho'
      cases hslot.symm.trans ho'
      omega
  · intro hwords first regs read hregs ra regs'
    obtain ⟨cfa, hcfa, h8, hlt, hcase⟩ := translates_target first read hrule hwords hi64 hregs
    rcases hcase with ⟨hdeclines, ht⟩ | ⟨hdeclines, hup, ht⟩
    · have hexec : exec rule first regs read ≠ (.ok (some ra), regs') := exec_ne_of_target hrule ht
      tauto
    · rw [exec_iff_generic hra hcfa h8 hlt hup ht]
      tauto

/-- Behind `push rbp`. -/
def pushedBpRow : UnwindTableRow where
  cfa := .registerAndOffset 7 16
  register
    | 16 => some (.offset (-8))
    | 6 => some (.offset (-16))
    | _ => none

theorem pushedBpRow_bp {o : Int} (h : pushedBpRow.register 6 = some (.offset o)) : o = -16 := by
  cases h
  rfl

theorem pushedBpRow_words : WordOffsets pushedBpRow := by
  intro offset h
  cases h
  refine ⟨by decide, ?_⟩
  intro o ho
  rw [pushedBpRow_bp ho]
  decide

theorem x86_row_rule_exact_iff_pushedBp : rowRule pushedBpRow false = some (.offsetSpAndRestoreBp 2 0) ∧
    ∀ first regs read, InRange (.offsetSpAndRestoreBp 2 0) regs → ∀ ra regs',
      exec (.offsetSpAndRestoreBp 2 0) first regs read = (.ok (some ra), regs') ↔
        unwindFrameGeneric pushedBpRow regs first false read = .ok (.uncacheable ra, regs') ∧ ra ≠ 0 ∧
          ¬ Declines (.offsetSpAndRestoreBp 2 0) first regs read :=
  ⟨rfl, (x86_row_rule_exact_iff (show rowRule pushedBpRow false = _ from rfl)
    (fun o ho => by rw [pushedBpRow_bp ho]; decide)).mpr (.inr pushedBpRow_words)⟩

end FramehopUnwind.Unwinder.X86
