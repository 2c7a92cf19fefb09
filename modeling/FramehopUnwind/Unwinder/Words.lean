/-
  FramehopUnwind.Unwinder.Words — every value an unwind computes is a 64-bit word.

  The model's registers are numbers; the source's are `u64`s. If the context, the stack and what
  gimli and the PE parser compute are words (`Crates.Words`: their addresses and registers are
  `u64`s too), so is every register and every return address an unwind yields, on both
  architectures.

  Proved:
  - `evalExpr_words`, `evalCfaRule_words`, `evalRegisterRule_words`: what a row evaluates to.
  - `X86.exec_words`, `X86.unwindFrame_words`, and the same for `Aarch64`.
  - `X86.Pe.plain_words`: the work of a PE image.
  - `planAll_words`: a row of the tables is gimli's.
-/

import FramehopUnwind.Unwinder.Plan

namespace FramehopUnwind.Unwinder

open Lib.Word

/-! ## Rows -/

/-- The reader gives words. -/
def ReadStack.Words (read : ReadStack) : Prop := ∀ a v, read a = some v → v < 2 ^ 64

/-- The evaluation asks for words of memory at words, and completes at one. -/
def Eval.Words : Eval → Prop
  | .error => True
  | .complete address => ∀ a ∈ address, a < 2 ^ 64
  | .requiresRegister _ resume => ∀ v < 2 ^ 64, (resume v).Words
  | .requiresMemory address _ _ resume => address < 2 ^ 64 ∧ ∀ v < 2 ^ 64, (resume v).Words
  | .requiresOther => True

def CfaRule.Words : CfaRule → Prop
  | .registerAndOffset _ _ => True
  | .expression e => e.Words

def RegisterRule.Words : RegisterRule → Prop
  | .expression e => e.Words
  | .valExpression e => e.Words
  | _ => True

def UnwindTableRow.Words (row : UnwindTableRow) : Prop := row.cfa.Words ∧ ∀ r, ∀ rule ∈ row.register r, rule.Words

/-- gimli's addresses are `u64`s. -/
def Gimli.Words (G : Gimli) : Prop :=
  ∀ ty bytes bases offset a row, G.unwindInfoForAddress ty bytes bases offset a = some row → row.Words

section Rows

variable {get : Nat → Option Nat} {read : ReadStack} {v : Nat}

theorem addOffset_words {a : Nat} {offset : Int} (h : addOffset a offset = some v) : v < 2 ^ 64 := by
  unfold addOffset at h
  split at h
  · cases h
    omega
  · cases h

theorem checkedAdd_words {a b : Nat} (h : checkedAdd a b = some v) : v < 2 ^ 64 := by
  obtain ⟨hlt, rfl⟩ := checkedAdd_eq_some.mp h
  exact hlt

theorem evalExpr_words (hget : ∀ r v, get r = some v → v < 2 ^ 64) (hread : read.Words) {e : Eval} (he : e.Words)
    (h : evalExpr get read e = some v) : v < 2 ^ 64 := by
  induction e with
  | error => cases h
  | complete address => exact he v h
  | requiresRegister register resume ih =>
    unfold evalExpr at h
    split at h
    · cases h
    · rename_i w hw
      exact ih w (he w (hget register w hw)) h
  | requiresMemory address size space resume ih =>
    unfold evalExpr at h
    split at h
    · split at h
      · cases h
      · rename_i w hw
        exact ih w (he.2 w (hread address w hw)) h
    · cases h
  | requiresOther => cases h

theorem evalCfaRule_words (hget : ∀ r v, get r = some v → v < 2 ^ 64) (hread : read.Words) {rule : CfaRule}
    (hr : rule.Words) (h : evalCfaRule get read rule = some v) : v < 2 ^ 64 := by
  cases rule with
  | registerAndOffset register offset =>
    obtain ⟨w, -, hw⟩ := Option.bind_eq_some_iff.mp h
    exact addOffset_words hw
  | expression e => exact evalExpr_words hget hread hr h

theorem evalRegisterRule_words (hget : ∀ r v, get r = some v → v < 2 ^ 64) (hread : read.Words) {cfa val : Nat}
    (hval : val < 2 ^ 64) {rule : Option RegisterRule} (hr : ∀ r ∈ rule, r.Words)
    (h : evalRegisterRule get read cfa val rule = some v) : v < 2 ^ 64 := by
  cases rule with
  | none => cases h
  | some rule =>
    cases rule with
    | undefined => cases h
    | sameValue =>
      cases h
      exact hval
    | offset offset =>
      obtain ⟨w, -, hw⟩ := Option.bind_eq_some_iff.mp h
      exact hread w v hw
    | valOffset offset => exact addOffset_words h
    | register register => exact hget register v h
    | expression e =>
      obtain ⟨w, -, hw⟩ := Option.bind_eq_some_iff.mp h
      exact hread w v hw
    | valExpression e => exact evalExpr_words hget hread (hr _ rfl) h
    | architectural => cases h
    | other => cases h

end Rows

/-- The address an unwind result carries, if it carries one, is a word. -/
def UnwindResult.Words {R : Type} : UnwindResult R → Prop
  | .execRule _ => True
  | .uncacheable a => a < 2 ^ 64
  | .interrupted a => a < 2 ^ 64

/-! ## x86-64 -/

namespace X86

variable {read : ReadStack} {regs : UnwindRegs}

def UnwindRegs.Words (regs : UnwindRegs) : Prop := regs.ip < 2 ^ 64 ∧ ∀ reg, regs.regs reg < 2 ^ 64

theorem set_words (h : regs.Words) (reg : Reg) {v : Nat} (hv : v < 2 ^ 64) : (regs.set reg v).Words := by
  refine ⟨h.1, ?_⟩
  intro reg'
  by_cases heq : reg' = reg
  · subst heq
    simpa [UnwindRegs.set] using hv
  · simpa [UnwindRegs.set, Function.update_of_ne heq] using h.2 reg'

theorem setIp_words (h : regs.Words) {v : Nat} (hv : v < 2 ^ 64) : (regs.setIp v).Words := ⟨hv, h.2⟩

theorem dwarfGet_words (h : regs.Words) (r v : Nat) (hr : regs.dwarfGet r = some v) : v < 2 ^ 64 := by
  unfold UnwindRegs.dwarfGet at hr
  split at hr
  · cases hr
    exact h.1
  · cases hr
    exact h.2 _
  · cases hr
    exact h.2 _
  · cases hr

theorem popRegisters_words (hread : read.Words) (rest : List Reg) (sp : Nat) (h : regs.Words) :
    (popRegisters read rest sp regs).2.Words := by
  induction rest generalizing sp regs with
  | nil => exact h
  | cons reg rest ih =>
    unfold popRegisters
    cases hv : read sp with
    | none => exact h
    | some v =>
      dsimp only
      cases checkedAdd sp 8 with
      | none => exact h
      | some sp' => exact ih sp' (set_words h reg (hread sp v hv))

theorem framePointerTarget_words (hread : read.Words) {newSp newBp : Nat}
    (ht : framePointerTarget regs read = .ok (some (newSp, newBp))) : newSp < 2 ^ 64 ∧ newBp < 2 ^ 64 := by
  obtain ⟨sp, hsp, ht⟩ := bind_ok ht
  dsimp only at ht
  split at ht
  · cases ht
  · obtain ⟨bp, hbp, ht⟩ := bind_ok ht
    cases ht
    exact ⟨checkedAdd_words (okOr_ok hsp), hread _ _ (okOr_ok hbp)⟩

theorem target_words (hread : read.Words) (h : regs.Words) {rule : UnwindRule} {first : Bool} {newSp newBp : Nat}
    (ht : target rule first regs read = .ok (some (newSp, newBp))) : newSp < 2 ^ 64 ∧ newBp < 2 ^ 64 := by
  have add_words : ∀ b, (do let newSp ← okOr .integerOverflow (checkedAdd regs.sp b); return some (newSp, regs.bp)) =
      (.ok (some (newSp, newBp)) : Except Error (Option (Nat × Nat))) → newSp < 2 ^ 64 ∧ newBp < 2 ^ 64 := by
    intro b ht
    obtain ⟨sp, hsp, ht⟩ := bind_ok ht
    cases ht
    exact ⟨checkedAdd_words (okOr_ok hsp), h.2 _⟩
  cases rule with
  | endOfStack => cases ht
  | justReturn => exact add_words _ ht
  | justReturnIfFirstFrameOtherwiseFp =>
    cases first with
    | true => exact add_words _ ht
    | false => exact framePointerTarget_words hread ht
  | offsetSp n => exact add_words _ ht
  | offsetSpAndRestoreBp n m =>
    obtain ⟨sp, hsp, ht⟩ := bind_ok ht
    obtain ⟨location, -, ht⟩ := bind_ok ht
    have hsp := checkedAdd_words (okOr_ok hsp)
    split at ht
    · rename_i bp hbp
      cases ht
      exact ⟨hsp, hread _ _ hbp⟩
    · split at ht
      · cases ht
        exact ⟨hsp, h.2 _⟩
      · cases ht
  | useFramePointer =>
    simp only [target] at ht
    split at ht
    · cases ht
    · exact framePointerTarget_words hread ht
  | offsetSpAndPopRegisters n c e => cases ht

theorem finish_words (hread : read.Words) (h : regs.Words) (sp : Nat) {newSp newBp : Nat} (hsp : newSp < 2 ^ 64)
    (hbp : newBp < 2 ^ 64) : (finish sp newSp newBp regs read).2.Words := by
  unfold finish
  dsimp only
  split
  · exact h
  · rename_i a ha
    split
    · exact h
    · split
      · exact h
      · exact set_words (set_words (setIp_words h (hread _ _ ha)) _ hsp) _ hbp

theorem exec_words (hread : read.Words) (h : regs.Words) (rule : UnwindRule) (first : Bool) :
    (exec rule first regs read).2.Words := by
  unfold exec
  split
  · rename_i n count ordering
    cases hs : checkedAdd regs.sp (n * 8) with
    | none => exact h
    | some sp =>
      have hpop := popRegisters_words hread (decode count ordering) sp h
      dsimp only
      generalize popRegisters read (decode count ordering) sp regs = popped at hpop
      obtain ⟨result, regs'⟩ := popped
      cases result with
      | error e => exact hpop
      | ok sp' =>
        dsimp only
        cases hs' : checkedAdd sp' 8 with
        | none => exact hpop
        | some newSp => exact finish_words hread hpop _ (checkedAdd_words hs') (hpop.2 _)
  · split
    · exact h
    · exact h
    · rename_i ht
      obtain ⟨hsp, hbp⟩ := target_words hread h ht
      exact finish_words hread h _ hsp hbp

theorem unwindFrame_words (hread : read.Words) (h : regs.Words) {row : UnwindTableRow} (hrow : row.Words)
    {first signal : Bool}
    {result : UnwindResult UnwindRule} {regs' : UnwindRegs}
    (hu : unwindFrame row regs first signal read = .ok (result, regs')) :
    regs'.Words ∧ result.Words := by
  unfold unwindFrame at hu
  split at hu
  · cases hu
    exact ⟨h, trivial⟩
  · unfold unwindFrameGeneric at hu
    split at hu
    · cases hu
    · rename_i cfa hcfa
      have hcfa := evalCfaRule_words (dwarfGet_words h) hread hrow.1 hcfa
      have hbp : (evalRegisterRule regs.dwarfGet read cfa regs.bp (row.register 6)).getD regs.bp < 2 ^ 64 := by
        cases hv : evalRegisterRule regs.dwarfGet read cfa regs.bp (row.register 6) with
        | none => exact h.2 _
        | some v => exact evalRegisterRule_words (dwarfGet_words h) hread (h.2 _) (hrow.2 6) hv
      dsimp only at hu
      split at hu
      · cases hu
      · rename_i ra hra
        have hra : ra < 2 ^ 64 := by
          split at hra
          · rename_i hv
            cases hra
            exact evalRegisterRule_words (dwarfGet_words h) hread h.1 (hrow.2 16) hv
          · exact hread _ _ hra
        split at hu
        · cases hu
        · split at hu
          · cases hu
          · cases hu
            refine ⟨set_words (set_words (setIp_words h hra) _ hbp) _ hcfa, ?_⟩
            cases signal <;> exact hra

end X86

/-! ## aarch64 -/

namespace Aarch64

variable {read : ReadStack} {regs : UnwindRegs}

structure UnwindRegs.Words (regs : UnwindRegs) : Prop where
  mask : regs.lrMask.bits < 2 ^ 64
  lr : regs.lr < 2 ^ 64
  sp : regs.sp < 2 ^ 64
  fp : regs.fp < 2 ^ 64

theorem stripPtrAuth_words (mask : PtrAuthMask) {lr : Nat} (h : lr < 2 ^ 64) : mask.stripPtrAuth lr < 2 ^ 64 :=
  lt_of_le_of_lt Nat.and_le_left h

theorem setLr_words (h : regs.Words) {v : Nat} (hv : v < 2 ^ 64) : (regs.setLr v).Words :=
  ⟨h.mask, stripPtrAuth_words _ hv, h.sp, h.fp⟩

theorem setSp_words (h : regs.Words) {v : Nat} (hv : v < 2 ^ 64) : (regs.setSp v).Words := ⟨h.mask, h.lr, hv, h.fp⟩

theorem setFp_words (h : regs.Words) {v : Nat} (hv : v < 2 ^ 64) : (regs.setFp v).Words := ⟨h.mask, h.lr, h.sp, hv⟩

theorem dwarfGet_words (h : regs.Words) (r v : Nat) (hr : regs.dwarfGet r = some v) : v < 2 ^ 64 := by
  unfold UnwindRegs.dwarfGet at hr
  split at hr
  · cases hr
    exact h.sp
  · cases hr
    exact h.fp
  · cases hr
    exact h.lr
  · cases hr

theorem readStored_words (hread : read.Words) {base v : Nat} {offset : Int}
    (h : readStored read base offset = .ok v) : v < 2 ^ 64 := by
  obtain ⟨location, -, h⟩ := bind_ok h
  exact hread _ _ (okOr_ok h)

theorem target_words (hread : read.Words) (h : regs.Words) {rule : UnwindRule} {first : Bool} {newLr newSp newFp : Nat}
    (ht : target rule first regs read = .ok (some (newLr, newSp, newFp))) :
    newLr < 2 ^ 64 ∧ newSp < 2 ^ 64 ∧ newFp < 2 ^ 64 := by
  have add_words :
      ∀ b, (do let newSp ← okOr .integerOverflow (checkedAdd regs.sp b); return some (regs.lr, newSp, regs.fp)) =
      (.ok (some (newLr, newSp, newFp)) : Except Error (Option (Nat × Nat × Nat))) →
      newLr < 2 ^ 64 ∧ newSp < 2 ^ 64 ∧ newFp < 2 ^ 64 := by
    intro b ht
    obtain ⟨sp, hsp, ht⟩ := bind_ok ht
    cases ht
    exact ⟨h.lr, checkedAdd_words (okOr_ok hsp), h.fp⟩
  cases rule with
  | noOp =>
    cases first with
    | true =>
      cases ht
      exact ⟨h.lr, h.sp, h.fp⟩
    | false => cases ht
  | noOpIfFirstFrameOtherwiseFp =>
    cases first with
    | true =>
      cases ht
      exact ⟨h.lr, h.sp, h.fp⟩
    | false =>
      obtain ⟨sp, hsp, ht⟩ := bind_ok ht
      obtain ⟨lr, hlr, ht⟩ := bind_ok ht
      obtain ⟨fp, hfp, ht⟩ := bind_ok ht
      dsimp only at ht
      split at ht
      · cases ht
      · cases ht
        exact ⟨hread _ _ (okOr_ok hlr), checkedAdd_words (okOr_ok hsp), hread _ _ (okOr_ok hfp)⟩
  | offsetSp n =>
    cases first with
    | true => exact add_words _ ht
    | false => cases ht
  | offsetSpIfFirstFrameOtherwiseStackEndsHere n =>
    cases first with
    | true => exact add_words _ ht
    | false => cases ht
  | offsetSpAndRestoreLr n lrOffset =>
    obtain ⟨sp, hsp, ht⟩ := bind_ok ht
    obtain ⟨lr, hlr, ht⟩ := bind_ok ht
    cases ht
    exact ⟨readStored_words hread hlr, checkedAdd_words (okOr_ok hsp), h.fp⟩
  | offsetSpAndRestoreFpAndLr n fpOffset lrOffset =>
    obtain ⟨sp, hsp, ht⟩ := bind_ok ht
    obtain ⟨lr, hlr, ht⟩ := bind_ok ht
    obtain ⟨fp, hfp, ht⟩ := bind_ok ht
    cases ht
    exact ⟨readStored_words hread hlr, checkedAdd_words (okOr_ok hsp), readStored_words hread hfp⟩
  | useFramePointer =>
    obtain ⟨sp, hsp, ht⟩ := bind_ok ht
    obtain ⟨lr, hlr, ht⟩ := bind_ok ht
    obtain ⟨fp, hfp, ht⟩ := bind_ok ht
    split at ht
    · cases ht
    · dsimp only at ht
      split at ht
      · cases ht
      · cases ht
        exact ⟨hread _ _ (okOr_ok hlr), checkedAdd_words (okOr_ok hsp), hread _ _ (okOr_ok hfp)⟩
  | useFramepointerWithOffsets n fpOffset lrOffset =>
    obtain ⟨sp, hsp, ht⟩ := bind_ok ht
    obtain ⟨lr, hlr, ht⟩ := bind_ok ht
    obtain ⟨fp, hfp, ht⟩ := bind_ok ht
    split at ht
    · cases ht
    · dsimp only at ht
      split at ht
      · cases ht
      · cases ht
        exact ⟨readStored_words hread hlr, checkedAdd_words (okOr_ok hsp), readStored_words hread hfp⟩

theorem exec_words (hread : read.Words) (h : regs.Words) (rule : UnwindRule) (first : Bool) :
    (exec rule first regs read).2.Words := by
  unfold exec
  split
  · exact h
  · exact h
  · rename_i ht
    obtain ⟨hlr, hsp, hfp⟩ := target_words hread h ht
    dsimp only
    split
    · exact h
    · split
      · exact h
      · exact setFp_words (setSp_words (setLr_words h hlr) hsp) hfp

/-- The address a rule gives is a word. -/
theorem exec_address_words (hread : read.Words) (h : regs.Words) {rule : UnwindRule} {first : Bool} {a : Nat}
    (ha : (exec rule first regs read).1 = .ok (some a)) : a < 2 ^ 64 := by
  unfold exec at ha
  split at ha
  · cases ha
  · cases ha
  · rename_i ht
    dsimp only at ha
    split at ha
    · cases ha
    · split at ha
      · cases ha
      · cases ha
        exact stripPtrAuth_words _ (target_words hread h ht).1

theorem unwindFrame_words (hread : read.Words) (h : regs.Words) {row : UnwindTableRow} (hrow : row.Words)
    {first signal : Bool}
    {result : UnwindResult UnwindRule} {regs' : UnwindRegs}
    (hu : unwindFrame row regs first signal read = .ok (result, regs')) :
    regs'.Words ∧ result.Words := by
  unfold unwindFrame at hu
  split at hu
  · cases hu
    exact ⟨h, trivial⟩
  · unfold unwindFrameGeneric at hu
    split at hu
    · cases hu
    · rename_i cfa hcfa
      have hcfa := evalCfaRule_words (dwarfGet_words h) hread hrow.1 hcfa
      have hfp : ∀ v, evalRegisterRule regs.dwarfGet read cfa regs.fp (row.register 29) = some v → v < 2 ^ 64 :=
        fun v hv => evalRegisterRule_words (dwarfGet_words h) hread h.fp (hrow.2 29) hv
      have hlr : ∀ v, evalRegisterRule regs.dwarfGet read cfa regs.lr (row.register 30) = some v → v < 2 ^ 64 :=
        fun v hv => evalRegisterRule_words (dwarfGet_words h) hread h.lr (hrow.2 30) hv
      have hwrite : ∀ fp lr, fp < 2 ^ 64 → lr < 2 ^ 64 → (((regs.setFp fp).setSp cfa).setLr lr).Words :=
        fun fp lr hfp hlr => setLr_words (setSp_words (setFp_words h hfp) hcfa) hlr
      dsimp only at hu
      split at hu
      · cases hu
        have hfp' : (evalRegisterRule regs.dwarfGet read cfa regs.fp (row.register 29)).getD regs.fp < 2 ^ 64 := by
          cases hv : evalRegisterRule regs.dwarfGet read cfa regs.fp (row.register 29) with
          | none => exact h.fp
          | some v => exact hfp v hv
        have hlr' : (evalRegisterRule regs.dwarfGet read cfa regs.lr (row.register 30)).getD regs.lr < 2 ^ 64 := by
          cases hv : evalRegisterRule regs.dwarfGet read cfa regs.lr (row.register 30) with
          | none => exact h.lr
          | some v => exact hlr v hv
        exact ⟨hwrite _ _ hfp' hlr', hlr'⟩
      · split at hu
        · cases hu
        · split at hu
          · cases hu
          · rename_i fp hv
            split at hu
            · cases hu
            · rename_i lr hv'
              cases hu
              exact ⟨hwrite _ _ (hfp _ hv) (hlr _ hv'), hlr _ hv'⟩

end Aarch64

/-! ## PE images -/

namespace X86.Pe

open Lib.Access

/-- The parser's addresses and registers are `u64`s. -/
def PeUnwindInfo.Words (U : PeUnwindInfo) : Prop :=
  ∀ info op (regs : UnwindRegs) (read : ReadStack), regs.Words → read.Words →
    ((U.resolveOperation info op regs).run read).2.Words ∧
    (∀ ra, ((U.resolveOperation info op regs).run read).1 = some (some ra) → ra < 2 ^ 64) ∧
    ∀ a ∈ (U.resolveOperation info op regs).reads read, a < 2 ^ 64

variable {U : PeUnwindInfo} {read : ReadStack} {regs : UnwindRegs}

theorem wrappingAdd_words (a b : Nat) : wrappingAdd a b < 2 ^ 64 := Nat.mod_lt _ (Nat.two_pow_pos 64)

/-- The registers, and the return address if there is one, are words. -/
def OutcomeWords (r : Except Failure Nat × UnwindRegs) : Prop := r.2.Words ∧ ∀ ra, r.1 = .ok ra → ra < 2 ^ 64

theorem popReturnAddress_words (hread : read.Words) (h : regs.Words) : OutcomeWords (popReturnAddress read regs) := by
  unfold popReturnAddress
  split
  · exact ⟨h, nofun⟩
  · rename_i ra hra
    refine ⟨set_words h _ (wrappingAdd_words _ _), ?_⟩
    intro a ha
    cases ha
    exact hread _ _ hra

theorem simulateEpilog_words (hread : read.Words) (frameRegister : Option Register)
    (rest : List FunctionEpilogInstruction)
    (h : regs.Words) : OutcomeWords (simulateEpilog frameRegister read rest regs) := by
  induction rest generalizing regs with
  | nil => exact popReturnAddress_words hread h
  | cons instruction rest ih =>
    cases instruction with
    | addSp offset => exact ih (set_words h _ (wrappingAdd_words _ _))
    | addSpFromFp offset =>
      cases frameRegister with
      | none => exact ⟨h, nofun⟩
      | some fp => exact ih (set_words h _ (wrappingAdd_words _ _))
    | pop reg =>
      unfold simulateEpilog
      split
      · exact ⟨h, nofun⟩
      · rename_i val hval
        exact ih (set_words (set_words h _ (hread _ _ hval)) _ (wrappingAdd_words _ _))

theorem resolveOperations_words (hU : U.Words) (hread : read.Words) (info : U.UnwindInfo) (rest : List UnwindOperation)
    (h : regs.Words) : OutcomeWords (resolveOperations U info read rest regs) := by
  induction rest generalizing regs with
  | nil => exact popReturnAddress_words hread h
  | cons op rest ih =>
    obtain ⟨hregs, hra, -⟩ := hU info op regs read h hread
    unfold resolveOperations
    generalize (U.resolveOperation info op regs).run read = r at hregs hra ⊢
    rcases r with ⟨_ | _ | ra, regs'⟩
    · refine ⟨hregs, ?_⟩
      intro ra hra
      cases hra
    · exact ih hregs
    · refine ⟨hregs, ?_⟩
      intro a ha
      cases ha
      exact hra ra rfl

theorem plain_words (hU : U.Words) (hread : read.Words) (h : regs.Words) (work : Work U) :
    OutcomeWords (work.plain read regs) := by
  cases work with
  | leaf => exact popReturnAddress_words hread h
  | epilog info instructions => exact simulateEpilog_words hread _ instructions h
  | undo info ops => exact resolveOperations_words hU hread info ops h

end X86.Pe

/-! ## Tables -/

structure Crates.Words (K : Crates) : Prop where
  gimli : K.gimli.Words
  pe : K.pe.Words

theorem unwindInfoForFde_words {G : Gimli} (hG : G.Words) {ty : UnwindSectionType} {bytes : Bytes}
    {bases : BaseAddresses} {svma fdeOffset : Nat} {row : UnwindTableRow} {signal : Bool}
    (h : (unwindInfoForFde G ty bytes bases svma fdeOffset).toOption = some (row, signal)) : row.Words := by
  unfold unwindInfoForFde at h
  split at h
  · cases h
  · split at h
    · cases h
    · rename_i hrow
      cases h
      exact hG _ _ _ _ _ _ hrow

/-- A row of the tables is gimli's. -/
theorem rowAt_words {A : Arch} {G : Gimli} {I : Compact.UnwindInfo} {F : Formats A} (hG : G.Words)
    {m : Module UnwindData}
    {rel : Nat} {first signal : Bool} {row : UnwindTableRow} (h : rowAt G I F m rel first = some (row, signal)) :
    row.Words := by
  unfold rowAt at h
  split at h
  · split at h
    · cases h
    · exact unwindInfoForFde_words hG h
  · split at h
    · exact unwindInfoForFde_words hG h
    · cases h
  · cases h

theorem planAll_words {A : Arch} {G : Gimli} {I : Compact.UnwindInfo} {F : Formats A} (hG : G.Words)
    {modules : Chunks UnwindData}
    {lookup : Nat} {first signal : Bool} {row : UnwindTableRow}
    (h : planAll G I F modules lookup first = .row row signal) :
    row.Words := by
  obtain ⟨m, rel, -, hrow, -⟩ := planAll_row h
  exact rowAt_words hG hrow

end FramehopUnwind.Unwinder
