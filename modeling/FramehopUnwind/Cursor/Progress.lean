/-
  FramehopUnwind.Cursor.Progress — whether a walk ends.

  A walk's state is the frame address, with its kind, and the registers. A rule leaves the stack
  pointer where it is or moves it up. On x86 one that leaves it has found its return address in the
  word below, and the next one that leaves it would find the same and fail; on arm64 only the first
  frame's does. So there is a rank that a rule raises (`Native.Rank`). What else a step can do need
  not raise it: a signal frame may lead anywhere, so may the row of a first frame, a row whose CFA is
  the stack pointer need not look below it, and the PE unwinder has no check at all. Such a step is
  `Safe` if it moves the stack pointer up.

  Proved:
  - `step_rises`: a safe step returns, and raises the rank unless it ends the walk.
  - `walk_progresses`: on a fixed stack a walk whose steps are all safe comes back to no state and
    ends.
  - `signal_frames_cycle`: two signal frames that save each other's registers (x86), and one that
    saves its own (Linux arm64).
-/

import FramehopUnwind.Cursor.Position
import FramehopUnwind.Unwinder.Words

namespace FramehopUnwind.Cursor

open Lib.Word Lib.Runs Unwinder
open State (Out Walk)

/-! ## The rank -/

/-- What the progress of a target's walks rests on: registers that are words and stay so, and a
    rank of the registers at an instruction pointer or a return address. -/
structure Native.Rank (N : Native) where
  Words : N.arch.Regs → Prop
  makeRegs_words : ∀ ctx maxCode, (∀ i, ctx.r i < 2 ^ 64) → Words (N.makeRegs ctx (N.ptrAuthMask maxCode))
  exec_words : ∀ {read : ReadStack} {regs : N.arch.Regs} (rule : N.arch.Rule) (first : Bool), read.Words → Words regs →
    Words (N.arch.exec rule first regs read).2 ∧ ∀ a, (N.arch.exec rule first regs read).1 = .ok (some a) → a < 2 ^ 64
  row_words : ∀ {read : ReadStack} {regs regs' row first signal result}, read.Words → Words regs → row.Words →
    N.arch.unwindFrame row regs first signal read = .ok (result, regs') → Words regs' ∧ result.Words
  restore_words : ∀ {read : ReadStack} {regs regs' restore pc}, read.Words → Words regs → N.restore = some restore →
    restore regs read = some (pc, regs') → Words regs' ∧ pc < 2 ^ 64
  plain_words : ∀ {K : Crates} {read : ReadStack} {regs : N.arch.Regs} (work : (N.formats K).Work),
    K.Words → read.Words →
    Words regs → Words ((N.formats K).pePlain work regs read).2 ∧
      ∀ a, ((N.formats K).pePlain work regs read).1 = some (.ok a) → a < 2 ^ 64
  rank : ReadStack → Bool → N.arch.Regs → Nat
  rank_lt : ∀ {regs} (read isReturnAddress), Words regs → rank read isReturnAddress regs < 2 ^ 65
  rank_up : ∀ {regs regs'} (read b b'), N.sp regs < N.sp regs' → rank read b regs < rank read b' regs'
  exec_rises : ∀ {read : ReadStack} {regs regs' rule b a}, N.arch.exec rule (!b) regs read = (.ok (some a), regs') →
    rank read b regs < rank read true regs'
  /-- A row, evaluated for an instruction pointer or a return address, has a CFA further up. -/
  Up : UnwindTableRow → Bool → N.arch.Regs → Bool → ReadStack → Prop
  row_rises : ∀ {read : ReadStack} {regs regs' row signal b a} {interrupted : Bool}, Up row signal regs b read →
    N.arch.unwindFrame row regs (!b) signal read = .ok (if interrupted then .interrupted a else .uncacheable a, regs') →
    rank read b regs < rank read (!interrupted) regs'

/-- The rank on x86: the stack pointer, and whether the code address is the word below it. -/
def x86Rank (read : ReadStack) (_ : Bool) (regs : X86.UnwindRegs) : Nat :=
  2 * regs.sp + if read (wrappingSub regs.sp 8) = some regs.ip then 1 else 0

theorem x86_rank_lt {regs : X86.UnwindRegs} (read : ReadStack) (b : Bool) (h : regs.Words) :
    x86Rank read b regs < 2 ^ 65 := by
  have hsp : regs.sp < 2 ^ 64 := h.2 .rsp
  unfold x86Rank
  split <;> omega

theorem x86_rank_up {regs regs' : X86.UnwindRegs} (read : ReadStack) (b b' : Bool) (h : regs.sp < regs'.sp) :
    x86Rank read b regs < x86Rank read b' regs' := by
  unfold x86Rank
  split <;> split <;> omega

theorem x86_exec_rises {read : ReadStack} {regs regs' : X86.UnwindRegs} {rule : X86.UnwindRule} {b : Bool} {a : Nat}
    (h : X86.exec rule (!b) regs read = (.ok (some a), regs')) : x86Rank read b regs < x86Rank read true regs' := by
  have hout := X86.exec_outcome rule (!b) regs read
  rw [h] at hout
  obtain ⟨-, hip, hup, hread, hmoved⟩ := hout.moves a rfl
  dsimp only at hip hup hread hmoved
  have hbelow : read (wrappingSub regs'.sp 8) = some regs'.ip := hip ▸ hread
  rcases hup.lt_or_eq with hlt | heq
  · exact x86_rank_up read b true hlt
  · -- the word below is the new address, so it was not the old one
    have hne : ¬ read (wrappingSub regs.sp 8) = some regs.ip := by
      intro hold
      rw [heq, hread] at hold
      exact hmoved ⟨heq.symm, Option.some.inj hold⟩
    unfold x86Rank
    rw [if_pos hbelow, if_neg hne]
    omega

/-- A CFA above the stack pointer, or one that is refused: below it, from a return address, in no
    signal frame. -/
def X86Up (row : UnwindTableRow) (signal : Bool) (regs : X86.UnwindRegs) (isReturnAddress : Bool)
    (read : ReadStack) : Prop :=
  ∀ cfa, evalCfaRule regs.dwarfGet read row.cfa = some cfa →
    regs.sp < cfa ∨ isReturnAddress = true ∧ signal = false ∧ cfa < regs.sp

theorem x86_row_rises {read : ReadStack} {regs regs' : X86.UnwindRegs} {row : UnwindTableRow}
    {signal b : Bool} {a : Nat} {interrupted : Bool} (hup : X86Up row signal regs b read)
    (h : X86.unwindFrame row regs (!b) signal read =
      .ok (if interrupted then .interrupted a else .uncacheable a, regs')) :
    x86Rank read b regs < x86Rank read (!interrupted) regs' := by
  refine x86_rank_up read _ _ ?_
  unfold X86.unwindFrame at h
  split at h
  · cases interrupted <;> cases h
  unfold X86.unwindFrameGeneric at h
  split at h
  · cases h
  rename_i cfa hcfa
  dsimp only at h
  split at h
  · cases h
  split at h
  · cases h
  split at h
  · cases h
  rename_i hdown
  have hcfa : regs.sp < cfa := by
    rcases hup cfa hcfa with hlt | ⟨hb, hsignal, hlt⟩
    · exact hlt
    · simp [hb, hsignal, hlt] at hdown
  obtain ⟨-, rfl⟩ := Prod.mk.inj (Except.ok.inj h)
  simpa only [X86.set_sp] using hcfa

theorem x86_makeRegs_words (ctx : FhContext) (maxCode : Nat) (h : ∀ i, ctx.r i < 2 ^ 64) :
    X86.UnwindRegs.Words (x86.makeRegs ctx (x86.ptrAuthMask maxCode)) :=
  X86.set_words (X86.set_words ⟨h 0, fun _ => Nat.two_pow_pos 64⟩ _ (h 1)) _ (h 2)

theorem x86_exec_address {read : ReadStack} {regs : X86.UnwindRegs} (rule : X86.UnwindRule) (first : Bool)
    (hread : read.Words) (h : regs.Words) :
    (X86.exec rule first regs read).2.Words ∧ ∀ a, (X86.exec rule first regs read).1 = .ok (some a) → a < 2 ^ 64 := by
  have hw := X86.exec_words hread h rule first
  refine ⟨hw, ?_⟩
  intro a ha
  exact ((X86.exec_outcome rule first regs read).moves a ha).2.1 ▸ hw.1

/-- A PE result has the registers of the work, and its return address. -/
theorem ofPe_words {r : Except X86.Pe.Failure Nat × X86.UnwindRegs} (h : X86.Pe.OutcomeWords r) :
    (ofPe r).2.Words ∧ ∀ a, (ofPe r).1 = some (.ok a) → a < 2 ^ 64 := by
  obtain ⟨hregs, hra⟩ := h
  rcases r with ⟨(_ | _ | _) | ra, regs⟩
  · exact ⟨hregs, nofun⟩
  · exact ⟨hregs, nofun⟩
  · exact ⟨hregs, nofun⟩
  · refine ⟨hregs, ?_⟩
    intro a ha
    cases ha
    exact hra ra rfl

def rankX86 : x86.Rank where
  Words := X86.UnwindRegs.Words
  makeRegs_words := x86_makeRegs_words
  exec_words rule first hread h := x86_exec_address rule first hread h
  row_words hread h hrow hu := X86.unwindFrame_words hread h hrow hu
  restore_words _ _ hr _ := absurd hr (Option.some_ne_none _).symm
  plain_words work hK hread h := ofPe_words (X86.Pe.plain_words hK.pe hread h work)
  rank := x86Rank
  rank_lt := x86_rank_lt
  rank_up := x86_rank_up
  exec_rises := x86_exec_rises
  Up := X86Up
  row_rises := x86_row_rises

/-- The rank on arm64: the stack pointer, and whether the address is a return address. -/
def aarch64Rank (_ : ReadStack) (isReturnAddress : Bool) (regs : Aarch64.UnwindRegs) : Nat :=
  2 * regs.sp + isReturnAddress.toNat

theorem aarch64_rank_lt {regs : Aarch64.UnwindRegs} (read : ReadStack) (b : Bool) (h : regs.Words) :
    aarch64Rank read b regs < 2 ^ 65 := by
  have hsp := h.sp
  have hb := b.toNat_le
  unfold aarch64Rank
  omega

theorem aarch64_rank_up {regs regs' : Aarch64.UnwindRegs} (read : ReadStack) (b b' : Bool) (h : regs.sp < regs'.sp) :
    aarch64Rank read b regs < aarch64Rank read b' regs' := by
  have hb := b.toNat_le
  unfold aarch64Rank
  omega

/-- From an instruction pointer to a return address the stack pointer may stay. -/
theorem aarch64_rank_settles {regs regs' : Aarch64.UnwindRegs} (read : ReadStack) (h : regs.sp ≤ regs'.sp) :
    aarch64Rank read false regs < aarch64Rank read true regs' := by
  unfold aarch64Rank
  simp only [Bool.toNat_true, Bool.toNat_false]
  omega

theorem aarch64_exec_rises {read : ReadStack} {regs regs' : Aarch64.UnwindRegs} {rule : Aarch64.UnwindRule}
    {b : Bool} {a : Nat}
    (h : Aarch64.exec rule (!b) regs read = (.ok (some a), regs')) :
    aarch64Rank read b regs < aarch64Rank read true regs' := by
  have hout := Aarch64.exec_outcome rule (!b) regs read
  rw [h] at hout
  obtain ⟨-, hup, hlt⟩ := hout.moves a rfl
  cases b with
  | true => exact aarch64_rank_up read true true (hlt rfl)
  | false => exact aarch64_rank_settles read hup

/-- A CFA that is not below the stack pointer; from a return address one that is not above it is
    refused. -/
def Aarch64Up (row : UnwindTableRow) (_ : Bool) (regs : Aarch64.UnwindRegs) (isReturnAddress : Bool)
    (read : ReadStack) : Prop :=
  isReturnAddress = true ∨ ∀ cfa, evalCfaRule regs.dwarfGet read row.cfa = some cfa → regs.sp ≤ cfa

theorem aarch64_row_rises {read : ReadStack} {regs regs' : Aarch64.UnwindRegs} {row : UnwindTableRow}
    {signal b : Bool} {a : Nat} {interrupted : Bool} (hup : Aarch64Up row signal regs b read)
    (h : Aarch64.unwindFrame row regs (!b) signal read =
      .ok (if interrupted then .interrupted a else .uncacheable a, regs')) :
    aarch64Rank read b regs < aarch64Rank read (!interrupted) regs' := by
  cases interrupted with
  | true => exact absurd ⟨a, regs', h⟩ (aarch64_not_interrupted row regs (!b) signal read)
  | false =>
    unfold Aarch64.unwindFrame at h
    split at h
    · cases h
    unfold Aarch64.unwindFrameGeneric at h
    split at h
    · cases h
    rename_i cfa hcfa
    dsimp only at h
    cases b with
    | false =>
      rw [if_pos (by rfl)] at h
      cases h
      rcases hup with hb | hup
      · cases hb
      · exact aarch64_rank_settles read (hup cfa hcfa)
    | true =>
      rw [if_neg (by decide)] at h
      split at h
      · cases h
      rename_i hdown
      split at h
      · cases h
      split at h
      · cases h
      cases h
      exact aarch64_rank_up read _ _ (not_le.mp hdown)

theorem ptrAuthMask_words (maxCode : Nat) : ptrAuthMask maxCode < 2 ^ 64 := by
  unfold ptrAuthMask
  split
  · decide
  · exact lt_of_le_of_lt (Nat.shiftRight_le _ _) (by decide)

theorem aarch64_makeRegs_words (ctx : FhContext) (maxCode : Nat) (h : ∀ i, ctx.r i < 2 ^ 64) :
    Aarch64.UnwindRegs.Words (aarch64.makeRegs ctx (aarch64.ptrAuthMask maxCode)) :=
  ⟨ptrAuthMask_words maxCode, Aarch64.stripPtrAuth_words _ (h 3), h 1, h 2⟩

theorem restore_words {read : ReadStack} {regs regs' : Aarch64.UnwindRegs} {pc : Nat} (hread : read.Words)
    (h : regs.Words) (hr : restore regs read = some (pc, regs')) : regs'.Words ∧ pc < 2 ^ 64 := by
  obtain ⟨base, -, hr⟩ := Option.bind_eq_some_iff.mp hr
  obtain ⟨fp, hfp, hr⟩ := Option.bind_eq_some_iff.mp hr
  obtain ⟨lr, hlr, hr⟩ := Option.bind_eq_some_iff.mp hr
  obtain ⟨sp, hsp, hr⟩ := Option.bind_eq_some_iff.mp hr
  obtain ⟨pc', hpc, hr⟩ := Option.bind_eq_some_iff.mp hr
  cases hr
  exact ⟨Aarch64.setSp_words (Aarch64.setLr_words (Aarch64.setFp_words h (hread _ _ hfp)) (hread _ _ hlr))
    (hread _ _ hsp),
    hread _ _ hpc⟩

def rankAarch64 : aarch64.Rank where
  Words := Aarch64.UnwindRegs.Words
  makeRegs_words := aarch64_makeRegs_words
  exec_words rule first hread h := ⟨Aarch64.exec_words hread h rule first, fun _ => Aarch64.exec_address_words hread h⟩
  row_words hread h hrow hu := Aarch64.unwindFrame_words hread h hrow hu
  restore_words _ _ hr _ := absurd hr (Option.some_ne_none _).symm
  plain_words work := work.elim
  rank := aarch64Rank
  rank_lt := aarch64_rank_lt
  rank_up := aarch64_rank_up
  exec_rises := aarch64_exec_rises
  Up := Aarch64Up
  row_rises := aarch64_row_rises

def rankAarch64Linux : aarch64Linux.Rank :=
  { rankAarch64 with
    restore_words := by
      intro read regs regs' _ pc hread h hr he
      cases hr
      exact restore_words hread h he }

def Platform.rank : (p : Platform) → p.native.Rank
  | x86 => rankX86
  | aarch64 => rankAarch64
  | aarch64Linux => rankAarch64Linux

/-! ## One step -/

variable (K : Crates) {N : Native}

/-- From where the cursor stands the step returns, and moves the stack pointer up or takes a rule:
    the kernel's signal frame has a higher one, the address has a rule, its row has a CFA further
    up, or the work of a PE image ends further up, or fails further up or at once. -/
inductive Safe (R : N.Rank) (snap : Snapshot) (env : Env) (inner : SlotInner N) : Prop
  | signalFrame {restore} (hs : signalFrame env inner = some restore)
      (hup : ∀ pc regs, restore inner.regs (readStack inner env.mem) = some (pc, regs) → N.sp inner.regs < N.sp regs)
  | cached {rule} (hs : signalFrame env inner = none) (hl : inner.cached snap = some rule)
  | rule {rule} (hs : signalFrame env inner = none) (hp : inner.plan K snap = .rule rule)
  | row {row signal} (hs : signalFrame env inner = none) (hp : inner.plan K snap = .row row signal)
      (hup : R.Up row signal inner.regs inner.curAddr.isReturnAddress (readStack inner env.mem))
  | popped {work a regs} (hs : signalFrame env inner = none) (hp : inner.plan K snap = .plain work)
      (he : (N.formats K).pePlain work inner.regs (readStack inner env.mem) = (some (.ok a), regs))
      (hup : N.sp inner.regs < N.sp regs)
  | unpopped {work error regs} (hs : signalFrame env inner = none) (hp : inner.plan K snap = .plain work)
      (he : (N.formats K).pePlain work inner.regs (readStack inner env.mem) = (some (.error error), regs))
      (hup : N.sp inner.regs < N.sp regs ∨ regs = inner.regs)

variable {K} {snap : Snapshot} {env : Env} {inner : SlotInner N}

/-- The unwind raises the rank, unless it ends the walk. -/
def Lifts (R : N.Rank) (read : ReadStack) (inner : SlotInner N) (u : Unwound N.arch) : Prop :=
  ∀ a interrupted, u.1 = .ok (some (a, interrupted)) →
    R.rank read inner.curAddr.isReturnAddress inner.regs < R.rank read (!interrupted) u.2

/-- A rule raises the rank from wherever it begins. -/
theorem execute_lifts (R : N.Rank) {read : ReadStack} (rule : N.arch.Rule) {regs : N.arch.Regs}
    (hle : R.rank read inner.curAddr.isReturnAddress inner.regs ≤ R.rank read inner.curAddr.isReturnAddress regs) :
    Lifts R read inner ((inner.call snap read).execute rule regs) := by
  intro a interrupted h
  obtain ⟨rfl, he⟩ := execute_eq (Prod.ext h rfl)
  exact hle.trans_lt (R.exec_rises he)

theorem safe_lifts {R : N.Rank} (h : Safe K R snap env inner) (hs : signalFrame env inner = none) :
    ∃ u, Unwinds K snap (readStack inner env.mem) inner u ∧ Lifts R (readStack inner env.mem) inner u := by
  cases hl : inner.cached snap with
  | some rule => exact ⟨_, .rule (.inl hl), execute_lifts R rule le_rfl⟩
  | none =>
    cases h with
    | signalFrame hs' => cases hs.symm.trans hs'
    | cached _ hl' => cases hl.symm.trans hl'
    | @rule rule _ hp => exact ⟨_, .rule (.inr ⟨hl, hp⟩), execute_lifts R rule le_rfl⟩
    | @row row signal _ hp hup =>
      cases he : (inner.call snap (readStack inner env.mem)).evaluate row signal with
      | error error => exact ⟨_, .rowFails hl hp he, execute_lifts R _ le_rfl⟩
      | ok r =>
        obtain ⟨-, -, -, -, hnone⟩ := planAll_row hp
        obtain ⟨result, regs⟩ := r
        -- a row without a rule gives none
        have hresult :
            ∃ (a : Nat) (interrupted : Bool), result = if interrupted then .interrupted a else .uncacheable a := by
          cases result with
          | execRule rule => exact absurd he (N.arch.unwindFrame_generic _ _ _ _ _ rule regs hnone)
          | uncacheable a => exact ⟨a, false, rfl⟩
          | interrupted a => exact ⟨a, true, rfl⟩
        obtain ⟨a, interrupted, rfl⟩ := hresult
        refine ⟨_, .row hl hp he, ?_⟩
        intro a' interrupted' heq
        cases heq
        exact R.row_rises hup he
    | popped _ hp he hup =>
      refine ⟨_, .plain hl hp he, ?_⟩
      intro a' interrupted heq
      cases heq
      exact R.rank_up _ _ _ hup
    | unpopped _ hp he hup =>
      refine ⟨_, .plainFails hl hp he, execute_lifts R _ ?_⟩
      rcases hup with hlt | rfl
      · exact (R.rank_up _ _ _ hlt).le
      · exact le_rfl

/-- A safe step returns, and raises the rank unless it ends the walk. -/
theorem step_rises {R : N.Rank} (h : Safe K R snap env inner) :
    ∃ r, step K snap env inner = some r ∧ (r.1.rc = 0 ∨
      R.rank (readStack inner env.mem) inner.curAddr.isReturnAddress inner.regs <
        R.rank (readStack inner env.mem) r.2.curAddr.isReturnAddress r.2.regs) := by
  rw [step_signalFrame]
  cases hs : signalFrame env inner with
  | some restore =>
    refine ⟨_, rfl, ?_⟩
    rcases restoreTo_cases inner (restore inner.regs (readStack inner env.mem)) with
      ⟨pc, regs, hr, hpc, heq⟩ | ⟨regs, -, heq⟩ | ⟨-, heq⟩
    · rw [heq]
      right
      cases h with
      | signalFrame hs' hup =>
        cases hs.symm.trans hs'
        exact R.rank_up _ _ _ (hup pc regs hr)
      | cached hs' => cases hs.symm.trans hs'
      | rule hs' => cases hs.symm.trans hs'
      | row hs' => cases hs.symm.trans hs'
      | popped hs' => cases hs.symm.trans hs'
      | unpopped hs' => cases hs.symm.trans hs'
    · rw [heq]
      exact .inl rfl
    · rw [heq]
      exact .inl rfl
  | none =>
    obtain ⟨u, hu, hlifts⟩ := safe_lifts h hs
    obtain ⟨cache, hstep⟩ := stepUnwind_of_unwinds hu
    refine ⟨_, hstep, ?_⟩
    rcases advanceTo_cases inner u cache with ⟨a, interrupted, ha, hua, heq⟩ | ⟨-, heq⟩
    · rw [heq]
      right
      cases interrupted <;> exact hlifts a _ hua
    · rw [heq]
      exact .inl rfl

theorem readStack_words (inner : SlotInner N) (hmem : ∀ x, env.mem x < 2 ^ 64) :
    ReadStack.Words (readStack inner env.mem) := by
  intro a v h
  unfold readStack at h
  dsimp only at h
  split at h
  · cases h
  · cases h
    exact hmem a

/-- The registers after an unwind, and the address it gives, are words. -/
theorem unwinds_words (R : N.Rank) (hK : K.Words) {read : ReadStack} (hread : read.Words) (hw : R.Words inner.regs)
    {u : Unwound N.arch} (h : Unwinds K snap read inner u) :
    R.Words u.2 ∧ ∀ a interrupted, u.1 = .ok (some (a, interrupted)) → a < 2 ^ 64 := by
  have hexec : ∀ rule regs, R.Words regs → R.Words ((inner.call snap read).execute rule regs).2 ∧
      ∀ a interrupted, ((inner.call snap read).execute rule regs).1 = .ok (some (a, interrupted)) → a < 2 ^ 64 := by
    intro rule regs hregs
    obtain ⟨hw, ha⟩ := R.exec_words rule (!inner.curAddr.isReturnAddress) hread hregs
    refine ⟨hw, ?_⟩
    intro a interrupted heq
    exact ha a ((notInterrupted_fst _ a interrupted).mp heq).1
  have hplain : ∀ work r regs, (N.formats K).pePlain work inner.regs read = (r, regs) →
      R.Words regs ∧ ∀ a, r = some (.ok a) → a < 2 ^ 64 := by
    intro work r regs he
    have := R.plain_words work hK hread hw
    rwa [he] at this
  cases h with
  | rule => exact hexec _ _ hw
  | @row row signal a interrupted regs hl hp he =>
    obtain ⟨hregs, hresult⟩ := R.row_words hread hw (planAll_words hK.gimli hp) he
    refine ⟨hregs, ?_⟩
    intro a' interrupted' heq
    cases heq
    cases interrupted <;> exact hresult
  | rowFails => exact hexec _ _ hw
  | plain hl hp he =>
    obtain ⟨hregs, ha⟩ := hplain _ _ _ he
    refine ⟨hregs, ?_⟩
    intro a' interrupted heq
    cases heq
    exact ha _ rfl
  | plainFails hl hp he => exact hexec _ _ (hplain _ _ _ he).1

theorem step_words (R : N.Rank) (hK : K.Words) (hmem : ∀ x, env.mem x < 2 ^ 64) {r : Out × SlotInner N}
    (h : step K snap env inner = some r) (hw : R.Words inner.regs) : R.Words r.2.regs := by
  have hread := readStack_words inner hmem
  rcases step_cases h with ⟨restore, hs, rfl⟩ | ⟨-, u, cache, hu, rfl⟩
  · have hrestore : N.restore = some restore := (Option.filter_eq_some_iff.mp hs).1
    rcases restoreTo_cases inner (restore inner.regs (readStack inner env.mem)) with
      ⟨pc, regs, hr, -, heq⟩ | ⟨regs, hr, heq⟩ | ⟨-, heq⟩
    · rw [heq]
      exact (R.restore_words hread hw hrestore hr).1
    · rw [heq]
      exact (R.restore_words hread hw hrestore hr).1
    · rw [heq]
      exact hw
  · have hregs := (unwinds_words R hK hread hw hu).1
    rcases advanceTo_cases inner u cache with ⟨a, interrupted, ha, -, heq⟩ | ⟨-, heq⟩
    · rw [heq]
      exact hregs
    · rw [heq]
      exact hregs

/-! ## Whole walks -/

variable (K) (snap env inner)

/-- The slot after `n` steps on a fixed stack. -/
def after (n : Nat) : SlotInner N := ((walk K N).alone snap inner (List.replicate n env)).2

/-- What step `n` returns, if it does. -/
def returned (n : Nat) : Option Int :=
  if (after K snap env inner n).done then some 0 else (step K snap env (after K snap env inner n)).map fun r => r.1.rc

/-- The first `n` steps all returned more than 0. -/
def GoesOn (n : Nat) : Prop := ∀ k < n, ∃ rc, returned K snap env inner k = some rc ∧ 0 < rc

/-- The frame address and the registers. -/
def SlotInner.state (inner : SlotInner N) : FrameAddress × N.arch.Regs := (inner.curAddr, inner.regs)

/-- The walk comes back to no state, and ends. -/
def Progresses : Prop :=
  (∀ m n, m < n → GoesOn K snap env inner n → (after K snap env inner m).state ≠ (after K snap env inner n).state) ∧
    ∃ n rc, GoesOn K snap env inner n ∧ returned K snap env inner n = some rc ∧ rc ≤ 0

variable {K} {snap env inner}

theorem alone_replicate {W : Walk} (snap : W.Snap) (inner : W.Inner) (env : W.Env) (n : Nat) :
    (W.alone snap inner (List.replicate (n + 1) env)).2 =
      (W.advance snap env (W.alone snap inner (List.replicate n env)).2).2 := by
  rw [List.replicate_succ', State.alone_concat]

theorem after_succ {n : Nat} (hd : (after K snap env inner n).done = false) {r : Out × SlotInner N}
    (h : step K snap env (after K snap env inner n) = some r) : after K snap env inner (n + 1) = r.2 := by
  refine (alone_replicate (W := walk K N) snap inner env n).trans ?_
  have hadvance : (walk K N).advance snap env (after K snap env inner n) =
      (step K snap env (after K snap env inner n)).getD (⟨0, 0, 0⟩, after K snap env inner n) :=
    if_neg (by rw [show (walk K N).done (after K snap env inner n) = false from hd]; exact Bool.false_ne_true)
  rw [h] at hadvance
  exact congrArg Prod.snd hadvance

/-- A step that returned more than 0 is the walk's next. -/
theorem after_step {n : Nat} {rc : Int} (h : returned K snap env inner n = some rc) (hrc : 0 < rc) :
    ∃ r, step K snap env (after K snap env inner n) = some r ∧ after K snap env inner (n + 1) = r.2 ∧ r.1.rc = rc := by
  unfold returned at h
  split at h
  · cases h
    exact absurd hrc (lt_irrefl 0)
  · rename_i hd
    obtain ⟨r, hr, rfl⟩ := Option.map_eq_some_iff.mp h
    exact ⟨r, hr, after_succ (Bool.not_eq_true _ ▸ hd) hr, rfl⟩

/-- A step keeps the windows. -/
theorem step_windows {r : Out × SlotInner N} (h : step K snap env inner = some r) (mem : Nat → Nat) :
    readStack r.2 mem = readStack inner mem := by
  rcases step_frame h with ⟨regs, cache, ip, address, rfl⟩ | ⟨regs, cache, rfl⟩ <;> rfl

theorem after_windows {n : Nat} (h : GoesOn K snap env inner n) :
    readStack (after K snap env inner n) env.mem = readStack inner env.mem := by
  induction n with
  | zero => rfl
  | succ n ih =>
    obtain ⟨rc, hret, hrc⟩ := h n (Nat.lt_succ_self n)
    obtain ⟨r, hr, hafter, -⟩ := after_step hret hrc
    rw [hafter, step_windows hr]
    exact ih fun k hk => h k (Nat.lt_succ_of_lt hk)

theorem after_words (R : N.Rank) (hK : K.Words) (hmem : ∀ x, env.mem x < 2 ^ 64) (hw : R.Words inner.regs) {n : Nat}
    (h : GoesOn K snap env inner n) : R.Words (after K snap env inner n).regs := by
  induction n with
  | zero => exact hw
  | succ n ih =>
    obtain ⟨rc, hret, hrc⟩ := h n (Nat.lt_succ_self n)
    obtain ⟨r, hr, hafter, -⟩ := after_step hret hrc
    rw [hafter]
    exact step_words R hK hmem hr (ih fun k hk => h k (Nat.lt_succ_of_lt hk))

/-- The rank of a walk's state. -/
def Native.Rank.of (R : N.Rank) (read : ReadStack) (state : FrameAddress × N.arch.Regs) : Nat :=
  R.rank read state.1.isReturnAddress state.2

/-- A walk whose steps are safe raises the rank as long as it goes on. -/
theorem after_rises {R : N.Rank} {n : Nat} (hsafe : Safe K R snap env (after K snap env inner n))
    (h : GoesOn K snap env inner (n + 1)) :
    R.of (readStack inner env.mem) (after K snap env inner n).state <
      R.of (readStack inner env.mem) (after K snap env inner (n + 1)).state := by
  obtain ⟨rc, hret, hrc⟩ := h n (Nat.lt_succ_self n)
  obtain ⟨r, hr, hafter, rfl⟩ := after_step hret hrc
  obtain ⟨r', hr', hrise⟩ := step_rises hsafe
  cases hr.symm.trans hr'
  rw [hafter]
  rw [after_windows fun k hk => h k (Nat.lt_succ_of_lt hk)] at hrise
  exact hrise.resolve_left hrc.ne'

/-- On every target, for every walk on a fixed stack: if each step is safe from where the walk
    stands before it, the walk comes back to no state and ends. -/
theorem walk_progresses (p : Platform) (hK : K.Words) (a : InitArgs) (hctx : ∀ i, a.ctx.r i < 2 ^ 64) (snap : Snapshot)
    (start : SlotInner p.native) (env : Env) (hmem : ∀ x, env.mem x < 2 ^ 64)
    (hsafe : ∀ n, GoesOn K snap env (initFill a snap start) n →
      Safe K p.rank snap env (after K snap env (initFill a snap start) n)) :
    Progresses K snap env (initFill a snap start) := by
  have hrises : ∀ n, GoesOn K snap env (initFill a snap start) (n + 1) →
      p.rank.of (readStack (initFill a snap start) env.mem) (after K snap env (initFill a snap start) n).state <
        p.rank.of (readStack (initFill a snap start) env.mem)
          (after K snap env (initFill a snap start) (n + 1)).state := by
    intro n h
    exact after_rises (hsafe n fun k hk => h k (Nat.lt_succ_of_lt hk)) h
  constructor
  · intro m n hmn hn heq
    have hlt := rank_lt_of_rising (fun k hk => hrises k fun j hj => hn j (hj.trans_le hk)) hmn
    rw [heq] at hlt
    exact lt_irrefl _ hlt
  · have hbound : ∀ n, GoesOn K snap env (initFill a snap start) n →
        p.rank.of (readStack (initFill a snap start) env.mem)
          (after K snap env (initFill a snap start) n).state < 2 ^ 65 := by
      intro n hn
      exact p.rank.rank_lt _ _ (after_words p.rank hK hmem (p.rank.makeRegs_words a.ctx _ hctx) hn)
    obtain ⟨n, hgoes, hstop⟩ := stops_of_rising hbound fun n hn => hrises n fun k hk => hn k (Nat.le_of_lt_succ hk)
    -- the step it stops at returns, as it is safe
    obtain ⟨r, hr, -⟩ := step_rises (hsafe n hgoes)
    have hret : ∃ rc, returned K snap env (initFill a snap start) n = some rc := by
      unfold returned
      split
      · exact ⟨0, rfl⟩
      · exact ⟨r.1.rc, by rw [hr]; rfl⟩
    obtain ⟨rc, hrc⟩ := hret
    exact ⟨n, rc, hgoes, hrc, not_lt.mp fun hpos => hstop ⟨rc, hrc, hpos⟩⟩

/-! ## A walk that ends -/

/-- The trampoline's row, by sums that wrap as gimli's do. -/
def savedRow : UnwindTableRow where
  cfa :=
    .expression (.requiresRegister 7 fun sp =>
      .requiresMemory (wrappingAdd sp 160) 8 none fun cfa => .complete (some cfa))
  register r :=
    if r = 16 then some (.expression (.requiresRegister 7 fun sp => .complete (some (wrappingAdd sp 168)))) else none

def savedGimli : Gimli :=
  { trampolineGimli with
    unwindInfoForAddress := fun _ _ _ offset a =>
      if offset = 24 ∧ 0x1000 ≤ a ∧ a < 0x1010 then some savedRow else none }

theorem savedGimli_words : savedGimli.Words := by
  intro ty bytes bases offset a row h
  have hrow : row = savedRow := by
    unfold savedGimli at h
    dsimp only at h
    split at h
    · exact (Option.some.inj h).symm
    · cases h
  subst hrow
  constructor
  · intro sp _
    refine ⟨X86.Pe.wrappingAdd_words sp 160, ?_⟩
    intro cfa hcfa a ha
    cases ha
    exact hcfa
  · intro r rule hr
    unfold savedRow at hr
    dsimp only at hr
    split at hr
    · cases hr
      intro sp _ a ha
      cases ha
      exact X86.Pe.wrappingAdd_words sp 168
    · cases hr

theorem sampleParser_words (chained : Option Nat) : (X86.Pe.sampleParser chained).Words := by
  intro info op regs read hregs hread
  cases op with
  | unStackAlloc offset =>
    exact ⟨X86.set_words hregs _ (X86.Pe.wrappingAdd_words _ _), by simp [X86.Pe.sampleParser],
      by simp [X86.Pe.sampleParser]⟩
  | popNonVolatile reg =>
    have hsp : regs.sp < 2 ^ 64 := hregs.2 .rsp
    simp only [X86.Pe.sampleParser, Lib.Access.Prog.run_read, Lib.Access.Prog.reads_read]
    cases hv : read regs.sp with
    | none => exact ⟨hregs, by simp, by simpa using hsp⟩
    | some val =>
      refine ⟨?_, by simp, by simpa using hsp⟩
      exact X86.set_words (X86.set_words hregs _ (hread _ _ hv)) _ (X86.Pe.wrappingAdd_words _ _)
  | other code => exact ⟨hregs, by simp [X86.Pe.sampleParser], by simp [X86.Pe.sampleParser]⟩

theorem sampleCrates_words {G : Gimli} (hG : G.Words) : (sampleCrates G).Words := ⟨hG, sampleParser_words none⟩

abbrev savedCrates : Crates := sampleCrates savedGimli

/-- The walk over the crossed trampoline goes on to the code it interrupted and to that code's
    caller, which are in no module, and ends. -/
theorem crossed_walk :
    (after savedCrates trampolineSnapshot crossedEnv crossedSlot 1).curAddr.addressForLookup = 0x5000 ∧
    (after savedCrates trampolineSnapshot crossedEnv crossedSlot 2).curAddr.addressForLookup = 0x5fff ∧
    returned savedCrates trampolineSnapshot crossedEnv crossedSlot 2 = some 0 := by
  decide +kernel

/-- Outside the modules the fallback rule is taken. -/
theorem safe_outside {R : x86.Rank} {K : Crates} {inner : SlotInner x86} (env : Env)
    (h : findModuleForAddress snap.unw.modules inner.curAddr.addressForLookup = none) : Safe K R snap env inner := by
  have hp : inner.plan K snap = .rule x86.arch.fallbackRule := by
    unfold SlotInner.plan planAll
    rw [h]
  exact .rule rfl hp

theorem crossed_safe (n : Nat) (h : GoesOn savedCrates trampolineSnapshot crossedEnv crossedSlot n) :
    Safe savedCrates rankX86 trampolineSnapshot crossedEnv
      (after savedCrates trampolineSnapshot crossedEnv crossedSlot n) := by
  obtain ⟨h1, h2, hret⟩ := crossed_walk
  rcases n with _ | _ | _ | n
  · have hp : crossedSlot.plan savedCrates trampolineSnapshot = .row savedRow true := rfl
    refine .row rfl hp ?_
    intro cfa hcfa
    have hcfa' : evalCfaRule crossedSlot.regs.dwarfGet (readStack crossedSlot crossedEnv.mem) savedRow.cfa =
        some 0x7400 := by
      decide
    cases hcfa'.symm.trans hcfa
    exact .inl (by decide)
  · exact safe_outside crossedEnv (by rw [h1]; rfl)
  · exact safe_outside crossedEnv (by rw [h2]; rfl)
  · obtain ⟨rc, hrc, hpos⟩ := h 2 (by omega)
    cases hret.symm.trans hrc
    exact absurd hpos (lt_irrefl 0)

/-- The walk over the crossed trampoline ends. -/
theorem walk_progresses_crossed : Progresses savedCrates trampolineSnapshot crossedEnv crossedSlot := by
  refine walk_progresses .x86 (sampleCrates_words savedGimli_words) crossedArgs (by decide) trampolineSnapshot
    (placeholderInner x86) crossedEnv ?_ crossed_safe
  intro x
  unfold crossedEnv
  dsimp only
  split <;> decide

/-! ## Signal frames that lead back -/

/-- A walk that is back where it began repeats. -/
theorem after_periodic {p : Nat} (h : after K snap env inner p = inner) (n : Nat) :
    after K snap env inner (n + p) = after K snap env inner n := by
  induction n with
  | zero =>
    rw [Nat.zero_add, h]
    rfl
  | succ n ih =>
    have hnext : ∀ n, after K snap env inner (n + 1) = ((walk K N).advance snap env (after K snap env inner n)).2 :=
      alone_replicate (W := walk K N) snap inner env
    rw [Nat.succ_add, hnext, ih, ← hnext]

/-- It then never ends. -/
theorem never_ends {p : Nat} (h : after K snap env inner (p + 1) = inner)
    (hp : GoesOn K snap env inner (p + 1)) (n : Nat) :
    ∃ rc, returned K snap env inner n = some rc ∧ 0 < rc := by
  induction n using Nat.strong_induction_on with
  | _ n ih =>
    by_cases hn : n < p + 1
    · exact hp n hn
    · obtain ⟨k, rfl⟩ : ∃ k, n = k + (p + 1) := ⟨n - (p + 1), by omega⟩
      unfold returned
      rw [after_periodic h]
      exact ih k (by omega)

theorem not_progresses {p : Nat} (h : after K snap env inner (p + 1) = inner) (hp : GoesOn K snap env inner (p + 1)) :
    ¬ Progresses K snap env inner := by
  intro hprogress
  obtain ⟨-, n, rc, -, hrc, hle⟩ := hprogress
  obtain ⟨rc', hrc', hpos⟩ := never_ends h hp n
  cases hrc.symm.trans hrc'
  exact absurd hle (not_le.mpr hpos)

/-- x86: signal frames at 0x7000 and 0x7400, each with the other's sp and the trampoline's pc.
    Linux arm64: the signal frame at 0x7000 has its own sp and the trampoline's pc. -/
def cyclicEnv : Env where
  mem
    | 0x70a0 => 0x7400
    | 0x70a8 => 0x1004
    | 0x74a0 => 0x7000
    | 0x74a8 => 0x1004
    | 0x7230 => 0x7000
    | 0x7238 => 0x1004
    | _ => 0
  trampoline := some 0x1004

instance : Fintype X86.Reg where
  elems := {.rax, .rdx, .rcx, .rbx, .rsi, .rdi, .rbp, .rsp, .r8, .r9, .r10, .r11, .r12, .r13, .r14, .r15}
  complete reg := by cases reg <;> decide

theorem x86_fields_injective : Function.Injective fun regs : X86.UnwindRegs => (regs.ip, regs.regs) := by
  rintro ⟨ip, regs⟩ ⟨ip', regs'⟩ h
  cases h
  rfl

theorem aarch64_fields_injective :
    Function.Injective fun regs : Aarch64.UnwindRegs => (regs.lrMask.bits, regs.lr, regs.sp, regs.fp) := by
  rintro ⟨⟨mask⟩, lr, sp, fp⟩ ⟨⟨mask'⟩, lr', sp', fp'⟩ h
  cases h
  rfl

theorem x86_returns : after savedCrates trampolineSnapshot cyclicEnv (trampolineSlot x86) 2 = trampolineSlot x86 := by
  have hregs : (after savedCrates trampolineSnapshot cyclicEnv (trampolineSlot x86) 2).regs =
      (trampolineSlot x86).regs :=
    x86_fields_injective (by decide +kernel)
  have hrest : after savedCrates trampolineSnapshot cyclicEnv (trampolineSlot x86) 2 =
      { trampolineSlot x86 with
        regs := (after savedCrates trampolineSnapshot cyclicEnv (trampolineSlot x86) 2).regs } := rfl
  rw [hrest, hregs]

theorem aarch64_returns :
    after savedCrates trampolineSnapshot cyclicEnv (trampolineSlot aarch64Linux) 1 = trampolineSlot aarch64Linux := by
  have hregs : (after savedCrates trampolineSnapshot cyclicEnv (trampolineSlot aarch64Linux) 1).regs =
      (trampolineSlot aarch64Linux).regs := aarch64_fields_injective (by decide +kernel)
  have hrest : after savedCrates trampolineSnapshot cyclicEnv (trampolineSlot aarch64Linux) 1 =
      { trampolineSlot aarch64Linux with
        regs := (after savedCrates trampolineSnapshot cyclicEnv (trampolineSlot aarch64Linux) 1).regs } := rfl
  rw [hrest, hregs]

theorem x86_goesOn : GoesOn savedCrates trampolineSnapshot cyclicEnv (trampolineSlot x86) 2 := by
  have h : ∀ k < 2, returned savedCrates trampolineSnapshot cyclicEnv (trampolineSlot x86) k = some 1 := by
    decide +kernel
  exact fun k hk => ⟨1, h k hk, Int.one_pos⟩

theorem aarch64_goesOn : GoesOn savedCrates trampolineSnapshot cyclicEnv (trampolineSlot aarch64Linux) 1 := by
  have h : ∀ k < 1, returned savedCrates trampolineSnapshot cyclicEnv (trampolineSlot aarch64Linux) k = some 1 := by
    decide +kernel
  exact fun k hk => ⟨1, h k hk, Int.one_pos⟩

/-- A walk that starts at the signal frame at 0x7000 makes no progress, and every step of it
    returns more than 0. -/
theorem signal_frames_cycle :
    (¬ Progresses savedCrates trampolineSnapshot cyclicEnv (trampolineSlot x86) ∧
      ∀ n, ∃ rc, returned savedCrates trampolineSnapshot cyclicEnv (trampolineSlot x86) n = some rc ∧ 0 < rc) ∧
    ¬ Progresses savedCrates trampolineSnapshot cyclicEnv (trampolineSlot aarch64Linux) ∧
      ∀ n, ∃ rc, returned savedCrates trampolineSnapshot cyclicEnv (trampolineSlot aarch64Linux) n = some rc ∧ 0 < rc :=
  ⟨⟨not_progresses x86_returns x86_goesOn, never_ends x86_returns x86_goesOn⟩,
    not_progresses aarch64_returns aarch64_goesOn, never_ends aarch64_returns aarch64_goesOn⟩

end FramehopUnwind.Cursor
