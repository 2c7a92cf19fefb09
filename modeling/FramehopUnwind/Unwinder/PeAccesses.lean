/-
  FramehopUnwind.Unwinder.PeAccesses — the reads and the unchecked sums of x86_64/pe.rs.

  The plain path of `Unwinder.PeUnwind` as programs (see `Unwinder.Accesses`): each `rsp + offset`,
  `fp + offset` and `rsp + 8`, and what the parser's `resolve_operation` makes itself. Before it,
  on the way to a frame's work, the address is taken from the function's end, in the first frame,
  and the function's start from the address.

  Proved:
  - `plain_run`: the programs compute the plain path.
  - `plain_fits`: its sums fit iff `PlainFits`, which follows the instructions or operations.
  - `plain_reads`: every read is at a word.
-/

import FramehopUnwind.Unwinder.Accesses

namespace FramehopUnwind.Unwinder.X86.Pe

open Lib.Word Lib.Access

namespace Accesses

variable (U : PeUnwindInfo)

/-! ## The programs -/

def popReturnAddress (regs : UnwindRegs) : Prog (Except Failure Nat × UnwindRegs) :=
  .read regs.sp fun
    | none => .done (.error (.error (.missingStackData (some regs.sp))), regs)
    | some ra => .sum (decide (regs.sp + 8 < 2 ^ 64)) (.done (.ok ra, regs.set .rsp (wrappingAdd regs.sp 8)))

def simulateEpilog (frameRegister : Option Register) :
    List FunctionEpilogInstruction → UnwindRegs → Prog (Except Failure Nat × UnwindRegs)
  | [], regs => popReturnAddress regs
  | .addSp offset :: rest, regs =>
    .sum (decide (regs.sp + offset < 2 ^ 64))
      (simulateEpilog frameRegister rest (regs.set .rsp (wrappingAdd regs.sp offset)))
  | .addSpFromFp offset :: rest, regs =>
    match frameRegister with
    | none => .done (.error .panic, regs)
    | some fp =>
      .sum (decide (regs.get (convertPeRegister fp) + offset < 2 ^ 64))
        (simulateEpilog frameRegister rest (regs.set .rsp (wrappingAdd (regs.get (convertPeRegister fp)) offset)))
  | .pop reg :: rest, regs =>
    .read regs.sp fun
      | none => .done (.error (.error (.missingStackData (some regs.sp))), regs)
      | some val =>
        .sum (decide (regs.sp + 8 < 2 ^ 64))
          (simulateEpilog frameRegister rest ((regs.set (convertPeRegister reg) val).set .rsp (wrappingAdd regs.sp 8)))

def resolveOperations (info : U.UnwindInfo) : List UnwindOperation → UnwindRegs → Prog (Except Failure Nat × UnwindRegs)
  | [], regs => popReturnAddress regs
  | op :: rest, regs =>
    (U.resolveOperation info op regs).bind fun
      | (none, regs) => .done (.error (.error (.missingStackData none)), regs)
      | (some (some ra), regs) => .done (.ok ra, regs)
      | (some none, regs) => resolveOperations info rest regs

variable {U}

def plain (regs : UnwindRegs) : Work U → Prog (Except Failure Nat × UnwindRegs)
  | .leaf => popReturnAddress regs
  | .epilog info instructions => simulateEpilog (U.frameRegister info) instructions regs
  | .undo info ops => resolveOperations U info ops regs

variable (U) in
/-- The differences that are taken on the way to a frame's work, as `u32`s. -/
def tableSums (s : PeSections) (fuel address : Nat) (isFirstFrame : Bool) : List Bool :=
  match U.lookup s.pdata address with
  | none => []
  | some function =>
    match parseUnwindInfo U s function.unwindInfoAddress with
    | .error _ => []
    | .ok info =>
      (if isFirstFrame then [decide (address ≤ function.endAddress)] else []) ++
        match epilogInstructions U s function info address isFirstFrame, chainedInfo U s fuel info with
        | .ok none, .ok _ => [decide (function.beginAddress ≤ address)]
        | _, _ => []

/-! ## What they compute -/

variable (read : ReadStack)

@[simp] theorem popReturnAddress_run (regs : UnwindRegs) :
    (popReturnAddress regs).run read = Pe.popReturnAddress read regs := by
  unfold popReturnAddress Pe.popReturnAddress
  rw [Prog.run_read]
  cases read regs.sp <;> rfl

theorem simulateEpilog_run (frameRegister : Option Register) (rest : List FunctionEpilogInstruction)
    (regs : UnwindRegs) :
    (simulateEpilog frameRegister rest regs).run read = Pe.simulateEpilog frameRegister read rest regs := by
  induction rest generalizing regs with
  | nil => exact popReturnAddress_run read regs
  | cons instruction rest ih =>
    cases instruction with
    | addSp offset => exact ih _
    | addSpFromFp offset =>
      cases frameRegister with
      | none => rfl
      | some fp => exact ih _
    | pop reg =>
      rw [simulateEpilog, Pe.simulateEpilog, Prog.run_read]
      cases read regs.sp with
      | none => rfl
      | some val => exact ih _

theorem resolveOperations_run (info : U.UnwindInfo) (rest : List UnwindOperation) (regs : UnwindRegs) :
    (resolveOperations U info rest regs).run read = Pe.resolveOperations U info read rest regs := by
  induction rest generalizing regs with
  | nil => exact popReturnAddress_run read regs
  | cons op rest ih =>
    rw [resolveOperations, Pe.resolveOperations, Prog.run_bind]
    rcases (U.resolveOperation info op regs).run read with ⟨_ | _ | ra, regs'⟩
    · rfl
    · exact ih regs'
    · rfl

theorem plain_run (regs : UnwindRegs) (work : Work U) : (plain regs work).run read = work.plain read regs := by
  cases work with
  | leaf => exact popReturnAddress_run read regs
  | epilog info instructions => exact simulateEpilog_run read _ instructions regs
  | undo info ops => exact resolveOperations_run read info ops regs

/-! ## When their sums fit -/

/-- The return address, if it can be read, has a word above it. -/
def PopFits (regs : UnwindRegs) : Prop := read regs.sp ≠ none → regs.sp + 8 < 2 ^ 64

/-- Each stack pointer of the epilog is a word, as far as what it pops can be read. -/
def EpilogFits (frameRegister : Option Register) : List FunctionEpilogInstruction → UnwindRegs → Prop
  | [], regs => PopFits read regs
  | .addSp offset :: rest, regs =>
    regs.sp + offset < 2 ^ 64 ∧ EpilogFits frameRegister rest (regs.set .rsp (wrappingAdd regs.sp offset))
  | .addSpFromFp offset :: rest, regs =>
    ∀ fp ∈ frameRegister, regs.get (convertPeRegister fp) + offset < 2 ^ 64 ∧
      EpilogFits frameRegister rest (regs.set .rsp (wrappingAdd (regs.get (convertPeRegister fp)) offset))
  | .pop reg :: rest, regs =>
    ∀ val ∈ read regs.sp, regs.sp + 8 < 2 ^ 64 ∧
      EpilogFits frameRegister rest ((regs.set (convertPeRegister reg) val).set .rsp (wrappingAdd regs.sp 8))

/-- The parser's sums fit for each operation, as far as the ones before it neither break nor fail. -/
def OperationsFit (info : U.UnwindInfo) : List UnwindOperation → UnwindRegs → Prop
  | [], regs => PopFits read regs
  | op :: rest, regs =>
    (U.resolveOperation info op regs).Fits read ∧
      ∀ regs', (U.resolveOperation info op regs).run read = (some none, regs') → OperationsFit info rest regs'

def PlainFits (regs : UnwindRegs) : Work U → Prop
  | .leaf => PopFits read regs
  | .epilog info instructions => EpilogFits read (U.frameRegister info) instructions regs
  | .undo info ops => OperationsFit read info ops regs

theorem popReturnAddress_fits (regs : UnwindRegs) : (popReturnAddress regs).Fits read ↔ PopFits read regs := by
  unfold popReturnAddress PopFits
  rw [Prog.fits_read]
  cases read regs.sp <;> simp

theorem simulateEpilog_fits (frameRegister : Option Register) (rest : List FunctionEpilogInstruction)
    (regs : UnwindRegs) :
    (simulateEpilog frameRegister rest regs).Fits read ↔ EpilogFits read frameRegister rest regs := by
  induction rest generalizing regs with
  | nil => exact popReturnAddress_fits read regs
  | cons instruction rest ih =>
    cases instruction with
    | addSp offset => rw [simulateEpilog, EpilogFits, Prog.fits_sum, decide_eq_true_eq, ih]
    | addSpFromFp offset =>
      cases frameRegister with
      | none => exact iff_of_true trivial fun fp h => absurd h (Option.not_mem_none fp)
      | some fp =>
        simp only [simulateEpilog, EpilogFits, Prog.fits_sum, decide_eq_true_eq, ih, Option.mem_some_iff, forall_eq']
    | pop reg =>
      rw [simulateEpilog, EpilogFits, Prog.fits_read]
      cases read regs.sp with
      | none => exact iff_of_true trivial fun val h => absurd h (Option.not_mem_none val)
      | some val => simp only [Prog.fits_sum, decide_eq_true_eq, ih, Option.mem_some_iff, forall_eq']

theorem resolveOperations_fits (info : U.UnwindInfo) (rest : List UnwindOperation) (regs : UnwindRegs) :
    (resolveOperations U info rest regs).Fits read ↔ OperationsFit read info rest regs := by
  induction rest generalizing regs with
  | nil => exact popReturnAddress_fits read regs
  | cons op rest ih =>
    rw [resolveOperations, OperationsFit, Prog.fits_bind]
    refine and_congr_right fun _ => ?_
    rcases (U.resolveOperation info op regs).run read with ⟨_ | _ | ra, regs'⟩
    · exact iff_of_true trivial nofun
    · simp only [ih, Prod.mk.injEq, true_and, forall_eq']
    · refine iff_of_true trivial ?_
      intro regs'' h
      cases h

theorem plain_fits (regs : UnwindRegs) (work : Work U) : (plain regs work).Fits read ↔ PlainFits read regs work := by
  cases work with
  | leaf => exact popReturnAddress_fits read regs
  | epilog info instructions => exact simulateEpilog_fits read _ instructions regs
  | undo info ops => exact resolveOperations_fits read info ops regs

/-! ## Reads are at words -/

section Words

variable {read} {regs : UnwindRegs} (hread : read.Words)

theorem popReturnAddress_reads (h : regs.Words) : ∀ a ∈ (popReturnAddress regs).reads read, a < 2 ^ 64 := by
  unfold popReturnAddress
  rw [Prog.reads_read, List.forall_mem_cons]
  refine ⟨h.2 .rsp, ?_⟩
  cases read regs.sp <;> exact nofun

include hread

theorem simulateEpilog_reads (frameRegister : Option Register) (rest : List FunctionEpilogInstruction)
    (h : regs.Words) :
    ∀ a ∈ (simulateEpilog frameRegister rest regs).reads read, a < 2 ^ 64 := by
  induction rest generalizing regs with
  | nil => exact popReturnAddress_reads h
  | cons instruction rest ih =>
    cases instruction with
    | addSp offset => exact ih (set_words h _ (wrappingAdd_words _ _))
    | addSpFromFp offset =>
      cases frameRegister with
      | none => exact nofun
      | some fp => exact ih (set_words h _ (wrappingAdd_words _ _))
    | pop reg =>
      rw [simulateEpilog, Prog.reads_read, List.forall_mem_cons]
      refine ⟨h.2 .rsp, ?_⟩
      cases hv : read regs.sp with
      | none => exact nofun
      | some val => exact ih (set_words (set_words h _ (hread _ _ hv)) _ (wrappingAdd_words _ _))

theorem resolveOperations_reads (hU : U.Words) (info : U.UnwindInfo) (rest : List UnwindOperation) (h : regs.Words) :
    ∀ a ∈ (resolveOperations U info rest regs).reads read, a < 2 ^ 64 := by
  induction rest generalizing regs with
  | nil => exact popReturnAddress_reads h
  | cons op rest ih =>
    obtain ⟨hregs, -, hreads⟩ := hU info op regs read h hread
    rw [resolveOperations, Prog.reads_bind, List.forall_mem_append]
    refine ⟨hreads, ?_⟩
    generalize (U.resolveOperation info op regs).run read = r at hregs
    rcases r with ⟨_ | _ | ra, regs'⟩
    · exact nofun
    · exact ih hregs
    · exact nofun

theorem plain_reads (hU : U.Words) (h : regs.Words) (work : Work U) :
    ∀ a ∈ (plain regs work).reads read, a < 2 ^ 64 := by
  cases work with
  | leaf => exact popReturnAddress_reads h
  | epilog info instructions => exact simulateEpilog_reads hread _ instructions h
  | undo info ops => exact resolveOperations_reads hread hU info ops h

end Words

end Accesses

end FramehopUnwind.Unwinder.X86.Pe
