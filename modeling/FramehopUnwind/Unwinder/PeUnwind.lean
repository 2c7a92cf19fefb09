/-
  FramehopUnwind.Unwinder.PeUnwind — unwinding a PE image on x86-64
  (vendor/framehop/src/x86_64/pe.rs, vendor/framehop/src/pe.rs, and
  `for_sequence_of_offset_or_pop` in vendor/framehop/src/x86_64/unwind_rule.rs).

  A frame is unwound by undoing its prolog's operations, from the unwind info of its function
  and of those chained to it; in the first frame, an address in an epilog is unwound by
  simulating the rest of the epilog. Where the work is one stack adjustment followed by pops of
  callee-saved registers, a rule is given instead, which the cache keeps.

  The parser of the unwind info, `pe_unwind_info`, is not part of the repository: `PeUnwindInfo`
  stands for it. Its `resolve_operation` sees the stack and the registers only through
  `UnwindState`, so it is a program over them. `Resolves` is what it does on the two operations a
  rule can be made of.

  A chain of unwind infos is followed as long as it goes on. `chainedInfo` gives up after `fuel`
  of them, which is `diverges` here; a chain that passes `chainFuel` never ends.

  The plain path leaves the instruction pointer alone, gives a null return address out, and leaves
  the stack pointer where it stopped. A rule sets the instruction pointer, ends the stack at a null
  address and moves the stack pointer only with a caller. `asRule` is that difference.

  Proved:
  - `forSequenceOfOffsetOrPop_spec`: which operations have a rule, and which rule it is.
  - `pe_rule_refines_plain_iff`: executing the rule does what the plain path does, up to `asRule`,
    also where a read fails, exactly if the adjustment is by whole words.
  - `pe_chain_returns_iff`: the chain of unwind infos is followed to an end exactly if it does not
    come back to an info it has been at.
  - `pe_panics_iff`: unwinding a frame of a registered image panics exactly for a first frame in
    `.text` whose function has an unwind info and does not end in `.text` at or after the address.
-/

import FramehopUnwind.Unwinder.RegisterOrdering
import FramehopUnwind.Modules.Pe
import FramehopUnwind.Lib.Access
import FramehopUnwind.Lib.Runs

namespace FramehopUnwind.Unwinder.X86.Pe

open Lib.Word Lib.Runs Lib.Access Modules.Pe

/-! ## What `pe_unwind_info` gives -/

/-- Its registers, in the order of their numbers. -/
inductive Register where
  | rax | rcx | rdx | rbx | rsp | rbp | rsi | rdi | r8 | r9 | r10 | r11 | r12 | r13 | r14 | r15
  deriving DecidableEq, Repr

inductive FunctionEpilogInstruction where
  | addSp (offset : Nat)
  | addSpFromFp (offset : Nat)
  | pop (reg : Register)
  deriving DecidableEq, Repr

inductive UnwindOperation where
  | unStackAlloc (offset : Nat)
  | popNonVolatile (reg : Register)
  /-- The operations that the repository does not name. -/
  | other (code : Nat)
  deriving DecidableEq, Repr

/-- A row of the function table. -/
structure Function where
  beginAddress : Nat
  endAddress : Nat
  unwindInfoAddress : Nat
  deriving DecidableEq, Repr

structure PeUnwindInfo where
  UnwindInfo : Type
  /-- `FunctionTableEntries::parse(pdata).lookup(address)`. -/
  lookup : Bytes → Nat → Option Function
  parse : Bytes → Option UnwindInfo
  frameRegister : UnwindInfo → Option Register
  /-- The rest of an epilog, if the bytes are that. -/
  parseSequence : Bytes → Option Register → Option (List FunctionEpilogInstruction)
  /-- The address of the info that the trailer chains to. -/
  chained : UnwindInfo → Option Nat
  /-- The operations with the offsets of their instructions in the prolog. -/
  unwindOperations : UnwindInfo → List (Nat × UnwindOperation)
  /-- `none` is a failed read; `some (some ra)` is `Break(ra)`. -/
  resolveOperation : UnwindInfo → UnwindOperation → UnwindRegs → Prog (Option (Option Nat) × UnwindRegs)

def convertPeRegister : Register → Reg
  | .rax => .rax
  | .rcx => .rcx
  | .rdx => .rdx
  | .rbx => .rbx
  | .rsp => .rsp
  | .rbp => .rbp
  | .rsi => .rsi
  | .rdi => .rdi
  | .r8 => .r8
  | .r9 => .r9
  | .r10 => .r10
  | .r11 => .r11
  | .r12 => .r12
  | .r13 => .r13
  | .r14 => .r14
  | .r15 => .r15

/-! ## Rules for sequences -/

inductive OffsetOrPop where
  | none
  | offsetBy8 (offset : Nat)
  | pop (reg : Reg)
  deriving DecidableEq, Repr

/-- An adjustment, in words, if these fit a `u16`. -/
def OffsetOrPop.ofOffset (offset : Nat) : OffsetOrPop := if offset / 8 < 2 ^ 16 then .offsetBy8 (offset / 8) else .none

def OffsetOrPop.ofEpilog : FunctionEpilogInstruction → OffsetOrPop
  | .addSp offset => .ofOffset offset
  | .pop reg => .pop (convertPeRegister reg)
  | .addSpFromFp _ => .none

def OffsetOrPop.ofOperation : UnwindOperation → OffsetOrPop
  | .unStackAlloc offset => .ofOffset offset
  | .popNonVolatile reg => .pop (convertPeRegister reg)
  | .other _ => .none

/-- The loop that collects the registers, in an array of eight. -/
def collectPops : List OffsetOrPop → List Reg → Option (List Reg)
  | [], regs => some regs
  | .pop reg :: rest, regs => if regs.length < 8 then collectPops rest (regs ++ [reg]) else none
  | _ :: _, _ => none

def forSequenceOfOffsetOrPop (ops : List OffsetOrPop) : Option UnwindRule :=
  let (spOffsetBy8, rest) :=
    match ops with
    | .offsetBy8 offset :: rest => (offset, rest)
    | ops => (0, ops)
  match collectPops rest [] with
  | none => none
  | some regs =>
    if regs = [] ∧ spOffsetBy8 = 0 then some .justReturn
    else
      match encode regs with
      | none => none
      | some (registerCount, encodedRegistersToPop) =>
        some (.offsetSpAndPopRegisters spOffsetBy8 registerCount encodedRegistersToPop)

/-! ## Sections -/

inductive PeUnwinderError where
  | missingUnwindInfoData (rva : Nat)
  | missingInstructionData (rva : Nat)
  | missingStackData (address : Option Nat)
  | unwindInfoParseError
  deriving DecidableEq, Repr

/-- How a call ends without a result. -/
inductive Failure where
  | error (e : PeUnwinderError)
  | panic
  /-- The chain of unwind infos does not end within the fuel. -/
  | diverges
  deriving DecidableEq, Repr

structure PeSections where
  pdata : Bytes
  rdata : Option DataAtRvaRange
  xdata : Option DataAtRvaRange
  text : Option DataAtRvaRange
  deriving DecidableEq, Repr

/-- The section's bytes from an address on; slicing past its end panics. -/
def memoryAtRva (m : DataAtRvaRange) (address : Nat) : Except Failure (Option Bytes) :=
  if m.rvaRange.start ≤ address ∧ address < m.rvaRange.stop then
    if address - m.rvaRange.start ≤ m.data.length then .ok (some (m.data.drop (address - m.rvaRange.start)))
    else .error .panic
  else .ok none

/-- The bytes at an address in the first of the sections that holds it. -/
def findMemory (e : PeUnwinderError) (address : Nat) : List (Option DataAtRvaRange) → Except Failure Bytes
  | [] => .error (.error e)
  | none :: rest => findMemory e address rest
  | some m :: rest =>
    match memoryAtRva m address with
    | .error f => .error f
    | .ok (some bytes) => .ok bytes
    | .ok none => findMemory e address rest

def PeSections.unwindInfoMemoryAtRva (s : PeSections) (rva : Nat) : Except Failure Bytes :=
  findMemory (.missingUnwindInfoData rva) rva [s.rdata, s.xdata]

def PeSections.textMemoryAtRva (s : PeSections) (rva : Nat) : Except Failure Bytes :=
  findMemory (.missingInstructionData rva) rva [s.text]

/-! ## The plain path -/

variable (U : PeUnwindInfo)

/-- The return address at the stack pointer, popped. -/
def popReturnAddress (read : ReadStack) (regs : UnwindRegs) : Except Failure Nat × UnwindRegs :=
  match read regs.sp with
  | none => (.error (.error (.missingStackData (some regs.sp))), regs)
  | some ra => (.ok ra, regs.set .rsp (wrappingAdd regs.sp 8))

/-- The rest of an epilog, instruction by instruction. -/
def simulateEpilog (frameRegister : Option Register) (read : ReadStack) :
    List FunctionEpilogInstruction → UnwindRegs → Except Failure Nat × UnwindRegs
  | [], regs => popReturnAddress read regs
  | .addSp offset :: rest, regs => simulateEpilog frameRegister read rest (regs.set .rsp (wrappingAdd regs.sp offset))
  | .addSpFromFp offset :: rest, regs =>
    match frameRegister with
    | none => (.error .panic, regs)
    | some fp =>
      simulateEpilog frameRegister read rest (regs.set .rsp (wrappingAdd (regs.get (convertPeRegister fp)) offset))
  | .pop reg :: rest, regs =>
    match read regs.sp with
    | none => (.error (.error (.missingStackData (some regs.sp))), regs)
    | some val =>
      simulateEpilog frameRegister read rest
        ((regs.set (convertPeRegister reg) val).set .rsp (wrappingAdd regs.sp 8))

/-- The operations in turn, until one breaks with the return address. -/
def resolveOperations (info : U.UnwindInfo) (read : ReadStack) :
    List UnwindOperation → UnwindRegs → Except Failure Nat × UnwindRegs
  | [], regs => popReturnAddress read regs
  | op :: rest, regs =>
    match (U.resolveOperation info op regs).run read with
    | (none, regs) => (.error (.error (.missingStackData none)), regs)
    | (some (some ra), regs) => (.ok ra, regs)
    | (some none, regs) => resolveOperations info read rest regs

/-! ## `unwind_frame` -/

def parseUnwindInfo (s : PeSections) (rva : Nat) : Except Failure U.UnwindInfo :=
  match s.unwindInfoMemoryAtRva rva with
  | .error f => .error f
  | .ok data =>
    match U.parse data with
    | none => .error (.error .unwindInfoParseError)
    | some info => .ok info

/-- The unwind infos that are chained to one, with it. -/
def chainedInfo (s : PeSections) : Nat → U.UnwindInfo → Except Failure (List U.UnwindInfo)
  | 0, _ => .error .diverges
  | fuel + 1, info =>
    match U.chained info with
    | none => .ok [info]
    | some rva =>
      match parseUnwindInfo U s rva with
      | .error f => .error f
      | .ok next => (chainedInfo s fuel next).map (info :: ·)

/-- The operations to undo: of the first info those before the offset, then all of the others. -/
def operations (offset : Nat) : List U.UnwindInfo → List UnwindOperation
  | [] => []
  | info :: rest =>
    ((U.unwindOperations info).dropWhile (fun op => offset < op.1)).map Prod.snd ++
      rest.flatMap fun info => (U.unwindOperations info).map Prod.snd

/-- What is left to do for a frame, before any of it is done. -/
inductive Work where
  | leaf
  | epilog (info : U.UnwindInfo) (instructions : List FunctionEpilogInstruction)
  | undo (info : U.UnwindInfo) (ops : List UnwindOperation)

/-- The rest of the epilog that the first frame's address is in, if it is; slicing the code up to
    the function's end panics where `.text` ends before it. -/
def epilogInstructions (s : PeSections) (function : Function) (info : U.UnwindInfo) (address : Nat)
    (isFirstFrame : Bool) :
    Except Failure (Option (List FunctionEpilogInstruction)) :=
  if isFirstFrame then
    match s.textMemoryAtRva address with
    | .error f => .error f
    | .ok text =>
      if address ≤ function.endAddress ∧ function.endAddress - address ≤ text.length then
        .ok (U.parseSequence (text.take (function.endAddress - address)) (U.frameRegister info))
      else .error .panic
  else .ok none

/-- The part of `unwind_frame` that looks at the sections. -/
def findWork (s : PeSections) (fuel address : Nat) (isFirstFrame : Bool) : Except Failure (Work U) :=
  match U.lookup s.pdata address with
  | none => .ok .leaf
  | some function =>
    match parseUnwindInfo U s function.unwindInfoAddress with
    | .error f => .error f
    | .ok info =>
      match epilogInstructions U s function info address isFirstFrame with
      | .error f => .error f
      | .ok (some instructions) => .ok (.epilog info instructions)
      | .ok none =>
        (chainedInfo U s fuel info).map fun infos =>
          .undo info (operations U (subU32 address function.beginAddress) infos)

variable {U}

/-- The rule of a frame's work, if it has one. -/
def Work.rule : Work U → Option UnwindRule
  | .leaf => some .justReturn
  | .epilog _ instructions => forSequenceOfOffsetOrPop (instructions.map .ofEpilog)
  | .undo _ ops => forSequenceOfOffsetOrPop (ops.map .ofOperation)

/-- A frame's work done without a rule. -/
def Work.plain (read : ReadStack) (regs : UnwindRegs) : Work U → Except Failure Nat × UnwindRegs
  | .leaf => popReturnAddress read regs
  | .epilog info instructions => simulateEpilog (U.frameRegister info) read instructions regs
  | .undo info ops => resolveOperations U info read ops regs

variable (U) in
/-- `unwind_frame`; a failure leaves what the plain path has written so far. -/
def unwindFramePe (s : PeSections) (fuel address : Nat) (isFirstFrame : Bool) (read : ReadStack) (regs : UnwindRegs) :
    Except Failure (UnwindResult UnwindRule) × UnwindRegs :=
  match findWork U s fuel address isFirstFrame with
  | .error f => (.error f, regs)
  | .ok work =>
    match work.rule with
    | some rule => (.ok (.execRule rule), regs)
    | none =>
      match work.plain read regs with
      | (.error f, regs) => (.error f, regs)
      | (.ok ra, regs) => (.ok (.uncacheable ra), regs)

/-! ## What a sequence's rule is -/

theorem collectPops_some {ops : List OffsetOrPop} {regs out : List Reg} (h : collectPops ops regs = some out) :
    ∃ pops : List Reg, ops = pops.map .pop ∧ out = regs ++ pops := by
  induction ops generalizing regs with
  | nil =>
    cases h
    exact ⟨[], rfl, (List.append_nil _).symm⟩
  | cons op rest ih =>
    cases op with
    | none => cases h
    | offsetBy8 offset => cases h
    | pop reg =>
      unfold collectPops at h
      split at h
      case isTrue =>
        obtain ⟨pops, rfl, rfl⟩ := ih h
        exact ⟨reg :: pops, rfl, by simp⟩
      case isFalse => cases h

/-- The rule of an adjustment by `offset` words and pops of `pops`. -/
def IsRule (offset : Nat) (pops : List Reg) (rule : UnwindRule) : Prop :=
  (rule = .justReturn ∧ offset = 0 ∧ pops = []) ∨
    ∃ count r, encode pops = some (count, r) ∧ rule = .offsetSpAndPopRegisters offset count r

theorem forSequenceOfOffsetOrPop_spec {ops : List OffsetOrPop} {rule : UnwindRule}
    (h : forSequenceOfOffsetOrPop ops = some rule) :
    ∃ offset pops, (ops = .offsetBy8 offset :: pops.map .pop ∨ (offset = 0 ∧ ops = pops.map .pop)) ∧
      IsRule offset pops rule := by
  have tail : ∀ offset rest,
      (match collectPops rest [] with
      | none => none
      | some regs =>
        if regs = [] ∧ offset = 0 then some UnwindRule.justReturn
        else
          match encode regs with
          | none => none
          | some (count, r) => some (.offsetSpAndPopRegisters offset count r)) = some rule →
      ∃ pops : List Reg, rest = pops.map .pop ∧ IsRule offset pops rule := by
    intro offset rest h
    cases hc : collectPops rest [] with
    | none =>
      rw [hc] at h
      cases h
    | some regs =>
      rw [hc] at h
      obtain ⟨pops, rfl, hpops⟩ := collectPops_some hc
      rw [List.nil_append] at hpops
      subst hpops
      refine ⟨regs, rfl, ?_⟩
      dsimp only at h
      split at h
      case isTrue hzero =>
        cases h
        exact .inl ⟨rfl, hzero.2, hzero.1⟩
      case isFalse =>
        cases he : encode regs with
        | none =>
          rw [he] at h
          cases h
        | some code =>
          rw [he] at h
          cases h
          exact .inr ⟨_, _, he, rfl⟩
  unfold forSequenceOfOffsetOrPop at h
  split at h
  rename_i offset rest heq
  split at heq
  · cases heq
    obtain ⟨pops, rfl, hrule⟩ := tail _ _ h
    exact ⟨_, pops, .inl rfl, hrule⟩
  · cases heq
    obtain ⟨pops, rfl, hrule⟩ := tail _ _ h
    exact ⟨0, pops, .inr ⟨rfl, rfl⟩, hrule⟩

/-! ## Popping on both paths -/

/-- Pops of `pops`, then of the return address; a failed read is at the stack pointer left. -/
def popAll (read : ReadStack) : List Reg → UnwindRegs → Option Nat × UnwindRegs
  | [], regs =>
    match read regs.sp with
    | none => (none, regs)
    | some ra => (some ra, regs.set .rsp (wrappingAdd regs.sp 8))
  | reg :: rest, regs =>
    match read regs.sp with
    | none => (none, regs)
    | some val => popAll read rest ((regs.set reg val).set .rsp (wrappingAdd regs.sp 8))

/-- What a rule makes of the plain path's outcome, from the stack pointer `sp`. The two differ in
    this: the plain path leaves the instruction pointer, gives a null address out like any other, and
    leaves the stack pointer at the word it could not read, or above the null address. A rule sets
    the instruction pointer to the return address, ends the stack at a null address, and without a
    caller has the stack pointer where it was. The registers popped on the way stay written on both
    paths. -/
def asRule (sp : Nat) : Option Nat × UnwindRegs → Except Error (Option Nat) × UnwindRegs
  | (none, regs) => (.error (.couldNotReadStack regs.sp), regs.set .rsp sp)
  | (some ra, regs) => if ra = 0 then (.ok none, regs.set .rsp sp) else (.ok (some ra), regs.setIp ra)

/-- The end of a rule that pops registers. -/
def finishPops (sp₀ : Nat) (read : ReadStack) : Except Error Nat × UnwindRegs → Except Error (Option Nat) × UnwindRegs
  | (.error e, regs) => (.error e, regs)
  | (.ok sp, regs) =>
    match checkedAdd sp 8 with
    | none => (.error .integerOverflow, regs)
    | some newSp => finish sp₀ newSp regs.bp regs read

theorem exec_popRegisters {offset sp : Nat} (count ordering : Nat) (first : Bool) {regs : UnwindRegs} (read : ReadStack)
    (h : checkedAdd regs.sp (offset * 8) = some sp) :
    exec (.offsetSpAndPopRegisters offset count ordering) first regs read =
      finishPops regs.sp read (popRegisters read (decode count ordering) sp regs) := by
  unfold exec
  dsimp only
  rw [h]
  rfl

theorem popAll_ip (read : ReadStack) (pops : List Reg) (regs : UnwindRegs) :
    (popAll read pops regs).2.ip = regs.ip := by
  induction pops generalizing regs with
  | nil =>
    unfold popAll
    cases read regs.sp <;> simp
  | cons reg rest ih =>
    unfold popAll
    cases read regs.sp with
    | none => rfl
    | some val => simp [ih]

/-- The pops of a rule and those of the plain path, up to the stack pointer. -/
theorem popRegisters_popAll {read : ReadStack} {pops : List Reg} (hpops : Reg.rsp ∉ pops) {sp sp₀ : Nat}
    (hsp : sp + 8 * pops.length + 8 < 2 ^ 64) (hlt : sp₀ < sp + 8) {regs : UnwindRegs} (hregs : regs.sp = sp₀) :
    finishPops sp₀ read (popRegisters read pops sp regs) = asRule sp₀ (popAll read pops (regs.set .rsp sp)) := by
  induction pops generalizing sp regs with
  | nil =>
    have hadd : checkedAdd sp 8 = some (sp + 8) := checkedAdd_eq_some.mpr ⟨by simpa using hsp, rfl⟩
    have hsub : wrappingSub (sp + 8) 8 = sp := by
      simp only [List.length_nil] at hsp
      unfold wrappingSub
      omega
    have hwrap : wrappingAdd sp 8 = sp + 8 := wrappingAdd_of_lt (by simpa using hsp)
    have hself : regs.set .rsp sp₀ = regs := by
      rw [← hregs]
      exact set_get regs .rsp
    simp only [finishPops, popRegisters, hadd, popAll, set_sp, finish, hsub]
    cases hread : read sp with
    | none => simp [asRule, set_set, hself]
    | some ra =>
      have hne : ¬ (sp + 8 = sp₀ ∧ ra = regs.ip) := by omega
      simp only [asRule, hne, if_false, hwrap, set_set, hself]
      split
      case isTrue => rfl
      case isFalse =>
        refine Prod.ext rfl ?_
        rw [set_comm _ (by decide : Reg.rsp ≠ Reg.rbp)]
        exact congrArg (UnwindRegs.set · .rsp (sp + 8)) (set_get (regs.setIp ra) .rbp)
  | cons reg rest ih =>
    obtain ⟨hreg, hrest⟩ := List.ne_and_not_mem_of_not_mem_cons hpops
    simp only [List.length_cons] at hsp
    have hadd : checkedAdd sp 8 = some (sp + 8) := checkedAdd_eq_some.mpr ⟨by omega, rfl⟩
    have hwrap : wrappingAdd sp 8 = sp + 8 := wrappingAdd_of_lt (by omega)
    have hself : regs.set .rsp sp₀ = regs := by
      rw [← hregs]
      exact set_get regs .rsp
    simp only [popRegisters, popAll, set_sp]
    cases hread : read sp with
    | none => simp [finishPops, asRule, set_set, hself]
    | some val =>
      simp only [hadd, hwrap]
      rw [ih hrest (by omega) (by omega) ((set_sp_ne regs (Ne.symm hreg) val).trans hregs),
        set_comm regs hreg sp val, set_set]

/-- A rule does the pops behind its adjustment. -/
theorem exec_isRule {offset : Nat} {pops : List Reg} {rule : UnwindRule} (h : IsRule offset pops rule)
    (first : Bool) {regs : UnwindRegs} (read : ReadStack)
    (hsp : regs.sp + 8 * offset + 8 * pops.length + 8 < 2 ^ 64) :
    exec rule first regs read = asRule regs.sp (popAll read pops (regs.set .rsp (regs.sp + 8 * offset))) := by
  rcases h with ⟨rfl, rfl, rfl⟩ | ⟨count, r, hcode, rfl⟩
  · rw [← popRegisters_popAll List.not_mem_nil hsp (by omega) rfl]
    have hadd : checkedAdd regs.sp 8 = some (regs.sp + 8) := checkedAdd_eq_some.mpr ⟨by simpa using hsp, rfl⟩
    simp [exec, target, finishPops, hadd, okOr, popRegisters, bind, Except.bind, pure, Except.pure]
  · obtain ⟨-, hdecode, -⟩ := encode_some hcode
    have hpops : Reg.rsp ∉ pops := by
      rw [← hdecode]
      exact rsp_not_decoded count r
    have hadd : checkedAdd regs.sp (offset * 8) = some (regs.sp + 8 * offset) :=
      checkedAdd_eq_some.mpr ⟨by omega, by omega⟩
    rw [exec_popRegisters _ _ _ _ hadd, hdecode, popRegisters_popAll hpops hsp (by omega) rfl]

/-! ## A frame's work and its rule -/

/-- What the crate does for the two operations: a release build's sums. -/
structure Resolves (U : PeUnwindInfo) : Prop where
  unStackAlloc : ∀ info offset read regs, (U.resolveOperation info (.unStackAlloc offset) regs).run read =
    (some none, regs.set .rsp (wrappingAdd regs.sp offset))
  popNonVolatile : ∀ info reg read regs, (U.resolveOperation info (.popNonVolatile reg) regs).run read =
    match read regs.sp with
    | none => (none, regs)
    | some val => (some none, (regs.set (convertPeRegister reg) val).set .rsp (wrappingAdd regs.sp 8))

/-- Every adjustment is by whole words. -/
def Work.Aligned : Work U → Prop
  | .leaf => True
  | .epilog _ instructions => ∀ offset, .addSp offset ∈ instructions → 8 ∣ offset
  | .undo _ ops => ∀ offset, .unStackAlloc offset ∈ ops → 8 ∣ offset

/-- The return address, if every read was answered, and the registers. -/
def outcome (r : Except Failure Nat × UnwindRegs) : Option Nat × UnwindRegs := (r.1.toOption, r.2)

theorem outcome_popReturnAddress (read : ReadStack) (regs : UnwindRegs) :
    outcome (popReturnAddress read regs) = popAll read [] regs := by
  unfold popReturnAddress popAll
  cases read regs.sp with
  | none => rfl
  | some ra => rfl

theorem ofOffset_eq_offsetBy8 {offset n : Nat} (h : OffsetOrPop.ofOffset offset = .offsetBy8 n) :
    n = offset / 8 ∧ n < 2 ^ 16 := by
  unfold OffsetOrPop.ofOffset at h
  split at h
  case isTrue hlt =>
    cases h
    exact ⟨rfl, hlt⟩
  case isFalse => cases h

theorem ofOffset_ne_pop (offset : Nat) (reg : Reg) : OffsetOrPop.ofOffset offset ≠ .pop reg := by
  unfold OffsetOrPop.ofOffset
  split <;> simp

theorem ofEpilog_pop {i : FunctionEpilogInstruction} {reg : Reg} (h : OffsetOrPop.ofEpilog i = .pop reg) :
    ∃ r, i = .pop r ∧ convertPeRegister r = reg := by
  cases i with
  | addSp offset => exact absurd h (ofOffset_ne_pop offset reg)
  | addSpFromFp offset => cases h
  | pop r => exact ⟨r, rfl, OffsetOrPop.pop.inj h⟩

theorem ofEpilog_offsetBy8 {i : FunctionEpilogInstruction} {n : Nat} (h : OffsetOrPop.ofEpilog i = .offsetBy8 n) :
    ∃ offset, i = .addSp offset ∧ n = offset / 8 ∧ n < 2 ^ 16 := by
  cases i with
  | addSp offset => exact ⟨offset, rfl, ofOffset_eq_offsetBy8 h⟩
  | addSpFromFp offset => cases h
  | pop r => cases h

theorem ofOperation_pop {op : UnwindOperation} {reg : Reg} (h : OffsetOrPop.ofOperation op = .pop reg) :
    ∃ r, op = .popNonVolatile r ∧ convertPeRegister r = reg := by
  cases op with
  | unStackAlloc offset => exact absurd h (ofOffset_ne_pop offset reg)
  | popNonVolatile r => exact ⟨r, rfl, OffsetOrPop.pop.inj h⟩
  | other code => cases h

theorem ofOperation_offsetBy8 {op : UnwindOperation} {n : Nat} (h : OffsetOrPop.ofOperation op = .offsetBy8 n) :
    ∃ offset, op = .unStackAlloc offset ∧ n = offset / 8 ∧ n < 2 ^ 16 := by
  cases op with
  | unStackAlloc offset => exact ⟨offset, rfl, ofOffset_eq_offsetBy8 h⟩
  | popNonVolatile r => cases h
  | other code => cases h

theorem simulateEpilog_pops {frameRegister : Option Register} {read : ReadStack}
    {instructions : List FunctionEpilogInstruction} {pops : List Reg}
    (h : instructions.map OffsetOrPop.ofEpilog = pops.map .pop) (regs : UnwindRegs) :
    outcome (simulateEpilog frameRegister read instructions regs) = popAll read pops regs := by
  induction instructions generalizing pops regs with
  | nil =>
    obtain rfl : pops = [] := by simpa using h
    exact outcome_popReturnAddress read regs
  | cons i rest ih =>
    cases pops with
    | nil => cases h
    | cons reg pops =>
      obtain ⟨hi, hrest⟩ := List.cons.inj h
      obtain ⟨r, rfl, rfl⟩ := ofEpilog_pop hi
      unfold simulateEpilog popAll
      cases read regs.sp with
      | none => rfl
      | some val => exact ih hrest _

theorem resolveOperations_pops (hU : Resolves U) {info : U.UnwindInfo} {read : ReadStack} {ops : List UnwindOperation}
    {pops : List Reg} (h : ops.map OffsetOrPop.ofOperation = pops.map .pop) (regs : UnwindRegs) :
    outcome (resolveOperations U info read ops regs) = popAll read pops regs := by
  induction ops generalizing pops regs with
  | nil =>
    obtain rfl : pops = [] := by simpa using h
    exact outcome_popReturnAddress read regs
  | cons op rest ih =>
    cases pops with
    | nil => cases h
    | cons reg pops =>
      obtain ⟨hop, hrest⟩ := List.cons.inj h
      obtain ⟨r, rfl, rfl⟩ := ofOperation_pop hop
      unfold resolveOperations popAll
      rw [hU.popNonVolatile]
      cases read regs.sp with
      | none => rfl
      | some val => exact ih hrest _

/-- A sequence of pops has no adjustment. -/
theorem ofOffset_not_mem {ops : List OffsetOrPop} {pops : List Reg} (h : ops = pops.map .pop) (offset : Nat) :
    .ofOffset offset ∉ ops := by
  intro hmem
  rw [h] at hmem
  obtain ⟨reg, -, hreg⟩ := List.mem_map.mp hmem
  exact ofOffset_ne_pop offset reg hreg.symm

theorem addSp_not_mem {instructions : List FunctionEpilogInstruction} {pops : List Reg}
    (h : instructions.map OffsetOrPop.ofEpilog = pops.map .pop) (offset : Nat) : .addSp offset ∉ instructions := by
  intro hmem
  exact ofOffset_not_mem h offset (List.mem_map_of_mem hmem)

theorem unStackAlloc_not_mem {ops : List UnwindOperation} {pops : List Reg}
    (h : ops.map OffsetOrPop.ofOperation = pops.map .pop) (offset : Nat) : .unStackAlloc offset ∉ ops := by
  intro hmem
  exact ofOffset_not_mem h offset (List.mem_map_of_mem hmem)

/-- A frame's work that has a rule is an adjustment, then pops. -/
structure Work.Normal (work : Work U) (offset : Nat) (pops : List Reg) : Prop where
  plain : ∀ read regs, regs.sp < 2 ^ 64 →
    outcome (work.plain read regs) = popAll read pops (regs.set .rsp (wrappingAdd regs.sp offset))
  aligned : work.Aligned ↔ 8 ∣ offset
  words : offset / 8 < 2 ^ 16

theorem popAll_unmoved (read : ReadStack) (pops : List Reg) {regs : UnwindRegs} (h : regs.sp < 2 ^ 64) :
    popAll read pops (regs.set .rsp (wrappingAdd regs.sp 0)) = popAll read pops regs := by
  have hsp : wrappingAdd regs.sp 0 = regs.get .rsp := Nat.mod_eq_of_lt h
  rw [hsp, set_get]

theorem Work.normal (hU : Resolves U) {work : Work U} {rule : UnwindRule} (h : work.rule = some rule) :
    ∃ offset pops, work.Normal offset pops ∧ IsRule (offset / 8) pops rule := by
  cases work with
  | leaf =>
    cases h
    refine ⟨0, [], ⟨?_, by simp [Work.Aligned], by decide⟩, .inl ⟨rfl, rfl, rfl⟩⟩
    intro read regs hsp
    rw [popAll_unmoved read [] hsp]
    exact outcome_popReturnAddress read regs
  | epilog info instructions =>
    obtain ⟨n, pops, hops, hrule⟩ := forSequenceOfOffsetOrPop_spec h
    rcases hops with hops | ⟨rfl, hops⟩
    · cases instructions with
      | nil => cases hops
      | cons i rest =>
        obtain ⟨hi, hrest⟩ := List.cons.inj hops
        obtain ⟨offset, rfl, rfl, hlt⟩ := ofEpilog_offsetBy8 hi
        refine ⟨offset, pops, ⟨?_, ?_, hlt⟩, hrule⟩
        · intro read regs _
          exact simulateEpilog_pops hrest _
        · simp [Work.Aligned, addSp_not_mem hrest]
    · refine ⟨0, pops, ⟨?_, ?_, by decide⟩, hrule⟩
      · intro read regs hsp
        rw [popAll_unmoved read pops hsp]
        exact simulateEpilog_pops hops regs
      · simp [Work.Aligned, addSp_not_mem hops]
  | undo info ops =>
    obtain ⟨n, pops, hops, hrule⟩ := forSequenceOfOffsetOrPop_spec h
    rcases hops with hops | ⟨rfl, hops⟩
    · cases ops with
      | nil => cases hops
      | cons op rest =>
        obtain ⟨hop, hrest⟩ := List.cons.inj hops
        obtain ⟨offset, rfl, rfl, hlt⟩ := ofOperation_offsetBy8 hop
        refine ⟨offset, pops, ⟨?_, ?_, hlt⟩, hrule⟩
        · intro read regs _
          show outcome (resolveOperations U info read (.unStackAlloc offset :: rest) regs) = _
          unfold resolveOperations
          rw [hU.unStackAlloc]
          exact resolveOperations_pops hU hrest _
        · simp [Work.Aligned, unStackAlloc_not_mem hrest]
    · refine ⟨0, pops, ⟨?_, ?_, by decide⟩, hrule⟩
      · intro read regs hsp
        rw [popAll_unmoved read pops hsp]
        exact resolveOperations_pops hU hops regs
      · simp [Work.Aligned, unStackAlloc_not_mem hops]

theorem IsRule.length_le {offset : Nat} {pops : List Reg} {rule : UnwindRule} (h : IsRule offset pops rule) :
    pops.length ≤ 8 ∧ Reg.rsp ∉ pops := by
  rcases h with ⟨-, -, rfl⟩ | ⟨count, r, hcode, -⟩
  · simp
  · obtain ⟨-, hdecode, -⟩ := encode_some hcode
    refine ⟨?_, hdecode ▸ rsp_not_decoded count r⟩
    by_contra hlen
    have hgt : pops.length > encodeRegisters.length := Nat.lt_of_not_le hlen
    rw [encode, if_pos hgt] at hcode
    cases hcode

/-- With every read answered, the pops move the stack pointer past them and the return address. -/
theorem popAll_sp (ra : Nat) {pops : List Reg} (hpops : Reg.rsp ∉ pops) (regs : UnwindRegs)
    (hsp : regs.sp + 8 * pops.length + 8 < 2 ^ 64) :
    (popAll (fun _ => some ra) pops regs).1 = some ra ∧
      (popAll (fun _ => some ra) pops regs).2.sp = regs.sp + 8 * pops.length + 8 := by
  induction pops generalizing regs with
  | nil => simp [popAll, wrappingAdd_of_lt (show regs.sp + 8 < 2 ^ 64 by simpa using hsp)]
  | cons reg rest ih =>
    obtain ⟨-, hrest⟩ := List.ne_and_not_mem_of_not_mem_cons hpops
    simp only [List.length_cons] at hsp
    have hwrap : wrappingAdd regs.sp 8 = regs.sp + 8 := wrappingAdd_of_lt (by omega)
    have hnext : ((regs.set reg ra).set .rsp (wrappingAdd regs.sp 8)).sp = regs.sp + 8 := (set_sp _ _).trans hwrap
    obtain ⟨h1, h2⟩ := ih hrest ((regs.set reg ra).set .rsp (wrappingAdd regs.sp 8)) (by rw [hnext]; omega)
    refine ⟨h1, ?_⟩
    rw [hnext] at h2
    simp only [popAll, h2, List.length_cons]
    omega

/-- A stack pointer from which no adjustment and no pops of a rule overflow. -/
def Roomy (regs : UnwindRegs) : Prop := regs.sp + 2 ^ 20 ≤ 2 ^ 64

/-- A rule of PE unwind info, executed for this frame or from the cache for a later one, on any
    stack and any registers with a mebibyte above the stack pointer: the plain path leaves the
    instruction pointer there, and the rule does what `asRule` makes of the plain path, if and only
    if the adjustment it stands for is by whole words. -/
theorem pe_rule_refines_plain_iff (hU : Resolves U) {s : PeSections} {fuel address : Nat} {first : Bool}
    {read₀ : ReadStack} {regs₀ regs₁ : UnwindRegs} {rule : UnwindRule}
    (h : unwindFramePe U s fuel address first read₀ regs₀ = (.ok (.execRule rule), regs₁)) :
    regs₁ = regs₀ ∧ ∃ work, findWork U s fuel address first = .ok work ∧
      (∀ read regs, Roomy regs → (outcome (work.plain read regs)).2.ip = regs.ip) ∧
      ((∀ isFirstFrame read regs, Roomy regs →
        exec rule isFirstFrame regs read = asRule regs.sp (outcome (work.plain read regs))) ↔ work.Aligned) := by
  unfold unwindFramePe at h
  cases hwork : findWork U s fuel address first with
  | error f =>
    rw [hwork] at h
    cases h
  | ok work =>
    rw [hwork] at h
    cases hr : work.rule with
    | none =>
      simp only [hr] at h
      split at h <;> cases h
    | some rule' =>
      simp only [hr] at h
      cases h
      refine ⟨rfl, work, rfl, ?_⟩
      obtain ⟨offset, pops, hnormal, hrule⟩ := Work.normal hU hr
      obtain ⟨hlen, hpops⟩ := hrule.length_le
      have hwords := hnormal.words
      refine ⟨?_, ?_⟩
      · intro read regs hroomy
        unfold Roomy at hroomy
        rw [hnormal.plain read regs (by omega), popAll_ip, set_ip]
      rw [hnormal.aligned]
      constructor
      · -- with every read answered by 1, the two stack pointers differ by the remainder
        intro hall
        have hzero : (UnwindRegs.new 0 0 0).sp = 0 := rfl
        have heq := hall false (fun _ => some 1) (UnwindRegs.new 0 0 0) (by simp [Roomy, hzero])
        have hwrap : wrappingAdd 0 offset = offset := by
          rw [wrappingAdd_of_lt] <;> omega
        rw [hnormal.plain _ _ (by simp [hzero]), exec_isRule hrule _ _ (by rw [hzero]; omega), hzero, hwrap] at heq
        obtain ⟨h1, h2⟩ := popAll_sp 1 hpops ((UnwindRegs.new 0 0 0).set .rsp (0 + 8 * (offset / 8)))
          (by rw [set_sp]; omega)
        obtain ⟨h3, h4⟩ := popAll_sp 1 hpops ((UnwindRegs.new 0 0 0).set .rsp offset)
          (by rw [set_sp]; omega)
        rw [set_sp] at h2 h4
        have hsp := congrArg (fun r => r.2.sp) heq
        rw [← Prod.eta (popAll _ pops (UnwindRegs.set _ _ (0 + 8 * (offset / 8)))), h1,
          ← Prod.eta (popAll _ pops (UnwindRegs.set _ _ offset)), h3] at hsp
        simp only [asRule, one_ne_zero, if_false, setIp_sp, h2, h4] at hsp
        omega
      · intro hdvd isFirstFrame read regs hroomy
        unfold Roomy at hroomy
        have hoff : 8 * (offset / 8) = offset := Nat.mul_div_cancel' hdvd
        have hwrap : wrappingAdd regs.sp offset = regs.sp + offset := wrappingAdd_of_lt (by omega)
        rw [hnormal.plain read regs (by omega), hwrap, exec_isRule hrule _ _ (by omega), hoff]

/-- A parser that finds one function, at [0xf0, 0x110), with one unwind info at 0xe0: a stack
    allocation of 32 bytes behind a push of RBX, which may chain to another. -/
def sampleParser (chained : Option Nat) : PeUnwindInfo where
  UnwindInfo := Unit
  lookup _ address := if 0xf0 ≤ address ∧ address < 0x110 then some ⟨0xf0, 0x110, 0xe0⟩ else none
  parse _ := some ()
  frameRegister _ := none
  parseSequence _ _ := none
  chained _ := chained
  unwindOperations _ := [(5, .unStackAlloc 32), (1, .popNonVolatile .rbx)]
  resolveOperation _ op regs :=
    match op with
    | .unStackAlloc offset => .done (some none, regs.set .rsp (wrappingAdd regs.sp offset))
    | .popNonVolatile reg =>
      .read regs.sp fun
        | none => .done (none, regs)
        | some val => .done (some none, (regs.set (convertPeRegister reg) val).set .rsp (wrappingAdd regs.sp 8))
    | .other _ => .done (some none, regs)

/-- Three sections of 16 bytes: function table, unwind info and code. -/
def sampleSections : PeSections where
  pdata := List.replicate 16 0
  rdata := some ⟨List.replicate 16 0, ⟨0xe0, 0xf0⟩⟩
  xdata := none
  text := some ⟨List.replicate 16 0, ⟨0xf0, 0x100⟩⟩

theorem sampleParser_resolves (chained : Option Nat) : Resolves (sampleParser chained) where
  unStackAlloc _ _ _ _ := rfl
  popNonVolatile info reg read regs := by
    simp only [sampleParser, Prog.run_read]
    cases read regs.sp <;> rfl

/-- A return into the sample's function: its rule moves up four words and pops RBX. -/
theorem pe_rule_refines_plain_iff_sample : ∃ work, findWork (sampleParser none) sampleSections 1 0xf8 false = .ok work ∧
    (∀ read regs, Roomy regs → (outcome (work.plain read regs)).2.ip = regs.ip) ∧
    ((∀ isFirstFrame read regs, Roomy regs → exec (.offsetSpAndPopRegisters 4 1 0) isFirstFrame regs read =
      asRule regs.sp (outcome (work.plain read regs))) ↔ work.Aligned) :=
  (pe_rule_refines_plain_iff (sampleParser_resolves none)
    (show unwindFramePe _ _ _ _ _ (fun _ => none) (.new 0xf8 0x1000 0) = (_, _) from rfl)).2

/-! ## Chains -/

variable (U)

/-- The address that the unwind info at an address chains to. -/
def nextRva (s : PeSections) (rva : Nat) : Option Nat :=
  match parseUnwindInfo U s rva with
  | .error _ => none
  | .ok info => U.chained info

variable {U}

theorem memoryAtRva_ne_diverges (m : DataAtRvaRange) (address : Nat) : memoryAtRva m address ≠ .error .diverges := by
  unfold memoryAtRva
  split_ifs <;> simp

theorem findMemory_ne_diverges (e : PeUnwinderError) (address : Nat) (ms : List (Option DataAtRvaRange)) :
    findMemory e address ms ≠ .error .diverges := by
  induction ms with
  | nil => simp [findMemory]
  | cons m rest ih =>
    cases m with
    | none => exact ih
    | some m =>
      unfold findMemory
      cases hm : memoryAtRva m address with
      | error f =>
        intro h
        cases h
        exact memoryAtRva_ne_diverges m address hm
      | ok bytes =>
        cases bytes with
        | none => exact ih
        | some bytes => simp

theorem parseUnwindInfo_ne_diverges (s : PeSections) (rva : Nat) : parseUnwindInfo U s rva ≠ .error .diverges := by
  unfold parseUnwindInfo
  cases h : s.unwindInfoMemoryAtRva rva with
  | error f =>
    intro heq
    cases heq
    exact findMemory_ne_diverges _ _ _ h
  | ok data =>
    dsimp only
    split <;> simp

theorem map_eq_diverges {α β : Type} {x : Except Failure α} {g : α → β} :
    x.map g = .error .diverges ↔ x = .error .diverges := by
  cases x with
  | error f => simp [Except.map]
  | ok a => simp [Except.map]

/-- The fuel runs out exactly where the chain has that many further infos. -/
theorem chainedInfo_diverges_iff {s : PeSections} (n : Nat) {rva : Nat} {info : U.UnwindInfo}
    (h : parseUnwindInfo U s rva = .ok info) :
    chainedInfo U s n info = .error .diverges ↔
      ∃ last info', iterate? (nextRva U s) n rva = some last ∧ parseUnwindInfo U s last = .ok info' := by
  induction n generalizing rva info with
  | zero => exact ⟨fun _ => ⟨rva, info, rfl, h⟩, fun _ => rfl⟩
  | succ n ih =>
    have hnext : nextRva U s rva = U.chained info := by simp [nextRva, h]
    simp only [chainedInfo, iterate?, hnext]
    cases hc : U.chained info with
    | none => simp
    | some next =>
      dsimp only
      cases hp : parseUnwindInfo U s next with
      | error f =>
        have hf : f ≠ .diverges := by
          rintro rfl
          exact parseUnwindInfo_ne_diverges s next hp
        constructor
        · intro heq
          cases heq
          exact absurd rfl hf
        · intro hex
          obtain ⟨last, info', hlast, hinfo⟩ := hex
          cases n with
          | zero =>
            cases hlast
            rw [hp] at hinfo
            cases hinfo
          | succ n =>
            simp [iterate?, nextRva, hp] at hlast
      | ok info₁ =>
        dsimp only
        rw [map_eq_diverges]
        exact ih hp

/-- Further fuel changes nothing once the chain has ended. -/
theorem chainedInfo_stable {s : PeSections} {n m : Nat} (hnm : n ≤ m) {info : U.UnwindInfo}
    (h : chainedInfo U s n info ≠ .error .diverges) : chainedInfo U s m info = chainedInfo U s n info := by
  induction n generalizing m info with
  | zero => exact absurd rfl h
  | succ n ih =>
    obtain ⟨m, rfl⟩ : ∃ k, m = k + 1 := ⟨m - 1, by omega⟩
    unfold chainedInfo at h ⊢
    cases hc : U.chained info with
    | none => rfl
    | some next =>
      simp only [hc] at h
      dsimp only
      cases hp : parseUnwindInfo U s next with
      | error f => rfl
      | ok info₁ =>
        simp only [hp] at h
        dsimp only
        rw [ih (Nat.le_of_succ_le_succ hnm) (fun heq => h (map_eq_diverges.mpr heq))]

theorem findWork_stable {s : PeSections} {n m address : Nat} {first : Bool} (hnm : n ≤ m)
    (h : findWork U s n address first ≠ .error .diverges) :
    findWork U s m address first = findWork U s n address first := by
  unfold findWork at h ⊢
  split
  · rfl
  rename_i hl
  rw [hl] at h
  dsimp only at h
  split
  · rfl
  rename_i hp
  rw [hp] at h
  dsimp only at h
  split
  · rfl
  · rfl
  · rename_i he
    rw [he] at h
    rw [chainedInfo_stable hnm fun heq => h (map_eq_diverges.mpr heq)]

/-- The chain from an address comes back to an address it had. -/
def ComesBack (U : PeUnwindInfo) (s : PeSections) (rva : Nat) : Prop :=
  ∃ i j, i < j ∧ iterate? (nextRva U s) i rva ≠ none ∧ iterate? (nextRva U s) i rva = iterate? (nextRva U s) j rva

theorem nextRva_lt (h32 : ∀ info rva, U.chained info = some rva → rva < 2 ^ 32) {s : PeSections} {rva next : Nat}
    (h : nextRva U s rva = some next) : next < 2 ^ 32 := by
  unfold nextRva at h
  split at h
  · cases h
  · exact h32 _ _ h

theorem endless_chain_iff (h32 : ∀ info rva, U.chained info = some rva → rva < 2 ^ 32) {s : PeSections} {rva : Nat}
    {info : U.UnwindInfo} (h : parseUnwindInfo U s rva = .ok info) :
    (∀ fuel, chainedInfo U s fuel info = .error .diverges) ↔ ComesBack U s rva := by
  have hfin : {t | ∃ r, nextRva U s r = some t}.Finite := by
    apply (Set.finite_lt_nat (2 ^ 32)).subset
    intro t ht
    obtain ⟨r, hr⟩ := ht
    exact nextRva_lt h32 hr
  rw [ComesBack, ← endless_iff hfin]
  simp only [chainedInfo_diverges_iff _ h]
  constructor
  · intro hall n hnone
    obtain ⟨last, -, hlast, -⟩ := hall n
    rw [hnone] at hlast
    cases hlast
  · intro hall n
    -- an address that has a successor has an info
    obtain ⟨last, hlast⟩ := Option.ne_none_iff_exists'.mp (hall n)
    have hsucc := hall (n + 1)
    rw [iterate?_add, hlast] at hsucc
    cases hp : parseUnwindInfo U s last with
    | error f => simp [iterate?, nextRva, hp] at hsucc
    | ok info' => exact ⟨last, info', hlast, hp⟩

/-- One more than there are addresses to chain to. -/
def chainFuel : Nat := 2 ^ 32 + 1

/-- With this fuel only the chains that never end are given up. -/
theorem chainFuel_diverges_iff (h32 : ∀ info rva, U.chained info = some rva → rva < 2 ^ 32) {s : PeSections} {rva : Nat}
    {info : U.UnwindInfo} (h : parseUnwindInfo U s rva = .ok info) :
    chainedInfo U s chainFuel info = .error .diverges ↔ ∀ fuel, chainedInfo U s fuel info = .error .diverges := by
  refine ⟨?_, fun hall => hall chainFuel⟩
  intro hd
  obtain ⟨last, -, hlast, -⟩ := (chainedInfo_diverges_iff chainFuel h).mp hd
  exact (endless_chain_iff h32 h).mpr (comes_back_of_long (fun _ _ => nextRva_lt h32)
    (Option.ne_none_iff_exists'.mpr ⟨last, hlast⟩))

theorem findWork_returns_iff (h32 : ∀ info rva, U.chained info = some rva → rva < 2 ^ 32) (s : PeSections)
    (address : Nat) :
    (∃ n, ∀ fuel ≥ n, findWork U s fuel address false = findWork U s n address false ∧
      findWork U s fuel address false ≠ .error .diverges) ↔
      ∀ function, U.lookup s.pdata address = some function → ¬ ComesBack U s function.unwindInfoAddress := by
  cases hl : U.lookup s.pdata address with
  | none => simp [findWork, hl]
  | some function =>
    cases hp : parseUnwindInfo U s function.unwindInfoAddress with
    | error f =>
      have hf : f ≠ .diverges := by
        rintro rfl
        exact parseUnwindInfo_ne_diverges s _ hp
      have hback : ¬ ComesBack U s function.unwindInfoAddress := by
        intro hback
        obtain ⟨i, j, hij, hi, heq⟩ := hback
        obtain ⟨j, rfl⟩ : ∃ k, j = k + 1 := ⟨j - 1, by omega⟩
        rw [heq] at hi
        simp [iterate?, nextRva, hp] at hi
      simp [findWork, hl, hp, hf, hback]
    | ok info =>
      have hwork : ∀ fuel, findWork U s fuel address false =
          (chainedInfo U s fuel info).map fun infos =>
            Work.undo info (operations U (subU32 address function.beginAddress) infos) := by
        intro fuel
        simp only [findWork, hl, hp, epilogInstructions, Bool.false_eq_true, if_false]
      simp only [hwork, ne_eq, map_eq_diverges, Option.some.injEq, forall_eq', ← endless_chain_iff h32 hp]
      constructor
      · intro hend hall
        obtain ⟨n, hn⟩ := hend
        exact (hn n le_rfl).2 (hall n)
      · intro hend
        obtain ⟨n, hn⟩ := not_forall.mp hend
        refine ⟨n, ?_⟩
        intro fuel hfuel
        rw [chainedInfo_stable hfuel hn]
        exact ⟨rfl, hn⟩

/-! ## Failures of the plain path -/

/-- The plain path fails at a read, or panics for want of a frame register. -/
theorem popReturnAddress_ne {f : Failure} (hf : ∀ e, f ≠ .error e) (read : ReadStack) (regs : UnwindRegs) :
    (popReturnAddress read regs).1 ≠ .error f := by
  unfold popReturnAddress
  split
  · intro h
    exact hf _ (Except.error.inj h).symm
  · simp

theorem simulateEpilog_ne {f : Failure} (hf : ∀ e, f ≠ .error e) {frameRegister : Option Register} (read : ReadStack)
    {instructions : List FunctionEpilogInstruction}
    (h : f = .panic → frameRegister = none → ∀ offset, .addSpFromFp offset ∉ instructions) (regs : UnwindRegs) :
    (simulateEpilog frameRegister read instructions regs).1 ≠ .error f := by
  induction instructions generalizing regs with
  | nil => exact popReturnAddress_ne hf read regs
  | cons i rest ih =>
    have hrest := ih fun hp hfr offset hmem => h hp hfr offset (List.mem_cons_of_mem _ hmem)
    cases i with
    | addSp offset => exact hrest _
    | addSpFromFp offset =>
      cases frameRegister with
      | none =>
        intro heq
        exact h (Except.error.inj heq).symm rfl offset List.mem_cons_self
      | some fp => exact hrest _
    | pop reg =>
      unfold simulateEpilog
      cases read regs.sp with
      | none =>
        intro heq
        exact hf _ (Except.error.inj heq).symm
      | some val => exact hrest _

theorem resolveOperations_ne {f : Failure} (hf : ∀ e, f ≠ .error e) (info : U.UnwindInfo) (read : ReadStack)
    (ops : List UnwindOperation) (regs : UnwindRegs) : (resolveOperations U info read ops regs).1 ≠ .error f := by
  induction ops generalizing regs with
  | nil => exact popReturnAddress_ne hf read regs
  | cons op rest ih =>
    unfold resolveOperations
    split
    · intro heq
      exact hf _ (Except.error.inj heq).symm
    · simp
    · exact ih _

theorem Work.plain_ne_diverges (work : Work U) (read : ReadStack) (regs : UnwindRegs) :
    (work.plain read regs).1 ≠ .error .diverges := by
  have hf : ∀ e, Failure.diverges ≠ .error e := nofun
  cases work with
  | leaf => exact popReturnAddress_ne hf read regs
  | epilog info instructions => exact simulateEpilog_ne hf read nofun regs
  | undo info ops => exact resolveOperations_ne hf info read ops regs

/-- How `unwind_frame` fails, but for errors: where the sections do, or on the plain path. -/
theorem unwindFramePe_fails_iff {s : PeSections} {fuel address : Nat} {first : Bool} {read : ReadStack}
    {regs : UnwindRegs}
    {f : Failure} (hplain : ∀ work, findWork U s fuel address first = .ok work → (work.plain read regs).1 ≠ .error f) :
    (unwindFramePe U s fuel address first read regs).1 = .error f ↔ findWork U s fuel address first = .error f := by
  unfold unwindFramePe
  cases hwork : findWork U s fuel address first with
  | error f' => simp
  | ok work =>
    have hne := hplain work hwork
    simp only [reduceCtorEq, iff_false]
    cases work.rule with
    | some rule => simp
    | none =>
      dsimp only
      rcases hp : work.plain read regs with ⟨f' | ra, regs'⟩
      · rw [hp] at hne
        intro heq
        exact hne (congrArg Except.error (Except.error.inj heq))
      · simp

/-- Past the first frame, `unwind_frame` returns if and only if the chain of unwind infos of the
    address's function never comes back to an address it had; otherwise it follows the chain for
    ever. -/
theorem pe_chain_returns_iff (h32 : ∀ info rva, U.chained info = some rva → rva < 2 ^ 32) (s : PeSections)
    (address : Nat) (read : ReadStack) (regs : UnwindRegs) :
    (∃ n, ∀ fuel ≥ n,
      unwindFramePe U s fuel address false read regs = unwindFramePe U s n address false read regs ∧
      (unwindFramePe U s fuel address false read regs).1 ≠ .error .diverges) ↔
      ∀ function, U.lookup s.pdata address = some function → ¬ ComesBack U s function.unwindInfoAddress := by
  have hiff : ∀ fuel, (unwindFramePe U s fuel address false read regs).1 = .error .diverges ↔
      findWork U s fuel address false = .error .diverges :=
    fun fuel => unwindFramePe_fails_iff fun work _ => work.plain_ne_diverges read regs
  rw [← findWork_returns_iff h32]
  constructor
  · intro h
    obtain ⟨n, hn⟩ := h
    have hend : findWork U s n address false ≠ .error .diverges := fun heq => (hn n le_rfl).2 ((hiff n).mpr heq)
    refine ⟨n, ?_⟩
    intro fuel hfuel
    rw [findWork_stable hfuel hend]
    exact ⟨rfl, hend⟩
  · intro h
    obtain ⟨n, hn⟩ := h
    refine ⟨n, ?_⟩
    intro fuel hfuel
    obtain ⟨heq, hne⟩ := hn fuel hfuel
    refine ⟨?_, fun hd => hne ((hiff fuel).mp hd)⟩
    unfold unwindFramePe
    rw [heq]

/-- An unwind info that chains to itself is followed for ever. -/
theorem pe_chain_returns_iff_self : ¬ ∃ n, ∀ fuel ≥ n,
    unwindFramePe (sampleParser (some 0xe0)) sampleSections fuel 0xf8 false (fun _ => none) (.new 0 0 0) =
      unwindFramePe (sampleParser (some 0xe0)) sampleSections n 0xf8 false (fun _ => none) (.new 0 0 0) ∧
    (unwindFramePe (sampleParser (some 0xe0)) sampleSections fuel 0xf8 false (fun _ => none) (.new 0 0 0)).1 ≠
      .error .diverges := by
  rw [pe_chain_returns_iff (by
    intro info rva h
    cases h
    decide)]
  intro h
  exact h ⟨0xf0, 0x110, 0xe0⟩ rfl ⟨0, 1, Nat.zero_lt_one, by simp [iterate?], rfl⟩

/-! ## Panics -/

/-- The bytes are those of the whole range. -/
def Exact (m : DataAtRvaRange) : Prop := m.rvaRange.start + m.data.length = m.rvaRange.stop

theorem memoryAtRva_exact {m : DataAtRvaRange} (h : Exact m) (address : Nat) :
    memoryAtRva m address =
      .ok (if m.rvaRange.start ≤ address ∧
        address < m.rvaRange.stop then some (m.data.drop (address - m.rvaRange.start))
        else none) := by
  unfold Exact at h
  unfold memoryAtRva
  split
  case isTrue hin => rw [if_pos (by omega)]
  case isFalse => rfl

theorem findMemory_ne_panic (e : PeUnwinderError) (address : Nat) {ms : List (Option DataAtRvaRange)}
    (h : ∀ m, some m ∈ ms → Exact m) : findMemory e address ms ≠ .error .panic := by
  induction ms with
  | nil => simp [findMemory]
  | cons m rest ih =>
    have hrest := ih fun m hm => h m (List.mem_cons_of_mem _ hm)
    cases m with
    | none => exact hrest
    | some m =>
      unfold findMemory
      rw [memoryAtRva_exact (h m List.mem_cons_self)]
      split_ifs
      · simp
      · exact hrest

structure PeSections.Exact (s : PeSections) : Prop where
  rdata : ∀ m, s.rdata = some m → Pe.Exact m
  xdata : ∀ m, s.xdata = some m → Pe.Exact m
  text : ∀ m, s.text = some m → Pe.Exact m

theorem parseUnwindInfo_ne_panic {s : PeSections} (hs : s.Exact) (rva : Nat) :
    parseUnwindInfo U s rva ≠ .error .panic := by
  have hmem : s.unwindInfoMemoryAtRva rva ≠ .error .panic := by
    apply findMemory_ne_panic
    intro m hm
    simp only [List.mem_cons, List.not_mem_nil, or_false] at hm
    rcases hm with hm | hm
    · exact hs.rdata m hm.symm
    · exact hs.xdata m hm.symm
  unfold parseUnwindInfo
  cases h : s.unwindInfoMemoryAtRva rva with
  | error f =>
    intro heq
    cases heq
    exact hmem h
  | ok data =>
    dsimp only
    split <;> simp

theorem map_eq_panic {α β : Type} {x : Except Failure α} {g : α → β} : x.map g = .error .panic ↔ x = .error .panic := by
  cases x with
  | error f => simp [Except.map]
  | ok a => simp [Except.map]

theorem chainedInfo_ne_panic {s : PeSections} (hs : s.Exact) (fuel : Nat) (info : U.UnwindInfo) :
    chainedInfo U s fuel info ≠ .error .panic := by
  induction fuel generalizing info with
  | zero => simp [chainedInfo]
  | succ fuel ih =>
    unfold chainedInfo
    cases U.chained info with
    | none => simp
    | some rva =>
      dsimp only
      cases hp : parseUnwindInfo U s rva with
      | error f =>
        intro heq
        cases heq
        exact parseUnwindInfo_ne_panic hs rva hp
      | ok next =>
        dsimp only
        rw [ne_eq, map_eq_panic]
        exact ih next

/-- The sections of a module that `build_pe_module` made. -/
theorem built_exact {mem : Mem} {base size : Nat} (hsize : size < 2 ^ 32) (hbase : base + size < 2 ^ 64)
    {m : Module PeUnwindData} (hm : buildPeModule mem base size = .ok (some m)) {s : PeSections}
    (hdata : m.unwindData = .peUnwindInfo s.pdata s.rdata s.xdata s.text) : s.Exact := by
  obtain ⟨sections, hsec, hspec⟩ := peSections_spec mem base size
  cases sections with
  | none =>
    rw [buildPeModule, hsec] at hm
    cases hm
  | some info =>
    obtain ⟨hb, ⟨pdata, hp⟩, htable⟩ := hspec info rfl
    have hin : ∀ name s, info.slot name = some s → s.1 + s.2.length ≤ size := by
      intro name s hs
      obtain ⟨i, -, hat⟩ := htable name s hs
      exact hat.inside
    have hnew := newPe_spec hsize (by rw [hb]; exact hbase) hin hp
    simp only [buildPeModule, hsec, ok_bind, add_ok hbase, hnew] at hm
    cases hm
    obtain ⟨-, hrdata, hxdata, htext⟩ := PeUnwindData.peUnwindInfo.inj hdata
    have hexact : ∀ (slot : Option Section) m, slot.map Section.atRva = some m → Pe.Exact m := by
      intro slot m h
      obtain ⟨sec, -, rfl⟩ := Option.map_eq_some_iff.mp h
      rfl
    exact ⟨fun m h => hexact _ m (hrdata.trans h), fun m h => hexact _ m (hxdata.trans h),
      fun m h => hexact _ m (htext.trans h)⟩

/-- The address is in `.text`, its function is found with an unwind info that is found and parses,
    and the function does not end in `.text` at or after the address. -/
def EndsOutsideText (U : PeUnwindInfo) (s : PeSections) (address : Nat) : Prop :=
  ∃ function info text, U.lookup s.pdata address = some function ∧
    parseUnwindInfo U s function.unwindInfoAddress = .ok info ∧ s.text = some text ∧
    text.rvaRange.start ≤ address ∧ address < text.rvaRange.stop ∧
    ¬ (address ≤ function.endAddress ∧ function.endAddress ≤ text.rvaRange.stop)

theorem epilogInstructions_panics_iff {s : PeSections} (hs : s.Exact) (function : Function) (info : U.UnwindInfo)
    (address : Nat) :
    epilogInstructions U s function info address true = .error .panic ↔
      ∃ text, s.text = some text ∧ text.rvaRange.start ≤ address ∧ address < text.rvaRange.stop ∧
        ¬ (address ≤ function.endAddress ∧ function.endAddress ≤ text.rvaRange.stop) := by
  unfold epilogInstructions PeSections.textMemoryAtRva
  simp only [if_true]
  cases ht : s.text with
  | none => simp [findMemory]
  | some text =>
    have hexact := hs.text text ht
    simp only [findMemory, memoryAtRva_exact hexact, Option.some.injEq, exists_eq_left']
    unfold Exact at hexact
    by_cases hin : text.rvaRange.start ≤ address ∧ address < text.rvaRange.stop
    · simp only [if_pos hin, List.length_drop]
      -- what is left of `.text` from the address on
      have hlen : (address ≤ function.endAddress ∧
          function.endAddress - address ≤ text.data.length - (address - text.rvaRange.start)) ↔
          address ≤ function.endAddress ∧ function.endAddress ≤ text.rvaRange.stop := by omega
      simp only [hlen, hin, true_and]
      split
      case isTrue h => simp [h]
      case isFalse h => simp only [h, not_false_eq_true]
    · simp only [if_neg hin]
      constructor
      · intro h
        cases h
      · intro h
        exact absurd ⟨h.1, h.2.1⟩ hin

theorem findWork_panics_iff {s : PeSections} (hs : s.Exact) (fuel address : Nat) (first : Bool) :
    findWork U s fuel address first = .error .panic ↔ first = true ∧ EndsOutsideText U s address := by
  unfold findWork EndsOutsideText
  cases hl : U.lookup s.pdata address with
  | none => simp
  | some function =>
    cases hp : parseUnwindInfo U s function.unwindInfoAddress with
    | error f =>
      have hf : f ≠ .panic := by
        rintro rfl
        exact parseUnwindInfo_ne_panic hs _ hp
      simp [hp, hf]
    | ok info =>
      have hchain := chainedInfo_ne_panic hs fuel info
      cases first with
      | false => simp [hp, epilogInstructions, map_eq_panic, hchain]
      | true =>
        have hpanics := epilogInstructions_panics_iff hs function info address
        have hends : (∃ function' info' text, some function = some function' ∧
            parseUnwindInfo U s function'.unwindInfoAddress = .ok info' ∧ s.text = some text ∧
            text.rvaRange.start ≤ address ∧ address < text.rvaRange.stop ∧
            ¬ (address ≤ function'.endAddress ∧ function'.endAddress ≤ text.rvaRange.stop)) ↔
            epilogInstructions U s function info address true = .error .panic := by
          rw [hpanics]
          constructor
          · intro h
            obtain ⟨_, _, text, hf, _, h⟩ := h
            cases hf
            exact ⟨text, h⟩
          · intro h
            obtain ⟨text, h⟩ := h
            exact ⟨function, info, text, rfl, hp, h⟩
        rw [hends]
        simp only [hp, true_and]
        cases he : epilogInstructions U s function info address true with
        | error f => simp
        | ok instructions =>
          cases instructions with
          | none => simp [map_eq_panic, hchain]
          | some instructions => simp

/-- The instructions of an epilog are what the parser found. -/
theorem findWork_epilog {s : PeSections} {fuel address : Nat} {first : Bool} {info : U.UnwindInfo}
    {instructions : List FunctionEpilogInstruction}
    (h : findWork U s fuel address first = .ok (.epilog info instructions)) :
    ∃ bytes, U.parseSequence bytes (U.frameRegister info) = some instructions := by
  unfold findWork at h
  split at h
  · cases h
  split at h
  · cases h
  rename_i info' _
  split at h
  · cases h
  · rename_i he
    cases h
    unfold epilogInstructions at he
    split at he
    case isFalse => cases he
    case isTrue =>
      split at he
      · cases he
      · split at he
        case isFalse => cases he
        case isTrue => exact ⟨_, Except.ok.inj he⟩
  · cases hc : chainedInfo U s fuel info' with
    | error f =>
      rw [hc] at h
      cases h
    | ok infos =>
      rw [hc] at h
      cases h

/-- Given that the parser finds no adjustment from a frame register in a function without one: a
    call with the sections of a module that `build_pe_module` made panics, whatever the registers
    and the stack, if and only if it is for the first frame, whose address is in `.text` and whose
    function ends outside it. -/
theorem pe_panics_iff
    (hseq : ∀ bytes instructions offset, U.parseSequence bytes none = some instructions →
      .addSpFromFp offset ∉ instructions)
    {mem : Mem} {base size : Nat} (hsize : size < 2 ^ 32) (hbase : base + size < 2 ^ 64) {m : Module PeUnwindData}
    (hm : buildPeModule mem base size = .ok (some m)) {s : PeSections}
    (hdata : m.unwindData = .peUnwindInfo s.pdata s.rdata s.xdata s.text) (fuel address : Nat) (first : Bool)
    (read : ReadStack) (regs : UnwindRegs) :
    (unwindFramePe U s fuel address first read regs).1 = .error .panic ↔
      first = true ∧ EndsOutsideText U s address := by
  rw [← findWork_panics_iff (built_exact hsize hbase hm hdata) fuel]
  apply unwindFramePe_fails_iff
  intro work hwork
  have hf : ∀ e, Failure.panic ≠ .error e := nofun
  cases work with
  | leaf => exact popReturnAddress_ne hf read regs
  | undo info ops => exact resolveOperations_ne hf info read ops regs
  | epilog info instructions =>
    apply simulateEpilog_ne hf
    intro _ hfr offset
    obtain ⟨bytes, hbytes⟩ := findWork_epilog hwork
    rw [hfr] at hbytes
    exact hseq bytes instructions offset hbytes

/-- An image with the sample's sections: the headers at 0x40, `.pdata` at 0xd0, `.rdata` at 0xe0
    and `.text` at 0xf0. -/
def sampleImage : Mem := fun off =>
  (List.lookup off
    [(0, 0x4d), (1, 0x5a), (0x3c, 0x40), (0x40, 0x50), (0x41, 0x45), (0x46, 3),
      (0x58, 0x2e), (0x59, 0x70), (0x5a, 0x64), (0x5b, 0x61), (0x5c, 0x74), (0x5d, 0x61), (0x60, 0x10), (0x64, 0xd0),
      (0x80, 0x2e), (0x81, 0x72), (0x82, 0x64), (0x83, 0x61), (0x84, 0x74), (0x85, 0x61), (0x88, 0x10), (0x8c, 0xe0),
      (0xa8, 0x2e), (0xa9, 0x74), (0xaa, 0x65), (0xab, 0x78), (0xac, 0x74), (0xb0, 0x10), (0xb4, 0xf0)]).getD 0

/-- The sample's function ends past `.text`: a first frame in it panics. -/
theorem pe_panics_iff_past_text : ∃ m, buildPeModule sampleImage 0x140000000 0x100 = .ok (some m) ∧
    m.unwindData = .peUnwindInfo sampleSections.pdata sampleSections.rdata sampleSections.xdata sampleSections.text ∧
    (unwindFramePe (sampleParser none) sampleSections 1 0xf4 true (fun _ => none) (.new 0 0 0)).1 = .error .panic := by
  have hm : ∃ m, buildPeModule sampleImage 0x140000000 0x100 = .ok (some m) ∧
      m.unwindData = .peUnwindInfo sampleSections.pdata sampleSections.rdata sampleSections.xdata sampleSections.text :=
    ⟨_, rfl, rfl⟩
  obtain ⟨m, hm, hdata⟩ := hm
  refine ⟨m, hm, hdata, ?_⟩
  rw [pe_panics_iff (by
    intro bytes instructions offset h
    cases h) (by decide) (by decide) hm hdata]
  exact ⟨rfl, ⟨0xf0, 0x110, 0xe0⟩, (), _, rfl, rfl, rfl, by decide, by decide, by decide⟩

end FramehopUnwind.Unwinder.X86.Pe
