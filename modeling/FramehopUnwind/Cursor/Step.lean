/-
  FramehopUnwind.Cursor.Step — the cursor's init and step (cursor.rs, arch.rs, sigreturn.rs).

  What cursor.rs takes from the target is a parameter (`Native`), with its three values: x86_64,
  aarch64, and aarch64 Linux, which alone has the kernel's signal trampoline. A step reads the
  stack through at most two windows, and the trampoline's address from a cell that
  `sigreturn::init` sets once; both are its `Env`. The vDSO scan that finds the address is left
  out. The modules of a snapshot may be of every format.

  `step` is output-then-advance: five ends of walk set `done` (an unwind error, the root, a null
  return address, an unreadable or null signal frame), and each has output its frame. A step whose
  unwind panics or does not come back is `none`.
-/

import FramehopUnwind.State.Isolation
import FramehopUnwind.Unwinder.Plan

namespace FramehopUnwind.Cursor

open Lib.Word Unwinder
open State (Out Walk)

/-! ## The target -/

structure FhContext where
  r : Fin 5 → Nat

def FhContext.zeroed : FhContext := ⟨fun _ => 0⟩

def contextIp (ctx : FhContext) : Nat := ctx.r 0

def contextSp (ctx : FhContext) : Nat := ctx.r 1

def initialFrameAddress (ctx : FhContext) : FrameAddress := .instructionPointer (contextIp ctx)

/-- What cursor.rs takes from the target. -/
structure Native where
  arch : Arch
  formats : Crates → Formats arch
  sp : arch.Regs → Nat
  makeRegs : FhContext → Nat → arch.Regs
  ptrAuthMask : Nat → Nat
  /-- `sigreturn::restore`, on a target that has it. -/
  restore : Option (arch.Regs → ReadStack → Option (Nat × arch.Regs))
  makeRegs_sp : ∀ ctx mask, sp (makeRegs ctx mask) = contextSp ctx

def x86 : Native where
  arch := X86.archX86
  formats K := formatsX86 K.pe X86.Pe.chainFuel K.opcodeX86
  sp := X86.UnwindRegs.sp
  makeRegs ctx _ := X86.UnwindRegs.new (ctx.r 0) (ctx.r 1) (ctx.r 2)
  ptrAuthMask _ := u64Max
  restore := none
  makeRegs_sp _ _ := rfl

/-- The mask of the highest known code address. -/
def ptrAuthMask (maxCode : Nat) : Nat := if maxCode = 0 then u64Max else u64Max >>> leadingZeros maxCode

def aarch64 : Native where
  arch := Aarch64.archAarch64
  formats K := formatsAarch64 K.opcodeArm64
  sp := Aarch64.UnwindRegs.sp
  makeRegs ctx mask := Aarch64.UnwindRegs.newWithPtrAuthMask ⟨mask⟩ (ctx.r 3) (ctx.r 1) (ctx.r 2)
  ptrAuthMask := ptrAuthMask
  restore := none
  makeRegs_sp _ _ := rfl

def sigcontext : Nat := 128 + 176
def sigcontextRegs : Nat := 8
def sigcontextSp : Nat := 256
def sigcontextPc : Nat := 264

/-- `sigreturn::restore`: the interrupted pc and registers, from the signal frame at `sp`. -/
def restore (regs : Aarch64.UnwindRegs) (read : ReadStack) : Option (Nat × Aarch64.UnwindRegs) := do
  let base ← checkedAdd regs.sp sigcontext
  let field (offset : Nat) := read (wrappingAdd base offset)
  let fp ← field (sigcontextRegs + 29 * 8)
  let lr ← field (sigcontextRegs + 30 * 8)
  let sp ← field sigcontextSp
  let pc ← field sigcontextPc
  return (pc, ((regs.setFp fp).setLr lr).setSp sp)

def aarch64Linux : Native := { aarch64 with restore := some restore }

/-! ## Init and step -/

/-- A published module set. -/
structure Snapshot where
  unw : UnwinderInternal UnwindData
  maxCodeAddr : Nat
  cached : maxCodeAddr = maxKnownCodeAddress unw.modules

variable (K : Crates) (N : Native)

/-- `unwind_frame_impl` on the target. -/
def Native.unwindFrameImpl : Callback UnwindData ImplError N.arch :=
  unwindFrameImplAll K.gimli K.unwindInfo (N.formats K)

structure SlotInner where
  cache : RuleCache N.arch.Rule
  regs : N.arch.Regs
  curAddr : FrameAddress
  curIp : Nat
  done : Bool
  stackLo : Nat
  stackHi : Nat
  stackLo2 : Nat
  stackHi2 : Nat

def placeholderInner : SlotInner N where
  cache := RuleCache.new
  regs := N.makeRegs FhContext.zeroed u64Max
  curAddr := .instructionPointer 0
  curIp := 0
  done := true
  stackLo := 0
  stackHi := 0
  stackLo2 := 0
  stackHi2 := 0

/-- What `cursor_init_bounds2` reads: its arguments and the thread's registered bounds. -/
structure InitArgs where
  ctx : FhContext
  stackLo : Nat
  stackHi : Nat
  stackLo2 : Nat
  stackHi2 : Nat
  bounds : Nat × Nat

def fallbackSpan : Nat := 16 * 1024 * 1024

/-- The registered bounds if `sp` is in them, else 16 MiB from the page of `sp` on. -/
def stackWindow (bounds : Nat × Nat) (sp : Nat) : Nat × Nat :=
  if bounds.1 ≠ 0 ∧ bounds.2 ≠ 0 ∧ bounds.1 ≤ sp ∧ sp < bounds.2 then bounds
  else
    let lo := sp / 0x1000 * 0x1000
    (lo, saturatingAdd lo fallbackSpan)

variable {N}

/-- `cursor_init_bounds2`'s writes to the slot it claimed. -/
def initFill (a : InitArgs) (snap : Snapshot) (inner : SlotInner N) : SlotInner N :=
  let mask := N.ptrAuthMask snap.maxCodeAddr
  let window := if a.stackLo < a.stackHi then (a.stackLo, a.stackHi) else stackWindow a.bounds (contextSp a.ctx)
  let window2 := if a.stackLo2 < a.stackHi2 then (a.stackLo2, a.stackHi2) else (0, 0)
  { inner with
    regs := N.makeRegs a.ctx mask, curAddr := initialFrameAddress a.ctx, curIp := contextIp a.ctx, done := false,
    stackLo := window.1, stackHi := window.2, stackLo2 := window2.1, stackHi2 := window2.2 }

/-- What a step reads outside its slot: the words of the stack, and the trampoline's address
    once `sigreturn::init` has set it. -/
structure Env where
  mem : Nat → Nat
  trampoline : Option Nat

/-- A bounded and aligned read of the stack. -/
def readStack (inner : SlotInner N) (mem : Nat → Nat) : ReadStack := fun addr =>
  let stop := saturatingAdd addr 8
  let inWindow := inner.stackLo ≤ addr ∧ stop ≤ inner.stackHi
  let inWindow2 := inner.stackLo2 ≤ addr ∧ stop ≤ inner.stackHi2
  if ¬ (inWindow ∨ inWindow2) ∨ addr % 8 ≠ 0 then none else some (mem addr)

def isTrampoline (trampoline : Option Nat) (ip : Nat) : Bool := trampoline.any fun t => t != 0 && t == ip

/-- The frame a step outputs, with its return code. -/
def output (inner : SlotInner N) (rc : Int) : Out := ⟨rc, inner.curIp, N.sp inner.regs⟩

/-- What the unwind leaves a step to do. -/
def advanceTo (inner : SlotInner N) : Unwound N.arch → RuleCache N.arch.Rule → Out × SlotInner N
  | (.ok (some (returnAddress, interrupted)), regs), cache =>
    if h : 0 < returnAddress then
      (output inner 1,
        { inner with
          regs := regs, cache := cache, curIp := returnAddress,
          curAddr :=
            if interrupted then .instructionPointer returnAddress else .returnAddress returnAddress h })
    else (output inner 0, { inner with regs := regs, cache := cache, done := true })
  | (.ok none, regs), cache => (output inner 0, { inner with regs := regs, cache := cache, done := true })
  | (.error _, regs), cache => (output inner 0, { inner with regs := regs, cache := cache, done := true })

/-- `step` from `unwind_frame_signal_aware` on. -/
def stepUnwind (snap : Snapshot) (read : ReadStack) (inner : SlotInner N) : Option (Out × SlotInner N) :=
  match withCache (N.unwindFrameImpl K) snap.unw inner.curAddr inner.regs inner.cache read with
  | (some unwound, cache) => some (advanceTo inner unwound cache)
  | (none, _) => none

/-- What the kernel's signal frame leaves a step to do. -/
def restoreTo (inner : SlotInner N) : Option (Nat × N.arch.Regs) → Out × SlotInner N
  | some (pc, regs) =>
    if pc ≠ 0 then (output inner 1, { inner with regs := regs, curIp := pc, curAddr := .instructionPointer pc })
    else (output inner 0, { inner with regs := regs, done := true })
  | none => (output inner 0, { inner with done := true })

/-- `step` of a cursor whose walk is not done. -/
def step (snap : Snapshot) (env : Env) (inner : SlotInner N) : Option (Out × SlotInner N) :=
  let read := readStack inner env.mem
  match N.restore with
  | none => stepUnwind K snap read inner
  | some restore =>
    if isTrampoline env.trampoline inner.curIp then some (restoreTo inner (restore inner.regs read))
    else stepUnwind K snap read inner

variable (N)

/-- The walk of cursor.rs. -/
def walk : Walk where
  Snap := Snapshot
  Inner := SlotInner N
  Args := InitArgs
  Env := Env
  placeholder := placeholderInner N
  fill := initFill
  done inner := inner.done
  step := step K
  reg inner := (inner.curIp, N.sp inner.regs)

/-! ## What a step can do -/

/-- The targets cursor.rs is built for. -/
inductive Platform where
  | x86
  | aarch64
  | aarch64Linux
  deriving DecidableEq, Repr

def Platform.native : Platform → Native
  | x86 => Cursor.x86
  | aarch64 => Cursor.aarch64
  | aarch64Linux => Cursor.aarch64Linux

variable {N}

/-- The call a step makes to the unwinder. -/
def SlotInner.call (snap : Snapshot) (read : ReadStack) (inner : SlotInner N) : Call UnwindData N.arch :=
  ⟨snap.unw, inner.curAddr, inner.regs, read⟩

/-- The plan of the tables for where the cursor stands. -/
def SlotInner.plan (snap : Snapshot) (inner : SlotInner N) : Plan (N.formats K) :=
  planAll K.gimli K.unwindInfo (N.formats K) snap.unw.modules inner.curAddr.addressForLookup
    (!inner.curAddr.isReturnAddress)

/-- The cached rule for where the cursor stands. -/
def SlotInner.cached (snap : Snapshot) (inner : SlotInner N) : Option N.arch.Rule :=
  inner.cache.lookup inner.curAddr.addressForLookup snap.unw.modulesGeneration

/-- The outcomes of that call. -/
def Unwinds (snap : Snapshot) (read : ReadStack) (inner : SlotInner N) : Unwound N.arch → Prop :=
  (inner.call snap read).Outcome K.gimli K.unwindInfo (N.formats K) inner.cache

/-- The kernel's signal frame, if the cursor stands at the trampoline of a target that has it. -/
def signalFrame (env : Env) (inner : SlotInner N) : Option (N.arch.Regs → ReadStack → Option (Nat × N.arch.Regs)) :=
  N.restore.filter fun _ => isTrampoline env.trampoline inner.curIp

variable {K} {snap : Snapshot} {env : Env} {inner : SlotInner N} {r : Out × SlotInner N}

/-- A step crosses the kernel's signal frame or unwinds by the tables. -/
theorem step_signalFrame (K : Crates) (snap : Snapshot) (env : Env) (inner : SlotInner N) :
    step K snap env inner =
      match signalFrame env inner with
      | some restore => some (restoreTo inner (restore inner.regs (readStack inner env.mem)))
      | none => stepUnwind K snap (readStack inner env.mem) inner := by
  unfold step signalFrame
  cases N.restore with
  | none => rfl
  | some restore => cases isTrampoline env.trampoline inner.curIp <;> rfl

theorem stepUnwind_eq (K : Crates) (snap : Snapshot) (read : ReadStack) (inner : SlotInner N) :
    stepUnwind K snap read inner =
      ((inner.call snap read).run (N.unwindFrameImpl K) inner.cache).1.map fun u =>
        advanceTo inner u ((inner.call snap read).run (N.unwindFrameImpl K) inner.cache).2 := by
  have hrun : withCache (N.unwindFrameImpl K) snap.unw inner.curAddr inner.regs inner.cache read =
    (inner.call snap read).run (N.unwindFrameImpl K) inner.cache := rfl
  unfold stepUnwind
  rw [hrun]
  rcases (inner.call snap read).run (N.unwindFrameImpl K) inner.cache with ⟨_ | u, cache⟩ <;> rfl

/-- By the tables, a step goes where an outcome of the unwind leads. -/
theorem stepUnwind_eq_some {read : ReadStack} (h : stepUnwind K snap read inner = some r) :
    ∃ u cache, Unwinds K snap read inner u ∧ r = advanceTo inner u cache := by
  rw [stepUnwind_eq] at h
  obtain ⟨u, hu, rfl⟩ := Option.map_eq_some_iff.mp h
  exact ⟨u, _, run_eq_some_iff.mp hu, rfl⟩

/-- Where an outcome leads, the step goes. -/
theorem stepUnwind_of_unwinds {read : ReadStack} {u : Unwound N.arch} (h : Unwinds K snap read inner u) :
    ∃ cache, stepUnwind K snap read inner = some (advanceTo inner u cache) := by
  have hrun : ((inner.call snap read).run (N.unwindFrameImpl K) inner.cache).1 = some u := run_eq_some_iff.mpr h
  rw [stepUnwind_eq, hrun]
  exact ⟨_, rfl⟩

/-- There is at most one outcome. -/
theorem Unwinds.unique {read : ReadStack} {u u' : Unwound N.arch} (h : Unwinds K snap read inner u)
    (h' : Unwinds K snap read inner u') : u = u' :=
  Option.some.inj ((run_eq_some_iff.mpr h).symm.trans (run_eq_some_iff.mpr h'))

/-- Everything a step can do. -/
theorem step_cases (h : step K snap env inner = some r) :
    (∃ restore, signalFrame env inner = some restore ∧
      r = restoreTo inner (restore inner.regs (readStack inner env.mem))) ∨
    (signalFrame env inner = none ∧ ∃ u cache, Unwinds K snap (readStack inner env.mem) inner u ∧
      r = advanceTo inner u cache) := by
  rw [step_signalFrame] at h
  cases hs : signalFrame env inner with
  | some restore =>
    rw [hs] at h
    exact .inl ⟨restore, rfl, (Option.some.inj h).symm⟩
  | none =>
    rw [hs] at h
    exact .inr ⟨rfl, stepUnwind_eq_some h⟩

/-- An unwind goes on at a non-zero address or ends the walk. -/
theorem advanceTo_cases (inner : SlotInner N) (u : Unwound N.arch) (cache : RuleCache N.arch.Rule) :
    (∃ (a : Nat) (interrupted : Bool) (ha : 0 < a), u.1 = .ok (some (a, interrupted)) ∧
      advanceTo inner u cache =
        (output inner 1,
          { inner with
            regs := u.2, cache := cache, curIp := a,
            curAddr := if interrupted then .instructionPointer a else .returnAddress a ha })) ∨
    (∀ a interrupted, u.1 = .ok (some (a, interrupted)) → a = 0) ∧
      advanceTo inner u cache = (output inner 0, { inner with regs := u.2, cache := cache, done := true }) := by
  rcases u with ⟨e | _ | ⟨a, interrupted⟩, regs⟩
  · exact .inr ⟨nofun, rfl⟩
  · exact .inr ⟨nofun, rfl⟩
  · by_cases ha : 0 < a
    · exact .inl ⟨a, interrupted, ha, rfl, dif_pos ha⟩
    · refine .inr ⟨?_, dif_neg ha⟩
      intro a' interrupted' heq
      cases heq
      exact Nat.eq_zero_of_not_pos ha

theorem restoreTo_cases (inner : SlotInner N) (v : Option (Nat × N.arch.Regs)) :
    (∃ pc regs, v = some (pc, regs) ∧ 0 < pc ∧ restoreTo inner v =
      (output inner 1, { inner with regs := regs, curIp := pc, curAddr := .instructionPointer pc })) ∨
    (∃ regs, v = some (0, regs) ∧ restoreTo inner v = (output inner 0, { inner with regs := regs, done := true })) ∨
    v = none ∧ restoreTo inner v = (output inner 0, { inner with done := true }) := by
  rcases v with _ | ⟨pc, regs⟩
  · exact .inr (.inr ⟨rfl, rfl⟩)
  · by_cases hpc : pc = 0
    · subst hpc
      exact .inr (.inl ⟨regs, rfl, rfl⟩)
    · exact .inl ⟨pc, regs, rfl, Nat.pos_of_ne_zero hpc, if_pos hpc⟩

/-- A step changes the position, the registers and the cache and goes on, or ends the walk and
    changes the registers and the cache. -/
theorem step_frame (h : step K snap env inner = some r) :
    (∃ regs cache ip address, r = (output inner 1,
      { inner with regs := regs, cache := cache, curIp := ip, curAddr := address })) ∨
    ∃ regs cache, r = (output inner 0, { inner with regs := regs, cache := cache, done := true }) := by
  rcases step_cases h with ⟨restore, -, rfl⟩ | ⟨-, u, cache, -, rfl⟩
  · rcases restoreTo_cases inner (restore inner.regs (readStack inner env.mem)) with
      ⟨pc, regs, -, -, h⟩ | ⟨regs, -, h⟩ | ⟨-, h⟩
    · exact .inl ⟨regs, inner.cache, pc, _, h⟩
    · exact .inr ⟨regs, inner.cache, h⟩
    · exact .inr ⟨inner.regs, inner.cache, h⟩
  · rcases advanceTo_cases inner u cache with ⟨a, interrupted, ha, -, h⟩ | ⟨-, h⟩
    · exact .inl ⟨u.2, cache, a, _, h⟩
    · exact .inr ⟨u.2, cache, h⟩

/-! ## The steps of a walk -/

section Walks

variable (K) {envs : List Env} {n : Nat}

/-- The slot after the first `n` steps. -/
def slotAt (snap : Snapshot) (inner : SlotInner N) (envs : List Env) (n : Nat) : SlotInner N :=
  (walk K N).innerAt snap inner envs n

variable {K}

/-- A step of a walk that is not done. -/
theorem slotAt_step (hr : (walk K N).Returns snap inner envs) (he : envs[n]? = some env)
    (hd : (slotAt K snap inner envs n).done = false) :
    ∃ out, step K snap env (slotAt K snap inner envs n) = some (out, slotAt K snap inner envs (n + 1)) ∧
      ((walk K N).alone snap inner envs).1[n]? = some out :=
  ⟨_, State.returned_step hr he hd, State.alone_out he⟩

/-- A walk that is done stays where it is. -/
theorem slotAt_done (he : envs[n]? = some env) (hd : (slotAt K snap inner envs n).done = true) :
    slotAt K snap inner envs (n + 1) = slotAt K snap inner envs n ∧
      ((walk K N).alone snap inner envs).1[n]? = some ⟨0, 0, 0⟩ := by
  have hadvance : (walk K N).advance snap env (slotAt K snap inner envs n) = (⟨0, 0, 0⟩, slotAt K snap inner envs n) :=
    if_pos hd
  refine ⟨(State.innerAt_succ (W := walk K N) he).trans (congrArg Prod.snd hadvance), ?_⟩
  exact (State.alone_out (W := walk K N) he).trans (congrArg (fun r => some r.1) hadvance)

end Walks

end FramehopUnwind.Cursor
