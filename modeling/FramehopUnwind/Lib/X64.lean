/-
  FramehopUnwind.Lib.X64 — straight-line x86-64 code at the ends of a function.

  The instructions by which functions save and restore registers and leave, as the architecture
  defines them: `push` and `pop` of a register, with or without a REX prefix, `mov rbp, rsp`,
  the near return, and jumps: by a displacement, or to the address in a register or a word of
  memory. Memory is in words at any address; a word may be unmapped, and accessing it faults. The
  words of one stack do not overlap.

  A jump inside the code goes on there. A state in which control leaves has the return address at
  its stack pointer: a return is yet to pop it, and what a tail call goes to will. Runs are those of
  `Lib.Machine`.
-/

import FramehopUnwind.Lib.Machine
import FramehopUnwind.Lib.Word

namespace FramehopUnwind.Lib.X64

open Machine Word

/-- A register number. -/
abbrev Gpr := BitVec 4

def rsp : Gpr := 4

def rbp : Gpr := 5

/-- Where a jump takes its address from. -/
inductive Target where
  | near (disp : Int)
  | reg (r : Gpr)
  | mem (base : Option Gpr) (index : Option (Gpr × Nat)) (disp : Int)
  /-- At a displacement from the next instruction. -/
  | rip (disp : Int)
  deriving DecidableEq, Repr

inductive Inst where
  | push (r : Gpr)
  | pop (r : Gpr)
  | movRbpRsp
  | ret
  | jmp (t : Target)
  deriving DecidableEq, Repr

/-- The register of an opcode's low bits, extended by a prefix. -/
def gpr (rex opcode : UInt8) : Gpr := rex.toBitVec.extractLsb' 0 1 ++ opcode.toBitVec.extractLsb' 0 3

def decodeStack (rex opcode : UInt8) : Option Inst :=
  if opcode &&& 0xf8 = 0x50 then some (.push (gpr rex opcode))
  else if opcode &&& 0xf8 = 0x58 then some (.pop (gpr rex opcode))
  else none

/-- A displacement of one or four bytes, or none, the lowest first. -/
def displacement : Nat → List UInt8 → Option Int
  | 0, _ => some 0
  | 1, b :: _ => some b.toBitVec.toInt
  | 4, b0 :: b1 :: b2 :: b3 :: _ => some (b3.toBitVec ++ b2.toBitVec ++ b1.toBitVec ++ b0.toBitVec).toInt
  | _, _ => none

/-- A register number in three bits, without a prefix. -/
def lowGpr (b : UInt8) : Gpr := (b.toBitVec.extractLsb' 0 3).setWidth 4

/-- The `r/m64` operand of a ModRM byte and the bytes behind it, and how many they are. -/
def decodeTarget (modrm : UInt8) (rest : List UInt8) : Option (Target × Nat) :=
  let size := if modrm >>> 6 = 1 then 1 else if modrm >>> 6 = 2 then 4 else 0
  if modrm >>> 6 = 3 then some (.reg (lowGpr modrm), 1)
  else if modrm &&& 7 = 4 then
    match rest with
    | sib :: rest =>
      let index := if (sib >>> 3) &&& 7 = 4 then none else some (lowGpr (sib >>> 3), 2 ^ (sib >>> 6).toNat)
      if modrm >>> 6 = 0 ∧ sib &&& 7 = 5 then (displacement 4 rest).map fun disp => (.mem none index disp, 6)
      else (displacement size rest).map fun disp => (.mem (some (lowGpr sib)) index disp, 2 + size)
    | [] => none
  else if modrm >>> 6 = 0 ∧ modrm &&& 7 = 5 then (displacement 4 rest).map fun disp => (.rip disp, 5)
  else (displacement size rest).map fun disp => (.mem (some (lowGpr modrm)) none disp, 1 + size)

/-- The instruction and how many bytes it has. -/
def decode : List UInt8 → Option (Inst × Nat)
  | [] => none
  | b :: rest =>
    if b = 0xc3 then some (.ret, 1)
    else if b = 0xeb then (displacement 1 rest).map fun disp => (.jmp (.near disp), 2)
    else if b = 0xe9 then (displacement 4 rest).map fun disp => (.jmp (.near disp), 5)
    else if b = 0xff then
      -- `jmp r/m64`; the other operations of this opcode do not jump
      match rest with
      | modrm :: rest =>
        if modrm &&& 0x38 = 0x20 then (decodeTarget modrm rest).map fun (t, size) => (.jmp t, 1 + size) else none
      | [] => none
    else if b &&& 0xf0 = 0x40 then
      match rest with
      | opcode :: rest =>
        if b = 0x48 ∧ opcode = 0x89 ∧ rest.head? = some 0xe5 then some (.movRbpRsp, 3)
        else (decodeStack b opcode).map (·, 2)
      | [] => none
    else (decodeStack 0 b).map (·, 1)

/-! ## Decoding -/

theorem stack_opcode : ∀ b : UInt8, b &&& 0xf8 = 0x50 ∨ b &&& 0xf8 = 0x58 →
    b ≠ 0xc3 ∧ b ≠ 0xeb ∧ b ≠ 0xe9 ∧ b ≠ 0xff ∧ b ≠ 0x89 ∧ b &&& 0xf0 ≠ 0x40 := by decide +kernel

theorem rex_opcode : ∀ b : UInt8, b &&& 0xf0 = 0x40 → b ≠ 0xc3 ∧ b ≠ 0xeb ∧ b ≠ 0xe9 ∧ b ≠ 0xff := by decide +kernel

theorem decode_stack {b : UInt8} (h : b &&& 0xf8 = 0x50 ∨ b &&& 0xf8 = 0x58) (rest : List UInt8) :
    decode (b :: rest) = (decodeStack 0 b).map (·, 1) := by
  obtain ⟨h1, h2, h3, h4, -, h5⟩ := stack_opcode b h
  simp [decode, h1, h2, h3, h4, h5]

theorem decode_rex {b opcode : UInt8} (hb : b &&& 0xf0 = 0x40) (h : opcode &&& 0xf8 = 0x50 ∨ opcode &&& 0xf8 = 0x58)
    (rest : List UInt8) : decode (b :: opcode :: rest) = (decodeStack b opcode).map (·, 2) := by
  obtain ⟨h1, h2, h3, h4⟩ := rex_opcode b hb
  obtain ⟨-, -, -, -, h5, -⟩ := stack_opcode opcode h
  simp [decode, h1, h2, h3, h4, h5, hb]

theorem decodeStack_push {rex opcode : UInt8} (h : opcode &&& 0xf8 = 0x50) :
    decodeStack rex opcode = some (.push (gpr rex opcode)) := by
  simp [decodeStack, h]

theorem decodeStack_pop {rex opcode : UInt8} (h : opcode &&& 0xf8 = 0x58) :
    decodeStack rex opcode = some (.pop (gpr rex opcode)) := by
  simp [decodeStack, h]

/-! ## Execution -/

structure State where
  regs : Gpr → Nat
  /-- The words of memory; `none` is unmapped. -/
  mem : Nat → Option Nat

def State.sp (s : State) : Nat := s.regs rsp

def State.bp (s : State) : Nat := s.regs rbp

/-- `next` is where the code goes on. -/
def pushWord (v next : Nat) (s : State) : Outcome State :=
  match s.mem (wrappingSub s.sp 8) with
  | none => .fault
  | some _ =>
    .running next
      { regs := Function.update s.regs rsp (wrappingSub s.sp 8)
        mem := Function.update s.mem (wrappingSub s.sp 8) (some v) }

/-- Address arithmetic. -/
def addr (base : Nat) (offset : Int) : Nat := ((base + offset) % 2 ^ 64).toNat

/-- The address that a jump goes to; the code behind it is at `next`. -/
def Target.address (t : Target) (next : Nat) (s : State) : Option Nat :=
  match t with
  | .near disp => some (addr next disp)
  | .reg r => some (s.regs r)
  | .mem base index disp => s.mem (addr (base.elim 0 s.regs + index.elim 0 fun i => s.regs i.1 * i.2) disp)
  | .rip disp => s.mem (addr next disp)

variable (p : Place)

def Inst.exec (i : Inst) (next : Nat) (s : State) : Outcome State :=
  match i with
  | .push r => pushWord (s.regs r) next s
  | .pop r =>
    match s.mem s.sp with
    | none => .fault
    -- a popped stack pointer is the word, not the word's end
    | some v => .running next { s with regs := Function.update (Function.update s.regs rsp (wrappingAdd s.sp 8)) r v }
  | .movRbpRsp => .running next { s with regs := Function.update s.regs rbp s.sp }
  | .ret => .left s
  | .jmp t =>
    match t.address (p.base + next) s with
    | none => .fault
    | some address => p.goTo address s

/-- A step of the code at an address. -/
def step (base : Nat) (code : List UInt8) (pc : Nat) (s : State) : Outcome State :=
  match decode (code.drop pc) with
  | none => .undefined
  | some (i, n) => i.exec ⟨base, code.length⟩ (pc + n) s

theorem step_of {base : Nat} {code : List UInt8} {pc n : Nat} {s : State} {i : Inst} {o : Outcome State}
    (hi : decode (code.drop pc) = some (i, n)) (hs : i.exec ⟨base, code.length⟩ (pc + n) s = o) :
    step base code pc s = o := by
  simp [step, hi, hs]

/-- The code has a jump there, and it does not go to an address of the code. -/
def JumpsOut (base : Nat) (code : List UInt8) (pc : Nat) (s : State) : Prop :=
  ∃ t n, decode (code.drop pc) = some (.jmp t, n) ∧
    ∀ address, t.address (base + (pc + n)) s = some address → ¬ (⟨base, code.length⟩ : Place).Holds address

/-- Such a jump leaves, or cannot read where it goes. -/
theorem JumpsOut.step {base : Nat} {code : List UInt8} {pc : Nat} {s : State} (h : JumpsOut base code pc s) :
    step base code pc s = .fault ∨ step base code pc s = .left s := by
  obtain ⟨t, n, hdecode, hout⟩ := h
  cases ha : t.address (base + (pc + n)) s with
  | none => exact .inl (step_of hdecode (by simp [Inst.exec, ha]))
  | some address => exact .inr (step_of hdecode (by simp [Inst.exec, ha, Place.goTo, hout address ha]))

/-- A push faults, or writes one word. -/
theorem pushWord_cases (v next : Nat) {s : State} (hsp : 8 ≤ s.sp) (hlt : s.sp < 2 ^ 64) :
    pushWord v next s = .fault ∨
      ∃ s', pushWord v next s = .running next s' ∧ s'.sp + 8 = s.sp ∧ s'.bp = s.bp ∧
        s'.mem = Function.update s.mem s'.sp (some v) := by
  have hsub : wrappingSub s.sp 8 + 8 = s.sp := by
    unfold wrappingSub
    omega
  unfold pushWord
  cases s.mem (wrappingSub s.sp 8) with
  | none => exact .inl rfl
  | some _ =>
    refine .inr ⟨_, rfl, ?_, ?_, ?_⟩
    · simp [State.sp] at hsub ⊢
      exact hsub
    · simp [State.bp, rsp, rbp]
    · simp [State.sp]

theorem exec_push (r : Gpr) (next : Nat) {s : State} (hsp : 8 ≤ s.sp) (hlt : s.sp < 2 ^ 64) :
    (Inst.push r).exec p next s = .fault ∨
      ∃ s', (Inst.push r).exec p next s = .running next s' ∧ s'.sp + 8 = s.sp ∧ s'.bp = s.bp ∧
        s'.mem = Function.update s.mem s'.sp (some (s.regs r)) :=
  pushWord_cases (s.regs r) next hsp hlt

/-- A pop of any register but the stack pointer faults, or reads the word it moves over. -/
theorem exec_pop {r : Gpr} (hr : r ≠ rsp) (next : Nat) {s : State} (hlt : s.sp + 8 < 2 ^ 64) :
    (Inst.pop r).exec p next s = .fault ∨
      ∃ v s', s.mem s.sp = some v ∧ (Inst.pop r).exec p next s = .running next s' ∧ s'.sp = s.sp + 8 ∧
        s'.bp = (if r = rbp then v else s.bp) ∧ s'.mem = s.mem := by
  simp only [Inst.exec]
  cases hv : s.mem s.sp with
  | none => exact .inl rfl
  | some v =>
    refine .inr ⟨v, _, rfl, rfl, ?_, ?_, rfl⟩
    · simp only [State.sp, Function.update_apply, if_neg (Ne.symm hr), if_true]
      exact wrappingAdd_of_lt hlt
    · simp only [State.bp, Function.update_apply, if_neg (show rbp ≠ rsp by decide), eq_comm]

theorem exec_movRbpRsp (next : Nat) (s : State) :
    ∃ s', Inst.movRbpRsp.exec p next s = .running next s' ∧ s'.sp = s.sp ∧ s'.bp = s.sp ∧ s'.mem = s.mem := by
  refine ⟨_, rfl, ?_, ?_, rfl⟩
  · simp [State.sp, rsp, rbp]
  · simp [State.bp]

end FramehopUnwind.Lib.X64
