/-
  FramehopUnwind.Lib.A64 — straight-line A64 code at the ends of a function.

  The instructions by which functions save and restore registers, move the stack pointer and
  leave, as the architecture defines them: register pairs stored and loaded at the stack
  pointer, its adjustment by an immediate, the signing and authenticating of the link register
  against it, branches by an offset or to a register, and the check of an authenticated link
  register that traps. A branch inside the code goes on there. A pair access needs a stack pointer
  aligned to 16 bytes. A word of the stack may be unmapped: accessing it faults.

  How a pointer is signed is a parameter (`Pac`). Runs are those of `Lib.Machine`.
-/

import FramehopUnwind.Lib.Machine

namespace FramehopUnwind.Lib.A64

open Machine

abbrev Word := BitVec 32

/-- A register number. -/
abbrev XReg := BitVec 5

def fp : XReg := 29

def lr : XReg := 30

/-! ## Instructions -/

/-- How a pair access uses the base register. -/
inductive Index where
  | post
  | offset
  | pre
  deriving DecidableEq, Repr

/-- The base register of pairs, and the operand and result of `add` and `sub`, is the stack pointer. -/
inductive Inst where
  | ldp (index : Index) (rt rt2 : XReg) (imm : Int)
  | stp (index : Index) (rt rt2 : XReg) (imm : Int)
  | addSp (imm : Nat)
  | subSp (imm : Nat)
  | pacibsp
  | autibsp
  | ret
  | retab
  | b (imm : Int)
  | br (rn : XReg)
  /-- `braa`, with its modifier in `x16`. -/
  | braa (rn : XReg)
  /-- `mov x16, #imm`. -/
  | movX16 (imm : Nat)
  /-- `eor x16, lr, lr, lsl #1`. -/
  | eorX16
  /-- `tbz x16, #62, .+8`. -/
  | tbzX16
  | brk
  deriving DecidableEq, Repr

def imm7 (w : Word) : Int := 8 * (w.extractLsb' 15 7).toInt

def imm12 (w : Word) (shift : Nat) : Nat := (w.extractLsb' 10 12).toNat * 2 ^ shift

def imm26 (w : Word) : Int := 4 * (w.extractLsb' 0 26).toInt

def decodePair (w : Word) (make : XReg → XReg → Int → Inst) : Option Inst :=
  if w.extractLsb' 5 5 = 31 then some (make (w.extractLsb' 0 5) (w.extractLsb' 10 5) (imm7 w)) else none

def decodeAddSub (w : Word) (inst : Inst) : Option Inst :=
  if w.extractLsb' 5 5 = 31 ∧ w.extractLsb' 0 5 = 31 then some inst else none

/-- The ten bits that tell pairs and immediate sums apart. -/
def opcode (w : Word) : BitVec 10 := w.extractLsb' 22 10

/-- The instructions that are told apart by other bits. -/
def decodeOther (w : Word) : Option Inst :=
  if w >>> 26 = 0b000101 then some (.b (imm26 w))
  else if w &&& 0xfffffc1f = 0xd61f0000 then some (.br (w.extractLsb' 5 5))
  else if w &&& 0xfffffc1f = 0xd71f0810 then some (.braa (w.extractLsb' 5 5))
  else if (w >>> 23) &&& 0b111111111 = 0b110100101 ∧ w &&& 0b11111 = 16 then
    some (.movX16 ((w.extractLsb' 5 16).toNat * 2 ^ (16 * (w.extractLsb' 21 2).toNat)))
  else if w = 0xd503237f then some .pacibsp
  else if w = 0xd50323ff then some .autibsp
  else if w = 0xd65f03c0 then some .ret
  else if w = 0xd65f0fff then some .retab
  else if w = 0xca1e07d0 then some .eorX16
  else if w = 0xb6f00050 then some .tbzX16
  else if w = 0xd4388e20 then some .brk
  else none

def decodeWith (op : BitVec 10) (w : Word) : Option Inst :=
  if op = 0b1010100011 then decodePair w (.ldp .post)
  else if op = 0b1010100101 then decodePair w (.ldp .offset)
  else if op = 0b1010100111 then decodePair w (.ldp .pre)
  else if op = 0b1010100010 then decodePair w (.stp .post)
  else if op = 0b1010100100 then decodePair w (.stp .offset)
  else if op = 0b1010100110 then decodePair w (.stp .pre)
  else if op = 0b1001000100 then decodeAddSub w (.addSp (imm12 w 0))
  else if op = 0b1001000101 then decodeAddSub w (.addSp (imm12 w 12))
  else if op = 0b1101000100 then decodeAddSub w (.subSp (imm12 w 0))
  else if op = 0b1101000101 then decodeAddSub w (.subSp (imm12 w 12))
  else decodeOther w

def decode (w : Word) : Option Inst := decodeWith (opcode w) w

/-! ## Execution -/

/-- Signing and authenticating a pointer with a modifier, by key B; and authenticating by key A. -/
structure Pac where
  sign : Nat → Nat → Nat
  auth : Nat → Nat → Nat
  authA : Nat → Nat → Nat

structure State where
  sp : Nat
  x : XReg → Nat
  /-- The words of memory; `none` is unmapped. -/
  mem : Nat → Option Nat

/-- Number 31 is the zero register. -/
def State.getX (s : State) (r : XReg) : Nat := if r = 31 then 0 else s.x r

def State.setX (s : State) (r : XReg) (v : Nat) : State :=
  if r = 31 then s else { s with x := Function.update s.x r v }

/-- Address arithmetic. -/
def addr (base : Nat) (offset : Int) : Nat := ((base + offset) % 2 ^ 64).toNat

/-- Where a pair is, and the stack pointer behind the access. -/
def Index.base (index : Index) (sp : Nat) (imm : Int) : Nat :=
  match index with
  | .post => sp
  | .offset | .pre => addr sp imm

def Index.writeback (index : Index) (sp : Nat) (imm : Int) : Nat :=
  match index with
  | .offset => sp
  | .post | .pre => addr sp imm

/-- `next` is where the code goes on. -/
def storePair (index : Index) (rt rt2 : XReg) (imm : Int) (next : Nat) (s : State) : Outcome State :=
  if s.sp % 16 ≠ 0 then .fault
  else
    match s.mem (index.base s.sp imm), s.mem (addr (index.base s.sp imm) 8) with
    | some _, some _ =>
      .running next
        { s with
          sp := index.writeback s.sp imm
          mem := Function.update (Function.update s.mem (index.base s.sp imm) (some (s.getX rt)))
            (addr (index.base s.sp imm) 8) (some (s.getX rt2)) }
    | _, _ => .fault

variable (P : Pac)

/-- Where a branch at an address goes. -/
def Inst.branch (i : Inst) (address : Nat) (s : State) : Option Nat :=
  match i with
  | .b imm => some (addr address imm)
  | .br rn => some (s.getX rn)
  | .braa rn => some (P.authA (s.getX rn) (s.x 16))
  | _ => none

variable (p : Place)

def Inst.exec (i : Inst) (pc : Nat) (s : State) : Outcome State :=
  match i with
  | .ldp index rt rt2 imm =>
    if s.sp % 16 ≠ 0 then .fault
    else
      match s.mem (index.base s.sp imm), s.mem (addr (index.base s.sp imm) 8) with
      | some v, some v2 => .running (pc + 4) { (s.setX rt v).setX rt2 v2 with sp := index.writeback s.sp imm }
      | _, _ => .fault
  | .stp index rt rt2 imm => storePair index rt rt2 imm (pc + 4) s
  | .addSp imm => .running (pc + 4) { s with sp := addr s.sp imm }
  | .subSp imm => .running (pc + 4) { s with sp := addr s.sp (-imm) }
  | .pacibsp => .running (pc + 4) (s.setX lr (P.sign (s.x lr) s.sp))
  | .autibsp => .running (pc + 4) (s.setX lr (P.auth (s.x lr) s.sp))
  | .ret => .left s
  | .retab => .left (s.setX lr (P.auth (s.x lr) s.sp))
  | .b imm => p.goTo (addr (p.base + pc) imm) s
  | .br rn => p.goTo (s.getX rn) s
  | .braa rn => p.goTo (P.authA (s.getX rn) (s.x 16)) s
  | .movX16 imm => .running (pc + 4) (s.setX 16 imm)
  | .eorX16 => .running (pc + 4) (s.setX 16 (Nat.xor (s.x lr) (s.x lr * 2 % 2 ^ 64)))
  | .tbzX16 => .running (if (s.x 16).testBit 62 then pc + 4 else pc + 8) s
  | .brk => .trapped s

/-- The word of four bytes, the lowest first. -/
def fromLeBytes (b0 b1 b2 b3 : UInt8) : Word := b3.toBitVec ++ b2.toBitVec ++ b1.toBitVec ++ b0.toBitVec

def fetch (code : List UInt8) (pc : Nat) : Option Word :=
  match code.drop pc with
  | b0 :: b1 :: b2 :: b3 :: _ => some (fromLeBytes b0 b1 b2 b3)
  | _ => none

/-- A step of the code at an address. -/
def step (base : Nat) (code : List UInt8) (pc : Nat) (s : State) : Outcome State :=
  match (fetch code pc).bind decode with
  | none => .undefined
  | some i => i.exec P ⟨base, code.length⟩ pc s

/-- A branch in the code, if there is one, does not go to an address of it. -/
def BranchesOut (base : Nat) (code : List UInt8) (pc : Nat) (s : State) : Prop :=
  ∀ w i address, fetch code pc = some w → decode w = some i → i.branch P (base + pc) s = some address →
    ¬ (⟨base, code.length⟩ : Place).Holds address

variable {P} {p}

theorem step_of {base : Nat} {code : List UInt8} {pc : Nat} {s : State} {w : Word} {i : Inst} {o : Outcome State}
    (hw : fetch code pc = some w) (hi : decode w = some i) (hs : i.exec P ⟨base, code.length⟩ pc s = o) :
    step P base code pc s = o := by
  simp [step, hw, hi, hs]

theorem exec_branch {i : Inst} {pc address : Nat} {s : State} (h : i.branch P (p.base + pc) s = some address) :
    i.exec P p pc s = p.goTo address s := by
  cases i <;> cases h <;> rfl

/-- Such a branch leaves. -/
theorem BranchesOut.step {base : Nat} {code : List UInt8} {pc : Nat} {s : State}
    (h : BranchesOut P base code pc s) {w : Word}
    {i : Inst} {address : Nat} (hw : fetch code pc = some w) (hi : decode w = some i)
    (ha : i.branch P (base + pc) s = some address) : step P base code pc s = .left s := by
  refine step_of hw hi ((exec_branch ha).trans ?_)
  exact if_neg (h w i address hw hi ha)

/-! ## One instruction -/

/-- A load faults, or the stack pointer is aligned and both words are there. -/
theorem exec_ldp (index : Index) (rt rt2 : XReg) (imm : Int) (pc : Nat) (s : State) :
    (Inst.ldp index rt rt2 imm).exec P p pc s = .fault ∨
      ∃ v v2, s.sp % 16 = 0 ∧ s.mem (index.base s.sp imm) = some v ∧ s.mem (addr (index.base s.sp imm) 8) = some v2 ∧
        (Inst.ldp index rt rt2 imm).exec P p pc s =
          .running (pc + 4) { (s.setX rt v).setX rt2 v2 with sp := index.writeback s.sp imm } := by
  simp only [Inst.exec]
  split
  case isTrue => exact .inl rfl
  case isFalse hal =>
    cases hv : s.mem (index.base s.sp imm) with
    | none => exact .inl rfl
    | some v =>
      cases hv2 : s.mem (addr (index.base s.sp imm) 8) with
      | none => exact .inl rfl
      | some v2 => exact .inr ⟨v, v2, not_not.mp hal, rfl, rfl, rfl⟩

/-- A store faults, or changes the stack pointer and memory only. -/
theorem storePair_cases (index : Index) (rt rt2 : XReg) (imm : Int) (next : Nat) (s : State) :
    storePair index rt rt2 imm next s = .fault ∨
      ∃ s', storePair index rt rt2 imm next s = .running next s' ∧ s'.sp = index.writeback s.sp imm ∧ s'.x = s.x := by
  unfold storePair
  split
  case isTrue => exact .inl rfl
  case isFalse =>
    cases s.mem (index.base s.sp imm) with
    | none => exact .inl rfl
    | some v =>
      cases s.mem (addr (index.base s.sp imm) 8) with
      | none => exact .inl rfl
      | some v2 => exact .inr ⟨_, rfl, rfl, rfl⟩

/-! ## States and addresses -/

@[simp] theorem setX_sp (s : State) (r : XReg) (v : Nat) : (s.setX r v).sp = s.sp := by
  unfold State.setX
  split <;> rfl

@[simp] theorem setX_mem (s : State) (r : XReg) (v : Nat) : (s.setX r v).mem = s.mem := by
  unfold State.setX
  split <;> rfl

theorem setX_x (s : State) (r q : XReg) (v : Nat) (hq : q ≠ 31) : (s.setX r v).x q = if q = r then v else s.x q := by
  unfold State.setX
  split
  case isTrue h =>
    subst h
    rw [if_neg hq]
  case isFalse => simp [Function.update_apply]

theorem addr_addr (base : Nat) (i j : Int) : addr (addr base i) j = addr base (i + j) := by
  unfold addr
  omega

/-- Address arithmetic that stays in the address space. -/
theorem addr_of_range {base : Nat} {offset : Int} (h0 : 0 ≤ base + offset) (h1 : base + offset < 2 ^ 64) :
    (addr base offset : Int) = base + offset := by
  unfold addr
  omega

theorem eq_addr {a base : Nat} {offset : Int} (h : (a : Int) = base + offset) (hlt : a < 2 ^ 64) :
    a = addr base offset := by
  unfold addr
  omega

end FramehopUnwind.Lib.A64
