/-
  FramehopUnwind.Unwinder.Aarch64Analysis — rules from the instructions around an address
  (vendor/framehop/src/instruction_analysis.rs, and prologue.rs and epilogue.rs of
  vendor/framehop/src/aarch64/instruction_analysis).

  Neither compact unwind info nor a frame pointer tells where a function's prologue or epilogue
  has got to. For the first frame the code is looked at instead: an epilogue is stepped forwards
  from the address to its return, a prologue backwards from the address to the first word that
  does not belong in one. The sums are `i32`s and wrap, as in a release build.
-/

import FramehopUnwind.Unwinder.Aarch64
import FramehopUnwind.Lib.A64

namespace FramehopUnwind.Unwinder.Aarch64

open Lib.Word Lib.A64

/-- `i32` addition. -/
def addI32 (a b : Int) : Int := (a + b).bmod (2 ^ 32)

/-! ## Fields of a word -/

def bits22To32 (w : Word) : Word := w >>> 22

def writebackBits (w : Word) : Word := (w >>> 23) &&& 0b11

def referenceReg (w : Word) : Word := (w >>> 5) &&& 0b11111

def pairReg1 (w : Word) : Word := w &&& 0b11111

def pairReg2 (w : Word) : Word := (w >>> 10) &&& 0b11111

/-- `((((word >> 15) & 0b1111111) as i16) << 9) >> 6`. -/
def pairImm7 (w : Word) : Int := ((((w >>> 15) &&& 0b1111111).setWidth 16 <<< 9).sshiftRight 6).toInt

/-- The immediate of an `add` or `sub`, shifted if its shift bit is set. -/
def immediate12 (w : Word) : Int :=
  if (w >>> 22) &&& 0b1 = 0b1 then ((w >>> 10) &&& 0b111111111111).toNat * 2 ^ 12
  else ((w >>> 10) &&& 0b111111111111).toNat

/-! ## Epilogues -/

inductive UnexpectedInstructionType where
  | loadOfWrongSize
  | loadReferenceRegisterNotSp
  | addSubNotOperatingOnSp
  | autibspNotFollowedByExpectedTailCall
  | branchWithUnadjustedStackPointer
  | unknown
  deriving DecidableEq, Repr

inductive EpilogueStepResult where
  | needMore
  | foundBodyInstruction (t : UnexpectedInstructionType)
  | foundReturn
  | foundTailCall
  | couldBeAuthTailCall
  deriving DecidableEq, Repr

inductive EpilogueInstructionType where
  | notExpectedInEpilogue
  | couldBeTailCall (offsetOfExpectedAutibsp : Nat)
  | couldBePartOfAuthTailCall (offsetOfExpectedAutibsp : Nat)
  | veryLikelyPartOfEpilogue
  deriving DecidableEq, Repr

structure EpilogueDetector where
  spOffset : Int
  fpOffsetFromInitialSp : Option Int
  lrOffsetFromInitialSp : Option Int
  deriving DecidableEq, Repr

def EpilogueDetector.new : EpilogueDetector := ⟨0, none, none⟩

inductive EpilogueResult where
  | probablyStillInBody (t : UnexpectedInstructionType)
  | reachedFunctionEndWithoutReturn
  | foundReturnOrTailCall (d : EpilogueDetector)
  deriving DecidableEq, Repr

def instructionAdjustsStackPointer (w : Word) : Bool :=
  -- a load relative to the stack pointer, with writeback
  ((w >>> 22) &&& 0b1011111011 == 0b1010100011 && (w >>> 5) &&& 0b11111 == 31) ||
    ((w >>> 23) &&& 0b111111111 == 0b100100010 && w &&& 0b11111 == 31 && (w >>> 5) &&& 0b11111 == 31)

/-- `eor x16, lr, lr, lsl #1`, `tbz x16, 0x3e, $+0x8` and `brk #0xc471`. -/
def eorTbzBrk : Bytes := [0xd0, 0x07, 0x1e, 0xca, 0x50, 0x00, 0xf0, 0xb6, 0x20, 0x8e, 0x38, 0xd4]

def isAuthTailCall (bytesAfterAutibsp : Bytes) : Bool :=
  bytesAfterAutibsp.take 12 == eorTbzBrk &&
    match bytesAfterAutibsp.drop 12 with
    | b0 :: b1 :: b2 :: b3 :: rest =>
      let opcode := fromLeBytes b0 b1 b2 b3
      opcode >>> 26 == 0b000101 ||
        match rest with
        | c0 :: c1 :: c2 :: c3 :: _ =>
          let braaOpcode := fromLeBytes c0 c1 c2 c3
          (opcode >>> 23) &&& 0b111000111 == 0b110000101 && opcode &&& 0b11111 == 16 &&
            (braaOpcode &&& 0xfffffc00 == 0xd71f0800 && braaOpcode &&& 0b11111 == 16)
        | _ => false
    | _ => false

def analyzeInstruction (w : Word) : EpilogueInstructionType :=
  if w = 0xd65f03c0 ∨ w = 0xd65f0fff then .veryLikelyPartOfEpilogue
  else if w = 0xd50323ff then .couldBePartOfAuthTailCall 0
  else if w = 0xca1e07d0 then .couldBePartOfAuthTailCall 4
  else if w = 0xb6f00050 then .couldBePartOfAuthTailCall 8
  else if w = 0xd4388e20 then .couldBePartOfAuthTailCall 12
  else if w >>> 26 = 0b000101 ∨ w &&& 0xfffffc1f = 0xd61f0000 then .couldBeTailCall 16
  else if (w >>> 23) &&& 0b111000111 = 0b110000101 ∧ w &&& 0b11111 = 16 then .couldBePartOfAuthTailCall 16
  else if w &&& 0xfffffc00 = 0xd71f0800 ∧ w &&& 0b11111 = 16 then .couldBePartOfAuthTailCall 20
  else if (w >>> 22) &&& 0b1011111001 = 0b1010100001 then
    if writebackBits w = 0b00 then .notExpectedInEpilogue
    else if referenceReg w ≠ 31 then .notExpectedInEpilogue
    else .veryLikelyPartOfEpilogue
  else if (w >>> 23) &&& 0b111111111 = 0b100100010 then
    if w &&& 0b11111 ≠ 31 ∨ referenceReg w ≠ 31 then .notExpectedInEpilogue
    else .veryLikelyPartOfEpilogue
  else .notExpectedInEpilogue

/-- A register of a loaded pair noted, if it is the frame pointer or the link register. -/
def EpilogueDetector.note (d : EpilogueDetector) (reg : Word) (loc : Int) : EpilogueDetector :=
  if reg = 29 then { d with fpOffsetFromInitialSp := some loc }
  else if reg = 30 then { d with lrOffsetFromInitialSp := some loc }
  else d

def EpilogueDetector.stepInstruction (d : EpilogueDetector) (w : Word) : EpilogueStepResult × EpilogueDetector :=
  if w = 0xd65f03c0 ∨ w = 0xd65f0fff then (.foundReturn, d)
  else if w = 0xd50323ff then (.couldBeAuthTailCall, d)
  else if w >>> 26 = 0b000101 then
    if d.spOffset ≠ 0 then (.foundTailCall, d)
    else (.foundBodyInstruction .branchWithUnadjustedStackPointer, d)
  else if (w >>> 22) &&& 0b1011111001 = 0b1010100001 then
    if writebackBits w = 0b00 then (.foundBodyInstruction .loadOfWrongSize, d)
    else if referenceReg w ≠ 31 then (.foundBodyInstruction .loadReferenceRegisterNotSp, d)
    else
      let isPreindexedWriteback := writebackBits w = 0b11
      let isPostindexedWriteback := writebackBits w = 0b01
      let regLoc := if isPostindexedWriteback then d.spOffset else addI32 d.spOffset (pairImm7 w)
      let d := d.note (pairReg1 w) regLoc
      let d := d.note (pairReg2 w) (addI32 regLoc 8)
      if isPreindexedWriteback ∨ isPostindexedWriteback then
        (.needMore, { d with spOffset := addI32 d.spOffset (pairImm7 w) })
      else (.needMore, d)
  else if (w >>> 23) &&& 0b111111111 = 0b100100010 then
    if w &&& 0b11111 ≠ 31 ∨ referenceReg w ≠ 31 then (.foundBodyInstruction .addSubNotOperatingOnSp, d)
    else (.needMore, { d with spOffset := addI32 d.spOffset (immediate12 w) })
  else (.foundBodyInstruction .unknown, d)

/-- The loop of `analyze_slice` at the word `w`, with the bytes behind it. -/
def EpilogueDetector.analyzeLoop (d : EpilogueDetector) (w : Word) (bytes : Bytes) : EpilogueResult :=
  match d.stepInstruction w with
  | (.needMore, d) =>
    match bytes with
    | b0 :: b1 :: b2 :: b3 :: rest => d.analyzeLoop (fromLeBytes b0 b1 b2 b3) rest
    | _ => .reachedFunctionEndWithoutReturn
  | (.foundBodyInstruction t, _) => .probablyStillInBody t
  | (.foundReturn, d) | (.foundTailCall, d) => .foundReturnOrTailCall d
  | (.couldBeAuthTailCall, d) =>
    if isAuthTailCall bytes then .foundReturnOrTailCall d
    else .probablyStillInBody .autibspNotFollowedByExpectedTailCall

/-- Whether an authenticated tail call starts that many bytes before the address. -/
def inAuthTailCall (functionBytes : Bytes) (pcOffset offsetOfExpectedAutibsp : Nat) : Bool :=
  offsetOfExpectedAutibsp ≤ pcOffset &&
    ((functionBytes.drop (pcOffset - offsetOfExpectedAutibsp)).take 4 == [0xff, 0x23, 0x03, 0xd5] &&
      isAuthTailCall (functionBytes.drop (pcOffset - offsetOfExpectedAutibsp + 4)))

/-- Whether the word before the address adjusts the stack pointer. -/
def followsAdjustment (functionBytes : Bytes) (pcOffset : Nat) : Bool :=
  4 ≤ pcOffset &&
    match fetch functionBytes (pcOffset - 4) with
    | some prevWord => instructionAdjustsStackPointer prevWord
    | none => false

def EpilogueDetector.analyzeSlice (d : EpilogueDetector) (functionBytes : Bytes) (pcOffset : Nat) : EpilogueResult :=
  match functionBytes.drop pcOffset with
  | b0 :: b1 :: b2 :: b3 :: bytes =>
    let word := fromLeBytes b0 b1 b2 b3
    match analyzeInstruction word with
    | .notExpectedInEpilogue => .probablyStillInBody .unknown
    | .couldBeTailCall offset =>
      if inAuthTailCall functionBytes pcOffset offset then .foundReturnOrTailCall ⟨0, none, none⟩
      else if followsAdjustment functionBytes pcOffset then .foundReturnOrTailCall ⟨0, none, none⟩
      else .probablyStillInBody .unknown
    | .couldBePartOfAuthTailCall offset =>
      if inAuthTailCall functionBytes pcOffset offset then .foundReturnOrTailCall ⟨0, none, none⟩
      else .probablyStillInBody .unknown
    | .veryLikelyPartOfEpilogue => d.analyzeLoop word bytes
  | _ => .reachedFunctionEndWithoutReturn

def unwindRuleFromDetectedEpilogue (bytes : Bytes) (pcOffset : Nat) : Option UnwindRule :=
  match EpilogueDetector.new.analyzeSlice bytes pcOffset with
  | .probablyStillInBody _ | .reachedFunctionEndWithoutReturn => none
  | .foundReturnOrTailCall d => do
    let spOffsetBy16 ← toU16 (d.spOffset.tdiv 16)
    match d.fpOffsetFromInitialSp, d.lrOffsetFromInitialSp with
    | none, none => if spOffsetBy16 = 0 then return .noOp else return .offsetSp spOffsetBy16
    | none, some lrOffset =>
      let lrStorage ← toI16 (lrOffset.tdiv 8)
      return .offsetSpAndRestoreLr spOffsetBy16 lrStorage
    | some _, none => none
    | some fpOffset, some lrOffset =>
      let fpStorage ← toI16 (fpOffset.tdiv 8)
      let lrStorage ← toI16 (lrOffset.tdiv 8)
      return .offsetSpAndRestoreFpAndLr spOffsetBy16 fpStorage lrStorage

/-! ## Prologues -/

inductive PrologueInstructionType where
  | notExpectedInPrologue
  | couldBePartOfPrologueIfThereIsAlsoAStackPointerSub
  | veryLikelyPartOfPrologue
  deriving DecidableEq, Repr

/-- Whether the instruction indicates that the address is likely in a prologue. -/
def analyzePrologueInstructionType (w : Word) : PrologueInstructionType :=
  if w = 0xd503237f ∨ w = 0x910003fd then .veryLikelyPartOfPrologue
  else if bits22To32 w &&& 0b1011111001 = 0b1010100000 then
    if bits22To32 w &&& 0b110 = 0b000 ∨ referenceReg w ≠ 31 then .notExpectedInPrologue
    else if bits22To32 w &&& 0b110 = 0b100 then .couldBePartOfPrologueIfThereIsAlsoAStackPointerSub
    else .veryLikelyPartOfPrologue
  else if bits22To32 w &&& 0b1011111110 = 0b1001000100 then
    let isSub := (w >>> 30) &&& 0b1 = 0b1
    let expectedResultReg : Word := if isSub then 31 else 29
    if referenceReg w ≠ 31 ∨ w &&& 0b11111 ≠ expectedResultReg then .notExpectedInPrologue
    else .veryLikelyPartOfPrologue
  else .notExpectedInPrologue

/-- One executed instruction undone: the stack pointer's offset, or `none` where it is unexpected. -/
def reverseStepInstruction (spOffset : Int) (w : Word) : Option Int :=
  if w = 0xd503237f then some spOffset
  else if (w >>> 22) &&& 0b1011111001 = 0b1010100000 then
    if writebackBits w = 0b00 then none
    else if referenceReg w ≠ 31 then none
    else if writebackBits w = 0b11 ∨ writebackBits w = 0b01 then some (addI32 spOffset (-pairImm7 w))
    else some spOffset
  else if (w >>> 23) &&& 0b111111111 = 0b110100010 then
    if w &&& 0b11111 ≠ 31 ∨ referenceReg w ≠ 31 then none
    else some (addI32 spOffset (immediate12 w))
  else none

/-- The loop of `analyze_slices`, over the words before the address, the last one first. -/
def reverseLoop (spOffset : Int) : List Word → Int
  | [] => spOffset
  | w :: ws =>
    match reverseStepInstruction spOffset w with
    | none => spOffset
    | some spOffset => reverseLoop spOffset ws

/-- `chunks_exact(4)`, as words. -/
def chunksExact : Bytes → List Word
  | b0 :: b1 :: b2 :: b3 :: rest => fromLeBytes b0 b1 b2 b3 :: chunksExact rest
  | _ => []

/-- The stack pointer's offset from the function's start, if the address is in a prologue. -/
def analyzeSlices (sliceFromStart sliceToEnd : Bytes) : Option Int :=
  match fetch sliceToEnd 0 with
  | none => none
  | some nextInstruction =>
    match analyzePrologueInstructionType nextInstruction with
    | .notExpectedInPrologue => none
    | .couldBePartOfPrologueIfThereIsAlsoAStackPointerSub =>
      if reverseLoop 0 (chunksExact sliceFromStart).reverse = 0 then none
      else some (reverseLoop 0 (chunksExact sliceFromStart).reverse)
    | .veryLikelyPartOfPrologue => some (reverseLoop 0 (chunksExact sliceFromStart).reverse)

def unwindRuleFromDetectedPrologue (sliceFromStart sliceToEnd : Bytes) : Option UnwindRule :=
  match analyzeSlices sliceFromStart sliceToEnd with
  | none => none
  | some spOffset => do
    let spOffsetBy16 ← toU16 (spOffset.tdiv 16)
    if spOffsetBy16 = 0 then return .noOp else return .offsetSp spOffsetBy16

/-! ## Both -/

def ruleFromPrologueAnalysis (textBytes : Bytes) (pcOffset : Nat) : Option UnwindRule :=
  unwindRuleFromDetectedPrologue (textBytes.take pcOffset) (textBytes.drop pcOffset)

def ruleFromEpilogueAnalysis (textBytes : Bytes) (pcOffset : Nat) : Option UnwindRule :=
  unwindRuleFromDetectedEpilogue textBytes pcOffset

def ruleFromInstructionAnalysis (textBytes : Bytes) (pcOffset : Nat) : Option UnwindRule :=
  (ruleFromPrologueAnalysis textBytes pcOffset).or (ruleFromEpilogueAnalysis textBytes pcOffset)

/-! ## The bits of a word -/

theorem shr22 (w : Word) : w >>> 22 = (opcode w).setWidth 32 := by
  apply BitVec.eq_of_getLsbD_eq
  intro i hi
  simp only [BitVec.getLsbD_ushiftRight, opcode, BitVec.getLsbD_setWidth, BitVec.getLsbD_extractLsb', hi, decide_true,
    Bool.true_and]
  by_cases h : i < 10
  · simp [h]
  · simp only [h, decide_false, Bool.false_and]
    exact BitVec.getLsbD_of_ge _ _ (by omega)

theorem shr23 (w : Word) : w >>> 23 = (opcode w).setWidth 32 >>> 1 := by
  rw [← shr22, ← BitVec.shiftRight_add]

theorem shr26 (w : Word) : w >>> 26 = (opcode w).setWidth 32 >>> 4 := by
  rw [← shr22, ← BitVec.shiftRight_add]

/-- A shift and a mask take a field out. -/
theorem and_field (w : Word) (lo n : Nat) :
    (w >>> lo) &&& BitVec.ofNat 32 (2 ^ n - 1) = (w.extractLsb' lo n).setWidth 32 := by
  apply BitVec.eq_of_getLsbD_eq
  intro i hi
  simp only [BitVec.getLsbD_and, BitVec.getLsbD_ushiftRight, BitVec.getLsbD_setWidth, BitVec.getLsbD_extractLsb', hi,
    BitVec.getLsbD_ofNat, Nat.testBit_two_pow_sub_one, decide_true, Bool.true_and]
  exact Bool.and_comm _ _

theorem pairImm7_eq (w : Word) : pairImm7 w = imm7 w := by
  have h : ∀ t : BitVec 7, ((t.setWidth 16 <<< 9).sshiftRight 6).toInt = 8 * t.toInt := by decide +kernel
  have hf : (w >>> 15) &&& 0b1111111 = (w.extractLsb' 15 7).setWidth 32 := and_field w 15 7
  unfold pairImm7 imm7
  rw [hf, BitVec.setWidth_setWidth_of_le, h]
  omega

theorem imm7_bounds (w : Word) : 8 ∣ imm7 w ∧ -2 ^ 10 < imm7 w ∧ imm7 w < 2 ^ 10 := by
  have h : ∀ t : BitVec 7, -64 ≤ t.toInt ∧ t.toInt < 64 := by decide +kernel
  have := h (w.extractLsb' 15 7)
  unfold imm7
  refine ⟨Int.dvd_mul_right _ _, ?_, ?_⟩ <;> omega

theorem setWidth_eq_iff (r : XReg) (n : Nat) (hn : n < 32) :
    r.setWidth 32 = BitVec.ofNat 32 n ↔ r = BitVec.ofNat 5 n := by
  have h : ∀ r : XReg, ∀ n < 32, (r.setWidth 32 = BitVec.ofNat 32 n ↔ r = BitVec.ofNat 5 n) := by decide +kernel
  exact h r n hn

theorem pairReg1_eq (w : Word) : pairReg1 w = (w.extractLsb' 0 5).setWidth 32 := by
  have := and_field w 0 5
  simpa [pairReg1] using this

theorem pairReg2_eq (w : Word) : pairReg2 w = (w.extractLsb' 10 5).setWidth 32 := and_field w 10 5

theorem referenceReg_eq (w : Word) : referenceReg w = (w.extractLsb' 5 5).setWidth 32 := and_field w 5 5

theorem referenceReg_eq_31 {w : Word} (h : referenceReg w = 31) : w.extractLsb' 5 5 = 31 := by
  rw [referenceReg_eq] at h
  exact (setWidth_eq_iff _ 31 (by decide)).mp h

theorem resultReg_eq_31 {w : Word} (h : w &&& 0b11111 = 31) : w.extractLsb' 0 5 = 31 := by
  have heq := pairReg1_eq w
  rw [pairReg1, h] at heq
  exact (setWidth_eq_iff _ 31 (by decide)).mp heq.symm

/-- Bit 30, which the masks leave open, is clear in a pair: with it set the encoding is unallocated. -/
def Allocated (w : Word) : Prop := bits22To32 w &&& 0b1011111000 = 0b1010100000 → (opcode w).getLsbD 8 = false

instance (w : Word) : Decidable (Allocated w) := inferInstanceAs (Decidable (_ → _))

/-- What passes for the move to `x16` before a `braa` is one: the mask leaves bits 26 to 28 open. -/
def Moves (w : Word) : Prop :=
  (w >>> 23) &&& 0b111000111 = 0b110000101 → w &&& 0b11111 = 16 → (w >>> 23) &&& 0b000111000 = 0b000100000

instance (w : Word) : Decidable (Moves w) := inferInstanceAs (Decidable (_ → _))

/-- A load of a pair, or a store. -/
def pair (load : Bool) (index : Index) : XReg → XReg → Int → Inst := if load then .ldp index else .stp index

theorem pair_opcode : ∀ (load : Bool) (t : BitVec 10),
    t.setWidth 32 &&& 0b1011111001#32 = (if load then 0b1010100001#32 else 0b1010100000#32) →
    (t.setWidth 32 &&& 0b1011111000#32 = 0b1010100000#32 → t.getLsbD 8 = false) →
    (t.setWidth 32 >>> 1) &&& 0b11#32 ≠ 0 →
    (t = (if load then 0b1010100011 else 0b1010100010) ∧ (t.setWidth 32 >>> 1) &&& 0b11#32 = 0b01) ∨
    (t = (if load then 0b1010100101 else 0b1010100100) ∧ (t.setWidth 32 >>> 1) &&& 0b11#32 = 0b10) ∨
    (t = (if load then 0b1010100111 else 0b1010100110) ∧ (t.setWidth 32 >>> 1) &&& 0b11#32 = 0b11) := by
  decide +kernel

/-- A word that passes for an access to a pair at the stack pointer is one, and the writeback bits
    tell its kind. -/
theorem decode_pair (load : Bool) {w : Word} (hal : Allocated w)
    (hop : (w >>> 22) &&& 0b1011111001 = if load then 0b1010100001 else 0b1010100000)
    (hwb : writebackBits w ≠ 0b00) (href : referenceReg w = 31) :
    ∃ index, decode w = some (pair load index (w.extractLsb' 0 5) (w.extractLsb' 10 5) (imm7 w)) ∧
      (writebackBits w = 0b01 ↔ index = .post) ∧ (writebackBits w = 0b11 ↔ index = .pre) := by
  have hpair := hal
  unfold Allocated bits22To32 at hpair
  unfold writebackBits at hwb ⊢
  rw [shr22] at hop hpair
  rw [shr23] at hwb ⊢
  have hbase := referenceReg_eq_31 href
  have hpairs : ∀ make, decodePair w make = some (make (w.extractLsb' 0 5) (w.extractLsb' 10 5) (imm7 w)) := by
    intro make
    exact if_pos hbase
  rcases pair_opcode load _ hop hpair hwb with ⟨hop, hwb⟩ | ⟨hop, hwb⟩ | ⟨hop, hwb⟩
  · refine ⟨.post, ?_, by simp [hwb], by simp [hwb]⟩
    rw [decode, hop]
    cases load <;> exact hpairs _
  · refine ⟨.offset, ?_, by simp [hwb], by simp [hwb]⟩
    rw [decode, hop]
    cases load <;> exact hpairs _
  · refine ⟨.pre, ?_, by simp [hwb], by simp [hwb]⟩
    rw [decode, hop]
    cases load <;> exact hpairs _

/-- A subtraction from the stack pointer, or an addition. -/
def addSub (sub : Bool) : Nat → Inst := if sub then .subSp else .addSp

theorem addSub_opcode : ∀ (sub : Bool) (t : BitVec 10),
    (t.setWidth 32 >>> 1) &&& 0b111111111#32 = (if sub then 0b110100010#32 else 0b100100010#32) →
    (t = (if sub then 0b1101000100 else 0b1001000100) ∧ t.setWidth 32 &&& 0b1#32 ≠ 0b1) ∨
      (t = (if sub then 0b1101000101 else 0b1001000101) ∧ t.setWidth 32 &&& 0b1#32 = 0b1) := by
  decide +kernel

/-- The immediate as the architecture reads it. -/
theorem immediate12_eq (w : Word) (shift : Nat)
    (h : ((w >>> 22) &&& 0b1 = 0b1 ∧ shift = 12) ∨ ((w >>> 22) &&& 0b1 ≠ 0b1 ∧ shift = 0)) :
    immediate12 w = imm12 w shift ∧ imm12 w shift < 2 ^ 24 := by
  have hf : ((w >>> 10) &&& 0b111111111111).toNat = (w.extractLsb' 10 12).toNat := by
    rw [show (w >>> 10) &&& 0b111111111111 = (w.extractLsb' 10 12).setWidth 32 from and_field w 10 12]
    exact BitVec.toNat_setWidth_of_le (by decide)
  have hlt : (w.extractLsb' 10 12).toNat < 2 ^ 12 := (w.extractLsb' 10 12).isLt
  unfold immediate12 imm12
  rw [hf]
  rcases h with ⟨h, rfl⟩ | ⟨h, rfl⟩
  · rw [if_pos h]
    refine ⟨by push_cast; rfl, ?_⟩
    omega
  · rw [if_neg h]
    refine ⟨by simp, ?_⟩
    omega

/-- A word that passes for an immediate sum with the stack pointer is one. -/
theorem decode_addSub (sub : Bool) {w : Word}
    (hop : (w >>> 23) &&& 0b111111111 = if sub then 0b110100010 else 0b100100010) (hres : w &&& 0b11111 = 31)
    (href : referenceReg w = 31) :
    ∃ imm : Nat, decode w = some (addSub sub imm) ∧ immediate12 w = imm ∧ imm < 2 ^ 24 := by
  rw [shr23] at hop
  have hboth : w.extractLsb' 5 5 = 31 ∧ w.extractLsb' 0 5 = 31 := ⟨referenceReg_eq_31 href, resultReg_eq_31 hres⟩
  have hadd : ∀ inst, decodeAddSub w inst = some inst := by
    intro inst
    exact if_pos hboth
  rcases addSub_opcode sub _ hop with ⟨hop, hshift⟩ | ⟨hop, hshift⟩
  · refine ⟨imm12 w 0, ?_, immediate12_eq w 0 (.inr ⟨by rw [shr22]; exact hshift, rfl⟩)⟩
    rw [decode, hop]
    cases sub <;> exact hadd _
  · refine ⟨imm12 w 12, ?_, immediate12_eq w 12 (.inl ⟨by rw [shr22]; exact hshift, rfl⟩)⟩
    rw [decode, hop]
    cases sub <;> exact hadd _

/-- A mask over the ten highest bits fixes them. -/
theorem opcode_of_mask {w m v : Word} (h : w &&& m = v) (hm : m >>> 22 = 0b1111111111) :
    opcode w = (v >>> 22).setWidth 10 := by
  have hshift : (w >>> 22) &&& (m >>> 22) = v >>> 22 := by rw [← BitVec.ushiftRight_and_distrib, h]
  have hall : ∀ t : BitVec 10, (t.setWidth 32 &&& 0b1111111111#32).setWidth 10 = t := by decide +kernel
  rw [← hshift, hm, shr22]
  exact (hall (opcode w)).symm

theorem decodeWith_branch : ∀ t : BitVec 10, t.setWidth 32 >>> 4 = 0b000101#32 →
    t ≠ 0b1010100011 ∧ t ≠ 0b1010100101 ∧ t ≠ 0b1010100111 ∧ t ≠ 0b1010100010 ∧ t ≠ 0b1010100100 ∧
      t ≠ 0b1010100110 ∧ t ≠ 0b1001000100 ∧ t ≠ 0b1001000101 ∧ t ≠ 0b1101000100 ∧ t ≠ 0b1101000101 := by
  decide +kernel

theorem decode_b {w : Word} (h : w >>> 26 = 0b000101) : decode w = some (.b (imm26 w)) := by
  have hop := h
  rw [shr26] at hop
  obtain ⟨h1, h2, h3, h4, h5, h6, h7, h8, h9, h10⟩ := decodeWith_branch _ hop
  rw [decode, decodeWith, if_neg h1, if_neg h2, if_neg h3, if_neg h4, if_neg h5, if_neg h6, if_neg h7, if_neg h8,
    if_neg h9, if_neg h10, decodeOther, if_pos h]

theorem decode_br {w : Word} (h : w &&& 0xfffffc1f = 0xd61f0000) : decode w = some (.br (w.extractLsb' 5 5)) := by
  have hop := opcode_of_mask h (by decide)
  have hb : w >>> 26 ≠ 0b000101 := by
    rw [shr26, hop]
    decide
  rw [decode, hop]
  show decodeOther w = _
  rw [decodeOther, if_neg hb, if_pos h]

theorem decode_braa {w : Word} (h : w &&& 0xfffffc00 = 0xd71f0800) (h16 : w &&& 0b11111 = 16) :
    decode w = some (.braa (w.extractLsb' 5 5)) := by
  have hop := opcode_of_mask h (by decide)
  have hb : w >>> 26 ≠ 0b000101 := by
    rw [shr26, hop]
    decide
  have hbr : w &&& 0xfffffc1f ≠ 0xd61f0000 := by
    intro hbr
    have := opcode_of_mask hbr (by decide)
    rw [hop] at this
    exact absurd this (by decide)
  have hbraa : w &&& 0xfffffc1f = 0xd71f0810 := by
    have hsplit : w &&& 0xfffffc1f = (w &&& 0xfffffc00) ||| (w &&& 0b11111) := by
      rw [← BitVec.and_or_distrib_left]
      rfl
    rw [hsplit, h, h16]
    rfl
  rw [decode, hop]
  show decodeOther w = _
  rw [decodeOther, if_neg hb, if_neg hbr, if_pos hbraa]

theorem mov_opcode : ∀ t : BitVec 10, (t.setWidth 32 >>> 1) &&& 0b111000111#32 = 0b110000101#32 →
    (t.setWidth 32 >>> 1) &&& 0b000111000#32 = 0b000100000#32 →
    (t = 0b1101001010 ∨ t = 0b1101001011) ∧ (t.setWidth 32 >>> 1) &&& 0b111111111#32 = 0b110100101#32 := by
  decide +kernel

theorem decode_movX16 {w : Word} (hmoves : Moves w) (h : (w >>> 23) &&& 0b111000111 = 0b110000101)
    (h16 : w &&& 0b11111 = 16) : ∃ imm, decode w = some (.movX16 imm) := by
  have hmove := hmoves h h16
  rw [shr23] at h hmove
  obtain ⟨hop, hmov⟩ := mov_opcode _ h hmove
  rw [← shr23] at hmov
  have hb : w >>> 26 ≠ 0b000101 := by
    rw [shr26]
    rcases hop with hop | hop <;> rw [hop] <;> decide
  have hne : ∀ v : Word, (v >>> 22).setWidth 10 ≠ (0b1101001010 : BitVec 10) →
      (v >>> 22).setWidth 10 ≠ (0b1101001011 : BitVec 10) → w &&& 0xfffffc1f ≠ v := by
    intro v h1 h2 heq
    have := opcode_of_mask heq (by decide)
    rcases hop with hop | hop
    · exact h1 (this.symm.trans hop)
    · exact h2 (this.symm.trans hop)
  have hother : decode w = decodeOther w := by
    rcases hop with hop | hop <;> rw [decode, hop] <;> rfl
  rw [hother, decodeOther, if_neg hb, if_neg (hne _ (by decide) (by decide)), if_neg (hne _ (by decide) (by decide)),
    if_pos ⟨hmov, h16⟩]
  exact ⟨_, rfl⟩

end FramehopUnwind.Unwinder.Aarch64
