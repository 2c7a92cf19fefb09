/-
  FramehopUnwind.Unwinder.AnalysisAccesses — the counters of instruction analysis
  (prologue.rs and epilogue.rs of vendor/framehop/src/x86_64/instruction_analysis and of
  vendor/framehop/src/aarch64/instruction_analysis).

  The detectors of `Unwinder.X86Analysis` and `Unwinder.Aarch64Analysis` again, as programs (see
  `Unwinder.Accesses`). They read no word. Their plain sums are the count of words, a `u16` on x86,
  and the offsets from the stack pointer, `i32`s on arm64.

  Proved:
  - `ruleFromInstructionAnalysis_run`: the programs compute the rule of the analysis.
  - `X86.Accesses.ruleFromInstructionAnalysis_fits`: on x86 the count fits in every function with
    fewer than `2^16 - 1` bytes.
-/

import FramehopUnwind.Unwinder.Accesses

namespace FramehopUnwind.Unwinder

open Lib.Word Lib.Access

/-! ## x86-64 -/

namespace X86.Accesses

/-- `sp_offset_by_8 += 1`. -/
def incFits (n : Nat) : Bool := decide (n + 1 < 2 ^ 16)

def analyzeLoop (last : Option UInt8) : Bytes → Nat → Option Int → Prog (Option (Nat × Option Int))
  | [], _, _ => .done none
  | b :: rest, spOffsetBy8, bpOffsetBy8 =>
    if b = 0xc3 then .done (some (spOffsetBy8, bpOffsetBy8))
    else if b = 0xeb ∨ b = 0xe9 ∨ b = 0xff then
      if spOffsetBy8 ≠ 0 then .done (some (spOffsetBy8, bpOffsetBy8))
      else
        match last with
        | some potentialPopByte =>
          if potentialPopByte &&& 0xf8 = 0x58 then .done (some (spOffsetBy8, bpOffsetBy8)) else .done none
        | none => .done none
    else if b = 0x5d then
      .sum (incFits spOffsetBy8) (analyzeLoop last rest (incU16 spOffsetBy8) (some (asI16 spOffsetBy8)))
    else if 0x58 ≤ b ∧ b ≤ 0x5f then
      .sum (incFits spOffsetBy8) (analyzeLoop last rest (incU16 spOffsetBy8) bpOffsetBy8)
    else
      match rest with
      | [] => .done none
      | b1 :: rest' =>
        if b &&& 0xfe = 0x40 ∧ b1 &&& 0xf8 = 0x58 then
          .sum (incFits spOffsetBy8) (analyzeLoop last rest' (incU16 spOffsetBy8) bpOffsetBy8)
        else .done none

def unwindRuleFromDetectedEpilogue (textBytes : Bytes) (pcOffset : Nat) : Prog (Option UnwindRule) :=
  (analyzeLoop (textBytes.take pcOffset).getLast? (textBytes.drop pcOffset) 0 none).bind fun
    | none => .done none
    | some (spOffsetBy8, bpOffsetBy8) =>
      if spOffsetBy8 = 0 then .done (some .justReturn)
      else
        .sum (incFits spOffsetBy8) (.done (some
          (match bpOffsetBy8 with
          | some bpStorageOffsetFromSpBy8 => .offsetSpAndRestoreBp (incU16 spOffsetBy8) bpStorageOffsetFromSpBy8
          | none => .offsetSp (incU16 spOffsetBy8))))

def walkBack (before : Bytes) (spOffsetBy8 : Nat) : Prog UnwindRule :=
  if before.take 4 = [0xe5, 0x89, 0x48, 0x55] then .done .useFramePointer
  else
    match before with
    | [] => .sum (incFits spOffsetBy8) (.done (.offsetSp (incU16 spOffsetBy8)))
    | b :: rest =>
      if b &&& 0xf8 = 0x50 then
        .sum (incFits spOffsetBy8)
          (match rest with
          | [] => walkBack [] (incU16 spOffsetBy8)
          | p :: rest' =>
            if p &&& 0xfe = 0x40 then walkBack rest' (incU16 spOffsetBy8)
            else walkBack (p :: rest') (incU16 spOffsetBy8))
      else .sum (incFits spOffsetBy8) (.done (.offsetSp (incU16 spOffsetBy8)))

def ruleFromInstructionAnalysis (textBytes : Bytes) (pcOffset : Nat) : Prog (Option UnwindRule) :=
  if isNextInstructionExpectedInPrologue (textBytes.drop pcOffset) then
    (walkBack (textBytes.take pcOffset).reverse 0).bind fun rule => .done (some rule)
  else unwindRuleFromDetectedEpilogue textBytes pcOffset

variable (read : ReadStack)

theorem analyzeLoop_run (last : Option UInt8) (bytes : Bytes) (n : Nat) (o : Option Int) :
    (analyzeLoop last bytes n o).run read = X86.analyzeLoop last bytes n o := by
  fun_induction X86.analyzeLoop last bytes n o <;> unfold analyzeLoop <;> grind [Prog.run]

theorem walkBack_run (before : Bytes) (n : Nat) : (walkBack before n).run read = X86.walkBack before n := by
  fun_induction X86.walkBack before n <;> unfold walkBack <;> grind [Prog.run]

theorem unwindRuleFromDetectedEpilogue_run (textBytes : Bytes) (pcOffset : Nat) :
    (unwindRuleFromDetectedEpilogue textBytes pcOffset).run read =
      X86.unwindRuleFromDetectedEpilogue textBytes pcOffset := by
  unfold unwindRuleFromDetectedEpilogue X86.unwindRuleFromDetectedEpilogue
  rw [Prog.run_bind, analyzeLoop_run]
  rcases X86.analyzeLoop _ _ 0 none with _ | ⟨spOffsetBy8, bpOffsetBy8⟩
  · rfl
  · dsimp only [Option.map_some]
    split <;> rfl

theorem ruleFromInstructionAnalysis_run (textBytes : Bytes) (pcOffset : Nat) :
    (ruleFromInstructionAnalysis textBytes pcOffset).run read =
      X86.ruleFromInstructionAnalysis textBytes pcOffset := by
  unfold ruleFromInstructionAnalysis X86.ruleFromInstructionAnalysis ruleFromPrologueAnalysis
    unwindRuleFromDetectedPrologue
  split
  · rw [Prog.run_bind, walkBack_run]
    rfl
  · exact unwindRuleFromDetectedEpilogue_run read textBytes pcOffset

/-- Each pop takes a byte, and so does the return. -/
theorem analyzeLoop_fits (last : Option UInt8) (bytes : Bytes) (n : Nat) (o : Option Int)
    (h : n + bytes.length < 2 ^ 16) :
    (analyzeLoop last bytes n o).Fits read ∧
      ∀ r ∈ X86.analyzeLoop last bytes n o, r.1 + 1 ≤ n + bytes.length := by
  have hinc : ∀ n, incU16 n ≤ n + 1 := fun n => Nat.mod_le _ _
  fun_induction X86.analyzeLoop last bytes n o <;> unfold analyzeLoop <;> grind [Prog.Fits, incFits]

theorem walkBack_fits {before : Bytes} {n : Nat} (h : n + before.length + 1 < 2 ^ 16) :
    (walkBack before n).Fits read := by
  fun_induction X86.walkBack before n <;> unfold walkBack <;> grind [Prog.Fits, incFits, incU16]

/-- In a function with fewer than `2^16 - 1` bytes the count fits. -/
theorem ruleFromInstructionAnalysis_fits {textBytes : Bytes} (h : textBytes.length + 1 < 2 ^ 16) (pcOffset : Nat) :
    (ruleFromInstructionAnalysis textBytes pcOffset).Fits read := by
  unfold ruleFromInstructionAnalysis
  split
  · rw [Prog.fits_bind, and_iff_left (Prog.fits_done _ _)]
    exact walkBack_fits read (by rw [List.length_reverse, List.length_take]; omega)
  · unfold unwindRuleFromDetectedEpilogue
    have hlength : 0 + (textBytes.drop pcOffset).length < 2 ^ 16 := by
      rw [List.length_drop]
      omega
    obtain ⟨hloop, hcount⟩ := analyzeLoop_fits read (textBytes.take pcOffset).getLast? _ _ none hlength
    rw [Prog.fits_bind, and_iff_right hloop, analyzeLoop_run]
    cases hr : X86.analyzeLoop _ _ 0 none with
    | none => trivial
    | some r =>
      have := hcount r hr
      dsimp only
      split
      · trivial
      · exact ⟨decide_eq_true (by omega), trivial⟩

end X86.Accesses

/-! ## arm64 -/

namespace Aarch64.Accesses

open Lib.A64

/-- An `i32` sum fits. -/
def i32Fits (a b : Int) : Bool := decide (-(2 ^ 31) ≤ a + b ∧ a + b < 2 ^ 31)

/-- The sums of `step_instruction`. -/
def stepSums (d : EpilogueDetector) (w : Word) : List Bool :=
  if w = 0xd65f03c0 ∨ w = 0xd65f0fff ∨ w = 0xd50323ff ∨ w >>> 26 = 0b000101 then []
  else if (w >>> 22) &&& 0b1011111001 = 0b1010100001 then
    if writebackBits w = 0b00 ∨ referenceReg w ≠ 31 then []
    else
      let isPreindexedWriteback := writebackBits w = 0b11
      let isPostindexedWriteback := writebackBits w = 0b01
      let regLoc := if isPostindexedWriteback then d.spOffset else addI32 d.spOffset (pairImm7 w)
      (if isPostindexedWriteback then [] else [i32Fits d.spOffset (pairImm7 w)]) ++
        (if pairReg2 w = 29 ∨ pairReg2 w = 30 then [i32Fits regLoc 8] else []) ++
        if isPreindexedWriteback ∨ isPostindexedWriteback then [i32Fits d.spOffset (pairImm7 w)] else []
  else if (w >>> 23) &&& 0b111111111 = 0b100100010 then
    if w &&& 0b11111 ≠ 31 ∨ referenceReg w ≠ 31 then [] else [i32Fits d.spOffset (immediate12 w)]
  else []

def analyzeLoop (d : EpilogueDetector) (w : Word) (bytes : Bytes) : Prog EpilogueResult :=
  .sums (stepSums d w)
    (match d.stepInstruction w with
    | (.needMore, d) =>
      match bytes with
      | b0 :: b1 :: b2 :: b3 :: rest => analyzeLoop d (fromLeBytes b0 b1 b2 b3) rest
      | _ => .done .reachedFunctionEndWithoutReturn
    | (.foundBodyInstruction t, _) => .done (.probablyStillInBody t)
    | (.foundReturn, d) | (.foundTailCall, d) => .done (.foundReturnOrTailCall d)
    | (.couldBeAuthTailCall, d) =>
      if isAuthTailCall bytes then .done (.foundReturnOrTailCall d)
      else .done (.probablyStillInBody .autibspNotFollowedByExpectedTailCall))

/-- What comes before the loop makes no sum that is not checked by a comparison. -/
def analyzeSlice (d : EpilogueDetector) (functionBytes : Bytes) (pcOffset : Nat) : Prog EpilogueResult :=
  match functionBytes.drop pcOffset with
  | b0 :: b1 :: b2 :: b3 :: bytes =>
    match analyzeInstruction (fromLeBytes b0 b1 b2 b3) with
    | .veryLikelyPartOfEpilogue => analyzeLoop d (fromLeBytes b0 b1 b2 b3) bytes
    | _ => .done (d.analyzeSlice functionBytes pcOffset)
  | _ => .done .reachedFunctionEndWithoutReturn

/-- The sums of `reverse_step_instruction`. -/
def reverseStepSums (spOffset : Int) (w : Word) : List Bool :=
  if w = 0xd503237f then []
  else if (w >>> 22) &&& 0b1011111001 = 0b1010100000 then
    if writebackBits w = 0b00 ∨ referenceReg w ≠ 31 then []
    else if writebackBits w = 0b11 ∨ writebackBits w = 0b01 then [i32Fits spOffset (-pairImm7 w)]
    else []
  else if (w >>> 23) &&& 0b111111111 = 0b110100010 then
    if w &&& 0b11111 ≠ 31 ∨ referenceReg w ≠ 31 then [] else [i32Fits spOffset (immediate12 w)]
  else []

def reverseLoop (spOffset : Int) : List Word → Prog Int
  | [] => .done spOffset
  | w :: ws =>
    .sums (reverseStepSums spOffset w)
      (match reverseStepInstruction spOffset w with
      | none => .done spOffset
      | some spOffset => reverseLoop spOffset ws)

def analyzeSlices (sliceFromStart sliceToEnd : Bytes) : Prog (Option Int) :=
  match fetch sliceToEnd 0 with
  | none => .done none
  | some nextInstruction =>
    match analyzePrologueInstructionType nextInstruction with
    | .notExpectedInPrologue => .done none
    | .couldBePartOfPrologueIfThereIsAlsoAStackPointerSub =>
      (reverseLoop 0 (chunksExact sliceFromStart).reverse).bind fun spOffset =>
        .done (if spOffset = 0 then none else some spOffset)
    | .veryLikelyPartOfPrologue =>
      (reverseLoop 0 (chunksExact sliceFromStart).reverse).bind fun spOffset => .done (some spOffset)

def unwindRuleFromDetectedPrologue (sliceFromStart sliceToEnd : Bytes) : Prog (Option UnwindRule) :=
  (analyzeSlices sliceFromStart sliceToEnd).bind fun
    | none => .done none
    | some spOffset => .done (do
      let spOffsetBy16 ← toU16 (spOffset.tdiv 16)
      if spOffsetBy16 = 0 then return .noOp else return .offsetSp spOffsetBy16)

def unwindRuleFromDetectedEpilogue (bytes : Bytes) (pcOffset : Nat) : Prog (Option UnwindRule) :=
  (analyzeSlice .new bytes pcOffset).bind fun
    | .probablyStillInBody _ | .reachedFunctionEndWithoutReturn => .done none
    | .foundReturnOrTailCall d => .done (do
      let spOffsetBy16 ← toU16 (d.spOffset.tdiv 16)
      match d.fpOffsetFromInitialSp, d.lrOffsetFromInitialSp with
      | none, none => if spOffsetBy16 = 0 then return .noOp else return .offsetSp spOffsetBy16
      | none, some lrOffset =>
        let lrStorage ← toI16 (lrOffset.tdiv 8)
        return .offsetSpAndRestoreLr spOffsetBy16 lrStorage
      | some _, none => none
      | some fpOffset, some lrOffset =>
        let fpStorage ← toI16 (fpOffset.tdiv 8)
        let lrStorage ← toI16 (lrOffset.tdiv 8)
        return .offsetSpAndRestoreFpAndLr spOffsetBy16 fpStorage lrStorage)

def ruleFromInstructionAnalysis (textBytes : Bytes) (pcOffset : Nat) : Prog (Option UnwindRule) :=
  (unwindRuleFromDetectedPrologue (textBytes.take pcOffset) (textBytes.drop pcOffset)).bind fun
    | some rule => .done (some rule)
    | none => unwindRuleFromDetectedEpilogue textBytes pcOffset

variable (read : ReadStack)

theorem analyzeLoop_run (d : EpilogueDetector) (w : Word) (bytes : Bytes) :
    (analyzeLoop d w bytes).run read = d.analyzeLoop w bytes := by
  fun_induction EpilogueDetector.analyzeLoop d w bytes <;> unfold analyzeLoop <;> grind [Prog.run, Prog.run_sums]

theorem analyzeSlice_run (d : EpilogueDetector) (functionBytes : Bytes) (pcOffset : Nat) :
    (analyzeSlice d functionBytes pcOffset).run read = d.analyzeSlice functionBytes pcOffset := by
  unfold analyzeSlice
  split
  · rename_i heq
    split
    · rename_i hlikely
      rw [analyzeLoop_run, EpilogueDetector.analyzeSlice, heq]
      dsimp only
      rw [hlikely]
    · rfl
  · rename_i hshort
    unfold EpilogueDetector.analyzeSlice
    split
    · rename_i heq
      exact absurd heq (hshort _ _ _ _ _)
    · rfl

theorem reverseLoop_run (spOffset : Int) (ws : List Word) :
    (reverseLoop spOffset ws).run read = Aarch64.reverseLoop spOffset ws := by
  induction ws generalizing spOffset with
  | nil => rfl
  | cons w ws ih =>
    rw [reverseLoop, Prog.run_sums, Aarch64.reverseLoop]
    cases reverseStepInstruction spOffset w with
    | none => rfl
    | some spOffset => exact ih spOffset

theorem analyzeSlices_run (sliceFromStart sliceToEnd : Bytes) :
    (analyzeSlices sliceFromStart sliceToEnd).run read = Aarch64.analyzeSlices sliceFromStart sliceToEnd := by
  unfold analyzeSlices Aarch64.analyzeSlices
  cases fetch sliceToEnd 0 with
  | none => rfl
  | some nextInstruction =>
    dsimp only
    cases analyzePrologueInstructionType nextInstruction with
    | notExpectedInPrologue => rfl
    | couldBePartOfPrologueIfThereIsAlsoAStackPointerSub =>
      dsimp only
      rw [Prog.run_bind, reverseLoop_run]
      rfl
    | veryLikelyPartOfPrologue =>
      dsimp only
      rw [Prog.run_bind, reverseLoop_run]
      rfl

theorem unwindRuleFromDetectedPrologue_run (sliceFromStart sliceToEnd : Bytes) :
    (unwindRuleFromDetectedPrologue sliceFromStart sliceToEnd).run read =
      Aarch64.unwindRuleFromDetectedPrologue sliceFromStart sliceToEnd := by
  unfold unwindRuleFromDetectedPrologue Aarch64.unwindRuleFromDetectedPrologue
  rw [Prog.run_bind, analyzeSlices_run]
  cases Aarch64.analyzeSlices sliceFromStart sliceToEnd <;> rfl

theorem unwindRuleFromDetectedEpilogue_run (bytes : Bytes) (pcOffset : Nat) :
    (unwindRuleFromDetectedEpilogue bytes pcOffset).run read =
      Aarch64.unwindRuleFromDetectedEpilogue bytes pcOffset := by
  unfold unwindRuleFromDetectedEpilogue Aarch64.unwindRuleFromDetectedEpilogue
  rw [Prog.run_bind, analyzeSlice_run]
  cases EpilogueDetector.new.analyzeSlice bytes pcOffset <;> rfl

theorem ruleFromInstructionAnalysis_run (textBytes : Bytes) (pcOffset : Nat) :
    (ruleFromInstructionAnalysis textBytes pcOffset).run read =
      Aarch64.ruleFromInstructionAnalysis textBytes pcOffset := by
  unfold ruleFromInstructionAnalysis Aarch64.ruleFromInstructionAnalysis ruleFromPrologueAnalysis
  rw [Prog.run_bind, unwindRuleFromDetectedPrologue_run]
  cases Aarch64.unwindRuleFromDetectedPrologue (textBytes.take pcOffset) (textBytes.drop pcOffset) with
  | some rule => rfl
  | none => exact unwindRuleFromDetectedEpilogue_run read textBytes pcOffset

end Aarch64.Accesses

end FramehopUnwind.Unwinder
