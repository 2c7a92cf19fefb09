/-
  FramehopUnwind.Unwinder.X86Analysis — rules from the instructions around an address, and what
  they mean (epilogue.rs and prologue.rs of vendor/framehop/src/x86_64/instruction_analysis,
  against `Lib.X64`).

  An epilogue is a run of pops from the address on to a return or a tail call; a prologue is the
  pushes before the address, back to where they stop or to the set-up of a frame pointer. The
  counter of words is a `u16` and wraps, as in a release build.

  The detector goes by the look of single bytes. `Plain` are the places where that is no guess: a
  pop does not change the stack pointer, a prefixed one does not pop the frame pointer, and what is
  taken for a tail call is a jump that leaves the function.

  A backward walk cannot know where the function starts. What its rule is worth is stated for a
  function that starts where the walk stops (`prologueStart`).

  Proved:
  - `analyzeLoop_ends`: run from a byte the detector accepts on, the code leaves with what the
    detector has noted.
  - `x86_epilogue_rule_sound`: executing the rule of a detected epilogue gives the caller that the
    code, run on, returns to.
  - `x86_prologue_rule_sound`: executing the rule of a detected prologue gives the caller that the
    function, returning at once from its start, would have returned to.
-/

import FramehopUnwind.Unwinder.X86
import FramehopUnwind.Lib.X64

namespace FramehopUnwind.Unwinder.X86

open Lib Lib.Word Lib.Machine

/-! ## Epilogues -/

/-- `u16` increment. -/
def incU16 (n : Nat) : Nat := (n + 1) % 2 ^ 16

/-- `as i16`. -/
def asI16 (n : Nat) : Int := (n : Int).bmod (2 ^ 16)

/-- The loop of `unwind_rule_from_detected_epilogue`: the two offsets at the return or tail call.
    `last` is the byte before the address. -/
def analyzeLoop (last : Option UInt8) : Bytes → Nat → Option Int → Option (Nat × Option Int)
  | [], _, _ => none
  | b :: rest, spOffsetBy8, bpOffsetBy8 =>
    if b = 0xc3 then some (spOffsetBy8, bpOffsetBy8)
    else if b = 0xeb ∨ b = 0xe9 ∨ b = 0xff then
      -- a jump behind a pop is taken for a tail call
      if spOffsetBy8 ≠ 0 then some (spOffsetBy8, bpOffsetBy8)
      else
        match last with
        | some potentialPopByte =>
          if potentialPopByte &&& 0xf8 = 0x58 then some (spOffsetBy8, bpOffsetBy8) else none
        | none => none
    else if b = 0x5d then analyzeLoop last rest (incU16 spOffsetBy8) (some (asI16 spOffsetBy8))
    else if 0x58 ≤ b ∧ b ≤ 0x5f then analyzeLoop last rest (incU16 spOffsetBy8) bpOffsetBy8
    else
      match rest with
      | [] => none
      | b1 :: rest' =>
        if b &&& 0xfe = 0x40 ∧ b1 &&& 0xf8 = 0x58 then analyzeLoop last rest' (incU16 spOffsetBy8) bpOffsetBy8
        else none

def unwindRuleFromDetectedEpilogue (textBytes : Bytes) (pcOffset : Nat) : Option UnwindRule :=
  (analyzeLoop (textBytes.take pcOffset).getLast? (textBytes.drop pcOffset) 0 none).map
    fun (spOffsetBy8, bpOffsetBy8) =>
    if spOffsetBy8 = 0 then .justReturn
    else
      match bpOffsetBy8 with
      | some bpStorageOffsetFromSpBy8 => .offsetSpAndRestoreBp (incU16 spOffsetBy8) bpStorageOffsetFromSpBy8
      | none => .offsetSp (incU16 spOffsetBy8)

/-! ## Prologues -/

def isNextInstructionExpectedInPrologue (bytes : Bytes) : Bool :=
  bytes.length ≥ 4 &&
    match bytes with
    | b0 :: b1 :: b2 :: _ =>
      b0 &&& 0xf8 = 0x50 || (b0 &&& 0xfe = 0x40 && b1 &&& 0xf8 = 0x50) || (b0 = 0x83 && b1 = 0xec) ||
        (b0 = 0x48 && b1 = 0x83 && b2 = 0xec) || (b0 = 0x81 && b1 = 0xec) || (b0 = 0x48 && b1 = 0x81 && b2 = 0xec) ||
        (b0 = 0x48 && b1 = 0x89 && b2 = 0xe5)
    | _ => false

/-- The loop of `unwind_rule_from_detected_prologue`, on the bytes before the cursor, the nearest first. -/
def walkBack (before : Bytes) (spOffsetBy8 : Nat) : UnwindRule :=
  if before.take 4 = [0xe5, 0x89, 0x48, 0x55] then .useFramePointer
  else
    match before with
    | [] => .offsetSp (incU16 spOffsetBy8)
    | b :: rest =>
      if b &&& 0xf8 = 0x50 then
        match rest with
        | [] => walkBack [] (incU16 spOffsetBy8)
        | p :: rest' =>
          if p &&& 0xfe = 0x40 then walkBack rest' (incU16 spOffsetBy8) else walkBack (p :: rest') (incU16 spOffsetBy8)
      else .offsetSp (incU16 spOffsetBy8)

def unwindRuleFromDetectedPrologue (textBytes : Bytes) (pcOffset : Nat) : Option UnwindRule :=
  if isNextInstructionExpectedInPrologue
    (textBytes.drop pcOffset) then some (walkBack (textBytes.take pcOffset).reverse 0)
  else none

/-! ## The analysis -/

def ruleFromPrologueAnalysis (textBytes : Bytes) (pcOffset : Nat) : Option UnwindRule :=
  unwindRuleFromDetectedPrologue textBytes pcOffset

def ruleFromEpilogueAnalysis (textBytes : Bytes) (pcOffset : Nat) : Option UnwindRule :=
  unwindRuleFromDetectedEpilogue textBytes pcOffset

def ruleFromInstructionAnalysis (textBytes : Bytes) (pcOffset : Nat) : Option UnwindRule :=
  (ruleFromPrologueAnalysis textBytes pcOffset).or (ruleFromEpilogueAnalysis textBytes pcOffset)

/-! ## Running an epilogue -/

/-- Room for the stack pointer to move in. -/
structure Roomy (s : X64.State) : Prop where
  low : 2 ^ 18 ≤ s.sp
  high : s.sp + 2 ^ 19 ≤ 2 ^ 64

/-- A place in an epilogue that is what it looks like, at most 2^15 words up. -/
structure Plain (base : Nat) (code : Bytes) (s₀ : X64.State) (pc : Nat) (s : X64.State) : Prop where
  near : s.sp < s₀.sp + 2 ^ 18
  rsp : ∀ n, X64.decode (code.drop pc) ≠ some (.pop X64.rsp, n)
  rbp : ∀ n, X64.decode (code.drop pc) = some (.pop X64.rbp, n) → n = 1
  jump : ∀ b ∈ (code.drop pc).head?, b = 0xeb ∨ b = 0xe9 ∨ b = 0xff → X64.JumpsOut base code pc s

/-- The frame pointer is the one of `s₀`, or a word of its stack at the offset noted. -/
def BpFrom (s₀ s : X64.State) (spOffsetBy8 : Nat) : Option Int → Prop
  | none => s.bp = s₀.bp
  | some o => ∃ k : Nat, o = k ∧ k < spOffsetBy8 ∧ s₀.mem (s₀.sp + 8 * k) = some s.bp

/-- What the detector has noted is where the machine is. -/
structure Tracks (s₀ s : X64.State) (spOffsetBy8 : Nat) (bpOffsetBy8 : Option Int) : Prop where
  sp : s.sp = s₀.sp + 8 * spOffsetBy8
  mem : s.mem = s₀.mem
  bp : BpFrom s₀ s spOffsetBy8 bpOffsetBy8
  small : spOffsetBy8 ≤ 2 ^ 15

variable {base : Nat} {code : Bytes} {s₀ s : X64.State}

/-- A pop faults, or the detector keeps track. -/
theorem Tracks.pop (hroom : Roomy s₀) {n : Nat} {o : Option Int} (h : Tracks s₀ s n o) {pc len : Nat}
    (hplain : Plain base code s₀ pc s) {r : X64.Gpr} (hdecode : X64.decode (code.drop pc) = some (.pop r, len)) :
    X64.step base code pc s = .fault ∨ ∃ s', X64.step base code pc s = .running (pc + len) s' ∧
      Tracks s₀ s' (incU16 n) (if r = X64.rbp then some (asI16 n) else o) := by
  have hnear := hplain.near
  have hsp := h.sp
  have hhigh := hroom.high
  have hr : r ≠ X64.rsp := by
    rintro rfl
    exact hplain.rsp len hdecode
  have hn : incU16 n = n + 1 := Nat.mod_eq_of_lt (by omega)
  have hi : asI16 n = n := Int.bmod_eq_of_le (by omega) (by omega)
  rcases X64.exec_pop ⟨base, code.length⟩ hr (pc + len) (s := s)
    (by omega) with hfault | ⟨v, s', hv, hexec, hsp', hbp', hmem'⟩
  · exact .inl (X64.step_of hdecode hfault)
  · refine .inr ⟨s', X64.step_of hdecode hexec, by omega, hmem'.trans h.mem, ?_, by omega⟩
    rw [h.mem, hsp] at hv
    rw [hn, hi]
    split
    case isTrue hrbp =>
      rw [if_pos hrbp] at hbp'
      exact ⟨n, rfl, Nat.lt_succ_self n, by rw [hv, hbp']⟩
    case isFalse hrbp =>
      rw [if_neg hrbp] at hbp'
      have hbp := h.bp
      unfold BpFrom at hbp ⊢
      rw [hbp']
      cases o with
      | none => exact hbp
      | some o =>
        obtain ⟨k, hk, hlt, hword⟩ := hbp
        exact ⟨k, hk, by omega, hword⟩

/-- Behind a pop the loop and the machine go on together. -/
theorem Tracks.ends_pop (hroom : Roomy s₀) {n len : Nat} {o : Option Int} (h : Tracks s₀ s n o) {pc : Nat}
    {bytes : Bytes}
    {r : X64.Gpr} {Q : X64.State → Prop} (hbytes : code.drop pc = bytes)
    (hdecode : X64.decode bytes = some (.pop r, len)) (hplain : Along (X64.step base code) pc s (Plain base code s₀))
    (hrest : ∀ s', Tracks s₀ s' (incU16 n) (if r = X64.rbp then some (asI16 n) else o) →
      Along (X64.step base code) (pc + len) s' (Plain base code s₀) → code.drop (pc + len) = bytes.drop len →
      Ends (X64.step base code) (pc + len) s' Q) : Ends (X64.step base code) pc s Q := by
  rw [← hbytes] at hdecode
  rcases h.pop hroom hplain.here hdecode with hfault | ⟨s', hstep, h'⟩
  · exact Ends.fault hfault
  · exact Ends.running hstep (hrest s' h' (hplain.next hstep) (by rw [← hbytes, List.drop_drop]))

theorem decode_popBp (rest : Bytes) : X64.decode (0x5d :: rest) = some (.pop X64.rbp, 1) := by
  rw [X64.decode_stack (.inr (by decide)), X64.decodeStack_pop (by decide)]
  rfl

theorem gpr_eq_rbp : ∀ b : UInt8, b ≠ 0x5d → 0x58 ≤ b ∧ b ≤ 0x5f → b &&& 0xf8 = 0x58 ∧ X64.gpr 0 b ≠ X64.rbp := by
  decide +kernel

theorem rex_of_ext : ∀ b : UInt8, b &&& 0xfe = 0x40 → b &&& 0xf0 = 0x40 := by decide +kernel

/-- At a byte taken for a tail call the code leaves as it is, or cannot read where it goes. -/
theorem Plain.ends_jump {pc : Nat} (h : Plain base code s₀ pc s) {b : UInt8} {rest : Bytes}
    (hbytes : code.drop pc = b :: rest)
    (hb : b = 0xeb ∨ b = 0xe9 ∨ b = 0xff) {Q : X64.State → Prop} (hQ : Q s) : Ends (X64.step base code) pc s Q := by
  have hhead : b ∈ (code.drop pc).head? := by
    rw [hbytes]
    rfl
  rcases (h.jump b hhead hb).step with hfault | hleft
  · exact Ends.fault hfault
  · exact Ends.left hleft hQ

/-- Run from an address on at which the detector comes to a return or tail call, the code leaves,
    in step with what the detector has noted. -/
theorem analyzeLoop_ends (hroom : Roomy s₀) {last : Option UInt8} {bytes : Bytes} {n m : Nat}
    {o o' : Option Int} {pc : Nat}
    (hbytes : code.drop pc = bytes) (hloop : analyzeLoop last bytes n o = some (m, o')) (h : Tracks s₀ s n o)
    (hplain : Along (X64.step base code) pc s (Plain base code s₀)) :
    Ends (X64.step base code) pc s fun s' => Tracks s₀ s' m o' := by
  fun_induction analyzeLoop last bytes n o generalizing pc s with
  | case1 => cases hloop
  | case2 rest n o =>
    cases hloop
    exact Ends.left (X64.step_of (by rw [hbytes]; rfl) rfl) h
  | case3 b rest n o _ hb =>
    cases hloop
    exact hplain.here.ends_jump hbytes hb h
  | case4 b rest n o _ hb =>
    cases hloop
    exact hplain.here.ends_jump hbytes hb h
  | case5 => cases hloop
  | case6 => cases hloop
  | case7 rest n o _ _ ih =>
    apply h.ends_pop hroom hbytes (decode_popBp rest) hplain
    intro s' h' hplain' hdrop
    exact ih hdrop hloop h' hplain'
  | case8 b rest n o _ _ hb hpop ih =>
    obtain ⟨hopcode, hrbp⟩ := gpr_eq_rbp b hb hpop
    have hdecode : X64.decode (b :: rest) = some (.pop (X64.gpr 0 b), 1) := by
      rw [X64.decode_stack (.inr hopcode), X64.decodeStack_pop hopcode]
      rfl
    apply h.ends_pop hroom hbytes hdecode hplain
    intro s' h' hplain' hdrop
    rw [if_neg hrbp] at h'
    exact ih hdrop hloop h' hplain'
  | case9 => cases hloop
  | case10 b n o _ _ _ _ b1 rest hpop ih =>
    have hdecode : X64.decode (b :: b1 :: rest) = some (.pop (X64.gpr b b1), 2) := by
      rw [X64.decode_rex (rex_of_ext b hpop.1) (.inr hpop.2), X64.decodeStack_pop hpop.2]
      rfl
    have hrbp : X64.gpr b b1 ≠ X64.rbp := by
      intro heq
      rw [heq, ← hbytes] at hdecode
      have := hplain.here.rbp 2 hdecode
      omega
    apply h.ends_pop hroom hbytes hdecode hplain
    intro s' h' hplain' hdrop
    rw [if_neg hrbp] at h'
    exact ih hdrop hloop h' hplain'
  | case11 => cases hloop

/-! ## Executing an epilogue's rule -/

/-- The unwinder's registers are those of the machine. -/
structure Agrees (regs : UnwindRegs) (s : X64.State) : Prop where
  sp : regs.sp = s.sp
  bp : regs.bp = s.bp

/-- What unwinding should give where a function with the return address at the stack pointer of `s`
    returns. -/
def callerOf (regs : UnwindRegs) (s : X64.State) : Except Error (Option Nat) × UnwindRegs :=
  match s.mem s.sp with
  | none => (.error (.couldNotReadStack s.sp), regs)
  | some returnAddress =>
    if returnAddress = 0 then (.ok none, regs)
    else (.ok (some returnAddress), ((regs.setIp returnAddress).set .rsp (s.sp + 8)).set .rbp s.bp)

theorem finish_eq_callerOf {regs : UnwindRegs} {s' : X64.State} {read : ReadStack} (hup : regs.sp ≤ s'.sp)
    (hlt : s'.sp + 8 < 2 ^ 64) (hread : read s'.sp = s'.mem s'.sp) :
    finish regs.sp (s'.sp + 8) s'.bp regs read = callerOf regs s' := by
  have hsub : wrappingSub (s'.sp + 8) 8 = s'.sp := by
    unfold wrappingSub
    omega
  unfold finish callerOf
  simp only [hsub, hread]
  cases s'.mem s'.sp with
  | none => rfl
  | some returnAddress =>
    have hmoved : ¬ (s'.sp + 8 = regs.sp ∧ returnAddress = regs.ip) := by omega
    simp only [hmoved, if_false]

/-- A rule that gives a target executes to the caller there. -/
theorem exec_eq_callerOf {rule : UnwindRule} {first : Bool} {regs : UnwindRegs} {read : ReadStack} {s' : X64.State}
    (h : target rule first regs read = .ok (some (s'.sp + 8, s'.bp))) (hup : regs.sp ≤ s'.sp) (hlt : s'.sp + 8 < 2 ^ 64)
    (hread : read s'.sp = s'.mem s'.sp) : exec rule first regs read = callerOf regs s' := by
  rw [← finish_eq_callerOf hup hlt hread]
  exact exec_of_target h

/-- A rule from epilogue analysis gives exactly what the rest of the epilogue does: run on from the
    address, the code comes to a return or a tail call, or faults; and in the first case executing
    the rule, in any frame, recovers the return address, stack pointer and frame pointer with which
    the function returns, fails where the return address cannot be read and ends the stack where it
    is null. The code is what it looks like along the run, pops less than 2^15 words, and leaves the
    function where it jumps. -/
theorem x86_epilogue_rule_sound {rule : UnwindRule} {pc : Nat} (h : ruleFromEpilogueAnalysis code pc = some rule)
    (hroom : Roomy s) (hplain : Along (X64.step base code) pc s (Plain base code s)) {regs : UnwindRegs}
    (hregs : Agrees regs s) :
    Ends (X64.step base code) pc s fun s' => ∀ first, exec rule first regs s.mem = callerOf regs s' := by
  unfold ruleFromEpilogueAnalysis unwindRuleFromDetectedEpilogue at h
  obtain ⟨⟨n, o⟩, hloop, hrule⟩ := Option.map_eq_some_iff.mp h
  apply (analyzeLoop_ends hroom rfl hloop ⟨rfl, rfl, rfl, Nat.zero_le _⟩ hplain).mono
  intro s' ht first
  have hsp := ht.sp
  have hhigh := hroom.high
  have hsmall := ht.small
  have hn : incU16 n = n + 1 := Nat.mod_eq_of_lt (by omega)
  have hadd : checkedAdd s.sp ((n + 1) * 8) = some (s'.sp + 8) := checkedAdd_eq_some.mpr ⟨by omega, by omega⟩
  have hbp := ht.bp
  apply exec_eq_callerOf _ (by rw [hregs.sp]; omega) (by omega) (by rw [ht.mem])
  dsimp only at hrule
  split at hrule
  case isTrue hzero =>
    subst hrule
    subst hzero
    cases o with
    | none =>
      have hbp : s'.bp = s.bp := hbp
      simp [target, hregs.sp, hregs.bp, hbp, hadd, okOr, bind, Except.bind, pure, Except.pure]
    | some o =>
      obtain ⟨k, -, hk, -⟩ := hbp
      omega
  case isFalse =>
    cases o with
    | none =>
      subst hrule
      have hbp : s'.bp = s.bp := hbp
      rw [hbp, ← hregs.bp, hn]
      rw [← hregs.sp] at hadd
      exact target_offsetSp first hadd
    | some o =>
      subst hrule
      obtain ⟨k, rfl, hk, hword⟩ := hbp
      have hloc : checkedAddSigned s.sp ((k : Int) * 8) = some (s.sp + 8 * k) :=
        checkedAddSigned_eq_some.mpr ⟨by push_cast; omega, by omega⟩
      rw [hn]
      rw [← hregs.sp] at hadd hloc hword
      exact target_restoreBp first hadd hloc hword

-- a jump inside the function is taken for a tail call, and the word popped behind it is missed
example : ruleFromEpilogueAnalysis [0x58, 0xeb, 0x00, 0x58, 0xc3] 0 = some (.offsetSp 2) := by decide

/-- `pop rbx`, `pop rbp` and a jump over 0x1000 bytes. -/
def popBoth : Bytes := [0x5b, 0x5d, 0xe9, 0x00, 0x10, 0x00, 0x00]

/-- A state with a word of its own at every address. -/
def sampleState : X64.State := ⟨fun r => if r = X64.rsp then 2 ^ 40 else 7, fun a => some (a + 1)⟩

theorem plain_of_pop {pc n : Nat} {r : X64.Gpr} (h : X64.decode (code.drop pc) = some (.pop r, n))
    (hnear : s.sp < s₀.sp + 2 ^ 18) (hrsp : r ≠ X64.rsp) (hrbp : r = X64.rbp → n = 1)
    {b : UInt8} (hb : (code.drop pc).head? = some b) (hpop : ¬ (b = 0xeb ∨ b = 0xe9 ∨ b = 0xff)) :
    Plain base code s₀ pc s := by
  refine ⟨hnear, ?_, ?_, ?_⟩
  · intro n' h'
    cases h.symm.trans h'
    exact hrsp rfl
  · intro n' h'
    cases h.symm.trans h'
    exact hrbp rfl
  · intro b' hb' hjumps
    cases hb.symm.trans hb'
    exact absurd hjumps hpop

theorem popBoth_jumpsOut (s : X64.State) : X64.JumpsOut 0x400000 popBoth 2 s := by
  refine ⟨.near 0x1000, 5, by decide, ?_⟩
  intro address h
  obtain rfl := Option.some.inj h
  decide

theorem popBoth_plain : Along (X64.step 0x400000 popBoth) 0 sampleState (Plain 0x400000 popBoth sampleState) := by
  intro n pc s h
  match n, h with
  | 0, h =>
    cases h
    exact plain_of_pop (r := 3) (n := 1) (by decide) (by decide) (by decide) (by decide) rfl (by decide)
  | 1, h =>
    cases h
    exact plain_of_pop (r := X64.rbp) (n := 1) (by decide) (by decide) (by decide) (by decide) rfl (by decide)
  | 2, h =>
    cases h
    have hdecode : X64.decode (popBoth.drop 2) = some (.jmp (.near 0x1000), 5) := by decide
    refine ⟨by decide, ?_, ?_, fun _ _ _ => popBoth_jumpsOut _⟩
    · intro n h'
      cases hdecode.symm.trans h'
    · intro n h'
      cases hdecode.symm.trans h'
  | n + 3, h => cases h

theorem x86_epilogue_rule_sound_popBoth : Ends (X64.step 0x400000 popBoth) 0 sampleState fun s' => ∀ first,
    exec (.offsetSpAndRestoreBp 3 1) first (.new 0 (2 ^ 40) 7) sampleState.mem = callerOf (.new 0 (2 ^ 40) 7) s' :=
  x86_epilogue_rule_sound (by decide) ⟨by decide, by decide⟩ popBoth_plain ⟨rfl, rfl⟩

/-! ## Running a prologue -/

/-- How many bytes are before the place where the walk back stops. -/
def stopsAt (before : Bytes) : Nat :=
  if before.take 4 = [0xe5, 0x89, 0x48, 0x55] then before.length - 4
  else
    match before with
    | [] => 0
    | b :: rest =>
      if b &&& 0xf8 = 0x50 then
        match rest with
        | [] => stopsAt []
        | p :: rest' => if p &&& 0xfe = 0x40 then stopsAt rest' else stopsAt (p :: rest')
      else rest.length + 1

/-- Where the function is taken to start. -/
def prologueStart (code : Bytes) (pc : Nat) : Nat := stopsAt (code.take pc).reverse

/-- The stack from the one of `s₀` up is untouched, and at most a word a byte was pushed on it. -/
structure Below (s₀ s : X64.State) (bytes : Nat) : Prop where
  mem : ∀ a, s₀.sp ≤ a → s.mem a = s₀.mem a
  up : s.sp ≤ s₀.sp
  near : s₀.sp ≤ s.sp + 8 * bytes

/-- `m` words are pushed and nothing else has happened. -/
structure Pushed (s₀ s : X64.State) (m : Nat) : Prop where
  sp : s.sp + 8 * m = s₀.sp
  bp : s.bp = s₀.bp

/-- The frame pointer is set up. -/
structure Framed (s₀ s : X64.State) : Prop where
  bp : s.bp + 8 = s₀.sp
  sp : s.sp ≤ s.bp
  saved : s.mem s.bp = some s₀.bp

/-- The walk's result is what a function's first instructions have done. -/
def Undoes (s₀ s : X64.State) (before : Bytes) : Prop :=
  (∃ m, Pushed s₀ s m ∧ ∀ n, n + m + 1 < 2 ^ 16 → walkBack before n = .offsetSp (n + m + 1)) ∨
    (Framed s₀ s ∧ ∀ n, walkBack before n = .useFramePointer)

theorem stopsAt_le (before : Bytes) : stopsAt before ≤ before.length := by
  fun_induction stopsAt before <;> simp_all <;> omega

theorem undoes_start (s : X64.State) {before : Bytes} (h : ∀ n, walkBack before n = .offsetSp (incU16 n)) :
    Below s s 0 ∧ Undoes s s before := by
  refine ⟨⟨fun _ _ => rfl, le_rfl, le_rfl⟩, .inl ⟨0, ⟨rfl, rfl⟩, ?_⟩⟩
  intro n hn
  have hinc : incU16 n = n + 1 := Nat.mod_eq_of_lt (by omega)
  rw [h, hinc]

/-- One push more. -/
theorem Undoes.push (hroom : Roomy s₀) {before before' : Bytes} {k k' pc len : Nat} {r : X64.Gpr}
    (hdecode : X64.decode (code.drop pc) = some (.push r, len)) (hk : k + 1 ≤ k') (hk' : k' ≤ 2 ^ 15)
    (hwalk : ∀ n, walkBack before' n = walkBack before (incU16 n)) (h : Below s₀ s k ∧ Undoes s₀ s before) :
    X64.step base code pc s = .fault ∨
      ∃ s', X64.step base code pc s = .running (pc + len) s' ∧ Below s₀ s' k' ∧ Undoes s₀ s' before' := by
  obtain ⟨hbelow, h⟩ := h
  have hnear := hbelow.near
  have hup := hbelow.up
  have hlow := hroom.low
  have hhigh := hroom.high
  rcases X64.exec_push ⟨base, code.length⟩ r (pc + len) (s := s) (by omega)
    (by omega) with hfault | ⟨s', hexec, hsp, hbp, hmem⟩
  · exact .inl (X64.step_of hdecode hfault)
  · refine .inr ⟨s', X64.step_of hdecode hexec, ⟨?_, by omega, by omega⟩, ?_⟩
    · intro a ha
      rw [hmem, Function.update_of_ne (by omega)]
      exact hbelow.mem a ha
    · rcases h with ⟨m, hpushed, hm⟩ | ⟨hframed, hm⟩
      · refine .inl ⟨m + 1, ⟨?_, hbp.trans hpushed.bp⟩, ?_⟩
        · have := hpushed.sp
          omega
        · intro n hn
          have hinc : incU16 n = n + 1 := Nat.mod_eq_of_lt (by omega)
          rw [hwalk, hinc, hm _ (by omega), Nat.add_right_comm n 1 m, Nat.add_assoc n m 1]
      · have hfp := hframed.sp
        refine .inr ⟨⟨?_, ?_, ?_⟩, ?_⟩
        · rw [hbp]
          exact hframed.bp
        · omega
        · rw [hbp, hmem, Function.update_of_ne (by omega)]
          exact hframed.saved
        · intro n
          rw [hwalk, hm]

/-- `push rbp` and `mov rbp, rsp` set up the frame pointer. -/
theorem comes_framed (hroom : Roomy s₀) {pc : Nat} {after : Bytes}
    (hbytes : code.drop pc = 0x55 :: 0x48 :: 0x89 :: 0xe5 :: after) :
    Comes (X64.step base code) pc s₀ (pc + 4) fun s => Below s₀ s 4 ∧ Framed s₀ s := by
  have hlow := hroom.low
  have hhigh := hroom.high
  have hpush : X64.decode (code.drop pc) = some (.push X64.rbp, 1) := by
    rw [hbytes, X64.decode_stack (.inl (by decide)), X64.decodeStack_push (by decide)]
    rfl
  have hmov : X64.decode (code.drop (pc + 1)) = some (.movRbpRsp, 3) := by
    rw [← List.drop_drop, hbytes]
    rfl
  have hpushed : Comes (X64.step base code) pc s₀ (pc + 1) fun s =>
      s.sp + 8 = s₀.sp ∧ s.mem = Function.update s₀.mem s.sp (some s₀.bp) := by
    apply (Comes.here (Q := (· = s₀)) rfl).next
    rintro s rfl
    rcases X64.exec_push ⟨base, code.length⟩ X64.rbp (pc + 1) (s := s) (by omega)
      (by omega) with hfault | ⟨s', hexec, hsp, -, hmem⟩
    · exact .inl (X64.step_of hpush hfault)
    · exact .inr ⟨s', X64.step_of hpush hexec, hsp, hmem⟩
  apply hpushed.next
  intro s h
  obtain ⟨hsp, hmem⟩ := h
  obtain ⟨s', hexec, hsp', hbp', hmem'⟩ := X64.exec_movRbpRsp ⟨base, code.length⟩ (pc + 1 + 3) s
  refine .inr ⟨s', X64.step_of hmov hexec, ⟨?_, by omega, by omega⟩, by omega, by omega, ?_⟩
  · intro a ha
    rw [hmem', hmem, Function.update_of_ne (by omega)]
  · rw [hmem', hbp', hmem, Function.update_self]

theorem decode_push {b : UInt8} (hb : b &&& 0xf8 = 0x50) (after : Bytes) :
    X64.decode (b :: after) = some (.push (X64.gpr 0 b), 1) := by
  rw [X64.decode_stack (.inl hb), X64.decodeStack_push hb]
  rfl

theorem decode_push_rex {p b : UInt8} (hp : p &&& 0xfe = 0x40) (hb : b &&& 0xf8 = 0x50) (after : Bytes) :
    X64.decode (p :: b :: after) = some (.push (X64.gpr p b), 2) := by
  rw [X64.decode_rex (rex_of_ext p hp) (.inl hb), X64.decodeStack_push hb]
  rfl

/-- From one cursor of the walk to the one before it: `chunk` are the bytes of a push, the last first. -/
theorem comes_push (chunk : Bytes) (hroom : Roomy s₀) {before after : Bytes} {r : X64.Gpr}
    (hdecode : ∀ after, X64.decode (chunk.reverse ++ after) = some (.push r, chunk.length))
    (hcode : code = (chunk ++ before).reverse ++ after) (hnear : (chunk ++ before).length ≤ stopsAt before + 2 ^ 15)
    (hwalk : ∀ n, walkBack (chunk ++ before) n = walkBack before (incU16 n))
    (ih : ∀ {after}, code = before.reverse ++ after → before.length ≤ stopsAt before + 2 ^ 15 →
      Comes (X64.step base code) (stopsAt before) s₀ before.length fun s =>
        Below s₀ s (before.length - stopsAt before) ∧ Undoes s₀ s before) :
    Comes (X64.step base code) (stopsAt before) s₀ (chunk ++ before).length fun s =>
      Below s₀ s ((chunk ++ before).length - stopsAt before) ∧ Undoes s₀ s (chunk ++ before) := by
  have hle := stopsAt_le before
  have hsplit : code = before.reverse ++ (chunk.reverse ++ after) := by
    rw [hcode, List.reverse_append, List.append_assoc]
  have hat : X64.decode (code.drop before.length) = some (.push r, chunk.length) := by
    rw [hsplit, List.drop_left' (List.length_reverse), hdecode]
  have hpos : chunk ≠ [] := by
    rintro rfl
    have := hdecode []
    cases this
  have hlen := List.length_pos_iff.mpr hpos
  rw [List.length_append, Nat.add_comm] at hnear ⊢
  apply (ih hsplit (by omega)).next
  intro s h
  exact Undoes.push hroom hat (by omega) (by omega) hwalk h

/-- Run from where the walk stops, the code has done at the cursor what the walk has found. -/
theorem walkBack_comes (hroom : Roomy s₀) {before after : Bytes} (hcode : code = before.reverse ++ after)
    (hnear : before.length ≤ stopsAt before + 2 ^ 15) :
    Comes (X64.step base code) (stopsAt before) s₀ before.length fun s =>
      Below s₀ s (before.length - stopsAt before) ∧ Undoes s₀ s before := by
  fun_induction stopsAt before generalizing after with
  | case1 before hframe =>
    obtain ⟨rest, rfl⟩ : ∃ rest, before = 0xe5 :: 0x89 :: 0x48 :: 0x55 :: rest :=
      ⟨before.drop 4, by rw [← List.take_append_drop 4 before, hframe]; simp⟩
    have hbytes : code.drop rest.length = 0x55 :: 0x48 :: 0x89 :: 0xe5 :: after := by
      rw [hcode]
      simp
    have hlen : (0xe5 :: 0x89 :: 0x48 :: 0x55 :: rest : Bytes).length = rest.length + 4 := rfl
    rw [hlen, Nat.add_sub_cancel, Nat.add_sub_cancel_left]
    apply (comes_framed hroom hbytes).mono
    intro s h
    refine ⟨h.1, .inr ⟨h.2, ?_⟩⟩
    intro n
    simp [walkBack]
  | case2 hframe => exact Comes.here (undoes_start s₀ (by simp [walkBack]))
  | case3 b hb hframe ih =>
    have hwalk : ∀ n, walkBack [b] n = walkBack [] (incU16 n) := by
      intro n
      rw [walkBack.eq_def, if_neg hframe]
      simp [hb]
    exact comes_push [b] hroom (decode_push hb) hcode hnear hwalk ih
  | case4 b hb p rest hp hframe ih =>
    have hwalk : ∀ n, walkBack (b :: p :: rest) n = walkBack rest (incU16 n) := by
      intro n
      rw [walkBack.eq_def, if_neg hframe]
      simp [hb, hp]
    exact comes_push [b, p] hroom (decode_push_rex hp hb) hcode hnear hwalk ih
  | case5 b hb p rest hp hframe ih =>
    have hwalk : ∀ n, walkBack (b :: p :: rest) n = walkBack (p :: rest) (incU16 n) := by
      intro n
      rw [walkBack.eq_def, if_neg hframe]
      simp [hb, hp]
    exact comes_push [b] hroom (decode_push hb) hcode hnear hwalk ih
  | case6 b rest hb hframe =>
    have hwalk : ∀ n, walkBack (b :: rest) n = .offsetSp (incU16 n) := by
      intro n
      rw [walkBack.eq_def, if_neg hframe]
      simp [hb]
    rw [List.length_cons, Nat.sub_self]
    exact Comes.here (undoes_start s₀ hwalk)

/-! ## Executing a prologue's rule -/

/-- With the frame pointer set up, unwinding by it gives the caller's frame. -/
theorem Framed.target (h : Framed s₀ s) (hroom : Roomy s₀) (first : Bool) {regs : UnwindRegs} (hregs : Agrees regs s) :
    target .useFramePointer first regs s.mem = .ok (some (s₀.sp + 8, s₀.bp)) := by
  have hlow := hroom.low
  have hhigh := hroom.high
  have hbp := h.bp
  have hsp := h.sp
  have hadd : checkedAdd s.bp 16 = some (s₀.sp + 8) := checkedAdd_eq_some.mpr ⟨by omega, by omega⟩
  have hne : s.bp ≠ 0 := by omega
  have hgt : ¬ s₀.sp + 8 ≤ s.sp := by omega
  simp [X86.target, framePointerTarget, readOr, hregs.sp, hregs.bp, hne, hgt, hadd, h.saved, okOr, bind, Except.bind,
    pure, Except.pure]

/-- A rule from prologue analysis undoes the prologue so far: for a function that starts where the
    walk back stops, run from its start, in any state, the code comes to the address or faults on a
    push; and there executing the rule, in any frame, recovers the return address, stack pointer and
    frame pointer with which the function would return from its start. At most 2^15 bytes are walked
    over. -/
theorem x86_prologue_rule_sound {rule : UnwindRule} {pc : Nat} (hpc : pc ≤ code.length)
    (h : ruleFromPrologueAnalysis code pc = some rule) (hroom : Roomy s₀)
    (hnear : pc ≤ prologueStart code pc + 2 ^ 15) :
    Comes (X64.step base code) (prologueStart code pc) s₀ pc fun s =>
      ∀ first regs, Agrees regs s → exec rule first regs s.mem = callerOf regs s₀ := by
  have hlen : (code.take pc).reverse.length = pc := by simp [hpc]
  have hcode : code = (code.take pc).reverse.reverse ++ code.drop pc := by simp
  have hcomes : Comes (X64.step base code) (stopsAt (code.take pc).reverse) s₀ (code.take pc).reverse.length _ :=
    walkBack_comes hroom hcode (by rw [hlen]; exact hnear)
  rw [hlen] at hcomes
  apply hcomes.mono
  intro s hs first regs hregs
  obtain ⟨hbelow, hundoes⟩ := hs
  have hlow := hroom.low
  have hhigh := hroom.high
  have hup := hbelow.up
  have hbytes := hbelow.near
  have hrule : walkBack (code.take pc).reverse 0 = rule := by
    unfold ruleFromPrologueAnalysis unwindRuleFromDetectedPrologue at h
    split at h
    · exact Option.some.inj h
    · cases h
  apply exec_eq_callerOf _ (by rw [hregs.sp]; exact hup) (by omega) (hbelow.mem _ le_rfl)
  rcases hundoes with ⟨m, hpushed, hm⟩ | ⟨hframed, hm⟩
  · have hsp := hpushed.sp
    unfold prologueStart at hnear
    rw [hm 0 (by omega), Nat.zero_add] at hrule
    have hadd : checkedAdd s.sp ((m + 1) * 8) = some (s₀.sp + 8) := checkedAdd_eq_some.mpr ⟨by omega, by omega⟩
    subst hrule
    rw [← hpushed.bp, ← hregs.bp]
    rw [← hregs.sp] at hadd
    exact target_offsetSp first hadd
  · rw [hm] at hrule
    subst hrule
    exact hframed.target hroom first hregs

/-- `push r15`, `push rbx` and `sub rsp, 24`. -/
def pushBoth : Bytes := [0x41, 0x57, 0x53, 0x48, 0x83, 0xec, 0x18]

theorem x86_prologue_rule_sound_pushBoth : Comes (X64.step 0x400000 pushBoth) 0 sampleState 3 fun s => ∀ first regs,
    Agrees regs s → exec (.offsetSp 3) first regs s.mem = callerOf regs sampleState :=
  x86_prologue_rule_sound (by decide) (show ruleFromPrologueAnalysis pushBoth 3 = some (.offsetSp 3) by decide)
    ⟨by decide, by decide⟩ (by decide)

end FramehopUnwind.Unwinder.X86
