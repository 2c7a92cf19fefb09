/-
  FramehopUnwind.Unwinder.Aarch64Prologue — what a prologue's rule means
  (vendor/framehop/src/aarch64/instruction_analysis/prologue.rs, against `Lib.A64`).

  The words before the address are undone from the last one back, as long as they belong in a
  prologue; the word where this stops is taken to be the end of the function before. What the
  rule is worth rests on that guess, so it is stated for a function that starts there
  (`prologueStart`): run from its start to the address, the code has saved registers and moved
  the stack pointer, and the rule gives the state at the start back.

  Proved:
  - `reverseStep_exec`: which instructions a step back goes over, and what they do.
  - `run_stepped`: run forwards over the words stepped over, the machine moves the stack pointer
    by the offset that undoing them found, and keeps the frame pointer and the link register.
  - `prologue_rule_sound`: executing the rule gives the registers at the function's start.
-/

import FramehopUnwind.Unwinder.Aarch64Epilogue

namespace FramehopUnwind.Unwinder.Aarch64

open Lib.Word Lib.Machine Lib.A64

/-! ## Where the walk stops -/

/-- Whether the walk goes over a word; the offset so far plays no part. -/
def isPrologueWord (w : Word) : Bool := (reverseStepInstruction 0 w).isSome

/-- How many words before the address are stepped over. -/
def steppedOver (code : Bytes) (pc : Nat) : Nat :=
  ((chunksExact (code.take pc)).reverse.takeWhile isPrologueWord).length

/-- Where the function is taken to start. -/
def prologueStart (code : Bytes) (pc : Nat) : Nat := pc - 4 * steppedOver code pc

theorem reverseStep_isSome (off : Int) (w : Word) : (reverseStepInstruction off w).isSome = isPrologueWord w := by
  unfold isPrologueWord reverseStepInstruction
  split_ifs <;> simp

/-! ## One word -/

variable {mask : PtrAuthMask} {P : Pac} {base : Nat} {code : Bytes}

/-- Signing a pointer changes none of its address bits. -/
def SignKeeps (mask : PtrAuthMask) (P : Pac) : Prop := ∀ v m, mask.stripPtrAuth (P.sign v m) = mask.stripPtrAuth v

/-- The registers that a caller keeps are those of the other state. -/
structure KeepsRegs (mask : PtrAuthMask) (s s' : State) : Prop where
  fp : s'.x fp = s.x fp
  lr : mask.stripPtrAuth (s'.x lr) = mask.stripPtrAuth (s.x lr)

theorem KeepsRegs.trans {s s' s'' : State} (h : KeepsRegs mask s s') (h' : KeepsRegs mask s' s'') :
    KeepsRegs mask s s'' :=
  ⟨h'.fp.trans h.fp, h'.lr.trans h.lr⟩

/-- A word stepped over moves the stack pointer by what undoing it moves the offset back. -/
theorem reverseStep_exec (hsign : SignKeeps mask P) {off off' : Int} {w : Word} (hal : Allocated w)
    (h : reverseStepInstruction off w = some off') :
    ∃ i, decode w = some i ∧ ∃ δ : Int, -2 ^ 24 ≤ δ ∧ δ ≤ 2 ^ 24 ∧ (off' = addI32 off (-δ) ∨ (δ = 0 ∧ off' = off)) ∧
      ∀ p pc s, s.sp < 2 ^ 64 → i.exec P p pc s = .fault ∨
        ∃ s', i.exec P p pc s = .running (pc + 4) s' ∧ s'.sp = addr s.sp δ ∧ KeepsRegs mask s s' := by
  have hzero : ∀ sp : Nat, sp < 2 ^ 64 → sp = addr sp 0 := by
    intro sp hsp
    exact eq_addr (by simp) hsp
  unfold reverseStepInstruction at h
  rcases ite_cases h with ⟨rfl, h⟩ | ⟨-, h⟩
  · -- the link register is signed
    obtain rfl := Option.some.inj h
    refine ⟨.pacibsp, rfl, 0, by decide, by decide, .inr ⟨rfl, rfl⟩, ?_⟩
    intro p pc s hsp
    have hk := keeps_lr (s := s) (hsign (s.x lr) s.sp)
    exact .inr ⟨_, rfl, hk.sp.trans (hzero _ hsp), hk.fp, hk.lr⟩
  rcases ite_cases h with ⟨hop, h⟩ | ⟨-, h⟩
  · rcases ite_cases h with ⟨-, h⟩ | ⟨hwb, h⟩
    · cases h
    rcases ite_cases h with ⟨-, h⟩ | ⟨href, h⟩
    · cases h
    obtain ⟨index, hdecode, hpost, hpre⟩ := decode_pair false hal hop hwb (not_not.mp href)
    obtain ⟨-, h0, h1⟩ := imm7_bounds w
    simp only [pairImm7_eq, hpost, hpre] at h
    refine ⟨_, hdecode, if index = .offset then 0 else imm7 w, ?_, ?_, ?_, ?_⟩
    · split <;> omega
    · split <;> omega
    · cases index with
      | post => exact .inl (by simpa using h.symm)
      | offset => exact .inr ⟨rfl, by simpa using h.symm⟩
      | pre => exact .inl (by simpa using h.symm)
    · intro p pc s hsp
      rcases storePair_cases index (w.extractLsb' 0 5) (w.extractLsb' 10 5) (imm7 w) (pc + 4)
          s with hfault | ⟨s', hexec, hsp', hx⟩
      · exact .inl hfault
      · refine .inr ⟨s', hexec, ?_, by rw [hx], by rw [hx]⟩
        rw [hsp']
        cases index with
        | post => rfl
        | offset => exact hzero _ hsp
        | pre => rfl
  rcases ite_cases h with ⟨hop, h⟩ | ⟨-, h⟩
  · rcases ite_cases h with ⟨-, h⟩ | ⟨hregs, h⟩
    · cases h
    rw [not_or, not_not, not_not] at hregs
    obtain ⟨imm, hdecode, himm, hlt⟩ := decode_addSub true hop hregs.1 hregs.2
    rw [himm] at h
    refine ⟨_, hdecode, -(imm : Int), by omega, by omega, .inl ?_, ?_⟩
    · rw [Int.neg_neg]
      exact (Option.some.inj h).symm
    · intro p pc s _
      exact .inr ⟨_, rfl, rfl, rfl, rfl⟩
  · cases h

/-! ## All words stepped over -/

theorem run_stepped (hsign : SignKeeps mask P) {s₀ : State} (hs₀ : Sound s₀) {ws : List Word}
    (rest : List Word) {pc : Nat}
    (hws : ∀ i (h : i < ws.length), fetch code (pc + 4 * i) = some (ws.get ⟨i, h⟩)) (hal : ∀ w ∈ ws, Allocated w)
    (hvalid : ∀ w ∈ ws, isPrologueWord w = true) {s : State}
    (hnear : AlongTo (step P base code) ws.length pc s (Near s₀)) :
    run (step P base code) ws.length pc s = .fault ∨
      ∃ s', run (step P base code) ws.length pc s = .running (pc + 4 * ws.length) s' ∧ KeepsRegs mask s s' ∧
        reverseLoop 0 (ws.reverse ++ rest) = reverseLoop (s.sp - s'.sp) rest := by
  induction ws generalizing rest pc s with
  | nil =>
    refine .inr ⟨s, rfl, ⟨rfl, rfl⟩, ?_⟩
    simp
  | cons w ws ih =>
    have hfetch : fetch code pc = some w := hws 0 (Nat.succ_pos _)
    obtain ⟨off₀, hoff₀⟩ := Option.isSome_iff_exists.mp (hvalid w List.mem_cons_self)
    obtain ⟨i, hdecode, δ, -, -, -, hexec⟩ := reverseStep_exec hsign (hal w List.mem_cons_self) hoff₀
    have hn := hnear.here
    have hlow := hs₀.low
    have hhigh := hs₀.high
    unfold Near at hn
    rw [List.length_cons]
    rcases hexec ⟨base, code.length⟩ pc s (by omega) with hfault | ⟨s₁, hrun, hsp₁, hk₁⟩
    · exact .inl (run_fault (step_of hfetch hdecode hfault) _)
    · rw [run_running (step_of hfetch hdecode hrun)]
      have hnear₁ := hnear.next (step_of hfetch hdecode hrun)
      have hws' : ∀ i (h : i < ws.length), fetch code (pc + 4 + 4 * i) = some (ws.get ⟨i, h⟩) := by
        intro i hi
        have := hws (i + 1) (Nat.succ_lt_succ hi)
        rw [Nat.mul_succ, Nat.add_comm (4 * i), ← Nat.add_assoc] at this
        exact this
      rcases ih (w :: rest) hws' (fun w hw => hal w (List.mem_cons_of_mem _ hw))
        (fun w hw => hvalid w (List.mem_cons_of_mem _ hw)) hnear₁ with hfault | ⟨s', hrun', hk', hloop⟩
      · exact .inl hfault
      · refine .inr ⟨s', ?_, hk₁.trans hk', ?_⟩
        · rw [hrun']
          congr 1
          omega
        · rw [List.reverse_cons, List.append_assoc, List.singleton_append, hloop, reverseLoop]
          -- the step back over this word undoes what it did
          obtain ⟨off', hoff'⟩ := Option.isSome_iff_exists.mp
            ((reverseStep_isSome (s₁.sp - s'.sp) w).trans (hvalid w List.mem_cons_self))
          obtain ⟨i', hdecode', δ', hδ0, hδ1, hoff, hexec'⟩ := reverseStep_exec hsign (hal w List.mem_cons_self) hoff'
          obtain rfl := Option.some.inj (hdecode.symm.trans hdecode')
          rw [hoff']
          have hn₁ := hnear₁.here
          have hn' := hnear₁ _ le_rfl _ _ hrun'
          unfold Near at hn₁ hn'
          rcases hexec' ⟨base, code.length⟩ pc s (by omega) with hfault | ⟨s₂, hrun₂, hsp₂, -⟩
          · rw [hrun] at hfault
            cases hfault
          · rw [hrun] at hrun₂
            cases hrun₂
            have hmoved : (s₁.sp : Int) = s.sp + δ' := by
              rw [hsp₂]
              exact addr_of_range (by omega) (by omega)
            have hback : off' = s.sp - s'.sp := by
              rcases hoff with rfl | ⟨rfl, rfl⟩
              · rw [addI32_of_range (by omega) (by omega)]
                omega
              · omega
            rw [hback]

/-- The word before those stepped over stops the walk. -/
theorem reverseLoop_takeWhile (off : Int) (ws : List Word) :
    reverseLoop off (ws.takeWhile isPrologueWord ++ ws.dropWhile isPrologueWord) =
      reverseLoop off (ws.takeWhile isPrologueWord) := by
  induction ws generalizing off with
  | nil => rfl
  | cons w ws ih =>
    cases hw : isPrologueWord w with
    | true =>
      simp only [List.takeWhile_cons, List.dropWhile_cons, hw, if_true, List.cons_append, reverseLoop]
      cases reverseStepInstruction off w with
      | none => rfl
      | some off' => exact ih off'
    | false =>
      have hnone : reverseStepInstruction off w = none := by
        rw [← Option.not_isSome_iff_eq_none, reverseStep_isSome, hw]
        decide
      simp [hw, reverseLoop, hnone]

theorem chunksExact_length (bytes : Bytes) : (chunksExact bytes).length = bytes.length / 4 := by
  fun_induction chunksExact bytes with
  | case1 b0 b1 b2 b3 rest ih =>
    simp only [List.length_cons, ih]
    omega
  | case2 bytes h =>
    match bytes, h with
    | [], _ => rfl
    | [_], _ => simp
    | [_, _], _ => simp
    | [_, _, _], _ => simp
    | b0 :: b1 :: b2 :: b3 :: rest, h => exact absurd rfl (h b0 b1 b2 b3 rest)

theorem fetch_chunksExact (bytes : Bytes) (i : Nat) (h : i < (chunksExact bytes).length) :
    fetch bytes (4 * i) = some ((chunksExact bytes).get ⟨i, h⟩) := by
  induction i generalizing bytes with
  | zero =>
    match bytes, h with
    | b0 :: b1 :: b2 :: b3 :: rest, _ => rfl
  | succ i ih =>
    match bytes, h with
    | b0 :: b1 :: b2 :: b3 :: rest, h =>
      have hi : i < (chunksExact rest).length := Nat.lt_of_succ_lt_succ h
      have := ih rest hi
      rw [Nat.mul_succ]
      exact this

theorem fetch_of_take {bytes : Bytes} {n a : Nat} {w : Word} (h : fetch (bytes.take n) a = some w) :
    fetch bytes a = some w := by
  unfold fetch at h ⊢
  have hsplit : bytes.drop a = (bytes.take n).drop a ++ (bytes.drop n).drop (a - (bytes.take n).length) := by
    conv_lhs => rw [← List.take_append_drop n bytes, List.drop_append]
  rw [hsplit]
  cases hd : (bytes.take n).drop a with
  | nil =>
    rw [hd] at h
    cases h
  | cons b0 l =>
    match l, hd with
    | [], hd | [_], hd | [_, _], hd =>
      rw [hd] at h
      cases h
    | b1 :: b2 :: b3 :: rest, hd =>
      rw [hd] at h
      exact h

/-- The words stepped over lie between the start and the address, in order. -/
theorem prologueStart_spec {pc : Nat} (hpc : 4 ∣ pc) (hle : pc ≤ code.length) :
    ∃ ws : List Word, ws.length = steppedOver code pc ∧ prologueStart code pc + 4 * ws.length = pc ∧
      (∀ w ∈ ws, isPrologueWord w = true) ∧
      reverseLoop 0 (chunksExact (code.take pc)).reverse = reverseLoop 0 (ws.reverse ++ []) ∧
      ∀ i (h : i < ws.length), fetch code (prologueStart code pc + 4 * i) = some (ws.get ⟨i, h⟩) := by
  generalize hchunks : chunksExact (code.take pc) = chunks
  have hlen : chunks.length = pc / 4 := by
    rw [← hchunks, chunksExact_length, List.length_take, min_eq_left hle]
  obtain ⟨ws, hws⟩ : ∃ ws : List Word, chunks.reverse.takeWhile isPrologueWord = ws.reverse :=
    ⟨_, (List.reverse_reverse _).symm⟩
  obtain ⟨pre, hpre⟩ : ∃ pre : List Word, chunks.reverse.dropWhile isPrologueWord = pre.reverse :=
    ⟨_, (List.reverse_reverse _).symm⟩
  have hsplit := List.takeWhile_append_dropWhile (p := isPrologueWord) (l := chunks.reverse)
  rw [hws, hpre, ← List.reverse_append, List.reverse_inj] at hsplit
  have hstepped : ws.length = steppedOver code pc := by
    rw [steppedOver, hchunks, hws, List.length_reverse]
  have hlens : pre.length + ws.length = pc / 4 := by rw [← hlen, ← hsplit, List.length_append]
  have hstart : prologueStart code pc = 4 * pre.length := by
    unfold prologueStart
    omega
  refine ⟨ws, hstepped, by omega, ?_, ?_, ?_⟩
  · intro w hw
    rw [← List.mem_reverse, ← hws] at hw
    exact List.mem_takeWhile_imp hw
  · rw [← List.takeWhile_append_dropWhile (p := isPrologueWord) (l := chunks.reverse), reverseLoop_takeWhile, hws,
      List.append_nil]
  · intro i hi
    apply fetch_of_take (n := pc)
    have hlt : pre.length + i < (chunksExact (code.take pc)).length := by
      rw [hchunks, hlen]
      omega
    rw [hstart, ← Nat.mul_add, fetch_chunksExact _ _ hlt]
    simp only [hchunks, ← hsplit, List.get_eq_getElem, List.getElem_append_right (Nat.le_add_right _ _),
      Nat.add_sub_cancel_left]

/-! ## Executing the rule -/

theorem analyzeSlices_some {sliceFromStart sliceToEnd : Bytes} {off : Int}
    (h : analyzeSlices sliceFromStart sliceToEnd = some off) :
    off = reverseLoop 0 (chunksExact sliceFromStart).reverse := by
  unfold analyzeSlices at h
  split at h
  · cases h
  · split at h
    · cases h
    · split at h
      · cases h
      · exact (Option.some.inj h).symm
    · exact (Option.some.inj h).symm

/-- A frame by the stack pointer: the rule adds its size. -/
theorem exec_offset {n : Nat} {s₀ s : State} (hs₀ : Sound s₀) (hsp : s.sp + 16 * n = s₀.sp)
    (hkeeps : KeepsRegs mask s₀ s) (read : ReadStack) :
    exec (if n = 0 then .noOp else .offsetSp n) true (unwindRegs mask s) read = callerOf mask s s₀ := by
  have hhigh := hs₀.high
  have hlr : mask.stripPtrAuth (mask.stripPtrAuth (s.x lr)) = mask.stripPtrAuth (s₀.x lr) :=
    (strip_strip _ _).trans hkeeps.lr
  apply exec_callerOf (mask.stripPtrAuth (s.x lr)) _ hlr
  rw [← hkeeps.fp]
  split
  case isTrue hzero =>
    have hsame : s₀.sp = s.sp := by omega
    rw [hsame]
    rfl
  case isFalse =>
    have hadd : checkedAdd s.sp (n * 16) = some s₀.sp := checkedAdd_eq_some.mpr ⟨by omega, by omega⟩
    simp [target, unwindRegs, UnwindRegs.newWithPtrAuthMask, hadd, okOr, bind, Except.bind, pure, Except.pure]

/-- A rule from prologue analysis, executed on the first frame's registers, undoes the prologue so
    far: for a function that starts where the walk back stops, run from its start, in any state,
    the code comes to the address or faults on a store; and there the rule recovers the stack
    pointer, the frame pointer and the link register of the start, whatever the stack holds. The
    words stepped over are allocated encodings, the stack pointer is aligned at both ends, far from
    the ends of the address space and stays within a gibibyte, and signing changes no address bits. -/
theorem prologue_rule_sound (hsign : SignKeeps mask P) {rule : UnwindRule} {pc : Nat} (hpc : 4 ∣ pc)
    (hle : pc ≤ code.length) (h : ruleFromPrologueAnalysis code pc = some rule)
    (hal : ∀ k < steppedOver code pc, ∀ w, fetch code (prologueStart code pc + 4 * k) = some w → Allocated w)
    {s₀ : State} (hs₀ : Sound s₀)
    (hnear : AlongTo (step P base code) (steppedOver code pc) (prologueStart code pc) s₀ (Near s₀)) :
    run (step P base code) (steppedOver code pc) (prologueStart code pc) s₀ = .fault ∨
      ∃ s, run (step P base code) (steppedOver code pc) (prologueStart code pc) s₀ = .running pc s ∧
        (s.sp % 16 = 0 → ∀ read, exec rule true (unwindRegs mask s) read = callerOf mask s s₀) := by
  obtain ⟨ws, hlen, hstart, hvalid, hloop, hfetch⟩ := prologueStart_spec hpc hle
  have halws : ∀ w ∈ ws, Allocated w := by
    intro w hw
    obtain ⟨i, hi⟩ := List.get_of_mem hw
    exact hal i (lt_of_lt_of_eq i.isLt hlen) w (by rw [hfetch i i.isLt, hi])
  rw [← hlen] at hnear
  rcases run_stepped hsign hs₀ [] hfetch halws hvalid hnear with hfault | ⟨s, hrun, hk, hoff⟩
  · rw [hlen] at hfault
    exact .inl hfault
  · rw [hlen] at hrun
    rw [hlen] at hstart
    rw [hstart] at hrun
    refine .inr ⟨s, hrun, ?_⟩
    intro halign read
    unfold ruleFromPrologueAnalysis unwindRuleFromDetectedPrologue at h
    split at h
    · cases h
    rename_i off hslices
    obtain ⟨n, hn, h⟩ := Option.bind_eq_some_iff.mp h
    obtain ⟨hn, hlt⟩ := toU16_eq_some.mp hn
    rw [analyzeSlices_some hslices, hloop, hoff] at hn
    have hn : (n : Int) = ((s₀.sp : Int) - s.sp).tdiv 16 := hn
    have haligned := hs₀.aligned
    have hsp : (s₀.sp : Int) - s.sp = 16 * n := by
      rw [hn]
      exact (Int.mul_tdiv_cancel' (by omega)).symm
    have hrule : rule = if n = 0 then .noOp else .offsetSp n := by
      split at h
      case isTrue hzero =>
        cases h
        rw [if_pos hzero]
      case isFalse hne =>
        cases h
        rw [if_neg hne]
    rw [hrule]
    exact exec_offset hs₀ (by omega) hk read

/-- `stp fp, lr, [sp, #-16]!` and `mov fp, sp`. -/
def pushFrame : Bytes := [0xfd, 0x7b, 0xbf, 0xa9, 0xfd, 0x03, 0x00, 0x91]

theorem pushFrame_allocated {k : Nat} (hk : k < 1) {w : Word} (h : fetch pushFrame (0 + 4 * k) = some w) :
    Allocated w := by
  obtain rfl : k = 0 := by omega
  obtain rfl := Option.some.inj h
  decide

theorem pushFrame_near : AlongTo (step plainPac 0x400000 pushFrame) 1 0 sampleState (Near sampleState) := by
  intro n hn pc s h
  match n, hn, h with
  | 0, _, h =>
    cases h
    exact ⟨by decide, by decide⟩
  | 1, _, h =>
    cases h
    exact ⟨by decide, by decide⟩

/-- Before the frame pointer is set up, the caller's stack pointer is 16 bytes up. -/
theorem prologue_rule_sound_pushFrame : run (step plainPac 0x400000 pushFrame) 1 0 sampleState = .fault ∨
    ∃ s, run (step plainPac 0x400000 pushFrame) 1 0 sampleState = .running 4 s ∧
      (s.sp % 16 = 0 → ∀ read, exec (.offsetSp 1) true (unwindRegs ⟨2 ^ 47 - 1⟩ s) read =
        callerOf ⟨2 ^ 47 - 1⟩ s sampleState) :=
  prologue_rule_sound (fun _ _ => rfl) (by decide) (by decide)
    (show ruleFromPrologueAnalysis pushFrame 4 = some (.offsetSp 1) by decide) (fun _ hk _ => pushFrame_allocated hk)
    ⟨by decide, by decide, by decide⟩ pushFrame_near

end FramehopUnwind.Unwinder.Aarch64
