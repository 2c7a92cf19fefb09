/-
  FramehopUnwind.Unwinder.Aarch64Epilogue — what an epilogue's rule means
  (vendor/framehop/src/aarch64/instruction_analysis/epilogue.rs, against `Lib.A64`).

  The detector steps over the words from the address on and keeps where the stack pointer,
  the frame pointer and the link register are relative to the stack pointer at the address.
  Running the same words on a machine, `Tracks` relates the two at every word: what the
  detector notes about a register is where the machine has loaded it from.

  The detector goes by masks, and takes a branch behind an epilogue for a tail call. `Plain` are the
  places where that is no guess: the words are what they pass for, and a branch leaves the function.

  Proved:
  - `stepInstruction_needMore`: which instruction a word is that the detector steps over.
  - `analyzeLoop_ends`: run from a word the detector accepts on, the code leaves with what the
    detector has noted.
  - `epilogue_rule_sound`: executing the rule of a detected epilogue gives the registers in which
    the code, run on, leaves the function.
-/

import FramehopUnwind.Unwinder.Aarch64Analysis

namespace FramehopUnwind.Unwinder.Aarch64

open Lib.Word Lib.Machine Lib.A64

/-! ## What the unwinder sees of a state -/

def unwindRegs (mask : PtrAuthMask) (s : State) : UnwindRegs := .newWithPtrAuthMask mask (s.x lr) s.sp (s.x fp)

/-- The two states differ in nothing the unwinder sees, nor in memory. -/
structure Keeps (mask : PtrAuthMask) (s s' : State) : Prop where
  sp : s'.sp = s.sp
  mem : s'.mem = s.mem
  fp : s'.x fp = s.x fp
  lr : mask.stripPtrAuth (s'.x lr) = mask.stripPtrAuth (s.x lr)

theorem Keeps.refl (mask : PtrAuthMask) (s : State) : Keeps mask s s := ⟨rfl, rfl, rfl, rfl⟩

theorem Keeps.trans {mask : PtrAuthMask} {s s' s'' : State} (h : Keeps mask s s') (h' : Keeps mask s' s'') :
    Keeps mask s s'' :=
  ⟨h'.sp.trans h.sp, h'.mem.trans h.mem, h'.fp.trans h.fp, h'.lr.trans h.lr⟩

theorem keeps_x16 (mask : PtrAuthMask) (s : State) (v : Nat) : Keeps mask s (s.setX 16 v) := by
  refine ⟨setX_sp .., setX_mem .., ?_, ?_⟩
  · rw [setX_x _ _ _ _ (by decide), if_neg (by decide)]
  · rw [setX_x _ _ _ _ (by decide), if_neg (by decide)]

/-- A link register that is the same but for its authentication. -/
theorem keeps_lr {mask : PtrAuthMask} {s : State} {v : Nat}
    (h : mask.stripPtrAuth v = mask.stripPtrAuth (s.x Lib.A64.lr)) : Keeps mask s (s.setX Lib.A64.lr v) := by
  refine ⟨setX_sp .., setX_mem .., ?_, ?_⟩
  · rw [setX_x _ _ _ _ (by decide), if_neg (by decide)]
  · rw [setX_x _ _ _ _ (by decide), if_pos rfl, h]

/-- Authenticating a pointer changes none of its address bits. -/
def AuthKeeps (mask : PtrAuthMask) (P : Pac) : Prop := ∀ v m, mask.stripPtrAuth (P.auth v m) = mask.stripPtrAuth v

/-! ## Authenticated tail calls -/

variable {mask : PtrAuthMask} {P : Pac} {base : Nat} {code : Bytes}

/-- The stack pointer is within a gibibyte of where it started. -/
def Near (s₀ : State) (_pc : Nat) (s : State) : Prop := -2 ^ 30 < (s.sp : Int) - s₀.sp ∧ (s.sp : Int) - s₀.sp < 2 ^ 30

/-- A place in an epilogue that is what it looks like, with the stack pointer near the start's. -/
structure Plain (P : Pac) (base : Nat) (code : Bytes) (s₀ : State) (pc : Nat) (s : State) : Prop where
  near : Near s₀ pc s
  allocated : ∀ w, fetch code pc = some w → Allocated w
  moves : ∀ w, fetch code pc = some w → Moves w
  branches : BranchesOut P base code pc s

theorem Plain.ends_b {s₀ s : State} {pc : Nat} (h : Plain P base code s₀ pc s) {w : Word} (hw : fetch code pc = some w)
    (hb : w >>> 26 = 0b000101) {Q : State → Prop} (hQ : Q s) : Ends (step P base code) pc s Q :=
  Ends.left (h.branches.step hw (decode_b hb) rfl) hQ

theorem Plain.ends_br {s₀ s : State} {pc : Nat} (h : Plain P base code s₀ pc s) {w : Word} (hw : fetch code pc = some w)
    (hbr : w &&& 0xfffffc1f = 0xd61f0000) {Q : State → Prop} (hQ : Q s) : Ends (step P base code) pc s Q :=
  Ends.left (h.branches.step hw (decode_br hbr) rfl) hQ

theorem Plain.ends_braa {s₀ s : State} {pc : Nat} (h : Plain P base code s₀ pc s) {w : Word}
    (hw : fetch code pc = some w)
    (hbraa : w &&& 0xfffffc00 = 0xd71f0800) (h16 : w &&& 0b11111 = 16) {Q : State → Prop} (hQ : Q s) :
    Ends (step P base code) pc s Q :=
  Ends.left (h.branches.step hw (decode_braa hbraa h16) rfl) hQ

/-- The words behind an `autibsp`. -/
structure AuthTailCall (code : Bytes) (pc : Nat) : Prop where
  eor : fetch code pc = some 0xca1e07d0
  tbz : fetch code (pc + 4) = some 0xb6f00050
  brk : fetch code (pc + 8) = some 0xd4388e20
  call : ∃ w, fetch code (pc + 12) = some w ∧ (w >>> 26 = 0b000101 ∨
    ((w >>> 23) &&& 0b111000111 = 0b110000101 ∧ w &&& 0b11111 = 16 ∧
      ∃ w', fetch code (pc + 16) = some w' ∧ w' &&& 0xfffffc00 = 0xd71f0800 ∧ w' &&& 0b11111 = 16))

theorem fetch_drop {pc k : Nat} {bytes : Bytes} (h : code.drop pc = bytes) : fetch code (pc + k) = fetch bytes k := by
  unfold fetch
  rw [← h, List.drop_drop]

theorem isAuthTailCall_spec {pc : Nat} (h : isAuthTailCall (code.drop pc) = true) : AuthTailCall code pc := by
  unfold isAuthTailCall at h
  rw [Bool.and_eq_true, beq_iff_eq] at h
  obtain ⟨hpre, hcall⟩ := h
  obtain ⟨bytes, hbytes⟩ : ∃ bytes, code.drop pc = eorTbzBrk ++ bytes :=
    ⟨_, by rw [← hpre, List.take_append_drop]⟩
  have hdrop : (code.drop pc).drop 12 = bytes := by rw [hbytes]; rfl
  have hfetch : ∀ k, fetch code (pc + (12 + k)) = fetch bytes k := by
    intro k
    rw [fetch_drop hbytes]
    unfold fetch
    rw [← List.drop_drop]
    rfl
  refine ⟨?_, ?_, ?_, ?_⟩
  · rw [← Nat.add_zero pc, fetch_drop hbytes]
    rfl
  · rw [fetch_drop hbytes]
    rfl
  · rw [fetch_drop hbytes]
    rfl
  · rw [hdrop] at hcall
    split at hcall
    case h_2 => cases hcall
    case h_1 b0 b1 b2 b3 rest =>
      refine ⟨fromLeBytes b0 b1 b2 b3, hfetch 0, ?_⟩
      rw [Bool.or_eq_true, beq_iff_eq] at hcall
      rcases hcall with hcall | hcall
      · exact .inl hcall
      · right
        split at hcall
        case h_2 => cases hcall
        case h_1 c0 c1 c2 c3 rest =>
          simp only [Bool.and_eq_true, beq_iff_eq] at hcall
          exact ⟨hcall.1.1, hcall.1.2, fromLeBytes c0 c1 c2 c3, hfetch 4, hcall.2⟩

namespace AuthTailCall

variable {pc : Nat} (h : AuthTailCall code pc) {s₀ s : State}

include h

theorem ends_brk (s : State) : Ends (step P base code) (pc + 8) s (Keeps mask s) :=
  Ends.trapped (step_of h.brk rfl rfl) (Keeps.refl mask s)

theorem ends_call (hplain : Along (step P base code) (pc + 12) s (Plain P base code s₀)) :
    Ends (step P base code) (pc + 12) s (Keeps mask s) := by
  obtain ⟨w, hw, hcall⟩ := h.call
  rcases hcall with hb | ⟨hmov, h16, w', hw', hbraa, h16'⟩
  · exact hplain.here.ends_b hw hb (Keeps.refl mask s)
  · obtain ⟨imm, himm⟩ := decode_movX16 (hplain.here.moves w hw) hmov h16
    have hstep : step P base code (pc + 12) s = .running (pc + 16) (s.setX 16 imm) := step_of hw himm rfl
    apply Ends.running hstep
    exact (hplain.next hstep).here.ends_braa hw' hbraa h16' (keeps_x16 mask s imm)

theorem ends_tbz (hplain : Along (step P base code) (pc + 4) s (Plain P base code s₀)) :
    Ends (step P base code) (pc + 4) s (Keeps mask s) := by
  have hstep : step P base code (pc + 4) s = .running (if (s.x 16).testBit 62 then pc + 8 else pc + 12) s :=
    step_of h.tbz rfl rfl
  have hnext := hplain.next hstep
  apply Ends.running hstep
  by_cases hbit : (s.x 16).testBit 62
  · rw [if_pos hbit]
    exact h.ends_brk s
  · rw [if_neg hbit] at hnext ⊢
    exact h.ends_call hnext

theorem ends_eor (hplain : Along (step P base code) pc s (Plain P base code s₀)) :
    Ends (step P base code) pc s (Keeps mask s) := by
  have hstep : step P base code pc s = .running (pc + 4)
      (s.setX 16 (Nat.xor (s.x Lib.A64.lr) (s.x Lib.A64.lr * 2 % 2 ^ 64))) :=
    step_of h.eor rfl rfl
  apply Ends.running hstep
  exact (h.ends_tbz (hplain.next hstep)).mono fun s' hk => (keeps_x16 mask s _).trans hk

end AuthTailCall

/-! ## The detector and the machine -/

/-- A register's value is the one it had at the start, or the word at an offset from the stack
    pointer there. -/
def Recovered (same : Nat → Nat → Prop) (s₀ : State) (r : XReg) (offset : Option Int) (v : Nat) : Prop :=
  match offset with
  | none => same v (s₀.x r)
  | some o => 8 ∣ o ∧ ∃ u, s₀.mem (addr s₀.sp o) = some u ∧ same v u

structure Noted (mask : PtrAuthMask) (s₀ s : State) (d : EpilogueDetector) : Prop where
  fp : Recovered Eq s₀ fp d.fpOffsetFromInitialSp (s.x fp)
  lr : Recovered (fun a b => mask.stripPtrAuth a = mask.stripPtrAuth b) s₀ lr d.lrOffsetFromInitialSp (s.x lr)

structure Tracks (mask : PtrAuthMask) (s₀ s : State) (d : EpilogueDetector) : Prop extends Noted mask s₀ s d where
  sp : (s.sp : Int) = s₀.sp + d.spOffset
  mem : s.mem = s₀.mem

theorem Tracks.start (mask : PtrAuthMask) (s : State) : Tracks mask s s .new :=
  { fp := rfl, lr := rfl, sp := (Int.add_zero _).symm, mem := rfl }

theorem Recovered.congr {same : Nat → Nat → Prop} {s₀ : State} {r : XReg} {offset : Option Int} {v v' : Nat}
    (h : Recovered same s₀ r offset v) (hv : ∀ u, same v u → same v' u) : Recovered same s₀ r offset v' := by
  cases offset with
  | none => exact hv _ h
  | some o =>
    obtain ⟨hdvd, u, hu, hsame⟩ := h
    exact ⟨hdvd, u, hu, hv u hsame⟩

theorem Tracks.keeps {s₀ s s' : State} {d : EpilogueDetector} (h : Tracks mask s₀ s d) (hk : Keeps mask s s') :
    Tracks mask s₀ s' d where
  fp := h.fp.congr fun u hu => hk.fp.trans hu
  lr := h.lr.congr fun u hu => hk.lr.trans hu
  sp := by rw [hk.sp, h.sp]
  mem := hk.mem.trans h.mem

/-- A loaded register is noted where it was loaded from. -/
theorem Noted.note {s₀ s : State} {d : EpilogueDetector} (h : Noted mask s₀ s d) (r : XReg) {loc : Int} {v : Nat}
    (hloc : 8 ∣ loc) (hv : s₀.mem (addr s₀.sp loc) = some v) :
    Noted mask s₀ (s.setX r v) (d.note (r.setWidth 32) loc) := by
  have h29 : r.setWidth 32 = 29 ↔ r = Lib.A64.fp := setWidth_eq_iff r 29 (by decide)
  have h30 : r.setWidth 32 = 30 ↔ r = Lib.A64.lr := setWidth_eq_iff r 30 (by decide)
  unfold EpilogueDetector.note
  simp only [h29, h30]
  constructor
  · rw [setX_x _ _ _ _ (by decide)]
    by_cases hfp : r = Lib.A64.fp
    · subst hfp
      simp only [if_true]
      exact ⟨hloc, v, hv, rfl⟩
    · rw [if_neg (Ne.symm hfp), if_neg hfp]
      split
      · exact h.fp
      · exact h.fp
  · rw [setX_x _ _ _ _ (by decide)]
    by_cases hlr : r = Lib.A64.lr
    · subst hlr
      rw [if_pos rfl, if_neg (by decide), if_pos rfl]
      exact ⟨hloc, v, hv, rfl⟩
    · rw [if_neg (Ne.symm hlr)]
      split
      · exact h.lr
      · exact h.lr

/-- A stack pointer far from both ends of the address space, and aligned. -/
structure Sound (s : State) : Prop where
  low : 2 ^ 31 ≤ s.sp
  high : s.sp + 2 ^ 31 ≤ 2 ^ 64
  aligned : s.sp % 16 = 0

theorem addI32_of_range {a b : Int} (h0 : -2 ^ 31 ≤ a + b) (h1 : a + b < 2 ^ 31) : addI32 a b = a + b := by
  unfold addI32
  rw [Int.bmod_eq_of_le] <;> omega

/-- A sum the detector makes of the stack pointer is the machine's. -/
theorem addr_sp {s₀ s : State} {d : EpilogueDetector} (hs₀ : Sound s₀) (h : Tracks mask s₀ s d) {pc : Nat}
    (hnear : Near s₀ pc s) {b : Int} (hb0 : -2 ^ 24 ≤ b) (hb1 : b ≤ 2 ^ 24) :
    (addr s.sp b : Int) = s₀.sp + addI32 d.spOffset b := by
  have hsp := h.sp
  have hlow := hs₀.low
  have hhigh := hs₀.high
  unfold Near at hnear
  rw [addr_of_range (by omega) (by omega), addI32_of_range (by omega) (by omega), hsp]
  omega

theorem note_spOffset (d : EpilogueDetector) (r : Word) (loc : Int) : (d.note r loc).spOffset = d.spOffset := by
  unfold EpilogueDetector.note
  split_ifs <;> rfl

/-- What the detector makes of a load. -/
def EpilogueDetector.afterLdp (d : EpilogueDetector) (index : Index) (rt rt2 : XReg) (imm : Int) : EpilogueDetector :=
  let loc := if index = .post then d.spOffset else addI32 d.spOffset imm
  let d' := (d.note (rt.setWidth 32) loc).note (rt2.setWidth 32) (addI32 loc 8)
  if index = .offset then d' else { d' with spOffset := addI32 d.spOffset imm }

theorem stepInstruction_needMore {d d' : EpilogueDetector} {w : Word} (hal : Allocated w)
    (h : d.stepInstruction w = (.needMore, d')) :
    (∃ index rt rt2 imm, decode w = some (.ldp index rt rt2 imm) ∧ d' = d.afterLdp index rt rt2 imm ∧
      8 ∣ imm ∧ -2 ^ 10 < imm ∧ imm < 2 ^ 10) ∨
    ∃ imm : Nat, decode w = some (.addSp imm) ∧ d' = { d with spOffset := addI32 d.spOffset imm } ∧ imm < 2 ^ 24 := by
  unfold EpilogueDetector.stepInstruction at h
  split at h
  · cases h
  split at h
  · cases h
  split at h
  · split at h <;> cases h
  split at h
  case isTrue hop =>
    split at h
    · cases h
    rename_i hwb
    split at h
    · cases h
    rename_i href
    obtain ⟨index, hdecode, hpost, hpre⟩ := decode_pair true hal hop hwb (not_not.mp href)
    refine .inl ⟨index, _, _, _, hdecode, ?_, imm7_bounds w⟩
    simp only [hpost, hpre, pairImm7_eq, pairReg1_eq, pairReg2_eq] at h
    unfold EpilogueDetector.afterLdp
    cases index with
    | post =>
      simp only [reduceCtorEq, if_true, or_true, Prod.mk.injEq, true_and, note_spOffset] at h
      rw [← h]
      simp
    | offset =>
      simp only [reduceCtorEq, if_false, or_false, Prod.mk.injEq, true_and] at h
      rw [← h]
      simp
    | pre =>
      simp only [reduceCtorEq, if_true, if_false, or_false, Prod.mk.injEq, true_and, note_spOffset] at h
      rw [← h]
      simp
  case isFalse =>
    split at h
    case isTrue hop =>
      split at h
      · cases h
      rename_i hregs
      rw [not_or, not_not, not_not] at hregs
      obtain ⟨imm, hdecode, himm, hlt⟩ := decode_addSub false hop hregs.1 hregs.2
      rw [himm] at h
      cases h
      exact .inr ⟨imm, hdecode, rfl, hlt⟩
    case isFalse => cases h

theorem stepInstruction_found {d d' : EpilogueDetector} {w : Word} {r : EpilogueStepResult}
    (h : d.stepInstruction w = (r, d')) :
    (r = .foundReturn → d' = d ∧ (w = 0xd65f03c0 ∨ w = 0xd65f0fff)) ∧
      (r = .foundTailCall → d' = d ∧ w >>> 26 = 0b000101) ∧ (r = .couldBeAuthTailCall → d' = d ∧ w = 0xd50323ff) := by
  unfold EpilogueDetector.stepInstruction at h
  split at h
  case isTrue hret =>
    cases h
    exact ⟨fun _ => ⟨rfl, hret⟩, by simp, by simp⟩
  split at h
  case isTrue hauti =>
    cases h
    exact ⟨by simp, by simp, fun _ => ⟨rfl, hauti⟩⟩
  split at h
  case isTrue hb =>
    split at h
    · cases h
      exact ⟨by simp, fun _ => ⟨rfl, hb⟩, by simp⟩
    · cases h
      simp
  case isFalse =>
    dsimp only at h
    split_ifs at h
    all_goals
      cases h
      simp

/-- A load the detector steps over: it faults, or the detector keeps track. -/
theorem Tracks.ldp {p : Place} {s₀ s : State} {d : EpilogueDetector} (hs₀ : Sound s₀)
    (h : Tracks mask s₀ s d) {pc : Nat}
    (hnear : Near s₀ pc s) (index : Index) (rt rt2 : XReg) {imm : Int} (hdvd : 8 ∣ imm) (h0 : -2 ^ 10 < imm)
    (h1 : imm < 2 ^ 10) :
    (Inst.ldp index rt rt2 imm).exec P p pc s = .fault ∨
      ∃ s', (Inst.ldp index rt rt2 imm).exec P p pc s = .running (pc + 4) s' ∧
        Tracks mask s₀ s' (d.afterLdp index rt rt2 imm) := by
  rcases exec_ldp (P := P) (p := p) index rt rt2 imm pc s with hfault | ⟨v, v2, hal, hv, hv2, hexec⟩
  · exact .inl hfault
  · refine .inr ⟨_, hexec, ?_⟩
    -- the pair is where the detector says, at an aligned offset
    have hspo := h.sp
    have hal₀ := hs₀.aligned
    have hmoved := addr_sp hs₀ h hnear (b := imm) (by omega) (by omega)
    obtain ⟨hlo, hhi⟩ := hnear
    have himm : addI32 d.spOffset imm = d.spOffset + imm := addI32_of_range (by omega) (by omega)
    have hloc : ∃ loc, (if index = .post then d.spOffset else addI32 d.spOffset imm) = loc ∧ 8 ∣ loc ∧
        -2 ^ 30 - 2 ^ 10 ≤ loc ∧ loc ≤ 2 ^ 30 + 2 ^ 10 ∧ index.base s.sp imm = addr s₀.sp loc := by
      have hlow := hs₀.low
      have hhigh := hs₀.high
      cases index with
      | post =>
        exact ⟨_, if_pos rfl, by omega, by omega, by omega, eq_addr (a := s.sp) hspo (by omega)⟩
      | offset =>
        rw [if_neg (by decide)]
        exact ⟨_, rfl, by omega, by omega, by omega, eq_addr (a := addr s.sp imm) hmoved (by omega)⟩
      | pre =>
        rw [if_neg (by decide)]
        exact ⟨_, rfl, by omega, by omega, by omega, eq_addr (a := addr s.sp imm) hmoved (by omega)⟩
    obtain ⟨loc, hlocEq, hloc8, hloc0, hloc1, hbase⟩ := hloc
    rw [h.mem, hbase] at hv
    rw [h.mem, hbase, addr_addr] at hv2
    have hnext : addI32 loc 8 = loc + 8 := addI32_of_range (by omega) (by omega)
    have hnoted : Noted mask s₀ ((s.setX rt v).setX rt2 v2)
        ((d.note (rt.setWidth 32) loc).note (rt2.setWidth 32) (addI32 loc 8)) := by
      apply (h.toNoted.note rt hloc8 hv).note rt2
      · rw [hnext]
        omega
      · rw [hnext]
        exact hv2
    unfold EpilogueDetector.afterLdp
    simp only [hlocEq]
    cases index with
    | post =>
      rw [if_neg (by decide)]
      exact { fp := hnoted.fp, lr := hnoted.lr, sp := hmoved, mem := by simp [h.mem] }
    | offset =>
      rw [if_pos rfl]
      refine { fp := hnoted.fp, lr := hnoted.lr, sp := ?_, mem := by simp [h.mem] }
      rw [note_spOffset, note_spOffset]
      exact hspo
    | pre =>
      rw [if_neg (by decide)]
      exact { fp := hnoted.fp, lr := hnoted.lr, sp := hmoved, mem := by simp [h.mem] }

theorem Tracks.addSp {s₀ s : State} {d : EpilogueDetector} (hs₀ : Sound s₀) (h : Tracks mask s₀ s d) {pc : Nat}
    (hnear : Near s₀ pc s) {imm : Nat} (himm : imm < 2 ^ 24) :
    Tracks mask s₀ { s with sp := addr s.sp imm } { d with spOffset := addI32 d.spOffset imm } where
  fp := h.fp
  lr := h.lr
  sp := addr_sp hs₀ h hnear (b := imm) (by omega) (by omega)
  mem := h.mem

/-- Run from a word on at which the detector, in step with the machine, finds its way to a return
    or a tail call, the code leaves in step with what the detector has found. -/
theorem analyzeLoop_ends (hauth : AuthKeeps mask P) {s₀ : State} (hs₀ : Sound s₀) {bytes : Bytes}
    {d d' : EpilogueDetector} {w : Word} {pc : Nat} {s : State} (hw : fetch code pc = some w)
    (hbytes : code.drop (pc + 4) = bytes) (hloop : d.analyzeLoop w bytes = .foundReturnOrTailCall d')
    (htracks : Tracks mask s₀ s d) (hplain : Along (step P base code) pc s (Plain P base code s₀)) :
    Ends (step P base code) pc s (Tracks mask s₀ · d') := by
  induction hn : bytes.length using Nat.strong_induction_on generalizing bytes d w pc s with
  | _ n ih =>
    unfold EpilogueDetector.analyzeLoop at hloop
    have hal : Allocated w := hplain.here.allocated w hw
    split at hloop
    case h_1 d₁ hstep =>
      -- a word stepped over: one more step of the machine, then the rest
      split at hloop
      case h_2 => cases hloop
      case h_1 b0 b1 b2 b3 rest =>
        have hrest : ∀ s₁, Along (step P base code) (pc + 4) s₁ (Plain P base code s₀) → Tracks mask s₀ s₁ d₁ →
            Ends (step P base code) (pc + 4) s₁ (Tracks mask s₀ · d') := by
          intro s₁ hplain₁ htracks₁
          have hfetch : fetch code (pc + 4) = some (fromLeBytes b0 b1 b2 b3) := by
            unfold fetch
            rw [hbytes]
          have hdrop : code.drop (pc + 4 + 4) = rest := by
            rw [← List.drop_drop, hbytes]
            rfl
          exact ih rest.length (by rw [← hn]; simp only [List.length_cons]; omega) hfetch hdrop hloop
            htracks₁ hplain₁ rfl
        have hnear := hplain.here.near
        rcases stepInstruction_needMore hal hstep with ⟨index, rt, rt2, imm, hdecode, rfl, hdvd, h0, h1⟩ |
          ⟨imm, hdecode, rfl, hlt⟩
        · rcases Tracks.ldp (P := P) hs₀ htracks hnear index rt rt2 hdvd h0 h1 with hfault | ⟨s₁, hexec, htracks₁⟩
          · exact Ends.fault (step_of hw hdecode hfault)
          · have hrun := step_of hw hdecode hexec
            exact Ends.running hrun (hrest s₁ (hplain.next hrun) htracks₁)
        · have hrun : step P base code pc s = .running (pc + 4) { s with sp := addr s.sp imm } := step_of hw hdecode rfl
          exact Ends.running hrun (hrest _ (hplain.next hrun) (htracks.addSp hs₀ hnear hlt))
    case h_2 => cases hloop
    case h_3 d₁ hstep =>
      cases hloop
      obtain ⟨rfl, rfl | rfl⟩ := (stepInstruction_found hstep).1 rfl
      · exact Ends.left (step_of hw rfl rfl) htracks
      · exact Ends.left (step_of hw rfl rfl) (htracks.keeps (keeps_lr (hauth _ _)))
    case h_4 d₁ hstep =>
      cases hloop
      obtain ⟨rfl, hb⟩ := (stepInstruction_found hstep).2.1 rfl
      exact hplain.here.ends_b hw hb htracks
    case h_5 d₁ hstep =>
      split at hloop
      case isFalse => cases hloop
      case isTrue hcall =>
        cases hloop
        obtain ⟨rfl, rfl⟩ := (stepInstruction_found hstep).2.2 rfl
        rw [← hbytes] at hcall
        have hrun : step P base code pc s = .running (pc + 4) (s.setX Lib.A64.lr (P.auth (s.x Lib.A64.lr) s.sp)) :=
          step_of hw rfl rfl
        apply Ends.running hrun
        apply ((isAuthTailCall_spec hcall).ends_eor (hplain.next hrun)).mono
        intro s' hk
        exact (htracks.keeps (keeps_lr (hauth _ _))).keeps hk

/-! ## The whole analysis -/

theorem ite_cases {α : Type} {c : Prop} [Decidable c] {a b x : α} (h : (if c then a else b) = x) :
    (c ∧ a = x) ∨ (¬ c ∧ b = x) := by
  by_cases hc : c
  · exact .inl ⟨hc, (if_pos hc).symm.trans h⟩
  · exact .inr ⟨hc, (if_neg hc).symm.trans h⟩

/-- The words of a tail call, each with its place in one. -/
inductive TailWord (w : Word) : EpilogueInstructionType → Prop where
  | branch (h : w >>> 26 = 0b000101) : TailWord w (.couldBeTailCall 16)
  | branchRegister (h : w &&& 0xfffffc1f = 0xd61f0000) : TailWord w (.couldBeTailCall 16)
  | autibsp (h : w = 0xd50323ff) : TailWord w (.couldBePartOfAuthTailCall 0)
  | eor (h : w = 0xca1e07d0) : TailWord w (.couldBePartOfAuthTailCall 4)
  | tbz (h : w = 0xb6f00050) : TailWord w (.couldBePartOfAuthTailCall 8)
  | brk (h : w = 0xd4388e20) : TailWord w (.couldBePartOfAuthTailCall 12)
  | mov (h : (w >>> 23) &&& 0b111000111 = 0b110000101) (h16 : w &&& 0b11111 = 16) :
    TailWord w (.couldBePartOfAuthTailCall 16)
  | braa (h : w &&& 0xfffffc00 = 0xd71f0800) (h16 : w &&& 0b11111 = 16) : TailWord w (.couldBePartOfAuthTailCall 20)

theorem analyzeInstruction_cases (w : Word) : analyzeInstruction w = .notExpectedInEpilogue ∨
    analyzeInstruction w = .veryLikelyPartOfEpilogue ∨ TailWord w (analyzeInstruction w) := by
  generalize h : analyzeInstruction w = t
  unfold analyzeInstruction at h
  rcases ite_cases h with ⟨-, rfl⟩ | ⟨-, h⟩
  · exact .inr (.inl rfl)
  rcases ite_cases h with ⟨hw, rfl⟩ | ⟨-, h⟩
  · exact .inr (.inr (.autibsp hw))
  rcases ite_cases h with ⟨hw, rfl⟩ | ⟨-, h⟩
  · exact .inr (.inr (.eor hw))
  rcases ite_cases h with ⟨hw, rfl⟩ | ⟨-, h⟩
  · exact .inr (.inr (.tbz hw))
  rcases ite_cases h with ⟨hw, rfl⟩ | ⟨-, h⟩
  · exact .inr (.inr (.brk hw))
  rcases ite_cases h with ⟨hw | hw, rfl⟩ | ⟨-, h⟩
  · exact .inr (.inr (.branch hw))
  · exact .inr (.inr (.branchRegister hw))
  rcases ite_cases h with ⟨hw, rfl⟩ | ⟨-, h⟩
  · exact .inr (.inr (.mov hw.1 hw.2))
  rcases ite_cases h with ⟨hw, rfl⟩ | ⟨-, h⟩
  · exact .inr (.inr (.braa hw.1 hw.2))
  rcases ite_cases h with ⟨-, h⟩ | ⟨-, h⟩
  · split_ifs at h <;> simp [← h]
  rcases ite_cases h with ⟨-, h⟩ | ⟨-, h⟩
  · split_ifs at h <;> simp [← h]
  · exact .inl h.symm

theorem inAuthTailCall_spec {pc offset : Nat} (h : inAuthTailCall code pc offset = true) :
    ∃ start, pc = start + offset ∧ AuthTailCall code (start + 4) := by
  unfold inAuthTailCall at h
  simp only [Bool.and_eq_true, decide_eq_true_eq] at h
  obtain ⟨hle, -, hcall⟩ := h
  exact ⟨pc - offset, by omega, isAuthTailCall_spec hcall⟩

/-- Run from an address on at which the analysis finds an epilogue, the code leaves, in step with
    what it has found. -/
theorem analyzeSlice_ends (hauth : AuthKeeps mask P) {s : State} (hs : Sound s) {pc : Nat} {d : EpilogueDetector}
    (h : EpilogueDetector.new.analyzeSlice code pc = .foundReturnOrTailCall d)
    (hplain : Along (step P base code) pc s (Plain P base code s)) :
    Ends (step P base code) pc s (Tracks mask s · d) := by
  unfold EpilogueDetector.analyzeSlice at h
  split at h
  case h_2 => cases h
  case h_1 b0 b1 b2 b3 bytes hbytes =>
    have hw : fetch code pc = some (fromLeBytes b0 b1 b2 b3) := by
      unfold fetch
      rw [hbytes]
    have hkept : ∀ s', Keeps mask s s' → Tracks mask s s' ⟨0, none, none⟩ := fun s' hk => (Tracks.start mask s).keeps hk
    dsimp only at h
    generalize fromLeBytes b0 b1 b2 b3 = w at hw h
    rcases analyzeInstruction_cases w with ht | ht | ht
    · rw [ht] at h
      cases h
    · rw [ht] at h
      have hdrop : code.drop (pc + 4) = bytes := by
        rw [← List.drop_drop, hbytes]
        rfl
      exact analyzeLoop_ends hauth hs hw hdrop h (Tracks.start mask s) hplain
    · -- the words of a tail call leave everything as it is
      have hd : d = ⟨0, none, none⟩ := by
        cases ht' : analyzeInstruction w with
        | notExpectedInEpilogue =>
          rw [ht'] at h
          cases h
        | veryLikelyPartOfEpilogue =>
          rw [ht'] at ht
          cases ht
        | couldBeTailCall offset =>
          simp only [ht'] at h
          split_ifs at h
          all_goals
            cases h
            rfl
        | couldBePartOfAuthTailCall offset =>
          simp only [ht'] at h
          split_ifs at h
          cases h
          rfl
      subst hd
      refine Ends.mono ?_ hkept
      have hplace : ∀ offset, analyzeInstruction w = .couldBePartOfAuthTailCall offset →
          ∃ start, pc = start + offset ∧ AuthTailCall code (start + 4) := by
        intro offset ht'
        simp only [ht'] at h
        split_ifs at h with hin
        exact inAuthTailCall_spec hin
      generalize analyzeInstruction w = t at ht hplace
      cases ht with
      | branch hb => exact hplain.here.ends_b hw hb (Keeps.refl mask s)
      | branchRegister hbr => exact hplain.here.ends_br hw hbr (Keeps.refl mask s)
      | braa hbraa h16 => exact hplain.here.ends_braa hw hbraa h16 (Keeps.refl mask s)
      | brk hbrk =>
        subst hbrk
        exact Ends.trapped (step_of hw rfl rfl) (Keeps.refl mask s)
      | autibsp hauti =>
        obtain ⟨start, rfl, hcall⟩ := hplace _ rfl
        subst hauti
        have hrun : step P base code pc s = .running (pc + 4) (s.setX Lib.A64.lr (P.auth (s.x Lib.A64.lr) s.sp)) :=
          step_of hw rfl rfl
        apply Ends.running hrun
        apply (hcall.ends_eor (hplain.next hrun)).mono
        intro s' hk
        exact (keeps_lr (hauth _ _)).trans hk
      | eor heor =>
        obtain ⟨start, rfl, hcall⟩ := hplace _ rfl
        exact hcall.ends_eor hplain
      | tbz htbz =>
        obtain ⟨start, rfl, hcall⟩ := hplace _ rfl
        exact hcall.ends_tbz hplain
      | mov hmov h16 =>
        obtain ⟨start, rfl, hcall⟩ := hplace _ rfl
        exact hcall.ends_call hplain

/-! ## Executing the rule -/

theorem strip_strip (mask : PtrAuthMask) (v : Nat) : mask.stripPtrAuth (mask.stripPtrAuth v) = mask.stripPtrAuth v := by
  simp only [PtrAuthMask.stripPtrAuth, Nat.land_assoc, Nat.and_self]

/-- What executing a rule gives, where the registers it finds are those of `s'`. -/
def callerOf (mask : PtrAuthMask) (s s' : State) : Except Error (Option Nat) × UnwindRegs :=
  if mask.stripPtrAuth (s'.x lr) = 0 then (.ok none, unwindRegs mask s)
  else (.ok (some (mask.stripPtrAuth (s'.x lr))), unwindRegs mask s')

theorem exec_eq_callerOf {rule : UnwindRule} {first : Bool} {s s' : State} {read : ReadStack} (newLr : Nat)
    (h : target rule first (unwindRegs mask s) read = .ok (some (newLr, s'.sp, s'.x fp)))
    (hlr : mask.stripPtrAuth newLr = mask.stripPtrAuth (s'.x lr)) (hmoves : ¬ (first = false ∧ s'.sp = s.sp)) :
    exec rule first (unwindRegs mask s) read = callerOf mask s s' := by
  unfold exec callerOf
  rw [h]
  have hmask : (unwindRegs mask s).lrMask = mask := rfl
  have hsp : (unwindRegs mask s).sp = s.sp := rfl
  simp only [hmask, hlr, hsp, hmoves, if_false]
  split
  · rfl
  · simp only [UnwindRegs.setLr, UnwindRegs.setSp, UnwindRegs.setFp, hmask, hlr]
    rfl

theorem exec_callerOf {rule : UnwindRule} {s s' : State} {read : ReadStack} (newLr : Nat)
    (h : target rule true (unwindRegs mask s) read = .ok (some (newLr, s'.sp, s'.x fp)))
    (hlr : mask.stripPtrAuth newLr = mask.stripPtrAuth (s'.x lr)) :
    exec rule true (unwindRegs mask s) read = callerOf mask s s' :=
  exec_eq_callerOf newLr h hlr (by simp)

/-- The stored word is read at the offset that the rule has for it, in words. -/
theorem readStored_of_toI16 {s : State} (hs : Sound s) {o j : Int} (ho : 8 ∣ o)
    (hj : toI16 (o.tdiv 8) = some j) {v : Nat}
    (hv : s.mem (addr s.sp o) = some v) : readStored s.mem s.sp j = .ok v := by
  have hlow := hs.low
  have hhigh := hs.high
  obtain ⟨rfl, hrange⟩ := toI16_eq_some.mp hj
  have h8 : o.tdiv 8 * 8 = o := Int.tdiv_mul_cancel ho
  have hrange' : -2 ^ 18 ≤ o ∧ o < 2 ^ 18 := by omega
  have haddr : (addr s.sp o : Int) = s.sp + o := addr_of_range (by omega) (by omega)
  have hloc : checkedAddSigned s.sp (o.tdiv 8 * 8) = some (addr s.sp o) := by
    rw [h8]
    exact checkedAddSigned_eq_some.mpr ⟨haddr.symm, by omega⟩
  simp [readStored, hloc, okOr, readOr, hv, bind, Except.bind]

/-- The rule of an epilogue gives the registers of the state that the detector has tracked. -/
theorem exec_tracks {rule : UnwindRule} {pc : Nat} {d : EpilogueDetector}
    (hd : EpilogueDetector.new.analyzeSlice code pc = .foundReturnOrTailCall d)
    (h : unwindRuleFromDetectedEpilogue code pc = some rule) {s s' : State} (hs : Sound s) (ht : Tracks mask s s' d)
    (hal : s'.sp % 16 = 0) : exec rule true (unwindRegs mask s) s.mem = callerOf mask s s' := by
  unfold unwindRuleFromDetectedEpilogue at h
  rw [hd] at h
  obtain ⟨n, hn, h⟩ := Option.bind_eq_some_iff.mp h
  obtain ⟨hn, hlt⟩ := toU16_eq_some.mp hn
  have hsp := ht.sp
  have hal₀ := hs.aligned
  have hhigh := hs.high
  have hoff : d.spOffset = 16 * n := by
    rw [hn]
    exact (Int.mul_tdiv_cancel' (by omega)).symm
  have hadd : checkedAdd s.sp (n * 16) = some s'.sp := checkedAdd_eq_some.mpr ⟨by omega, by omega⟩
  have hfp := ht.fp
  have hlr := ht.lr
  cases hdf : d.fpOffsetFromInitialSp with
  | none =>
    rw [hdf] at h hfp
    -- the frame pointer is the one the caller has
    have hfp : s'.x fp = s.x fp := hfp
    cases hdl : d.lrOffsetFromInitialSp with
    | none =>
      rw [hdl] at h hlr
      have hlr : mask.stripPtrAuth (s'.x lr) = mask.stripPtrAuth (s.x lr) := hlr
      dsimp only at h
      split at h
      case isTrue hzero =>
        cases h
        have hsame : s'.sp = s.sp := by omega
        apply exec_callerOf (mask.stripPtrAuth (s.x lr)) _ ((strip_strip _ _).trans hlr.symm)
        rw [hfp, hsame]
        rfl
      case isFalse =>
        cases h
        apply exec_callerOf (mask.stripPtrAuth (s.x lr)) _ ((strip_strip _ _).trans hlr.symm)
        rw [hfp]
        simp [target, unwindRegs, UnwindRegs.newWithPtrAuthMask, hadd, okOr, bind, Except.bind, pure, Except.pure]
    | some o =>
      rw [hdl] at h hlr
      obtain ⟨ho, u, hu, hstrip⟩ := hlr
      obtain ⟨j, hj, h⟩ := Option.bind_eq_some_iff.mp h
      cases h
      apply exec_callerOf u _ hstrip.symm
      rw [hfp]
      simp [target, unwindRegs, UnwindRegs.newWithPtrAuthMask, hadd, readStored_of_toI16 hs ho hj hu, okOr, bind,
        Except.bind, pure, Except.pure]
  | some o₁ =>
    rw [hdf] at h hfp
    cases hdl : d.lrOffsetFromInitialSp with
    | none =>
      rw [hdl] at h
      cases h
    | some o₂ =>
      rw [hdl] at h hlr
      obtain ⟨ho₁, u₁, hu₁, hfp⟩ := hfp
      obtain ⟨ho₂, u₂, hu₂, hstrip⟩ := hlr
      obtain ⟨j₁, hj₁, h⟩ := Option.bind_eq_some_iff.mp h
      obtain ⟨j₂, hj₂, h⟩ := Option.bind_eq_some_iff.mp h
      cases h
      apply exec_callerOf u₂ _ hstrip.symm
      rw [hfp]
      simp [target, unwindRegs, UnwindRegs.newWithPtrAuthMask, hadd, readStored_of_toI16 hs ho₁ hj₁ hu₁,
        readStored_of_toI16 hs ho₂ hj₂ hu₂, okOr, bind, Except.bind, pure, Except.pure]

/-- A rule from epilogue analysis, executed on the first frame's registers, gives exactly what the
    rest of the epilogue does: run on from the address, the code comes to a return, a tail call or
    the trap before one, or faults; and in the first case the rule recovers that state's stack
    pointer, frame pointer and link register. Along the run the words are what they pass for, the
    code leaves the function where it branches and the stack pointer stays within a gibibyte; it is
    aligned where the run starts and where it leaves, and authentication changes no address bits. -/
theorem epilogue_rule_sound (hauth : AuthKeeps mask P) {rule : UnwindRule} {pc : Nat}
    (h : ruleFromEpilogueAnalysis code pc = some rule)
    {s : State} (hs : Sound s) (hplain : Along (step P base code) pc s (Plain P base code s)) :
    Ends (step P base code) pc s fun s' => s'.sp % 16 = 0 →
      exec rule true (unwindRegs mask s) s.mem = callerOf mask s s' := by
  have h : unwindRuleFromDetectedEpilogue code pc = some rule := h
  cases hd : EpilogueDetector.new.analyzeSlice code pc with
  | probablyStillInBody t =>
    rw [unwindRuleFromDetectedEpilogue, hd] at h
    cases h
  | reachedFunctionEndWithoutReturn =>
    rw [unwindRuleFromDetectedEpilogue, hd] at h
    cases h
  | foundReturnOrTailCall d =>
    apply (analyzeSlice_ends hauth hs hd hplain).mono
    intro s' ht halign
    exact exec_tracks hd h hs ht halign

/-- Pointers that are not signed. -/
def plainPac : Pac := ⟨fun v _ => v, fun v _ => v, fun v _ => v⟩

-- a branch inside the function is taken for a tail call, and the adjustment behind it is missed
example : ruleFromEpilogueAnalysis
    [0xff, 0x43, 0x00, 0x91, 0x01, 0x00, 0x00, 0x14, 0xff, 0x43, 0x00, 0x91, 0xc0, 0x03, 0x5f, 0xd6] 0 =
      some (.offsetSp 1) := by
  decide

/-- `ldp fp, lr, [sp], #16` and `b .+0x1000`. -/
def popFrame : Bytes := [0xfd, 0x7b, 0xc1, 0xa8, 0x00, 0x04, 0x00, 0x14]

/-- A state with a word of its own at every address. -/
def sampleState : State := ⟨2 ^ 40, fun _ => 7, fun a => some (a + 1)⟩

theorem popFrame_plain :
    Along (step plainPac 0x400000 popFrame) 0 sampleState (Plain plainPac 0x400000 popFrame sampleState) := by
  have hload : ∀ w, fetch popFrame 0 = some w → w = 0xa8c17bfd := by
    intro w h
    exact (Option.some.inj h).symm
  have hbranch : ∀ w, fetch popFrame 4 = some w → w = 0x14000400 := by
    intro w h
    exact (Option.some.inj h).symm
  intro n pc s h
  match n, h with
  | 0, h =>
    cases h
    refine ⟨⟨by decide, by decide⟩, ?_, ?_, ?_⟩
    · intro w h
      rw [hload w h]
      decide
    · intro w h
      rw [hload w h]
      decide
    · intro w i address h hi ha
      rw [hload w h] at hi
      cases hi
      cases ha
  | 1, h =>
    cases h
    refine ⟨⟨by decide, by decide⟩, ?_, ?_, ?_⟩
    · intro w h
      rw [hbranch w h]
      decide
    · intro w h
      rw [hbranch w h]
      decide
    · intro w i address h hi ha
      rw [hbranch w h] at hi
      cases hi
      cases ha
      decide
  | n + 2, h => cases h

theorem epilogue_rule_sound_popFrame : Ends (step plainPac 0x400000 popFrame) 0 sampleState fun s' => s'.sp % 16 = 0 →
    exec (.offsetSpAndRestoreFpAndLr 1 0 1) true (unwindRegs ⟨2 ^ 47 - 1⟩ sampleState) sampleState.mem =
      callerOf ⟨2 ^ 47 - 1⟩ sampleState s' :=
  epilogue_rule_sound (fun _ _ => rfl) (by decide) ⟨by decide, by decide, by decide⟩ popFrame_plain

end FramehopUnwind.Unwinder.Aarch64
