/-
  FramehopUnwind.Cursor.PtrAuth — stripping pointer authentication from return addresses
  (cursor.rs `ptr_auth_mask`; vendor/framehop/src/aarch64).

  A walk's mask keeps as many bits as the highest known code address has, and the hash is taken
  to lie above them. Two slips:

  The highest known code address is the end of the module with the highest start. With
  overlapping ranges another module may end above it, and its addresses lose bits; the mask
  covers the code iff every range ends below the next power of two (`EndsCovered`).

  A rule strips the return address it gives, and so does every write of the link register; a row
  evaluated without a rule gives the address as it was stored (`SignedRow`), and `step` reports
  it and looks it up.

  Proved:
  - `stripping_keeps_code_iff`: for every list of edits, no code address is damaged iff the ends
    are covered; lists without overlaps are (`endsCovered_of_disjoint`).
  - `reported_ips_stripped_iff`: over whole runs, every ip after the first frame, but one restored
    from a signal frame, is stripped iff no step of the walk was a `SignedRow`.
-/

import FramehopUnwind.Cursor.Windows
import FramehopUnwind.Modules.Jit

namespace FramehopUnwind.Cursor

open Lib.Word Lib.Runs Unwinder
open State (Out Walk alone_invariant)

/-! ## The mask -/

theorem ptrAuthMask_eq {maxCode : Nat} (h0 : maxCode ≠ 0) (h : maxCode < 2 ^ 64) :
    ptrAuthMask maxCode = 2 ^ maxCode.size - 1 := by
  have hsize : maxCode.size ≤ 64 := Nat.size_le.mpr h
  have hpow : 2 ^ 64 - 1 = 2 ^ (64 - maxCode.size) * (2 ^ maxCode.size - 1) + (2 ^ (64 - maxCode.size) - 1) := by
    have hsplit : 2 ^ 64 = 2 ^ (64 - maxCode.size) * 2 ^ maxCode.size := by
      rw [← pow_add, Nat.sub_add_cancel hsize]
    have h1 := Nat.one_le_two_pow (n := maxCode.size)
    have h2 := Nat.one_le_two_pow (n := 64 - maxCode.size)
    have h3 := Nat.le_mul_of_pos_right (2 ^ (64 - maxCode.size)) h1
    rw [hsplit, Nat.mul_sub_one]
    omega
  unfold ptrAuthMask
  rw [if_neg h0, Nat.shiftRight_eq_div_pow, u64Max, leadingZeros, hpow, Nat.mul_add_div (Nat.two_pow_pos _),
    Nat.div_eq_of_lt (Nat.sub_lt (Nat.two_pow_pos _) Nat.one_pos), Nat.add_zero]

theorem strip_hash {mask h : Nat} (hh : h &&& mask = 0) (a : Nat) : (a ||| h) &&& mask = a &&& mask := by
  rw [Nat.and_or_distrib_right, hh, Nat.or_zero]

theorem and_mask_iff {a s : Nat} : a &&& (2 ^ s - 1) = a ↔ a < 2 ^ s := by
  rw [Nat.and_two_pow_sub_one_eq_mod]
  exact ⟨fun h => h ▸ Nat.mod_lt _ (Nat.two_pow_pos s), Nat.mod_eq_of_lt⟩

/-! ## Known code -/

section Code

variable {D : Type}

/-- Every module's range, if it has addresses, ends below the next power of two above the end of
    the module with the highest start. -/
def EndsCovered (modules : List (Module D)) : Prop :=
  ∀ last ∈ modules.getLast?, last.avmaRange.stop ≠ 0 → ∀ m ∈ modules, m.start < m.avmaRange.stop →
    m.avmaRange.stop ≤ 2 ^ last.avmaRange.stop.size

/-- An edit publishes no module that was not added. -/
theorem mem_editChunks {chunks : Chunks D} (wf : WF chunks) {e : Edit D} {m : Module D}
    (h : m ∈ (editChunks chunks e).flatten) : m ∈ chunks.flatten ∨ e = .add m := by
  cases e with
  | add m' =>
    rcases List.mem_cons.mp ((insertModule_perm wf m').mem_iff.mp h) with rfl | hm
    · exact .inr rfl
    · exact .inl hm
  | remove start =>
    cases hd : deleteModule chunks start with
    | none =>
      rw [editChunks, hd] at h
      exact .inl h
    | some chunks' =>
      rw [editChunks, hd] at h
      obtain ⟨m', -, hp⟩ := deleteModule_perm wf hd
      exact .inl (hp.mem_iff.mpr (List.mem_cons_of_mem _ h))

theorem mem_foldl_editChunks {es : List (Edit D)} {chunks : Chunks D} (wf : WF chunks) {m : Module D}
    (h : m ∈ (es.foldl editChunks chunks).flatten) : m ∈ chunks.flatten ∨ .add m ∈ es := by
  induction es generalizing chunks with
  | nil => exact .inl h
  | cons e es ih =>
    rcases ih (editChunks_wf wf e) h with hm | hm
    · rcases mem_editChunks wf hm with hm | rfl
      · exact .inl hm
      · exact .inr List.mem_cons_self
    · exact .inr (List.mem_cons_of_mem _ hm)

/-- Stripping keeps the addresses of a range iff it ends below the mask's bits. -/
theorem strip_below_iff {mask lo hi s : Nat} (hmask : mask = 2 ^ s - 1) :
    (∀ a, lo ≤ a → a < hi → ∀ h < 2 ^ 64, h &&& mask = 0 → (⟨mask⟩ : Aarch64.PtrAuthMask).stripPtrAuth (a ||| h) = a) ↔
      (lo < hi → hi ≤ 2 ^ s) := by
  constructor
  · intro h hlt
    have hlast := h (hi - 1) (by omega) (by omega) 0 (by decide) (Nat.zero_and _)
    rw [Nat.or_zero, Aarch64.PtrAuthMask.stripPtrAuth, hmask] at hlast
    have := and_mask_iff.mp hlast
    omega
  · intro h a hlo hhi hash _ hzero
    rw [Aarch64.PtrAuthMask.stripPtrAuth, strip_hash hzero, hmask]
    exact and_mask_iff.mpr (hhi.trans_le (h (hlo.trans_lt hhi)))

/-- For every list of edits with 64-bit ranges: no address of a published module is damaged by
    stripping, whatever the hash, iff the ends are covered. -/
theorem stripping_keeps_code_iff (es : List (Edit D)) (counter : Nat) {u : UnwinderInternal D} {counter' : Nat}
    (hrun : runEdits es counter = some (u, counter')) (hw : ∀ m, .add m ∈ es → m.avmaRange.stop < 2 ^ 64) :
    (∀ m ∈ u.modules.flatten, ∀ a, m.start ≤ a → a < m.avmaRange.stop →
      ∀ h < 2 ^ 64, h &&& ptrAuthMask (maxKnownCodeAddress u.modules) = 0 →
        (⟨ptrAuthMask (maxKnownCodeAddress u.modules)⟩ : Aarch64.PtrAuthMask).stripPtrAuth (a ||| h) = a) ↔
      EndsCovered u.modules.flatten := by
  have hword : ∀ m ∈ u.modules.flatten, m.avmaRange.stop < 2 ^ 64 := by
    intro m hm
    rw [runEdits_modules hrun] at hm
    exact hw m ((mem_foldl_editChunks wf_nil hm).resolve_left List.not_mem_nil)
  rw [maxKnownCodeAddress_flat u.wf]
  unfold EndsCovered
  cases hlast : u.modules.flatten.getLast? with
  | none =>
    rw [List.getLast?_eq_none_iff] at hlast
    simp [hlast]
  | some last =>
    have hl := hword last (List.mem_of_getLast? hlast)
    simp only [Option.map_some, Option.getD_some, Option.mem_some_iff, forall_eq']
    by_cases h0 : last.avmaRange.stop = 0
    · -- a last module without addresses leaves all the bits
      have hmask : ptrAuthMask last.avmaRange.stop = 2 ^ 64 - 1 := by rw [h0]; rfl
      refine iff_of_true ?_ (fun hne => absurd h0 hne)
      intro m hm
      exact (strip_below_iff hmask).mpr fun _ => (hword m hm).le
    · refine Iff.trans ?_ (forall_prop_of_true h0).symm
      exact forall₂_congr fun m hm => strip_below_iff (ptrAuthMask_eq h0 hl)

/-- Ranges that do not overlap are covered: none ends above the last one's start. -/
theorem endsCovered_of_disjoint {chunks : Chunks D} (wf : WF chunks)
    (hne : ∀ m ∈ chunks.flatten, m.start < m.avmaRange.stop)
    (hd : chunks.flatten.Pairwise fun m m' => m.avmaRange.stop ≤ m'.start ∨ m'.avmaRange.stop ≤ m.start) :
    EndsCovered chunks.flatten := by
  intro last hlast _ m hm _
  obtain ⟨pre, heq⟩ := List.getLast?_eq_some_iff.mp hlast
  have hsorted := wf.sorted
  unfold Lib.Search.SortedBy at hsorted
  rw [heq] at hsorted hd hm hne
  have hend := hne last List.mem_concat_self
  rw [List.pairwise_append] at hsorted hd
  have hsize := Nat.lt_size_self last.avmaRange.stop
  rcases List.mem_append.mp hm with hpre | hself
  · have hle := hsorted.2.2 m hpre last List.mem_cons_self
    have hstart := hne m hm
    rcases hd.2.2 m hpre last List.mem_cons_self with h | h <;> omega
  · rw [List.mem_singleton.mp hself]
    exact hsize.le

end Code

/-- Two modules that overlap, the ends of both at most 32. -/
def overlapEdits : List (Edit Unit) := [.add ⟨⟨16, 32⟩, 16, 16, ()⟩, .add ⟨⟨24, 28⟩, 24, 24, ()⟩]

theorem stripping_keeps_code_iff_overlap : ∃ (u : UnwinderInternal Unit) (counter : Nat),
    runEdits overlapEdits 0 = some (u, counter) ∧
    ∀ m ∈ u.modules.flatten, ∀ a, m.start ≤ a → a < m.avmaRange.stop →
      ∀ h < 2 ^ 64, h &&& ptrAuthMask (maxKnownCodeAddress u.modules) = 0 →
        (⟨ptrAuthMask (maxKnownCodeAddress u.modules)⟩ : Aarch64.PtrAuthMask).stripPtrAuth (a ||| h) = a := by
  refine ⟨_, _, rfl, (stripping_keeps_code_iff overlapEdits 0 rfl ?_).mpr ?_⟩
  · simp [overlapEdits]
  · intro last hlast _
    obtain rfl : (⟨⟨24, 28⟩, 24, 24, ()⟩ : Module Unit) = last := Option.some.inj hlast
    decide

theorem innerFde_start : 0x2000 < 2 ^ 64 := by decide

theorem outerFde_start : 0x9000 < 2 ^ 64 := by decide

/-- gimli over two buffers: one describes functions at 0x1000 and 0x9000, the other the function
    at 0x2000. -/
def farBuffers : Gimli where
  entries _ bytes _ :=
    if bytes = [1] then
      [some .cie, some (.fde (some ⟨0x1000, 16, 24, trampolineFde_start, trampolineFde_len⟩)),
        some (.fde (some ⟨0x9000, 16, 48, outerFde_start, trampolineFde_len⟩))]
    else if bytes = [2] then [some .cie, some (.fde (some ⟨0x2000, 16, 24, innerFde_start, trampolineFde_len⟩))]
    else []
  entries_wider _ _ _ _ _ _ := rfl
  fdeFromOffset _ _ _ _ := some false
  unwindInfoForAddress _ _ _ _ _ := none
  hdrTableLookup _ _ _ := none

/-- The mask is that of the inner buffer's end, 0x2010, and cuts the outer buffer's second function
    off: an unsigned return address into it becomes 0x1004. -/
theorem outer_module_damaged : ∃ (w w' : Modules.JitWorld) (u : UnwinderInternal ModuleUnwindDataInternal),
    Modules.registerJitEhFrameAuto farBuffers (Modules.World.new 0) ⟨0x5000, [1]⟩ = some (w, 0) ∧
    Modules.registerJitEhFrameAuto farBuffers w ⟨0x6000, [2]⟩ = some (w', 0) ∧ w'.current = some u ∧
    (∃ m ∈ u.modules.flatten, m.start ≤ 0x9004 ∧ 0x9004 < m.avmaRange.stop) ∧
    (⟨ptrAuthMask (maxKnownCodeAddress u.modules)⟩ : Aarch64.PtrAuthMask).stripPtrAuth (0x9004 ||| 0) = 0x1004 ∧
    ¬ ∀ m ∈ u.modules.flatten, ∀ a, m.start ≤ a → a < m.avmaRange.stop →
      ∀ h < 2 ^ 64, h &&& ptrAuthMask (maxKnownCodeAddress u.modules) = 0 →
        (⟨ptrAuthMask (maxKnownCodeAddress u.modules)⟩ : Aarch64.PtrAuthMask).stripPtrAuth (a ||| h) = a := by
  refine ⟨_, _, _, rfl, rfl, rfl, ⟨_, List.mem_cons_self, by decide, by decide⟩, by decide, ?_⟩
  intro h
  exact absurd (h _ List.mem_cons_self 0x9004 (by decide) (by decide) 0 (by decide) (Nat.zero_and _)) (by decide)

/-! ## Reported addresses -/

/-- The two arm64 targets: `aarch64`, and `aarch64Linux` with the kernel's signal frame. -/
def arm64 (linux : Bool) : Native := { aarch64 with restore := if linux then some restore else none }

example : arm64 false = aarch64 := rfl
example : arm64 true = aarch64Linux := rfl

/-- The walk's mask is `mask`, and the link register is stripped. -/
structure Masked (mask : Nat) (regs : Aarch64.UnwindRegs) : Prop where
  bits : regs.lrMask.bits = mask
  lr : regs.lr &&& mask = regs.lr

theorem and_mask_idem (a mask : Nat) : a &&& mask &&& mask = a &&& mask := by rw [Nat.and_assoc, Nat.and_self]

theorem Masked.setLr {mask : Nat} (regs : Aarch64.UnwindRegs) (h : regs.lrMask.bits = mask) (lr : Nat) :
    Masked mask (regs.setLr lr) := by
  refine ⟨h, ?_⟩
  simp only [Aarch64.UnwindRegs.setLr, Aarch64.PtrAuthMask.stripPtrAuth, h, and_mask_idem]

section Engines

variable {mask : Nat} {regs regs' : Aarch64.UnwindRegs} {read : ReadStack}

/-- A rule gives a stripped address, and leaves the link register so. -/
theorem exec_masked (h : Masked mask regs) (rule : Aarch64.UnwindRule) (first : Bool) (read : ReadStack) :
    Masked mask (Aarch64.exec rule first regs read).2 ∧
      ∀ a, (Aarch64.exec rule first regs read).1 = .ok (some a) → a &&& mask = a := by
  unfold Aarch64.exec
  split
  · exact ⟨h, by simp⟩
  · exact ⟨h, by simp⟩
  · rename_i newLr newSp newFp _
    dsimp only
    split
    · exact ⟨h, by simp⟩
    · split
      · exact ⟨h, by simp⟩
      · have hset := Masked.setLr regs h.bits newLr
        refine ⟨⟨hset.bits, hset.lr⟩, ?_⟩
        intro a ha
        obtain rfl : regs.lrMask.stripPtrAuth newLr = a := by simpa using ha
        rw [Aarch64.PtrAuthMask.stripPtrAuth, h.bits, and_mask_idem]

theorem restore_masked (h : Masked mask regs) {pc : Nat} (hr : restore regs read = some (pc, regs')) :
    Masked mask regs' := by
  unfold restore at hr
  obtain ⟨base, -, hr⟩ := Option.bind_eq_some_iff.mp hr
  obtain ⟨fp, -, hr⟩ := Option.bind_eq_some_iff.mp hr
  obtain ⟨lr, -, hr⟩ := Option.bind_eq_some_iff.mp hr
  obtain ⟨sp, -, hr⟩ := Option.bind_eq_some_iff.mp hr
  obtain ⟨pc', -, hr⟩ := Option.bind_eq_some_iff.mp hr
  obtain ⟨-, rfl⟩ := Prod.mk.inj (Option.some.inj hr)
  have hset := Masked.setLr (regs.setFp fp) h.bits lr
  exact ⟨hset.bits, hset.lr⟩

/-- The row evaluates to a link register with bits outside the mask. -/
def SignedLr (row : UnwindTableRow) (regs : Aarch64.UnwindRegs) (isFirstFrame : Bool) (read : ReadStack) : Prop :=
  ∃ cfa lr, evalCfaRule regs.dwarfGet read row.cfa = some cfa ∧
    evalRegisterRule regs.dwarfGet read cfa regs.lr (row.register 30) = some lr ∧ regs.lrMask.stripPtrAuth lr ≠ lr ∧
    (isFirstFrame = false → regs.sp < cfa ∧
      (evalRegisterRule regs.dwarfGet read cfa regs.fp (row.register 29)).isSome = true)

/-- A row evaluated without a rule gives a stripped address iff the row's own is stripped. -/
theorem generic_masked (h : Masked mask regs) {row : UnwindTableRow} {first : Bool}
    {result : UnwindResult Aarch64.UnwindRule}
    (hu : Aarch64.unwindFrameGeneric row regs first read = .ok (result, regs')) :
    Masked mask regs' ∧ ∃ a, result = .uncacheable a ∧ (a &&& mask = a ↔ ¬ SignedLr row regs first read) := by
  unfold Aarch64.unwindFrameGeneric at hu
  split at hu
  · cases hu
  rename_i cfa hcfa
  have hset : ∀ fp lr, Masked mask (((regs.setFp fp).setSp cfa).setLr lr) :=
    fun fp lr => Masked.setLr ((regs.setFp fp).setSp cfa) h.bits lr
  have hsigned : ∀ a, evalRegisterRule regs.dwarfGet read cfa regs.lr (row.register 30) = some a →
      (first = false → regs.sp < cfa ∧
        (evalRegisterRule regs.dwarfGet read cfa regs.fp (row.register 29)).isSome = true) →
      (a &&& mask = a ↔ ¬ SignedLr row regs first read) := by
    intro a ha hrest
    rw [← h.bits]
    constructor
    · intro heq h₀
      obtain ⟨cfa', lr, hcfa', hlr, hne, -⟩ := h₀
      obtain rfl := Option.some.inj (hcfa.symm.trans hcfa')
      obtain rfl := Option.some.inj (ha.symm.trans hlr)
      exact hne heq
    · intro hnot
      by_contra hne
      exact hnot ⟨cfa, a, hcfa, ha, hne, hrest⟩
  dsimp only at hu
  split at hu
  case isTrue hfirst =>
    subst hfirst
    cases hu
    refine ⟨hset _ _, _, rfl, ?_⟩
    cases hlr : evalRegisterRule regs.dwarfGet read cfa regs.lr (row.register 30) with
    | some a => exact hsigned a hlr (by simp)
    | none =>
      -- the first frame's own link register, which is stripped
      refine iff_of_true h.lr ?_
      intro h₀
      obtain ⟨cfa', lr, hcfa', hlr', -⟩ := h₀
      obtain rfl := Option.some.inj (hcfa.symm.trans hcfa')
      cases hlr.symm.trans hlr'
  case isFalse hfirst =>
    split at hu
    · cases hu
    rename_i hsp
    split at hu
    · cases hu
    rename_i fp hfp
    split at hu
    · cases hu
    rename_i lr hlr
    cases hu
    refine ⟨hset _ _, _, rfl, hsigned lr hlr fun _ => ⟨not_le.mp hsp, ?_⟩⟩
    rw [hfp]
    rfl

/-- A row with such a link register gives it. -/
theorem generic_of_signed {row : UnwindTableRow} {first : Bool} (h : SignedLr row regs first read) :
    ∃ a regs', Aarch64.unwindFrameGeneric row regs first read = .ok (.uncacheable a, regs') ∧
      regs.lrMask.stripPtrAuth a ≠ a := by
  obtain ⟨cfa, lr, hcfa, hlr, hne, hrest⟩ := h
  unfold Aarch64.unwindFrameGeneric
  rw [hcfa]
  dsimp only
  rw [hlr]
  cases first with
  | true => exact ⟨lr, _, rfl, hne⟩
  | false =>
    obtain ⟨hsp, hfp⟩ := hrest rfl
    obtain ⟨fp, hfp⟩ := Option.isSome_iff_exists.mp hfp
    rw [hfp]
    simp only [Bool.false_eq_true, if_false, if_neg (not_le.mpr hsp)]
    exact ⟨lr, _, rfl, hne⟩

theorem unwindFrame_of_no_rule {row : UnwindTableRow} {first signal : Bool} (h : Aarch64.rowRule row signal = none) :
    Aarch64.unwindFrame row regs first signal read = Aarch64.unwindFrameGeneric row regs first read := by
  unfold Aarch64.unwindFrame
  rw [h]

end Engines

section Walks

variable {K : Crates} {linux : Bool} {snap : Snapshot} {read : ReadStack} {env : Env}
  {inner : SlotInner (arm64 linux)} {mask : Nat}

variable (K) in
/-- The address has no cached rule and a row without one, and the row gives a signed address. -/
def SignedRow (snap : Snapshot) (read : ReadStack) (inner : SlotInner (arm64 linux)) : Prop :=
  inner.cached snap = none ∧ ∃ row signal, inner.plan K snap = .row row signal ∧
    SignedLr row inner.regs (!inner.curAddr.isReturnAddress) read

/-- A row in the plan has no rule. -/
theorem plan_rowRule {row : UnwindTableRow} {signal : Bool} (h : inner.plan K snap = .row row signal) :
    Aarch64.rowRule row signal = none := by
  obtain ⟨-, -, -, -, hnone⟩ := planAll_row h
  exact hnone

/-- A signed row's address is what the unwind gives. -/
theorem unwinds_signed (h : SignedRow K snap read inner) :
    ∃ a regs, Unwinds K snap read inner (.ok (some (a, false)), regs) ∧
      Aarch64.PtrAuthMask.stripPtrAuth (Aarch64.UnwindRegs.lrMask inner.regs) a ≠ a := by
  obtain ⟨hl, row, signal, hp, hsigned⟩ := h
  obtain ⟨a, regs, hu, hne⟩ := generic_of_signed hsigned
  have he : Aarch64.unwindFrame row inner.regs (!inner.curAddr.isReturnAddress) signal read =
      .ok (.uncacheable a, regs) :=
    (unwindFrame_of_no_rule (plan_rowRule hp)).trans hu
  exact ⟨a, regs, .row hl hp he, hne⟩

/-- An unwind keeps the mask, and gives a stripped address iff it is not by a signed row. -/
theorem unwinds_masked (h : Masked mask inner.regs) {u : Unwound (arm64 linux).arch}
    (hu : Unwinds K snap read inner u) :
    Masked mask u.2 ∧
      ∀ a interrupted, u.1 = .ok (some (a, interrupted)) → (a &&& mask = a ↔ ¬ SignedRow K snap read inner) := by
  -- what a signed row gives is not stripped
  have hunsigned : ∀ a interrupted, u.1 = .ok (some (a, interrupted)) → a &&& mask = a →
      ¬ SignedRow K snap read inner := by
    intro a interrupted hua heq hsigned
    obtain ⟨a', regs', hu', hne⟩ := unwinds_signed hsigned
    cases hu.unique hu'
    cases hua
    rw [Aarch64.PtrAuthMask.stripPtrAuth, h.bits] at hne
    exact hne heq
  -- what a rule gives is
  have hexec : ∀ rule, Masked mask ((inner.call snap read).execute rule inner.regs).2 ∧
      ∀ a interrupted, ((inner.call snap read).execute rule inner.regs).1 = .ok (some (a, interrupted)) →
        a &&& mask = a := by
    intro rule
    obtain ⟨hregs, hstripped⟩ := exec_masked h rule (!inner.curAddr.isReturnAddress) read
    refine ⟨hregs, ?_⟩
    intro a interrupted heq
    exact hstripped a ((notInterrupted_fst _ a interrupted).mp heq).1
  cases hu with
  | @rule rule _ =>
    refine ⟨(hexec rule).1, ?_⟩
    intro a interrupted heq
    have hstripped := (hexec rule).2 a interrupted heq
    exact iff_of_true hstripped (hunsigned a interrupted heq hstripped)
  | @row row signal a interrupted regs hl hp he =>
    have hgeneric := (unwindFrame_of_no_rule (plan_rowRule hp)).symm.trans he
    obtain ⟨hregs, a', ha, hiff⟩ := generic_masked h hgeneric
    refine ⟨hregs, ?_⟩
    intro b j heq
    cases heq
    refine ⟨hunsigned a interrupted rfl, ?_⟩
    intro hnot
    have hb : a' = a := by
      cases interrupted with
      | true => cases ha
      | false => exact (UnwindResult.uncacheable.inj ha).symm
    subst hb
    exact hiff.mpr fun hs => hnot ⟨hl, row, signal, hp, hs⟩
  | rowFails =>
    refine ⟨(hexec _).1, ?_⟩
    intro a interrupted heq
    have hstripped := (hexec _).2 a interrupted heq
    exact iff_of_true hstripped (hunsigned a interrupted heq hstripped)
  | @plain work => exact Empty.elim work
  | @plainFails work => exact Empty.elim work

theorem signalFrame_restore {r : Aarch64.UnwindRegs → ReadStack → Option (Nat × Aarch64.UnwindRegs)}
    (h : signalFrame env inner = some r) : r = restore := by
  obtain ⟨hr, -⟩ := Option.filter_eq_some_iff.mp h
  cases linux with
  | true => exact (Option.some.inj hr).symm
  | false => cases hr

variable {r : Out × SlotInner (arm64 linux)}

/-- A step keeps the mask, and the link register stripped. -/
theorem step_masked (hr : step K snap env inner = some r) (h : Masked mask inner.regs) : Masked mask r.2.regs := by
  rcases step_cases hr with ⟨restore', hs, rfl⟩ | ⟨-, u, cache, hu, rfl⟩
  · obtain rfl := signalFrame_restore hs
    rcases restoreTo_cases inner (restore inner.regs (readStack inner env.mem)) with
      ⟨pc, regs, hv, -, heq⟩ | ⟨regs, hv, heq⟩ | ⟨-, heq⟩
    · rw [heq]
      exact restore_masked h hv
    · rw [heq]
      exact restore_masked h hv
    · rw [heq]
      exact h
  · have hregs := (unwinds_masked h hu).1
    rcases advanceTo_cases inner u cache with ⟨a, interrupted, ha, -, heq⟩ | ⟨-, heq⟩
    · rw [heq]
      exact hregs
    · rw [heq]
      exact hregs

/-- The ip the next step outputs; a walk that is done outputs none. -/
def SlotInner.reported {N : Native} (inner : SlotInner N) : Nat := if inner.done then 0 else inner.curIp

/-- A step by the tables leads to a stripped address iff it is not a signed row's. -/
theorem step_stripped (hr : step K snap env inner = some r) (h : Masked mask inner.regs) (hd : inner.done = false)
    (hs : signalFrame env inner = none) :
    r.2.reported &&& mask = r.2.reported ↔ ¬ SignedRow K snap (readStack inner env.mem) inner := by
  rcases step_cases hr with ⟨restore', hs', -⟩ | ⟨-, u, cache, hu, rfl⟩
  · cases hs.symm.trans hs'
  rcases advanceTo_cases inner u cache with ⟨a, interrupted, ha, hua, heq⟩ | ⟨hzero, heq⟩
  · rw [heq]
    simp only [SlotInner.reported, hd, Bool.false_eq_true, if_false]
    exact (unwinds_masked h hu).2 a interrupted hua
  · rw [heq]
    refine iff_of_true (Nat.zero_and _) ?_
    intro hsigned
    obtain ⟨a, regs', hu', hne⟩ := unwinds_signed hsigned
    cases hu.unique hu'
    obtain rfl := hzero a false rfl
    exact hne (Nat.zero_and _)

end Walks

section Runs

variable {K : Crates} {linux : Bool}

/-- The state before the walk's `n`-th step. -/
def walkAt (w : State.Log (walk K (arm64 linux))) (n : Nat) : SlotInner (arm64 linux) :=
  slotAt K w.snap (initFill w.args w.snap w.start) w.envs n

/-- The `n`-th step of the walk crossed the kernel's signal frame. -/
def CrossesSignal (w : State.Log (walk K (arm64 linux))) (n : Nat) : Prop :=
  ∃ env, w.envs[n]? = some env ∧ (signalFrame env (walkAt w n)).isSome = true

/-- The `n`-th step of the walk, not yet done, unwound by a row that gave a signed address. -/
def SignedStep (w : State.Log (walk K (arm64 linux))) (n : Nat) : Prop :=
  ∃ env, w.envs[n]? = some env ∧ (walkAt w n).done = false ∧ signalFrame env (walkAt w n) = none ∧
    SignedRow K w.snap (readStack (walkAt w n) env.mem) (walkAt w n)

/-- The mask a walk has from its snapshot. -/
def walkMask (w : State.Log (walk K (arm64 linux))) : Nat := ptrAuthMask w.snap.maxCodeAddr

theorem walkAt_masked (w : State.Log (walk K (arm64 linux))) (n : Nat) :
    Masked (walkMask w) (SlotInner.regs (walkAt w n)) := by
  refine alone_invariant (W := walk K (arm64 linux)) (p := fun inner : SlotInner (arm64 linux) =>
    Masked (walkMask w) inner.regs) ?_ ?_
  · intro env _ inner r _ hr h
    exact step_masked hr h
  · exact ⟨rfl, and_mask_idem _ _⟩

section Outs

variable {w : State.Log (walk K (arm64 linux))} {hist : List (State.Publication (walk K (arm64 linux)))}
  (hlogged : State.Logged hist w)

include hlogged

theorem outs_length : w.outs.length = w.envs.length :=
  (congrArg List.length hlogged.1).trans (alone_length (walk K (arm64 linux)) _ _ _)

/-- What the `n`-th step reports. -/
theorem out_ip {n : Nat} {out : Out} (ho : w.outs[n]? = some out) : out.ip = (walkAt w n).reported := by
  have hlen : n < w.envs.length := outs_length hlogged ▸ (List.getElem?_eq_some_iff.mp ho).1
  have he := List.getElem?_eq_getElem hlen
  obtain ⟨houts, hreturns, -⟩ := hlogged
  rw [houts] at ho
  unfold SlotInner.reported
  cases hd : (walkAt w n).done with
  | true =>
    obtain ⟨-, hout⟩ := slotAt_done (K := K) he hd
    cases ho.symm.trans hout
    rfl
  | false =>
    obtain ⟨out', hstep, hout⟩ := slotAt_step (K := K) hreturns he hd
    obtain rfl := Option.some.inj (ho.symm.trans hout)
    rcases step_frame hstep with ⟨regs, cache, ip, address, heq⟩ | ⟨regs, cache, heq⟩
    · exact congrArg (fun r => r.1.ip) heq
    · exact congrArg (fun r => r.1.ip) heq

end Outs

/-- For every walk of every run on arm64: each ip after the first frame, but one restored from the
    kernel's signal frame, is within the walk's mask, iff no step that another one followed was by
    a row that gave a signed address. -/
theorem reported_ips_stripped_iff {s : State.St (walk K (arm64 linux))}
    (h : Reach State.init State.OwnedRun s) {i : Nat}
    {w : State.Log (walk K (arm64 linux))} (hw : (s.slots i).log = some w) :
    (∀ n out, w.outs[n + 1]? = some out → ¬ CrossesSignal w n → out.ip &&& walkMask w = out.ip) ↔
      ∀ n, n + 1 < w.outs.length → ¬ SignedStep w n := by
  have hlogged := State.walk_alone h hw
  have hlen := outs_length hlogged
  constructor
  · intro hall n hn h₀
    obtain ⟨env, he, hd, hs, hsigned⟩ := h₀
    obtain ⟨out, hstep, -⟩ := slotAt_step (K := K) hlogged.2.1 he hd
    have ho := List.getElem?_eq_getElem hn
    have hcross : ¬ CrossesSignal w n := by
      intro h₀
      obtain ⟨env', he', hcross⟩ := h₀
      obtain rfl := Option.some.inj (he.symm.trans he')
      rw [hs] at hcross
      cases hcross
    have hip := hall n _ ho hcross
    rw [out_ip hlogged ho] at hip
    exact (step_stripped hstep (walkAt_masked w n) hd hs).mp hip hsigned
  · intro hnone n out ho hcross
    have hn := (List.getElem?_eq_some_iff.mp ho).1
    have hen : n < w.envs.length := by omega
    have he := List.getElem?_eq_getElem hen
    rw [out_ip hlogged ho]
    cases hd : (walkAt w n).done with
    | true =>
      obtain ⟨hstay, -⟩ := slotAt_done (K := K) he hd
      have hdone : (walkAt w (n + 1)).done = true := (congrArg SlotInner.done hstay).trans hd
      simp only [SlotInner.reported, hdone, if_true]
      exact Nat.zero_and _
    | false =>
      have hs : signalFrame w.envs[n] (walkAt w n) = none := by
        rw [← Option.not_isSome_iff_eq_none]
        exact fun hsome => hcross ⟨_, he, hsome⟩
      obtain ⟨out', hstep, -⟩ := slotAt_step (K := K) hlogged.2.1 he hd
      exact (step_stripped hstep (walkAt_masked w n) hd hs).mpr fun hsigned => hnone n hn ⟨_, he, hd, hs, hsigned⟩

end Runs

/-! ## A saved link register without its frame pointer -/

/-- CFA at x29 + 16 with x30 saved below it; of x29 itself the row says nothing, so it has no rule. -/
def frameRow : UnwindTableRow where
  cfa := .registerAndOffset 29 16
  register r := if r = 30 then some (.offset (-8)) else none

/-- gimli over a section with that row for every address. -/
def frameGimli : Gimli :=
  { trampolineGimli with
    fdeFromOffset := fun _ _ _ _ => some false
    unwindInfoForAddress := fun _ _ _ _ _ => some frameRow
    hdrTableLookup := fun _ _ _ => some 0 }

abbrev frameCrates : Crates := sampleCrates frameGimli

/-- A module at [0x1000, 0x2000). -/
def frameModule : Module UnwindData :=
  ⟨⟨0x1000, 0x2000⟩, 0x1000, 0, .dwarf (.ehFrameHdrAndEhFrame [] [] ⟨none, none, none, none⟩)⟩

/-- The module published alone: the walk's mask is 0x3fff. -/
def frameSnapshot : Snapshot :=
  ⟨⟨[[frameModule]], 2, insertModule_wf wf_nil frameModule⟩, maxKnownCodeAddress [[frameModule]], rfl⟩

/-- x30 saved at 0x7018. -/
def savedLrEnv (lr : Nat) : Env := ⟨fun a => if a = 0x7018 then lr else 0, none⟩

/-- The context at 0x1000, in the module. -/
def frameInner : SlotInner (arm64 false) := initFill sampleArgs frameSnapshot (placeholderInner (arm64 false))

theorem frame_mask : ptrAuthMask frameSnapshot.maxCodeAddr = 0x3fff := by decide

theorem frame_signed :
    (slotAt frameCrates frameSnapshot frameInner
      [savedLrEnv 0x0080000000001234, savedLrEnv 0x0080000000001234] 1).reported =
      0x0080000000001234 := by
  decide +kernel

theorem frame_cfa :
    evalCfaRule (Aarch64.UnwindRegs.dwarfGet frameInner.regs) (readStack frameInner (savedLrEnv 0x1234).mem)
    frameRow.cfa = some 0x7020 := by
  decide +kernel

theorem frame_lr : evalRegisterRule (Aarch64.UnwindRegs.dwarfGet frameInner.regs)
    (readStack frameInner (savedLrEnv 0x1234).mem) 0x7020 (Aarch64.UnwindRegs.lr frameInner.regs)
      (frameRow.register 30) = some 0x1234 := by
  decide +kernel

theorem frame_unsigned :
    ¬ SignedRow frameCrates frameSnapshot (readStack frameInner (savedLrEnv 0x1234).mem) frameInner := by
  intro h₀
  obtain ⟨-, row, signal, hp, cfa, lr, hcfa, hlr, hne, -⟩ := h₀
  have hp' : frameInner.plan frameCrates frameSnapshot = .row frameRow false := rfl
  cases hp'.symm.trans hp
  obtain rfl := Option.some.inj (frame_cfa.symm.trans hcfa)
  obtain rfl := Option.some.inj (frame_lr.symm.trans hlr)
  refine hne (?_ : 0x1234 &&& ptrAuthMask frameSnapshot.maxCodeAddr = 0x1234)
  rw [frame_mask]
  rfl

/-- An unsigned x30, with a publication by another actor between the steps: the second frame's ip is
    it, within the mask. -/
theorem reported_ips_stripped_iff_unsigned :
    ∃ (s : State.St (walk frameCrates (arm64 false))) (w : State.Log (walk frameCrates (arm64 false))),
      Reach State.init State.OwnedRun s ∧ (s.slots 0).log = some w ∧ w.outs.length = 2 ∧ walkMask w = 0x3fff ∧
      ∀ n out, w.outs[n + 1]? = some out → ¬ CrossesSignal w n → out.ip &&& walkMask w = out.ip := by
  obtain ⟨s, held, outs, h, -, hw, -⟩ :=
    second_step_run frameCrates (arm64 false) frameSnapshot emptySnapshot sampleArgs
    (savedLrEnv 0x1234) (savedLrEnv 0x1234) (by decide +kernel)
  have hlogged := State.walk_alone h hw
  refine ⟨s, _, h, hw, outs_length hlogged, frame_mask, (reported_ips_stripped_iff h hw).mpr ?_⟩
  intro n hn
  obtain rfl : n = 0 := by
    have : n + 1 < 2 := lt_of_lt_of_eq hn (outs_length hlogged)
    omega
  intro h₀
  obtain ⟨env, he, -, -, hsigned⟩ := h₀
  obtain rfl : savedLrEnv 0x1234 = env := Option.some.inj he
  exact frame_unsigned hsigned

/-- A signed x30 in the same frame: the second frame's ip is it, with the hash. -/
theorem signed_ip_reported :
    ∃ (s : State.St (walk frameCrates (arm64 false))) (w : State.Log (walk frameCrates (arm64 false))) (out : Out),
      Reach State.init State.OwnedRun s ∧ (s.slots 0).log = some w ∧ w.outs[1]? = some out ∧ ¬ CrossesSignal w 0 ∧
      out.ip = 0x0080000000001234 ∧ walkMask w = 0x3fff ∧ out.ip &&& walkMask w ≠ out.ip := by
  obtain ⟨s, held, outs, h, -, hw, -⟩ :=
    second_step_run frameCrates (arm64 false) frameSnapshot emptySnapshot sampleArgs
    (savedLrEnv 0x0080000000001234) (savedLrEnv 0x0080000000001234) (by decide +kernel)
  have hlogged := State.walk_alone h hw
  have hone : 1 < outs.length := by
    rw [show outs.length = 2 from outs_length hlogged]
    exact Nat.one_lt_two
  have ho := List.getElem?_eq_getElem hone
  have hip : outs[1].ip = 0x0080000000001234 := (out_ip hlogged ho).trans frame_signed
  refine ⟨s, _, outs[1], h, hw, ho, ?_, hip, frame_mask, ?_⟩
  · intro h₀
    obtain ⟨env, -, hcross⟩ := h₀
    cases hcross
  · rw [hip]
    change 0x0080000000001234 &&& ptrAuthMask frameSnapshot.maxCodeAddr ≠ _
    rw [frame_mask]
    decide

end FramehopUnwind.Cursor
