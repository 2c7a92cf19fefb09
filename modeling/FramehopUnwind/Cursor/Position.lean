/-
  FramehopUnwind.Cursor.Position — where a walk leaves its cursor (cursor.rs `get_reg`).

  A cursor's position is its `ip` and its registers' `sp`. A step outputs the position it finds
  and moves to the caller's; a step that ends the walk should leave the position it output.
  A rule writes the stack pointer only past its checks of the return address, so it does. What
  writes it before `step` looks at the address does not: a signal frame whose saved pc is 0, a row
  that evaluates to the return address 0, and the PE unwinder where it pops the return address 0,
  or fails on the way and the fallback rule has no caller either (`EndsPast`).

  Proved:
  - `step_position`: a step outputs its position, and leaves it at the end iff not `EndsPast`.
  - `cursor_position_iff`: over whole runs, a live cursor stands at the frame its next step
    outputs, or at the one its last step has output, iff no step of its walk was `EndsPast`.
-/

import FramehopUnwind.Cursor.Walk

namespace FramehopUnwind.Cursor

open Lib.Word Lib.Runs Unwinder
open State (Out Walk)

variable (K : Crates) {N : Native}

/-! ## One step -/

/-- The walk ends with the stack pointer already moved: to the saved one of the kernel's signal
    frame, to the CFA of a row, or to where the PE unwinder came. -/
inductive EndsPast (snap : Snapshot) (env : Env) (inner : SlotInner N) : Prop
  | savedPc {restore regs} (hs : signalFrame env inner = some restore)
      (hr : restore inner.regs (readStack inner env.mem) = some (0, regs)) (hsp : N.sp regs ≠ N.sp inner.regs)
  | row {row signal result regs} (hs : signalFrame env inner = none) (hl : inner.cached snap = none)
      (hp : inner.plan K snap = .row row signal)
      (he : N.arch.unwindFrame row inner.regs (!inner.curAddr.isReturnAddress) signal (readStack inner env.mem) =
        .ok (result, regs))
      (h0 : result = .uncacheable 0 ∨ result = .interrupted 0) (hsp : N.sp regs ≠ N.sp inner.regs)
  | popped {work regs} (hs : signalFrame env inner = none) (hl : inner.cached snap = none)
      (hp : inner.plan K snap = .plain work)
      (he : (N.formats K).pePlain work inner.regs (readStack inner env.mem) = (some (.ok 0), regs))
      (hsp : N.sp regs ≠ N.sp inner.regs)
  | unpopped {work error regs} (hs : signalFrame env inner = none) (hl : inner.cached snap = none)
      (hp : inner.plan K snap = .plain work)
      (he : (N.formats K).pePlain work inner.regs (readStack inner env.mem) = (some (.error error), regs))
      (hend : ∀ a, (N.arch.exec N.arch.fallbackRule (!inner.curAddr.isReturnAddress) regs (readStack inner env.mem)).1 ≠
        .ok (some a))
      (hsp : N.sp regs ≠ N.sp inner.regs)

variable {K} {snap : Snapshot} {env : Env} {inner : SlotInner N}

/-- On every target a rule yields no null return address, and one that yields no caller keeps
    the stack pointer. -/
theorem Platform.exec (p : Platform) (rule : p.native.arch.Rule) (first : Bool) (regs : p.native.arch.Regs)
    (read : ReadStack) :
    (∀ a, (p.native.arch.exec rule first regs read).1 = .ok (some a) → a ≠ 0) ∧
      ((∀ a, (p.native.arch.exec rule first regs read).1 ≠ .ok (some a)) →
        p.native.sp (p.native.arch.exec rule first regs read).2 = p.native.sp regs) := by
  cases p with
  | x86 =>
    have h := X86.exec_outcome rule first regs read
    exact ⟨fun a ha => (h.moves a ha).1, h.stays⟩
  | aarch64 =>
    have h := Aarch64.exec_outcome rule first regs read
    exact ⟨fun a ha => (h.moves a ha).1, fun ha => congrArg Aarch64.UnwindRegs.sp (h.stays ha)⟩
  | aarch64Linux =>
    have h := Aarch64.exec_outcome rule first regs read
    exact ⟨fun a ha => (h.moves a ha).1, fun ha => congrArg Aarch64.UnwindRegs.sp (h.stays ha)⟩

theorem notInterrupted_fst {A : Arch} (r : Except Error (Option Nat) × A.Regs) (a : Nat) (interrupted : Bool) :
    (notInterrupted A r).1 = .ok (some (a, interrupted)) ↔ r.1 = .ok (some a) ∧ interrupted = false := by
  obtain ⟨e | _ | a', regs⟩ := r <;> simp [notInterrupted, Except.map, eq_comm]

/-- The unwind ends the walk and has moved the stack pointer. -/
def Past (inner : SlotInner N) (u : Unwound N.arch) : Prop :=
  (∀ a interrupted, u.1 = .ok (some (a, interrupted)) → a = 0) ∧ N.sp u.2 ≠ N.sp inner.regs

/-- A rule that ends the walk does so where it began. -/
theorem execute_past {p : Platform} {e : Call UnwindData p.native.arch} {rule : p.native.arch.Rule}
    {regs : p.native.arch.Regs} (h : ∀ a interrupted, (e.execute rule regs).1 = .ok (some (a, interrupted)) → a = 0) :
    (∀ a, (p.native.arch.exec rule (!e.address.isReturnAddress) regs e.read).1 ≠ .ok (some a)) ∧
      p.native.sp (e.execute rule regs).2 = p.native.sp regs := by
  obtain ⟨hnull, hstays⟩ := p.exec rule (!e.address.isReturnAddress) regs e.read
  have hnone : ∀ a, (p.native.arch.exec rule (!e.address.isReturnAddress) regs e.read).1 ≠ .ok (some a) := by
    intro a ha
    exact hnull a ha (h a false ((notInterrupted_fst _ a false).mpr ⟨ha, rfl⟩))
  exact ⟨hnone, hstays hnone⟩

/-- A step by the tables ends past its position iff its unwind does. -/
theorem endsPast_iff (p : Platform) {inner : SlotInner p.native} (hs : signalFrame env inner = none) :
    EndsPast K snap env inner ↔ ∃ u, Unwinds K snap (readStack inner env.mem) inner u ∧ Past inner u := by
  have null : ∀ i a interrupted, (.ok (some (0, i)) : Except Error (Option (Nat × Bool))) =
      .ok (some (a, interrupted)) → a = 0 := by
    intro i a interrupted h
    cases h
    rfl
  constructor
  · intro h
    cases h with
    | savedPc hs' => cases hs.symm.trans hs'
    | @row row signal result regs _ hl hp he h0 hsp =>
      rcases h0 with rfl | rfl
      · exact ⟨(.ok (some (0, false)), regs), .row hl hp he, null false, hsp⟩
      · exact ⟨(.ok (some (0, true)), regs), .row hl hp he, null true, hsp⟩
    | popped _ hl hp he hsp => exact ⟨_, .plain hl hp he, null false, hsp⟩
    | @unpopped work error regs _ hl hp he hend hsp =>
      refine ⟨_, .plainFails hl hp he, ?_, ?_⟩
      · intro a i h
        exact absurd ((notInterrupted_fst _ a i).mp h).1 (hend a)
      · intro heq
        exact hsp (((p.exec _ _ regs _).2 hend).symm.trans heq)
  · intro h
    obtain ⟨u, hu, hzero, hsp⟩ := h
    cases hu with
    | rule => exact absurd (execute_past hzero).2 hsp
    | @row row signal a interrupted regs hl hp he =>
      obtain rfl := hzero a interrupted rfl
      refine .row hs hl hp he ?_ hsp
      cases interrupted
      · exact .inl rfl
      · exact .inr rfl
    | rowFails => exact absurd (execute_past hzero).2 hsp
    | plain hl hp he =>
      obtain rfl := hzero _ _ rfl
      exact .popped hs hl hp he hsp
    | plainFails hl hp he =>
      obtain ⟨hend, hstays⟩ := execute_past hzero
      exact .unpopped hs hl hp he hend fun heq => hsp (hstays.trans heq)

/-- What a step leaves: it has output its position, it ends the walk in the same position iff
    it is not `EndsPast`, and it is not if it goes on. -/
structure Stepped (ends : Prop) (inner : SlotInner N) (r : Out × SlotInner N) : Prop where
  out : (r.1.ip, r.1.sp) = (inner.curIp, N.sp inner.regs)
  done : r.2.done = true → (((r.2.curIp, N.sp r.2.regs) = (inner.curIp, N.sp inner.regs)) ↔ ¬ ends)
  goesOn : r.2.done = false → ¬ ends

theorem advanceTo_stepped (hd : inner.done = false) (u : Unwound N.arch) (cache : RuleCache N.arch.Rule) :
    Stepped (Past inner u) inner (advanceTo inner u cache) := by
  rcases advanceTo_cases inner u cache with ⟨a, interrupted, ha, hu, h⟩ | ⟨hzero, h⟩
  · rw [h]
    refine ⟨rfl, fun h => ?_, fun _ hpast => ?_⟩
    · cases hd.symm.trans h
    · exact ha.ne' (hpast.1 a interrupted hu)
  · rw [h]
    refine ⟨rfl, fun _ => ?_, nofun⟩
    simp only [Prod.mk.injEq, true_and, Past, not_and, not_not]
    exact ⟨fun heq _ => heq, fun himp => himp hzero⟩

theorem restoreTo_stepped (hd : inner.done = false) (v : Option (Nat × N.arch.Regs)) :
    Stepped (∃ regs, v = some (0, regs) ∧ N.sp regs ≠ N.sp inner.regs) inner (restoreTo inner v) := by
  rcases restoreTo_cases inner v with ⟨pc, regs, rfl, hpc, h⟩ | ⟨regs, rfl, h⟩ | ⟨rfl, h⟩
  · rw [h]
    refine ⟨rfl, fun h => ?_, fun _ hends => ?_⟩
    · cases hd.symm.trans h
    · obtain ⟨regs', heq, -⟩ := hends
      cases heq
      exact lt_irrefl 0 hpc
  · rw [h]
    refine ⟨rfl, fun _ => ?_, nofun⟩
    simp
  · rw [h]
    exact ⟨rfl, fun _ => iff_of_true rfl (by simp), nofun⟩

theorem Stepped.congr {ends ends' : Prop} {r : Out × SlotInner N} (h : Stepped ends inner r) (hiff : ends' ↔ ends) :
    Stepped ends' inner r :=
  ⟨h.out, fun hd => (h.done hd).trans (not_congr hiff).symm, fun hd => mt hiff.mp (h.goesOn hd)⟩

theorem step_position (p : Platform) {inner : SlotInner p.native} (hd : inner.done = false)
    {r : Out × SlotInner p.native}
    (h : step K snap env inner = some r) : Stepped (EndsPast K snap env inner) inner r := by
  rcases step_cases h with ⟨restore, hs, rfl⟩ | ⟨hs, u, cache, hu, rfl⟩
  · refine (restoreTo_stepped hd _).congr ?_
    constructor
    · intro hends
      cases hends with
      | savedPc hs' hr hsp =>
        cases hs.symm.trans hs'
        exact ⟨_, hr, hsp⟩
      | row hs' => cases hs.symm.trans hs'
      | popped hs' => cases hs.symm.trans hs'
      | unpopped hs' => cases hs.symm.trans hs'
    · intro hends
      obtain ⟨regs, hr, hsp⟩ := hends
      exact .savedPc hs hr hsp
  · refine (advanceTo_stepped hd u cache).congr ?_
    rw [endsPast_iff p hs]
    constructor
    · intro hpast
      obtain ⟨u', hu', hpast⟩ := hpast
      rwa [hu.unique hu']
    · intro hpast
      exact ⟨u, hu, hpast⟩

/-! ## Whole walks -/

section Walks

variable {envs : List Env}

theorem slotAt_length : slotAt K snap inner envs envs.length = ((walk K N).alone snap inner envs).2 :=
  congrArg (fun envs => ((walk K N).alone snap inner envs).2) List.take_length

/-- A done walk stays where it is. -/
theorem slotAt_done_of_le {n m : Nat} (h : (slotAt K snap inner envs n).done = true) (hm : n ≤ m)
    (hlen : m ≤ envs.length) :
    slotAt K snap inner envs m = slotAt K snap inner envs n := by
  induction m, hm using Nat.le_induction with
  | base => rfl
  | succ m hm ih =>
    have heq := ih (Nat.le_of_succ_le hlen)
    have he : envs[m]? = some envs[m] := List.getElem?_eq_getElem hlen
    rw [(slotAt_done he (heq ▸ h)).1, heq]

theorem not_done_before {n m : Nat} (h : (slotAt K snap inner envs m).done = false) (hn : n ≤ m)
    (hlen : m ≤ envs.length) :
    (slotAt K snap inner envs n).done = false := by
  by_contra hd
  rw [Bool.not_eq_false] at hd
  rw [slotAt_done_of_le hd hn hlen, hd] at h
  cases h

/-- A walk that is done has a step that ended it. -/
theorem ending_step (h0 : inner.done = false) (h : (slotAt K snap inner envs envs.length).done = true) :
    ∃ n < envs.length, (slotAt K snap inner envs n).done = false ∧ (slotAt K snap inner envs (n + 1)).done = true := by
  by_contra hnone
  have hall : ∀ n ≤ envs.length, (slotAt K snap inner envs n).done = false := by
    intro n
    induction n with
    | zero => exact fun _ => h0
    | succ n ih =>
      intro hn
      by_contra hd
      exact hnone ⟨n, hn, ih (Nat.le_of_succ_le hn), Bool.not_eq_false _ ▸ hd⟩
  rw [hall _ le_rfl] at h
  cases h

/-- One step ended the walk. -/
theorem ending_step_unique {n m : Nat} (hn : (slotAt K snap inner envs n).done = false)
    (hn' : (slotAt K snap inner envs (n + 1)).done = true) (hm : (slotAt K snap inner envs m).done = false)
    (hm' : (slotAt K snap inner envs (m + 1)).done = true) (hnlen : n ≤ envs.length)
    (hmlen : m ≤ envs.length) : n = m := by
  rcases lt_trichotomy n m with hlt | heq | hlt
  · cases hn'.symm.trans (not_done_before hm hlt hmlen)
  · exact heq
  · cases hm'.symm.trans (not_done_before hn hlt hnlen)

variable (K)

/-- The position of a cursor that has made the steps `envs`: where its next step outputs, or
    where the step that ended the walk has. -/
def InPosition (snap : Snapshot) (inner : SlotInner N) (envs : List Env) : Prop :=
  let W := walk K N
  let now := (W.alone snap inner envs).2
  if W.done now then
    ∃ n out, (W.alone snap inner envs).1[n]? = some out ∧ (slotAt K snap inner envs n).done = false ∧
      (slotAt K snap inner envs (n + 1)).done = true ∧ W.reg now = (out.ip, out.sp)
  else ∀ env r, W.step snap env now = some r → W.reg now = (r.1.ip, r.1.sp)

/-- No step of the walk ended it past its position. -/
def NoneEndsPast (snap : Snapshot) (inner : SlotInner N) (envs : List Env) : Prop :=
  ∀ n env, envs[n]? = some env → (slotAt K snap inner envs n).done = false →
    ¬ EndsPast K snap env (slotAt K snap inner envs n)

variable {K}

/-- A step of the walk, from where the steps before it led. -/
theorem slotAt_stepped (p : Platform) {inner : SlotInner p.native}
    (hr : (walk K p.native).Returns snap inner envs) {n : Nat}
    (he : envs[n]? = some env) (hd : (slotAt K snap inner envs n).done = false) :
    ∃ out, ((walk K p.native).alone snap inner envs).1[n]? = some out ∧
      Stepped (EndsPast K snap env (slotAt K snap inner envs n)) (slotAt K snap inner envs n)
        (out, slotAt K snap inner envs (n + 1)) := by
  obtain ⟨out, hstep, hout⟩ := slotAt_step hr he hd
  exact ⟨out, hout, step_position p hd hstep⟩

theorem position_iff (p : Platform) {inner : SlotInner p.native} (h0 : inner.done = false)
    (hr : (walk K p.native).Returns snap inner envs) :
    InPosition K snap inner envs ↔ NoneEndsPast K snap inner envs := by
  -- a step that goes on is not one of them
  have hgoes : ∀ n env, envs[n]? = some env → (slotAt K snap inner envs (n + 1)).done = false →
      ¬ EndsPast K snap env (slotAt K snap inner envs n) := by
    intro n env he hd
    have hn : n + 1 ≤ envs.length := (List.getElem?_eq_some_iff.mp he).1
    obtain ⟨out, -, hs⟩ := slotAt_stepped p hr he (not_done_before hd (Nat.le_succ n) hn)
    exact hs.goesOn hd
  unfold InPosition NoneEndsPast
  dsimp only
  rw [← slotAt_length]
  split
  · rename_i hdone
    have hnow : ∀ n, (slotAt K snap inner envs (n + 1)).done = true → n < envs.length →
        slotAt K snap inner envs envs.length = slotAt K snap inner envs (n + 1) := by
      intro n hd hn
      exact slotAt_done_of_le hd hn le_rfl
    constructor
    · intro h m env he hm
      obtain ⟨n, out, hout, hd, hd', hreg⟩ := h
      by_cases hend : (slotAt K snap inner envs (m + 1)).done = true
      · -- the step that ended the walk is the one the position is compared with
        have hmlen : m < envs.length := (List.getElem?_eq_some_iff.mp he).1
        have hnlen : n < envs.length :=
          (List.getElem?_eq_some_iff.mp hout).1.trans_eq (alone_length (walk K p.native) snap inner envs)
        obtain rfl := ending_step_unique hm hend hd hd' hmlen.le hnlen.le
        obtain ⟨out', hout', hs⟩ := slotAt_stepped p hr he hd
        obtain rfl := Option.some.inj (hout.symm.trans hout')
        refine (hs.done hd').mp ?_
        rw [hnow m hd' hmlen] at hreg
        exact hreg.trans hs.out
      · exact hgoes m env he (Bool.not_eq_true _ ▸ hend)
    · intro hnone
      obtain ⟨n, hn, hd, hd'⟩ := ending_step h0 hdone
      have he : envs[n]? = some envs[n] := List.getElem?_eq_getElem hn
      obtain ⟨out, hout, hs⟩ := slotAt_stepped p hr he hd
      refine ⟨n, out, hout, hd, hd', ?_⟩
      rw [hnow n hd' hn]
      exact ((hs.done hd').mpr (hnone n _ he hd)).trans hs.out.symm
  · rename_i hdone
    have hdone : (slotAt K snap inner envs envs.length).done = false := Bool.not_eq_true _ ▸ hdone
    refine iff_of_true ?_ ?_
    · intro env r h
      exact (step_position p hdone h).out.symm
    · intro n env he _
      exact hgoes n env he (not_done_before hdone (List.getElem?_eq_some_iff.mp he).1 le_rfl)

end Walks

/-- The steps of a live cursor's walk, in every state of every run with single owners: the
    cursor's `get_reg` is the frame its next step outputs, or the one output by the step that
    ended its walk, iff none of its steps was `EndsPast`. -/
theorem cursor_position_iff (p : Platform) {s : State.St (walk K p.native)}
    (h : Reach State.init State.OwnedRun s) {i : Nat} (ho : (s.slots i).own = .cursor) :
    ∃ w, (s.slots i).log = some w ∧
      (s.slots i).inner = ((walk K p.native).alone w.snap (initFill w.args w.snap w.start) w.envs).2 ∧
      w.outs = ((walk K p.native).alone w.snap (initFill w.args w.snap w.start) w.envs).1 ∧
      (∀ t c s', s.pc t = .use .getReg c → c.slot = i → State.Step t s s' →
        s'.pc t = .ret (.regs ((walk K p.native).reg (s.slots i).inner).1
          ((walk K p.native).reg (s.slots i).inner).2)) ∧
      (InPosition K w.snap (initFill w.args w.snap w.start) w.envs ↔
        NoneEndsPast K w.snap (initFill w.args w.snap w.start) w.envs) := by
  obtain ⟨w, hw, hinner, -⟩ := ((State.iso_of_run h).slots i).walking ho
  obtain ⟨houts, hreturns, -⟩ := State.walk_alone h hw
  refine ⟨w, hw, hinner, houts, ?_, position_iff p rfl hreturns⟩
  intro t c s' hq hi hs
  subst hi
  cases hs with
  | move hm =>
    rw [hq] at hm
    cases hm
    exact State.goto_pc_self _ _ _
  | touch ht =>
    rw [hq] at ht
    cases ht
  | use hq' _ =>
    rw [hq] at hq'
    cases hq'
  | share hsh =>
    rw [hq] at hsh
    cases hsh

/-! ## A walk that ends in position -/

/-- The crossed signal frame, with no frame record after it. -/
def endingEnv : Env where
  mem
    | 0x70a0 => 0x7400
    | 0x70a8 => 0x5000
    | _ => 0
  trampoline := none

/-- The slot of the crossed trampoline's walk. -/
def crossedSlot : SlotInner x86 := initFill crossedArgs trampolineSnapshot (placeholderInner x86)

theorem crossed_evaluates :
    (X86.unwindFrame trampolineRow (X86.UnwindRegs.new 0x1004 0x7000 0x7500) true true
      (readStack crossedSlot endingEnv.mem)).map
      Prod.fst = .ok (.interrupted 0x5000) := by
  decide

theorem ending_address :
    (slotAt trampolineCrates trampolineSnapshot crossedSlot [endingEnv, endingEnv] 1).curAddr =
      .instructionPointer 0x5000 := by
  decide

theorem ending_none_past : NoneEndsPast trampolineCrates trampolineSnapshot crossedSlot [endingEnv, endingEnv] := by
  intro n env henv _ hends
  rcases n with _ | _ | n
  · cases henv
    cases hends with
    | savedPc hs => cases hs
    | row _ _ hp he h0 =>
      cases hp
      cases (congrArg (Except.map Prod.fst) he).symm.trans crossed_evaluates
      rcases h0 with h0 | h0 <;> cases h0
    | popped _ _ hp => cases hp
    | unpopped _ _ hp => cases hp
  · cases henv
    have hp' : (slotAt trampolineCrates trampolineSnapshot crossedSlot [endingEnv, endingEnv] 1).plan trampolineCrates
        trampolineSnapshot = .rule x86.arch.fallbackRule := by
      unfold SlotInner.plan
      rw [ending_address]
      rfl
    cases hends with
    | savedPc hs => cases hs
    | row _ _ hp => cases hp'.symm.trans hp
    | popped _ _ hp => cases hp'.symm.trans hp
    | unpopped _ _ hp => cases hp'.symm.trans hp
  · cases henv

theorem ending_outs : ((walk trampolineCrates x86).alone trampolineSnapshot crossedSlot [endingEnv, endingEnv]).1 =
    [⟨1, 0x1004, 0x7000⟩, ⟨0, 0x5000, 0x7400⟩] := by
  decide

/-- A walk that crosses the trampoline and ends at the code it interrupted, with a publication by
    another actor in between: the cursor is left there. -/
theorem cursor_position_iff_ended :
    ∃ (s : State.St (walk trampolineCrates x86)) (w : State.Log (walk trampolineCrates x86)),
    (s.slots 0).log = some w ∧ s.hist.map State.Publication.snap = [trampolineSnapshot, emptySnapshot] ∧
    w.outs = [⟨1, 0x1004, 0x7000⟩, ⟨0, 0x5000, 0x7400⟩] ∧
      InPosition trampolineCrates w.snap (initFill w.args w.snap w.start) w.envs := by
  obtain ⟨s, held, outs, h, ho, hw, hhist⟩ := second_step_run trampolineCrates x86 trampolineSnapshot emptySnapshot
    crossedArgs endingEnv endingEnv (by decide +kernel)
  obtain ⟨w, hw', -, houts, -, hiff⟩ := cursor_position_iff .x86 h ho
  obtain rfl := Option.some.inj (hw.symm.trans hw')
  have hiff : InPosition trampolineCrates trampolineSnapshot crossedSlot [endingEnv, endingEnv] ↔
    NoneEndsPast trampolineCrates trampolineSnapshot crossedSlot [endingEnv, endingEnv] := hiff
  refine ⟨s, _, hw, hhist, houts.trans ending_outs, ?_⟩
  dsimp only
  exact hiff.mpr ending_none_past

/-! ## A null saved pc -/

/-- A context at the trampoline, 0x1004, with the signal frame at 0x7000. -/
def trampolineArgs : InitArgs := ⟨⟨![0x1004, 0x7000, 0, 0, 0]⟩, 0x7000, 0x8000, 0, 0, (0, 0)⟩

/-- A signal frame on each target: the saved sp is 0x9000 and the saved pc is 0. -/
def nullPcEnv : Env := ⟨fun a => if a = 0x70a0 ∨ a = 0x7230 then 0x9000 else 0, some 0x1004⟩

/-- The slot of a walk from that context. -/
def trampolineSlot (N : Native) : SlotInner N := initFill trampolineArgs trampolineSnapshot (placeholderInner N)

theorem x86_endsPast : EndsPast trampolineCrates trampolineSnapshot nullPcEnv (trampolineSlot x86) := by
  have hp : (trampolineSlot x86).plan trampolineCrates trampolineSnapshot = .row trampolineRow true := rfl
  exact .row rfl rfl hp rfl (.inr rfl) (by decide)

theorem aarch64Linux_endsPast :
    EndsPast trampolineCrates trampolineSnapshot nullPcEnv (trampolineSlot aarch64Linux) := by
  have hs : signalFrame nullPcEnv (trampolineSlot aarch64Linux) = some restore := rfl
  have hr : (restore (trampolineSlot aarch64Linux).regs (readStack (trampolineSlot aarch64Linux) nullPcEnv.mem)).map
      (fun r => (r.1, r.2.sp)) = some (0, 0x9000) := by
    decide +kernel
  obtain ⟨⟨pc, regs⟩, hr, heq⟩ := Option.map_eq_some_iff.mp hr
  obtain ⟨rfl, hsp⟩ := Prod.mk.inj heq
  refine .savedPc hs hr ?_
  rw [show aarch64Linux.sp regs = 0x9000 from hsp]
  decide

theorem first_step_past (p : Platform) {inner : SlotInner p.native} (h0 : inner.done = false)
    (hr : (walk K p.native).Returns snap inner [env]) (hends : EndsPast K snap env inner) :
    ¬ InPosition K snap inner [env] := by
  intro hpos
  exact (position_iff p h0 hr).mp hpos 0 env rfl h0 hends

/-- On x86 and on Linux arm64: the walk starts at a signal frame whose saved pc is 0. Its first
    step outputs the frame and ends the walk, and the cursor is left with the saved sp. -/
theorem null_pc_moves_cursor :
    (∃ (s : State.St (walk trampolineCrates x86)) (w : State.Log (walk trampolineCrates x86)),
      Reach State.init State.OwnedRun s ∧ (s.slots 0).own = .cursor ∧ (s.slots 0).log = some w ∧
      ¬ InPosition trampolineCrates w.snap (initFill w.args w.snap w.start) w.envs) ∧
    ∃ (s : State.St (walk trampolineCrates aarch64Linux)) (w : State.Log (walk trampolineCrates aarch64Linux)),
      Reach State.init State.OwnedRun s ∧ (s.slots 0).own = .cursor ∧ (s.slots 0).log = some w ∧
      ¬ InPosition trampolineCrates w.snap (initFill w.args w.snap w.start) w.envs := by
  constructor
  · obtain ⟨s, held, outs, h, ho, hw⟩ :=
      first_step_run trampolineCrates x86 trampolineSnapshot trampolineArgs nullPcEnv (by decide +kernel)
    have hnot : ¬ InPosition trampolineCrates trampolineSnapshot (trampolineSlot x86) [nullPcEnv] :=
      first_step_past .x86 rfl (State.walk_alone h hw).2.1 x86_endsPast
    exact ⟨s, _, h, ho, hw, hnot⟩
  · obtain ⟨s, held, outs, h, ho, hw⟩ :=
      first_step_run trampolineCrates aarch64Linux trampolineSnapshot trampolineArgs nullPcEnv (by decide +kernel)
    have hnot : ¬ InPosition trampolineCrates trampolineSnapshot (trampolineSlot aarch64Linux) [nullPcEnv] :=
      first_step_past .aarch64Linux rfl (State.walk_alone h hw).2.1 aarch64Linux_endsPast
    exact ⟨s, _, h, ho, hw, hnot⟩

/-- A PE image with one function, `lea rsp,[rbp+0x20]; ret`, whose frame register is RBP. -/
def epilogCrates : Crates :=
  { sampleCrates trampolineGimli with
    pe := { X86.Pe.sampleParser none with
      lookup := fun _ address => if 0xf0 ≤ address ∧ address < 0xf5 then some ⟨0xf0, 0xf5, 0xe0⟩ else none
      frameRegister := fun _ => some .rbp
      parseSequence := fun bytes register =>
        if bytes = [0x48, 0x8d, 0x65, 0x20, 0xc3] ∧ register = some .rbp then some [.addSpFromFp 0x20] else none } }

def epilogModule : Module UnwindData where
  avmaRange := ⟨0x1000, 0x1100⟩
  baseAvma := 0x1000
  baseSvma := 0x140000000
  unwindData := .peUnwindInfo
    { X86.Pe.sampleSections with text := some ⟨[0x48, 0x8d, 0x65, 0x20, 0xc3] ++ List.replicate 11 0, ⟨0xf0, 0x100⟩⟩ }

def epilogSnapshot : Snapshot :=
  ⟨⟨[[epilogModule]], 2, insertModule_wf wf_nil _⟩, maxKnownCodeAddress [[epilogModule]], rfl⟩

/-- A context at the epilog, and a frame pointer to a null return address. -/
def epilogArgs : InitArgs := ⟨⟨![0x10f0, 0x6f00, 0x7000, 0, 0]⟩, 0x7000, 0x8000, 0, 0, (0, 0)⟩

example : EndsPast epilogCrates epilogSnapshot ⟨fun _ => 0, none⟩
    (initFill epilogArgs epilogSnapshot (placeholderInner x86)) := by
  have hp : (initFill epilogArgs epilogSnapshot (placeholderInner x86)).plan epilogCrates epilogSnapshot =
    .plain (.epilog () [.addSpFromFp 0x20]) := rfl
  exact .popped rfl rfl hp rfl (by decide)

end FramehopUnwind.Cursor
