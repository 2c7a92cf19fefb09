/-
  FramehopUnwind.Cursor.Walk — the frames of a walk.

  A frame is where a walk stands: an address to look up, the registers and the rule cache. Its
  caller is what unwinding it gives, if the address is not 0 (`Frame.caller`). `frames` is the
  list this makes from the context on.

  A frame is a signal trampoline's by the kernel's address or by the mark of its FDE
  (`Frame.Trampoline`), and its caller should be looked up by its exact address, where it was
  interrupted. The mark is heeded only where the row itself is evaluated and gives a caller; a rule
  in its place, from the cache, from the code or after a failed evaluation, takes the caller for a
  return address, and so does arm64, which has no use for the mark (`Frame.Missed`).

  Proved:
  - `alone_outs`: the `n`-th step of a walk alone outputs frame `n`, and returns 1 if there is a
    next one; past the last frame it returns 0 and no frame.
  - `exact_lookup_iff`: a caller is looked up by its exact address iff its callee is a trampoline
    that is not missed.
  - `walk_isolated`: for every walk of every run with single owners, over a snapshot that was
    current during its init.
  - `missed_trampoline`: a trampoline whose CFA is not to be had.
-/

import FramehopUnwind.Cursor.Step

namespace FramehopUnwind.Cursor

open Lib.Word Lib.Runs Unwinder
open State (Out Walk)

variable (K : Crates) {N : Native}

/-! ## Frames -/

structure Frame (N : Native) where
  address : FrameAddress
  regs : N.arch.Regs
  cache : RuleCache N.arch.Rule

def Frame.ip (f : Frame N) : Nat := f.address.address

def Frame.sp (f : Frame N) : Nat := N.sp f.regs

/-- What the unwind tables give for a frame: the address, and whether the code there was
    interrupted, with the registers and the cache after it. -/
def Frame.unwindTables (snap : Snapshot) (read : ReadStack) (f : Frame N) :
    Option (Nat × Bool × N.arch.Regs × RuleCache N.arch.Rule) :=
  match withCache (N.unwindFrameImpl K) snap.unw f.address f.regs f.cache read with
  | (some (.ok (some (address, interrupted)), regs), cache) => some (address, interrupted, regs, cache)
  | _ => none

/-- What unwinding a frame gives: the kernel's trampoline by its signal frame, another by the tables. -/
def Frame.unwind (snap : Snapshot) (read : ReadStack) (trampoline : Option Nat) (f : Frame N) :
    Option (Nat × Bool × N.arch.Regs × RuleCache N.arch.Rule) :=
  match N.restore with
  | none => f.unwindTables K snap read
  | some restore =>
    if isTrampoline trampoline f.ip then (restore f.regs read).map fun r => (r.1, true, r.2, f.cache)
    else f.unwindTables K snap read

/-- The frame an unwind leads to. An address of 0 leads to none. -/
def land (r : Nat × Bool × N.arch.Regs × RuleCache N.arch.Rule) : Option (Frame N) :=
  if h : 0 < r.1 then some ⟨if r.2.1 then .instructionPointer r.1 else .returnAddress r.1 h, r.2.2.1, r.2.2.2⟩ else none

def Frame.caller (snap : Snapshot) (read : ReadStack) (trampoline : Option Nat) (f : Frame N) : Option (Frame N) :=
  (f.unwind K snap read trampoline).bind land

/-- The frame stands at the kernel's trampoline, on a target that knows it. -/
def Frame.AtKernelTrampoline (trampoline : Option Nat) (f : Frame N) : Prop :=
  N.restore.isSome = true ∧ isTrampoline trampoline f.ip = true

/-- The address is covered by an FDE marked as a signal trampoline's. -/
def Frame.Marked (snap : Snapshot) (f : Frame N) : Prop :=
  Unwinder.Marked K.gimli K.unwindInfo (N.formats K) snap.unw.modules f.address.addressForLookup

/-- The frame is a signal trampoline's. -/
def Frame.Trampoline (snap : Snapshot) (trampoline : Option Nat) (f : Frame N) : Prop :=
  f.AtKernelTrampoline trampoline ∨ f.Marked K snap

/-- How a target crosses the row of a marked FDE. -/
structure Native.Signals (N : Native) where
  Crosses : UnwindTableRow → N.arch.Regs → ReadStack → Prop
  interrupted_iff : ∀ row regs first signal read,
    (∃ a regs', N.arch.unwindFrame row regs first signal read = .ok (.interrupted a, regs')) ↔
      signal = true ∧ Crosses row regs read

/-- A marked frame is unwound as any other: its address has a cached rule, the tables have a rule
    for it, or its row is not crossed. -/
inductive Frame.Missed (S : N.Signals) (snap : Snapshot) (read : ReadStack) (trampoline : Option Nat)
    (f : Frame N) : Prop
  | cached {rule} (hk : ¬ f.AtKernelTrampoline trampoline) (hm : f.Marked K snap)
      (hl : f.cache.lookup f.address.addressForLookup snap.unw.modulesGeneration = some rule)
  | planned {rule} (hk : ¬ f.AtKernelTrampoline trampoline) (hm : f.Marked K snap)
      (hp : planAll K.gimli K.unwindInfo (N.formats K) snap.unw.modules f.address.addressForLookup
        (!f.address.isReturnAddress) = .rule rule)
  | notCrossed {row} (hk : ¬ f.AtKernelTrampoline trampoline) (hm : f.Marked K snap)
      (hp : planAll K.gimli K.unwindInfo (N.formats K) snap.unw.modules f.address.addressForLookup
        (!f.address.isReturnAddress) = .row row true)
      (hc : ¬ S.Crosses row f.regs read)

/-- Frame `n` of a walk from `first`; unwinding frame `n` reads what step `n` sees. -/
def frames (snap : Snapshot) (read : Env → ReadStack) (first : Option (Frame N)) (envs : List Env) :
    Nat → Option (Frame N)
  | 0 => first
  | n + 1 =>
    match frames snap read first envs n, envs[n]? with
    | some f, some env => f.caller K snap (read env) env.trampoline
    | _, _ => none

/-- What step `n` of a walk outputs. -/
def outAt (frames : Nat → Option (Frame N)) (n : Nat) : Out :=
  match frames n with
  | some f => ⟨if (frames (n + 1)).isSome then 1 else 0, f.ip, f.sp⟩
  | none => ⟨0, 0, 0⟩

/-- The first frame: the context's, with the slot's cache as the claim found it. -/
def firstFrame (a : InitArgs) (snap : Snapshot) (start : SlotInner N) : Frame N :=
  ⟨initialFrameAddress a.ctx, N.makeRegs a.ctx (N.ptrAuthMask snap.maxCodeAddr), start.cache⟩

/-! ## A walk alone outputs its frames -/

variable {K} {snap : Snapshot} {read : Env → ReadStack} {envs : List Env}

/-- The slot stands at the frame, or its walk is done. -/
def At (read : Env → ReadStack) (inner : SlotInner N) (f : Option (Frame N)) : Prop :=
  (∀ env : Env, readStack inner env.mem = read env) ∧
  match f with
  | some f => inner.done = false ∧ inner.curAddr = f.address ∧ inner.curIp = f.ip ∧ inner.regs = f.regs ∧
      inner.cache = f.cache
  | none => inner.done = true

/-- A step that has output the frame and moved to the next, if there is one. -/
def Moves (read : Env → ReadStack) (f : Frame N) (next : Option (Frame N)) (r : Out × SlotInner N) : Prop :=
  r.1 = ⟨if next.isSome then 1 else 0, f.ip, f.sp⟩ ∧ At read r.2 next

theorem advanceTo_at {inner : SlotInner N} {f : Frame N} (h : At read inner (some f)) (u : Unwound N.arch)
    (cache : RuleCache N.arch.Rule) :
    Moves read f
      ((match u with
        | (.ok (some (address, interrupted)), regs) => some (address, interrupted, regs, cache)
        | _ => none).bind land) (advanceTo inner u cache) := by
  obtain ⟨hread, hdone, haddr, hip, hregs, hcache⟩ := h
  have hout : ∀ rc, output inner rc = ⟨rc, f.ip, f.sp⟩ := fun rc => by rw [output, hip, hregs]; rfl
  rcases u with ⟨e | _ | ⟨a, interrupted⟩, regs⟩
  · exact ⟨hout 0, hread, rfl⟩
  · exact ⟨hout 0, hread, rfl⟩
  · simp only [Option.bind_some, land, advanceTo]
    split
    · refine ⟨hout 1, hread, hdone, rfl, ?_, rfl, rfl⟩
      cases interrupted <;> rfl
    · exact ⟨hout 0, hread, rfl⟩

theorem stepUnwind_at {inner : SlotInner N} {f : Frame N} (h : At read inner (some f)) {env : Env}
    {r : Out × SlotInner N}
    (hr : stepUnwind K snap (read env) inner = some r) :
    Moves read f ((f.unwindTables K snap (read env)).bind land) r := by
  have hat := h
  obtain ⟨hread, hdone, haddr, hip, hregs, hcache⟩ := h
  unfold stepUnwind at hr
  unfold Frame.unwindTables
  rw [haddr, hregs, hcache] at hr
  generalize withCache (N.unwindFrameImpl K) snap.unw f.address f.regs f.cache (read env) = unwound at hr ⊢
  rcases unwound with ⟨_ | u, cache⟩
  · cases hr
  · obtain rfl := Option.some.inj hr
    have hmoves := advanceTo_at hat u cache
    rcases u with ⟨_ | _ | ⟨a, interrupted⟩, regs⟩ <;> exact hmoves

theorem restoreTo_at {inner : SlotInner N} {f : Frame N} (h : At read inner (some f)) (v : Option (Nat × N.arch.Regs)) :
    Moves read f ((v.map fun r => (r.1, true, r.2, f.cache)).bind land) (restoreTo inner v) := by
  obtain ⟨hread, hdone, haddr, hip, hregs, hcache⟩ := h
  have hout : ∀ rc, output inner rc = ⟨rc, f.ip, f.sp⟩ := fun rc => by rw [output, hip, hregs]; rfl
  rcases restoreTo_cases inner v with ⟨pc, regs, rfl, hpc, heq⟩ | ⟨regs, rfl, heq⟩ | ⟨rfl, heq⟩
  · rw [heq]
    simp only [Option.map_some, Option.bind_some, land, dif_pos hpc]
    exact ⟨hout 1, hread, hdone, rfl, rfl, rfl, hcache⟩
  · rw [heq]
    exact ⟨hout 0, hread, rfl⟩
  · rw [heq]
    exact ⟨hout 0, hread, rfl⟩

/-- A step outputs the frame it stands at and moves to its caller. -/
theorem step_at {inner : SlotInner N} {f : Frame N} (h : At read inner (some f)) {env : Env} {r : Out × SlotInner N}
    (hr : step K snap env inner = some r) : Moves read f (f.caller K snap (read env) env.trampoline) r := by
  have hread := h.1 env
  obtain ⟨-, -, hip, hregs, -⟩ := h.2
  unfold step at hr
  unfold Frame.caller Frame.unwind
  simp only [hread, hip] at hr
  cases hrestore : N.restore with
  | none =>
    rw [hrestore] at hr
    exact stepUnwind_at h hr
  | some restore =>
    simp only [hrestore] at hr ⊢
    split at hr
    · rename_i hk
      obtain rfl := Option.some.inj hr
      rw [if_pos hk, hregs]
      exact restoreTo_at h _
    · rename_i hk
      rw [if_neg hk]
      exact stepUnwind_at h hr

/-- Before its `n`-th step a walk stands at frame `n`. -/
theorem slotAt_at {inner : SlotInner N} {first : Option (Frame N)} (h : At read inner first)
    (hr : (walk K N).Returns snap inner envs) (n : Nat) (hn : n ≤ envs.length) :
    At read (slotAt K snap inner envs n) (frames K snap read first envs n) := by
  induction n with
  | zero => exact h
  | succ n ih =>
    have hat := ih (Nat.le_of_succ_le hn)
    have he : envs[n]? = some envs[n] := List.getElem?_eq_getElem hn
    rw [frames]
    cases hf : frames K snap read first envs n with
    | none =>
      rw [hf] at hat
      rw [(slotAt_done he hat.2).1]
      exact hat
    | some f =>
      rw [hf] at hat
      obtain ⟨out, hstep, -⟩ := slotAt_step hr he hat.2.1
      rw [he]
      exact (step_at hat hstep).2

theorem alone_outs {inner : SlotInner N} {first : Option (Frame N)} (h : At read inner first)
    (hr : (walk K N).Returns snap inner envs) (n : Nat) (hn : n < envs.length) :
    ((walk K N).alone snap inner envs).1[n]? = some (outAt (frames K snap read first envs) n) := by
  have hat := slotAt_at h hr n hn.le
  have he : envs[n]? = some envs[n] := List.getElem?_eq_getElem hn
  rw [outAt, frames]
  cases hf : frames K snap read first envs n with
  | none =>
    rw [hf] at hat
    exact (slotAt_done he hat.2).2
  | some f =>
    rw [hf] at hat
    obtain ⟨out, hstep, hout⟩ := slotAt_step hr he hat.2.1
    rw [he]
    exact hout.trans (congrArg some (step_at hat hstep).1)

/-! ## What the frames are -/

/-- The walk does not come back after its end. -/
theorem frames_none {first : Option (Frame N)} {n m : Nat} (h : frames K snap read first envs n = none) (hm : n ≤ m) :
    frames K snap read first envs m = none := by
  induction m, hm using Nat.le_induction with
  | base => exact h
  | succ m hm ih => rw [frames, ih]

theorem caller_spec {f g : Frame N} {read : ReadStack} {trampoline : Option Nat}
    (h : f.caller K snap read trampoline = some g) :
    0 < g.ip ∧ ∃ interrupted, f.unwind K snap read trampoline = some (g.ip, interrupted, g.regs, g.cache) ∧
      (g.address.addressForLookup = g.ip ↔ interrupted = true) := by
  obtain ⟨⟨address, interrupted, regs, cache⟩, hu, hl⟩ := Option.bind_eq_some_iff.mp h
  unfold land at hl
  split at hl
  · rename_i hpos
    cases hl
    cases interrupted with
    | true => exact ⟨hpos, true, hu, iff_of_true rfl rfl⟩
    | false =>
      refine ⟨hpos, false, hu, iff_of_false ?_ Bool.false_ne_true⟩
      intro hl
      have : address - 1 = address := hl
      have : 0 < address := hpos
      omega
  · cases hl

/-- A frame but the first is where unwinding the one before it led. -/
theorem frames_succ {first : Option (Frame N)} {n : Nat} {g : Frame N}
    (h : frames K snap read first envs (n + 1) = some g) :
    ∃ f env, frames K snap read first envs n = some f ∧ envs[n]? = some env ∧
      f.caller K snap (read env) env.trampoline = some g := by
  rw [frames] at h
  split at h
  · rename_i f env hf henv
    exact ⟨f, env, hf, henv, h⟩
  · cases h

theorem outAt_after_end {first : Option (Frame N)} {n m : Nat} (h : (outAt (frames K snap read first envs) n).rc = 0)
    (hm : n < m) :
    outAt (frames K snap read first envs) m = ⟨0, 0, 0⟩ := by
  have hend : frames K snap read first envs (n + 1) = none := by
    cases hn : frames K snap read first envs n with
    | none => exact frames_none hn (Nat.le_succ n)
    | some f =>
      rw [outAt, hn] at h
      cases hs : frames K snap read first envs (n + 1) with
      | none => rfl
      | some g =>
        rw [hs] at h
        cases h
  rw [outAt, frames_none hend hm]

/-! ## Signal trampolines -/

theorem x86_interrupted_iff (row : UnwindTableRow) (regs : X86.UnwindRegs) (first signal : Bool) (read : ReadStack) :
    (∃ a regs', X86.unwindFrame row regs first signal read = .ok (.interrupted a, regs')) ↔
      signal = true ∧ ¬ X86.NotCrossed row regs read := by
  cases signal with
  | false =>
    refine iff_of_false ?_ (by simp)
    intro h
    obtain ⟨a, regs', h⟩ := h
    unfold X86.unwindFrame at h
    split at h
    · cases h
    · cases X86.unwindFrameGeneric_interrupted h
  | true =>
    rw [← X86.unwindFrame_signal_error_iff row regs first read]
    simp only [true_and]
    constructor
    · intro h herror
      obtain ⟨a, regs', h⟩ := h
      obtain ⟨e, he⟩ := herror
      cases h.symm.trans he
    · intro h
      cases hu : X86.unwindFrame row regs first true read with
      | error e => exact absurd ⟨e, hu⟩ h
      | ok r =>
        obtain ⟨result, regs'⟩ := r
        obtain ⟨_, ra, -, -, -, hresult, -⟩ := X86.unwindFrame_signal_cases hu
        exact ⟨ra, regs', by rw [← hresult]⟩

def signalsX86 : x86.Signals where
  Crosses row regs read := ¬ X86.NotCrossed row regs read
  interrupted_iff := x86_interrupted_iff

theorem aarch64_not_interrupted (row : UnwindTableRow) (regs : Aarch64.UnwindRegs) (first signal : Bool)
    (read : ReadStack) :
    ¬ ∃ a regs', Aarch64.unwindFrame row regs first signal read = .ok (.interrupted a, regs') := by
  intro h
  obtain ⟨a, regs', h⟩ := h
  unfold Aarch64.unwindFrame at h
  split at h
  · cases h
  · unfold Aarch64.unwindFrameGeneric at h
    dsimp only at h
    repeat' split at h
    all_goals cases h

/-- On arm64 the mark is not looked at. -/
def signalsAarch64 : aarch64.Signals where
  Crosses _ _ _ := False
  interrupted_iff row regs first signal read := iff_of_false (aarch64_not_interrupted row regs first signal read) (·.2)

def Platform.signals : (p : Platform) → p.native.Signals
  | x86 => signalsX86
  | aarch64 => signalsAarch64
  | aarch64Linux => ⟨signalsAarch64.Crosses, signalsAarch64.interrupted_iff⟩

theorem unwind_kernel {read : ReadStack} {trampoline : Option Nat} {f : Frame N} (h : f.AtKernelTrampoline trampoline)
    {r : Nat × Bool × N.arch.Regs × RuleCache N.arch.Rule} (hu : f.unwind K snap read trampoline = some r) :
    r.2.1 = true := by
  obtain ⟨hsome, hat⟩ := h
  obtain ⟨restore, hrestore⟩ := Option.isSome_iff_exists.mp hsome
  unfold Frame.unwind at hu
  rw [hrestore] at hu
  dsimp only at hu
  rw [if_pos hat] at hu
  obtain ⟨v, -, rfl⟩ := Option.map_eq_some_iff.mp hu
  rfl

theorem unwind_tables {read : ReadStack} {trampoline : Option Nat} {f : Frame N}
    (h : ¬ f.AtKernelTrampoline trampoline) :
    f.unwind K snap read trampoline = f.unwindTables K snap read := by
  unfold Frame.unwind
  split
  · rfl
  · rename_i restore hrestore
    rw [if_neg fun hat => h ⟨by rw [hrestore]; rfl, hat⟩]

/-- The call to the unwinder at a frame. -/
def Frame.call (snap : Snapshot) (read : ReadStack) (f : Frame N) : Call UnwindData N.arch :=
  ⟨snap.unw, f.address, f.regs, read⟩

theorem unwindTables_outcome {read : ReadStack} {f : Frame N} {a : Nat} {interrupted : Bool} {regs : N.arch.Regs}
    {cache : RuleCache N.arch.Rule} (h : f.unwindTables K snap read = some (a, interrupted, regs, cache)) :
    (f.call snap read).Outcome K.gimli K.unwindInfo (N.formats K) f.cache (.ok (some (a, interrupted)), regs) := by
  rw [← run_eq_some_iff]
  unfold Frame.unwindTables at h
  split at h
  · rename_i hrun
    cases h
    exact congrArg Prod.fst hrun
  · cases h

/-- A caller was interrupted iff its callee is a trampoline and not missed. -/
theorem interrupted_iff (S : N.Signals) {read : ReadStack} {trampoline : Option Nat} {f : Frame N} {a : Nat}
    {interrupted : Bool} {regs : N.arch.Regs} {cache : RuleCache N.arch.Rule}
    (h : f.unwind K snap read trampoline = some (a, interrupted, regs, cache)) :
    interrupted = true ↔ f.Trampoline K snap trampoline ∧ ¬ f.Missed K S snap read trampoline := by
  by_cases hk : f.AtKernelTrampoline trampoline
  · refine iff_of_true (unwind_kernel hk h) ⟨.inl hk, ?_⟩
    intro hmissed
    cases hmissed <;> contradiction
  -- elsewhere the mark decides
  have htramp : f.Trampoline K snap trampoline ↔ f.Marked K snap := or_iff_right hk
  rw [htramp]
  rw [unwind_tables hk] at h
  have hmisses : interrupted = false → (f.Marked K snap → f.Missed K S snap read trampoline) →
      (interrupted = true ↔ f.Marked K snap ∧ ¬ f.Missed K S snap read trampoline) := by
    intro hi hm
    rw [hi]
    exact iff_of_false Bool.false_ne_true fun hmarked => hmarked.2 (hm hmarked.1)
  generalize hu : ((.ok (some (a, interrupted)), regs) : Unwound N.arch) = u at *
  have hout := unwindTables_outcome h
  rw [hu] at hout
  cases hout with
  | rule hrule =>
    refine hmisses (execute_eq hu.symm).1 ?_
    intro hm
    rcases hrule with hl | ⟨-, hp⟩
    · exact .cached hk hm hl
    · exact .planned hk hm hp
  | @row row signal a' i regs' hl hp he =>
    cases hu
    cases interrupted with
    | true =>
      obtain ⟨rfl, hcross⟩ := (S.interrupted_iff _ _ _ _ _).mp ⟨a, regs, he⟩
      refine iff_of_true rfl ⟨marked_of_plan hp, ?_⟩
      intro hmissed
      cases hmissed with
      | cached _ _ hl' => cases hl.symm.trans hl'
      | planned _ _ hp' => cases hp.symm.trans hp'
      | notCrossed _ _ hp' hnot =>
        cases hp.symm.trans hp'
        exact hnot hcross
    | false =>
      refine hmisses rfl ?_
      intro hm
      obtain rfl := signal_of_marked hm hp
      refine .notCrossed hk hm hp fun hcross => ?_
      obtain ⟨a', regs', he'⟩ := (S.interrupted_iff row f.regs _ true read).mpr ⟨rfl, hcross⟩
      cases he.symm.trans he'
  | rowFails hl hp he =>
    refine hmisses (execute_eq hu.symm).1 ?_
    intro hm
    obtain rfl := signal_of_marked hm hp
    refine .notCrossed hk hm hp fun hcross => ?_
    obtain ⟨a', regs', he'⟩ := (S.interrupted_iff _ _ _ _ _).mpr ⟨rfl, hcross⟩
    cases he.symm.trans he'
  | plain hl hp he =>
    cases hu
    exact hmisses rfl fun hm => absurd hm (not_marked_of_plain hp)
  | plainFails hl hp he => exact hmisses (execute_eq hu.symm).1 fun hm => absurd hm (not_marked_of_plain hp)

/-- A caller is looked up by its exact address iff its callee is a trampoline and not missed. -/
theorem exact_lookup_iff (S : N.Signals) {read : ReadStack} {trampoline : Option Nat} {f g : Frame N}
    (h : f.caller K snap read trampoline = some g) :
    g.address.addressForLookup = g.ip ↔ f.Trampoline K snap trampoline ∧ ¬ f.Missed K S snap read trampoline := by
  obtain ⟨-, interrupted, hu, hexact⟩ := caller_spec h
  rw [hexact]
  exact interrupted_iff S hu

/-! ## Walks of a run -/

/-- Init puts the slot at the context's frame. -/
theorem initFill_at (a : InitArgs) (snap : Snapshot) (start : SlotInner N) :
    At (fun env => readStack (initFill a snap start) env.mem) (initFill a snap start)
      (some (firstFrame a snap start)) :=
  ⟨fun _ => rfl, rfl, rfl, rfl, rfl, rfl⟩

theorem alone_length (W : Walk) (snap : W.Snap) (inner : W.Inner) (envs : List W.Env) :
    (W.alone snap inner envs).1.length = envs.length := by
  induction envs generalizing inner with
  | nil => rfl
  | cons env envs ih => exact congrArg Nat.succ (ih _)

/-- The stack as a walk's windows show it. -/
def walkRead (w : State.Log (walk K N)) (env : Env) : ReadStack := readStack (initFill w.args w.snap w.start) env.mem

/-- The frames of a walk: from its context, over its snapshot and the slot's cache at the claim. -/
def walkFrames (w : State.Log (walk K N)) : Nat → Option (Frame N) :=
  frames K w.snap (walkRead w) (some (firstFrame w.args w.snap w.start)) w.envs

/-- What holds of a walk beside any other actors. -/
structure Isolated (s : State.St (walk K N)) (w : State.Log (walk K N)) : Prop where
  /-- Its snapshot was published, and current at a moment of its init. -/
  snapshot : ∃ held pub, w.held = some held ∧ held.since ≤ held.index + 1 ∧ s.hist[held.index]? = some pub ∧
    pub.snap = w.snap
  /-- Its steps returned what they return alone, on the same context, windows, stack and cache. -/
  alone : w.outs = ((walk K N).alone w.snap ((walk K N).fill w.args w.snap w.start) w.envs).1
  returns : (walk K N).Returns w.snap ((walk K N).fill w.args w.snap w.start) w.envs
  length : w.outs.length = w.envs.length
  /-- That is its frames, each once: with 1 while a next one follows, and 0 at the last. -/
  frames : ∀ n < w.outs.length, w.outs[n]? = some (outAt (walkFrames w) n)
  first : ∃ first, walkFrames w 0 = some first ∧ first.ip = contextIp w.args.ctx ∧ first.sp = contextSp w.args.ctx
  /-- Each is at the non-zero address that unwinding the one before gave. -/
  callers : ∀ n g, walkFrames w (n + 1) = some g → 0 < g.ip ∧ ∃ f env interrupted, walkFrames w n = some f ∧
    w.envs[n]? = some env ∧ f.unwind K w.snap (walkRead w env) env.trampoline =
      some (g.ip, interrupted, g.regs, g.cache)
  ended : ∀ n m out, w.outs[n]? = some out → out.rc = 0 → n < m → m < w.outs.length → w.outs[m]? = some ⟨0, 0, 0⟩

/-- A frame is looked up by its exact address iff it is the first, or the one before it was a
    signal trampoline's. -/
def ExactLookups (w : State.Log (walk K N)) : Prop :=
  ∀ n f, walkFrames w n = some f → (f.address.addressForLookup = f.ip ↔
    n = 0 ∨ ∃ m g env, n = m + 1 ∧ walkFrames w m = some g ∧ w.envs[m]? = some env ∧
      g.Trampoline K w.snap env.trampoline)

/-- No frame that has a caller is a missed trampoline's. -/
def NoneMissed (S : N.Signals) (w : State.Log (walk K N)) : Prop :=
  ∀ n f env, walkFrames w n = some f → w.envs[n]? = some env → walkFrames w (n + 1) ≠ none →
    ¬ f.Missed K S w.snap (walkRead w env) env.trampoline

theorem isolated {s : State.St (walk K N)} (h : Reach State.init State.OwnedRun s) {i : Nat} {w : State.Log (walk K N)}
    (hw : (s.slots i).log = some w) : Isolated s w := by
  obtain ⟨houts, hreturns, hsnap⟩ := State.walk_alone h hw
  have hlen : w.outs.length = w.envs.length := by
    rw [houts]
    exact alone_length _ _ _ _
  have hout : ∀ n < w.outs.length, w.outs[n]? = some (outAt (walkFrames w) n) := by
    intro n hn
    rw [houts]
    exact alone_outs (initFill_at w.args w.snap w.start) hreturns n (hlen ▸ hn)
  refine ⟨hsnap, houts, hreturns, hlen, hout, ⟨_, rfl, rfl, N.makeRegs_sp _ _⟩, ?_, ?_⟩
  · intro n g hg
    obtain ⟨f, env, hf, henv, hcaller⟩ := frames_succ hg
    obtain ⟨hpos, interrupted, hu, -⟩ := caller_spec hcaller
    exact ⟨hpos, f, env, interrupted, hf, henv, hu⟩
  · intro n m out ho hrc hnm hm
    refine (hout m hm).trans (congrArg some (outAt_after_end ?_ hnm))
    rw [hout n (hnm.trans hm)] at ho
    rw [← Option.some.inj ho] at hrc
    exact hrc

theorem exact_lookups_iff (S : N.Signals) (w : State.Log (walk K N)) : ExactLookups w ↔ NoneMissed S w := by
  constructor
  · intro h n f env hf henv hnext hmissed
    obtain ⟨g, hg⟩ := Option.ne_none_iff_exists'.mp hnext
    obtain ⟨f', env', hf', henv', hcaller⟩ := frames_succ hg
    cases hf.symm.trans hf'
    cases henv.symm.trans henv'
    have htramp : f.Trampoline K w.snap env.trampoline := by
      cases hmissed with
      | cached _ hm _ => exact .inr hm
      | planned _ hm _ => exact .inr hm
      | notCrossed _ hm _ _ => exact .inr hm
    have hexact := (h (n + 1) g hg).mpr (.inr ⟨n, f, env, rfl, hf, henv, htramp⟩)
    exact ((exact_lookup_iff S hcaller).mp hexact).2 hmissed
  · intro h n f hf
    cases n with
    | zero =>
      cases hf
      exact iff_of_true rfl (.inl rfl)
    | succ n =>
      obtain ⟨g, env, hg, henv, hcaller⟩ := frames_succ hf
      have hnot := h n g env hg henv (by rw [hf]; exact Option.some_ne_none _)
      rw [exact_lookup_iff S hcaller]
      constructor
      · intro htramp
        exact .inr ⟨n, g, env, rfl, hg, henv, htramp.1⟩
      · intro h₀
        rcases h₀ with h₀ | ⟨m, g', env', hm, hg', henv', htramp⟩
        · cases h₀
        · obtain rfl := Nat.succ.inj hm
          cases hg.symm.trans hg'
          cases henv.symm.trans henv'
          exact ⟨htramp, hnot⟩

/-- A run in which one walk has begun. -/
theorem init_run (K : Crates) (N : Native) (snap : Snapshot) (args : InitArgs) :
    ∃ (s : State.St (walk K N)) (w : State.Log (walk K N)), Reach State.init State.OwnedRun s ∧
      (s.slots 0).own = .cursor ∧ (s.slots 0).log = some w ∧ w.snap = snap ∧ w.args = args ∧ w.envs = [] ∧
      (s.slots 0).inner = initFill args snap (placeholderInner N) := by
  obtain ⟨s₀, hn, hh, hx, hc, hv, -, hhist, -, -, hidle⟩ := State.first_publication (W := walk K N) snap
  obtain ⟨r, hq⟩ := hidle 1
  obtain ⟨c, x, hn, hcur, hslot⟩ := State.init_alone hn hq (by rw [hx]; rfl) hh hc hv args
  rw [hx] at hcur hslot
  subst hcur hslot
  exact ⟨_, _, (hn.owned (by decide)).1, rfl, rfl, rfl, rfl, rfl, rfl⟩

/-- A run in which one walk makes its first step. -/
theorem first_step_run (K : Crates) (N : Native) (snap : Snapshot) (args : InitArgs) (env : Env)
    (hr : (step K snap env (initFill args snap (placeholderInner N))).isSome = true) :
    ∃ (s : State.St (walk K N)) (held : Option State.Held) (outs : List Out), Reach State.init State.OwnedRun s ∧
      (s.slots 0).own = .cursor ∧ (s.slots 0).log = some ⟨placeholderInner N, args, snap, held, [env], outs⟩ := by
  obtain ⟨out, hr⟩ := Option.isSome_iff_exists.mp hr
  obtain ⟨s₀, hn, hh, hx, hc, hv, -, hhist, -, -, hidle⟩ := State.first_publication (W := walk K N) snap
  obtain ⟨r, hq⟩ := hidle 1
  obtain ⟨c, x, hn, hcur, hslot⟩ := State.init_alone hn hq (by rw [hx]; rfl) hh hc hv args
  rw [hx] at hcur hslot
  subst hcur hslot
  have hn := State.step_alone hn rfl hh List.mem_cons_self rfl rfl rfl hv hr
  exact ⟨_, _, _, (hn.owned (by decide)).1, rfl, rfl⟩

/-- A walk's second step, if it makes two. -/
def secondStep (K : Crates) (snap : Snapshot) (env env' : Env) (inner : SlotInner N) : Option (Out × SlotInner N) :=
  (step K snap env inner).bind fun r => if r.2.done then none else step K snap env' r.2

/-- A run in which one walk makes two steps, and another actor publishes `snap'` in between. -/
theorem second_step_run (K : Crates) (N : Native) (snap snap' : Snapshot) (args : InitArgs) (env env' : Env)
    (hr : (secondStep K snap env env' (initFill args snap (placeholderInner N))).isSome = true) :
    ∃ (s : State.St (walk K N)) (held : Option State.Held) (outs : List Out), Reach State.init State.OwnedRun s ∧
      (s.slots 0).own = .cursor ∧ (s.slots 0).log = some ⟨placeholderInner N, args, snap, held, [env, env'], outs⟩ ∧
      s.hist.map State.Publication.snap = [snap, snap'] := by
  obtain ⟨r', hr⟩ := Option.isSome_iff_exists.mp hr
  obtain ⟨r, hfirst, hr⟩ := Option.bind_eq_some_iff.mp hr
  split at hr
  · cases hr
  · rename_i hd
    obtain ⟨s, held, hreach, ho, hw, hhist, -⟩ :=
      State.walk_beside_publication (W := walk K N) snap snap' args rfl hfirst
      (Bool.not_eq_true _ ▸ hd) hr
    exact ⟨s, held, _, hreach, ho, hw, hhist⟩

/-! ## Trampolines crossed and missed -/

/-- A gimli; of the other formats there is no data. -/
def sampleCrates (G : Gimli) : Crates where
  gimli := G
  unwindInfo := Compact.oneFunction ⟨0, 0, 0⟩
  opcodeX86 _ := .null
  opcodeArm64 _ := .null
  pe := X86.Pe.sampleParser none

/-- No modules yet: the fallback rule follows frame pointers. -/
def emptySnapshot : Snapshot := ⟨⟨[], 1, wf_nil⟩, 0, rfl⟩

/-- A published module set of the trampoline's module alone. -/
def trampolineSnapshot : Snapshot where
  unw := ⟨[[ofDwarfModule trampolineModule]], 2, insertModule_wf wf_nil _⟩
  maxCodeAddr := maxKnownCodeAddress [[ofDwarfModule trampolineModule]]
  cached := rfl

abbrev trampolineCrates : Crates := sampleCrates trampolineGimli

/-- A context in the trampoline, with the signal frame at 0x7000 and a frame record at 0x7500. -/
def crossedArgs : InitArgs := ⟨⟨![0x1004, 0x7000, 0x7500, 0, 0]⟩, 0x7000, 0x8000, 0, 0, (0, 0)⟩

/-- The signal came at 0x5000 with the stack pointer 0x7400; the frame record returns to 0x6000. -/
def crossedEnv : Env where
  mem
    | 0x70a0 => 0x7400
    | 0x70a8 => 0x5000
    | 0x7508 => 0x6000
    | _ => 0
  trampoline := none

theorem crossed_outs : ((walk trampolineCrates x86).alone trampolineSnapshot
    (initFill crossedArgs trampolineSnapshot (placeholderInner x86)) [crossedEnv, crossedEnv]).1 =
      [⟨1, 0x1004, 0x7000⟩, ⟨1, 0x5000, 0x7400⟩] := by
  decide

/-- The stack of the crossed trampoline. -/
def crossedRead : ReadStack := readStack (initFill crossedArgs trampolineSnapshot (placeholderInner x86)) crossedEnv.mem

theorem crossed_row :
    evalCfaRule (X86.UnwindRegs.new 0x1004 0x7000 0x7500).dwarfGet crossedRead trampolineRow.cfa = some 0x7400 ∧
    evalRegisterRule (X86.UnwindRegs.new 0x1004 0x7000 0x7500).dwarfGet crossedRead 0x7400 0x1004
      (trampolineRow.register 16) =
      some 0x5000 := by
  decide

theorem crossed_not_missed : ¬ (firstFrame (N := x86) crossedArgs trampolineSnapshot (placeholderInner x86)).Missed
    trampolineCrates signalsX86 trampolineSnapshot crossedRead none := by
  intro h
  cases h with
  | cached _ _ hl => cases hl
  | planned _ _ hp => cases hp
  | notCrossed _ _ hp hc =>
    cases hp
    refine hc fun hnot => ?_
    obtain ⟨hcfa, hra⟩ := crossed_row
    cases hnot with
    | cfaFails h => cases hcfa.symm.trans h
    | noReturnAddress hcfa' hra' =>
      cases hcfa.symm.trans hcfa'
      cases hra.symm.trans hra'
    | unmoved hcfa' => cases hcfa.symm.trans hcfa'
    | unmovedBelow hcfa' => cases hcfa.symm.trans hcfa'

/-- Outside the module no frame is marked. -/
theorem not_marked_outside {f : Frame N}
    (h : findModuleForAddress trampolineSnapshot.unw.modules f.address.addressForLookup = none) :
    ¬ f.Marked K trampolineSnapshot := by
  intro hm
  obtain ⟨m, rel, row, hfind, -⟩ := hm
  cases h.symm.trans hfind

/-- The log of a walk that crosses the trampoline. -/
def crossedLog (held : Option State.Held) (outs : List Out) : State.Log (walk trampolineCrates x86) :=
  ⟨placeholderInner x86, crossedArgs, trampolineSnapshot, held, [crossedEnv, crossedEnv], outs⟩

theorem crossed_none_missed (held : Option State.Held) (outs : List Out) :
    NoneMissed signalsX86 (crossedLog held outs) := by
  intro n f env hf henv _ hmissed
  rcases n with _ | _ | n
  · cases henv
    cases hf
    exact crossed_not_missed hmissed
  · -- the interrupted code is in no module
    have haddress : ((firstFrame crossedArgs trampolineSnapshot (placeholderInner x86)).caller trampolineCrates
      trampolineSnapshot crossedRead none).map Frame.address = some (.instructionPointer 0x5000) := by decide
    have hf' : (firstFrame crossedArgs trampolineSnapshot (placeholderInner x86)).caller trampolineCrates
      trampolineSnapshot crossedRead none = some f := hf
    rw [hf'] at haddress
    have hout : findModuleForAddress trampolineSnapshot.unw.modules f.address.addressForLookup = none := by
      rw [Option.some.inj haddress]
      decide
    cases hmissed with
    | cached _ hm _ => exact not_marked_outside hout hm
    | planned _ hm _ => exact not_marked_outside hout hm
    | notCrossed _ hm _ _ => exact not_marked_outside hout hm
  · cases henv

/-- A context in the trampoline, with a window on the frame record at 0x7f00 alone. -/
def missedArgs : InitArgs := ⟨⟨![0x1004, 0x7000, 0x7f00, 0, 0]⟩, 0x7f00, 0x8000, 0, 0, (0, 0)⟩

def missedEnv : Env := ⟨fun a => if a = 0x7f08 then 0x5000 else 0, none⟩

def missedLog (held : Option State.Held) (outs : List Out) : State.Log (walk trampolineCrates x86) :=
  ⟨placeholderInner x86, missedArgs, trampolineSnapshot, held, [missedEnv], outs⟩

theorem missed_marked :
    (firstFrame (N := x86) missedArgs trampolineSnapshot (placeholderInner x86)).Marked trampolineCrates
    trampolineSnapshot :=
  ⟨ofDwarfModule trampolineModule, 4, trampolineRow, rfl, rfl⟩

theorem missed_caller :
    ((firstFrame (N := x86) missedArgs trampolineSnapshot (placeholderInner x86)).caller trampolineCrates
      trampolineSnapshot (readStack (initFill missedArgs trampolineSnapshot (placeholderInner x86)) missedEnv.mem) none).map
      (fun g => (g.ip, g.address.addressForLookup)) = some (0x5000, 0x4fff) := by
  decide

end FramehopUnwind.Cursor
