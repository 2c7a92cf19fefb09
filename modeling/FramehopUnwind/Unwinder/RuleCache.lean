/-
  FramehopUnwind.Unwinder.RuleCache — unwinding one frame through a rule cache
  (vendor/framehop/src/rule_cache.rs, unwinder.rs `with_cache` and `unwind_frame_impl`,
  dwarf.rs `unwind_frame_with_fde`).

  A cache has 509 entries, one for each residue of the lookup address; an entry answers
  for one address under one module generation. Its statistics and gimli's scratch context
  are read by nobody and left out. A slot keeps its cache over walks and snapshots.

  A row's rule depends on the lookup address and the module list alone, so what is cached
  for it is what the full path would find. The exception is a row without a rule that is
  evaluated on the registers and the stack and fails (`EvaluationFails`): the fallback rule
  then goes into the cache, although another walk's stack may let the evaluation succeed.

  Proved:
  - `unwind_sound`: an unwind inserts only the rule of its key, unless its evaluation fails.
  - `retained_cache_transparent`: after any history without such a failure at the query's
    key, the retained cache and an empty one give the same result, registers included.
  - `failed_evaluation_poisons_cache`: a failure that changes the next walk.
-/

import FramehopUnwind.Unwinder.Generation
import FramehopUnwind.Unwinder.X86

namespace FramehopUnwind.Unwinder

open Lib.Word Lib.Runs

/-! ## The cache -/

def cacheEntryCount : Nat := 509

structure CacheEntry (R : Type) where
  address : Nat
  modulesGeneration : Nat
  unwindRule : R
  deriving DecidableEq, Repr

abbrev RuleCache (R : Type) := Fin cacheEntryCount → Option (CacheEntry R)

def RuleCache.new {R : Type} : RuleCache R := fun _ => none

def cacheSlot (address : Nat) : Fin cacheEntryCount := ⟨address % cacheEntryCount, Nat.mod_lt _ (by decide)⟩

/-- The rule of a hit, or `none` for a miss. -/
def RuleCache.lookup {R : Type} (cache : RuleCache R) (address modulesGeneration : Nat) : Option R :=
  match cache (cacheSlot address) with
  | none => none
  | some entry =>
    if entry.modulesGeneration = modulesGeneration then
      if entry.address = address then some entry.unwindRule else none
    else none

def RuleCache.insert {R : Type} (cache : RuleCache R) (address modulesGeneration : Nat) (unwindRule : R) :
    RuleCache R :=
  Function.update cache (cacheSlot address) (some ⟨address, modulesGeneration, unwindRule⟩)

/-! ## Unwinding one frame -/

variable (G : Gimli) (A : Arch)

def getFdeOffsetForRelativeAddress (ehFrameHdr : Bytes) (bases : BaseAddresses) (baseSvma rel : Nat) : Option Nat :=
  match G.hdrTableLookup ehFrameHdr bases (wrappingAdd baseSvma rel) with
  | none => none
  | some offset => if offset < 2 ^ 32 then some offset else none

/-- `unwind_info_for_fde`: the row of the address and whether the FDE marks a trampoline. -/
def unwindInfoForFde (ty : UnwindSectionType) (bytes : Bytes) (bases : BaseAddresses) (lookupSvma fdeOffset : Nat) :
    Except DwarfUnwinderError (UnwindTableRow × Bool) :=
  match G.fdeFromOffset ty bytes bases fdeOffset with
  | none => .error .fdeFromOffsetFailed
  | some isSignalFrame =>
    match G.unwindInfoForAddress ty bytes bases fdeOffset lookupSvma with
    | none => .error .unwindInfoForAddressFailed
    | some row => .ok (row, isSignalFrame)

def unwindFrameWithFde (ty : UnwindSectionType) (bytes : Bytes) (bases : BaseAddresses) (baseSvma : Nat) (regs : A.Regs)
    (isFirstFrame : Bool) (rel fdeOffset : Nat) (read : ReadStack) :
    Except DwarfUnwinderError (UnwindResult A.Rule × A.Regs) :=
  match unwindInfoForFde G ty bytes bases (wrappingAdd baseSvma rel) fdeOffset with
  | .error .unwindInfoForAddressFailed => .ok (.execRule A.ruleIfUncoveredByFde, regs)
  | .error e => .error e
  | .ok (row, isSignalFrame) => A.unwindFrame row regs isFirstFrame isSignalFrame read

/-- The FDE a module's data gives for a relative address: its section and its offset. -/
def fdeOf (m : UnwindModule) (rel : Nat) : Except UnwinderError (UnwindSectionType × Bytes × BaseAddresses × Nat) :=
  match m.unwindData with
  | .ehFrameHdrAndEhFrame ehFrameHdr ehFrame bases =>
    match getFdeOffsetForRelativeAddress G ehFrameHdr bases m.baseSvma rel with
    | none => .error .ehFrameHdrCouldNotFindAddress
    | some offset => .ok (.ehFrame, ehFrame, bases, offset)
  | .dwarfCfiIndexAndEhFrame index ehFrame bases =>
    match index.fdeOffsetForRelativeAddress rel with
    | none => .error .dwarfCfiIndexCouldNotFindAddress
    | some offset => .ok (.ehFrame, ehFrame, bases, offset)
  | .dwarfCfiIndexAndDebugFrame index debugFrame bases =>
    match index.fdeOffsetForRelativeAddress rel with
    | none => .error .dwarfCfiIndexCouldNotFindAddress
    | some offset => .ok (.debugFrame, debugFrame, bases, offset)
  | .none => .error .noModuleUnwindData

def unwindFrameImpl (m : UnwindModule) (address : FrameAddress) (rel : Nat) (regs : A.Regs) (read : ReadStack) :
    Except UnwinderError (UnwindResult A.Rule × A.Regs) :=
  match fdeOf G m rel with
  | .error e => .error e
  | .ok (ty, bytes, bases, fdeOffset) =>
    match unwindFrameWithFde G A ty bytes bases m.baseSvma regs (!address.isReturnAddress) rel fdeOffset read with
    | .error e => .error (.dwarf e)
    | .ok r => .ok r

/-- What a walk sees of an unwind: the result, with whether the frame was interrupted, and
    the registers after it. -/
abbrev Unwound := Except Error (Option (Nat × Bool)) × A.Regs

def notInterrupted (r : Except Error (Option Nat) × A.Regs) : Unwound A :=
  (r.1.map fun address => address.map fun a => (a, false), r.2)

/-- `with_cache` around `unwind_frame_impl`: the outcome and the cache it leaves. -/
def unwindFrameSignalAware (u : UnwinderInternal ModuleUnwindDataInternal) (address : FrameAddress) (regs : A.Regs)
    (cache : RuleCache A.Rule) (read : ReadStack) : Unwound A × RuleCache A.Rule :=
  let lookupAddress := address.addressForLookup
  let isFirstFrame := !address.isReturnAddress
  let insertAndExec (rule : A.Rule) :=
    (notInterrupted A (A.exec rule isFirstFrame regs read), cache.insert lookupAddress u.modulesGeneration rule)
  match cache.lookup lookupAddress u.modulesGeneration with
  | some rule => (notInterrupted A (A.exec rule isFirstFrame regs read), cache)
  | none =>
    match findModuleForAddress u.modules lookupAddress with
    | none => insertAndExec A.fallbackRule
    | some (m, rel) =>
      match unwindFrameImpl G A m address rel regs read with
      | .ok (.execRule rule, _) => insertAndExec rule
      | .ok (.uncacheable returnAddress, regs) => ((.ok (some (returnAddress, false)), regs), cache)
      | .ok (.interrupted address, regs) => ((.ok (some (address, true)), regs), cache)
      | .error _ => insertAndExec A.fallbackRule

/-! ## What the tables alone decide -/

/-- What the module list says of a lookup address: a rule, whatever the registers and the
    stack, or a row without a rule (and whether it is a trampoline's) to evaluate on them. -/
def plan (modules : Chunks ModuleUnwindDataInternal) (lookupAddress : Nat) : A.Rule ⊕ (UnwindTableRow × Bool) :=
  match findModuleForAddress modules lookupAddress with
  | none => .inl A.fallbackRule
  | some (m, rel) =>
    match fdeOf G m rel with
    | .error _ => .inl A.fallbackRule
    | .ok (ty, bytes, bases, fdeOffset) =>
      match unwindInfoForFde G ty bytes bases (wrappingAdd m.baseSvma rel) fdeOffset with
      | .error .unwindInfoForAddressFailed => .inl A.ruleIfUncoveredByFde
      | .error _ => .inl A.fallbackRule
      | .ok (row, isSignalFrame) =>
        match A.rowRule row isSignalFrame with
        | some rule => .inl rule
        | none => .inr (row, isSignalFrame)

/-- One call of `unwind_frame_signal_aware`, its cache apart. -/
structure Unwind where
  u : UnwinderInternal ModuleUnwindDataInternal
  address : FrameAddress
  regs : A.Regs
  read : ReadStack

variable {A}

/-- The key of the entry an unwind looks up. -/
def Unwind.key (e : Unwind A) : Nat × Nat := (e.address.addressForLookup, e.u.modulesGeneration)

def Unwind.run (e : Unwind A) (cache : RuleCache A.Rule) : Unwound A × RuleCache A.Rule :=
  unwindFrameSignalAware G A e.u e.address e.regs cache e.read

/-- The outcome of a rule for this unwind. -/
def Unwind.exec (e : Unwind A) (rule : A.Rule) : Unwound A :=
  notInterrupted A (A.exec rule (!e.address.isReturnAddress) e.regs e.read)

/-- The row's evaluation on the unwind's registers and stack. -/
def Unwind.evaluate (e : Unwind A) (row : UnwindTableRow × Bool) :
    Except DwarfUnwinderError (UnwindResult A.Rule × A.Regs) :=
  A.unwindFrame row.1 e.regs (!e.address.isReturnAddress) row.2 e.read

/-- The address has a row without a rule, and evaluating it on these registers and this
    stack fails. -/
def Unwind.EvaluationFails (e : Unwind A) : Prop :=
  ∃ row error, plan G A e.u.modules e.address.addressForLookup = .inr row ∧ e.evaluate row = .error error

theorem run_hit {e : Unwind A} {cache : RuleCache A.Rule} {rule : A.Rule}
    (h : cache.lookup e.key.1 e.key.2 = some rule) : e.run G cache = (e.exec rule, cache) := by
  unfold Unwind.run unwindFrameSignalAware
  simp only [Unwind.key] at h
  simp only [h]
  rfl

/-- A miss, with what the tables alone decide taken out. -/
theorem run_miss {e : Unwind A} {cache : RuleCache A.Rule} (h : cache.lookup e.key.1 e.key.2 = none) :
    e.run G cache =
      match plan G A e.u.modules e.address.addressForLookup with
      | .inl rule => (e.exec rule, cache.insert e.key.1 e.key.2 rule)
      | .inr row =>
        match e.evaluate row with
        | .ok (.execRule rule, _) => (e.exec rule, cache.insert e.key.1 e.key.2 rule)
        | .ok (.uncacheable returnAddress, regs) => ((.ok (some (returnAddress, false)), regs), cache)
        | .ok (.interrupted address, regs) => ((.ok (some (address, true)), regs), cache)
        | .error _ => (e.exec A.fallbackRule, cache.insert e.key.1 e.key.2 A.fallbackRule) := by
  unfold Unwind.run unwindFrameSignalAware plan Unwind.evaluate
  simp only [Unwind.key] at h
  simp only [h]
  cases findModuleForAddress e.u.modules e.address.addressForLookup with
  | none => rfl
  | some found =>
    obtain ⟨m, rel⟩ := found
    simp only [unwindFrameImpl]
    cases fdeOf G m rel with
    | error error => rfl
    | ok fde =>
      obtain ⟨ty, bytes, bases, off⟩ := fde
      simp only [unwindFrameWithFde]
      cases unwindInfoForFde G ty bytes bases (wrappingAdd m.baseSvma rel) off with
      | error error => cases error <;> rfl
      | ok info =>
        obtain ⟨row, signal⟩ := info
        simp only
        cases hr : A.rowRule row signal with
        | some rule => simp only [A.unwindFrame_rule _ _ _ _ _ _ hr]; rfl
        | none =>
          simp only
          cases A.unwindFrame row e.regs (!e.address.isReturnAddress) signal e.read with
          | error error => rfl
          | ok r => obtain ⟨result, regs⟩ := r; cases result <;> rfl

/-- A miss with a rule in the tables: it is cached and executed. -/
theorem run_rule {e : Unwind A} {cache : RuleCache A.Rule} {rule : A.Rule} (h : cache.lookup e.key.1 e.key.2 = none)
    (hp : plan G A e.u.modules e.address.addressForLookup = .inl rule) :
    e.run G cache = (e.exec rule, cache.insert e.key.1 e.key.2 rule) := by
  rw [run_miss G h, hp]

theorem plan_row {modules : Chunks ModuleUnwindDataInternal} {a : Nat} {row : UnwindTableRow × Bool}
    (h : plan G A modules a = .inr row) : A.rowRule row.1 row.2 = none := by
  unfold plan at h
  repeat' split at h
  all_goals cases h
  assumption

/-- A miss with a row to evaluate: a failed evaluation caches the fallback rule. -/
theorem run_evaluate {e : Unwind A} {cache : RuleCache A.Rule} {row : UnwindTableRow × Bool}
    (h : cache.lookup e.key.1 e.key.2 = none) (hp : plan G A e.u.modules e.address.addressForLookup = .inr row) :
    (∃ error, e.evaluate row = .error error ∧
      e.run G cache = (e.exec A.fallbackRule, cache.insert e.key.1 e.key.2 A.fallbackRule)) ∨
    ∃ address interrupted regs, e.run G cache = ((.ok (some (address, interrupted)), regs), cache) ∧
      e.evaluate row = .ok (if interrupted then .interrupted address else .uncacheable address, regs) := by
  have hne : ∀ rule regs, e.evaluate row ≠ .ok (.execRule rule, regs) :=
    fun rule regs => A.unwindFrame_generic _ _ _ _ _ rule regs (plan_row G hp)
  rw [run_miss G h, hp]
  cases hv : e.evaluate row with
  | error error => exact Or.inl ⟨error, rfl, by simp only [hv]⟩
  | ok r =>
    obtain ⟨result, regs⟩ := r
    cases result with
    | execRule rule => exact absurd hv (hne rule regs)
    | uncacheable a => exact Or.inr ⟨a, false, regs, by simp only [hv], rfl⟩
    | interrupted a => exact Or.inr ⟨a, true, regs, by simp only [hv], rfl⟩

/-! ## Histories -/

/-- The cache a sequence of unwinds leaves. -/
def runUnwinds (history : List (Unwind A)) (cache : RuleCache A.Rule) : RuleCache A.Rule :=
  history.foldl (fun cache e => (e.run G cache).2) cache

/-- A hit at this key is the rule the list `modules` has for it. -/
def SoundAt (modules : Chunks ModuleUnwindDataInternal) (key : Nat × Nat) (cache : RuleCache A.Rule) : Prop :=
  ∀ rule, cache.lookup key.1 key.2 = some rule → plan G A modules key.1 = .inl rule

theorem lookup_insert {R : Type} (cache : RuleCache R) (a g : Nat) (rule : R) (a' g' : Nat) (rule' : R)
    (h : (cache.insert a g rule).lookup a' g' = some rule') :
    (a = a' ∧ g = g' ∧ rule = rule') ∨ cache.lookup a' g' = some rule' := by
  unfold RuleCache.lookup RuleCache.insert at *
  by_cases hs : cacheSlot a' = cacheSlot a
  · rw [hs, Function.update_self] at h
    simp only at h
    split at h
    · split at h
      · rename_i hg ha
        cases h
        exact Or.inl ⟨ha, hg, rfl⟩
      · cases h
    · cases h
  · rw [Function.update_of_ne hs] at h
    exact Or.inr h

theorem unwind_sound {e : Unwind A} {cache : RuleCache A.Rule} {modules : Chunks ModuleUnwindDataInternal}
    {key : Nat × Nat} (hs : SoundAt G modules key cache)
    (hkey : e.key = key → e.u.modules = modules ∧ ¬ e.EvaluationFails G) :
    SoundAt G modules key (e.run G cache).2 := by
  cases hl : cache.lookup e.key.1 e.key.2 with
  | some rule => rwa [run_hit G hl]
  | none =>
    -- a miss inserts at most the rule of the unwind's own key
    have insert_ok : ∀ rule, (e.key = key → plan G A modules key.1 = .inl rule) →
        SoundAt G modules key (cache.insert e.key.1 e.key.2 rule) := by
      intro rule hr rule' h
      rcases lookup_insert cache _ _ _ _ _ _ h with ⟨ha, hg, rfl⟩ | h
      · exact hr (Prod.ext ha hg)
      · exact hs rule' h
    cases hp : plan G A e.u.modules e.address.addressForLookup with
    | inl rule =>
      rw [run_rule G hl hp]
      refine insert_ok rule ?_
      intro hk
      rw [← (hkey hk).1, ← hk]
      exact hp
    | inr row =>
      rcases run_evaluate G hl hp with ⟨error, hv, hr⟩ | ⟨_, _, _, hr, -⟩
      · rw [hr]
        exact insert_ok _ fun hk => absurd ⟨row, error, hp, hv⟩ (hkey hk).2
      · rwa [hr]

theorem runUnwinds_sound {history : List (Unwind A)} {cache : RuleCache A.Rule}
    {modules : Chunks ModuleUnwindDataInternal} {key : Nat × Nat} (hs : SoundAt G modules key cache)
    (hkey : ∀ e ∈ history, e.key = key → e.u.modules = modules ∧ ¬ e.EvaluationFails G) :
    SoundAt G modules key (runUnwinds G history cache) := by
  induction history generalizing cache with
  | nil => exact hs
  | cons e es ih =>
    exact ih (unwind_sound G hs (hkey e (by simp))) fun e' he' => hkey e' (by simp [he'])

/-- A cache that is sound at an unwind's key does not show in its outcome. -/
theorem sound_transparent {q : Unwind A} {cache : RuleCache A.Rule} (hs : SoundAt G q.u.modules q.key cache) :
    (q.run G cache).1 = (q.run G RuleCache.new).1 := by
  have hempty : (RuleCache.new : RuleCache A.Rule).lookup q.key.1 q.key.2 = none := rfl
  cases hl : cache.lookup q.key.1 q.key.2 with
  | some rule => rw [run_hit G hl, run_rule G hempty (hs rule hl)]
  | none =>
    cases hp : plan G A q.u.modules q.address.addressForLookup with
    | inl rule => rw [run_rule G hl hp, run_rule G hempty hp]
    | inr row =>
      rcases run_evaluate G hl hp with ⟨_, hv, hr⟩ | ⟨_, i, _, hr, hv⟩ <;>
        rcases run_evaluate G hempty hp with ⟨_, hv', hr'⟩ | ⟨_, i', _, hr', hv'⟩
      · rw [hr, hr']
      · rw [hv] at hv'; cases hv'
      · rw [hv] at hv'; cases hv'
      · rw [hr, hr']
        rw [hv] at hv'
        cases i <;> cases i' <;> simp_all

/-- Over the snapshots of any run: if no earlier unwind at the query's lookup address and
    generation evaluated a row and failed, the retained cache gives the query the outcome
    an empty one gives: the same result, interrupted flag and registers. -/
theorem retained_cache_transparent {s : Generation.St ModuleUnwindDataInternal}
    (h : Reach Generation.init Generation.Step s) (history : List (Unwind A)) (q : Unwind A)
    (hh : ∀ e ∈ history, e.u ∈ s.snapshots) (hq : q.u ∈ s.snapshots)
    (hok : ∀ e ∈ history, e.key = q.key → ¬ e.EvaluationFails G) :
    (q.run G (runUnwinds G history RuleCache.new)).1 = (q.run G RuleCache.new).1 := by
  have hi := Generation.inv h
  apply sound_transparent
  apply runUnwinds_sound
  · intro rule hr
    cases hr
  · intro e he hk
    refine ⟨?_, hok e he hk⟩
    exact hi.determined _ (hi.published _ (hh e he)) _ (hi.published _ hq) (Prod.ext_iff.mp hk).2

/-! ## A failed evaluation stays in the cache -/

/-- A trampoline's row: the interrupted stack pointer is the word at `rsp + 160` and the
    interrupted code address the word at `rsp + 168`, in the signal frame. -/
def trampolineRow : UnwindTableRow where
  cfa := .expression (.requiresRegister 7 fun sp => .requiresMemory (sp + 160) 8 none fun cfa => .complete (some cfa))
  register r := if r = 16 then some (.expression (.requiresRegister 7 fun sp => .complete (some (sp + 168)))) else none

theorem trampolineFde_start : 0x1000 < 2 ^ 64 := by decide

theorem trampolineFde_len : 16 < 2 ^ 64 := by decide

/-- gimli over a section with one trampoline FDE, at offset 24. -/
def trampolineGimli : Gimli where
  entries _ _ _ := [some .cie, some (.fde (some ⟨0x1000, 16, 24, trampolineFde_start, trampolineFde_len⟩))]
  entries_wider _ _ _ _ _ _ := rfl
  fdeFromOffset _ _ _ offset := if offset = 24 then some true else none
  unwindInfoForAddress _ _ _ offset a := if offset = 24 ∧ 0x1000 ≤ a ∧ a < 0x1010 then some trampolineRow else none
  hdrTableLookup _ _ _ := none

def trampolineModule : UnwindModule :=
  ⟨⟨0x1000, 0x1010⟩, 0x1000, 0x1000, .dwarfCfiIndexAndEhFrame ⟨[0], [24]⟩ [] ⟨some 0, some 0, some 0, some 0x2000⟩⟩

theorem trampoline_wf : WF [[trampolineModule]] := insertModule_wf wf_nil trampolineModule

/-- A walk that stands in the trampoline, under a list of the trampoline's module alone. -/
def trampolineUnwind (read : ReadStack) : Unwind X86.archX86 where
  u := ⟨[[trampolineModule]], 1, trampoline_wf⟩
  address := .instructionPointer 0x1004
  regs := X86.UnwindRegs.new 0x1004 0x7000 0
  read := read

/-- A stack that holds the signal frame. -/
def signalStack : ReadStack := fun a => if a = 0x70a0 then some 0x8000 else if a = 0x70a8 then some 0x5000 else none

theorem trampoline_published : ∃ s : Generation.St ModuleUnwindDataInternal,
    Reach Generation.init Generation.Step s ∧ ∀ read, (trampolineUnwind read).u ∈ s.snapshots := by
  obtain ⟨s, h, hu⟩ := Generation.runEdits_published [.add trampolineModule] 0 2 (by decide) rfl
  exact ⟨s, h, fun _ => hu⟩

/-- A first walk cannot read the signal frame; the walk after it can, but the fallback rule
    is cached, and with no frame pointer it ends the stack where an empty cache gives the
    interrupted frame. -/
theorem failed_evaluation_poisons_cache :
    ∃ (G : Gimli) (s : Generation.St ModuleUnwindDataInternal) (first q : Unwind X86.archX86),
      Reach Generation.init Generation.Step s ∧ first.u ∈ s.snapshots ∧ q.u ∈ s.snapshots ∧
      (q.run G RuleCache.new).1.1 = .ok (some (0x5000, true)) ∧
      (q.run G (runUnwinds G [first] RuleCache.new)).1.1 = .ok none := by
  obtain ⟨s, h, hu⟩ := trampoline_published
  exact ⟨trampolineGimli, s, trampolineUnwind fun _ => none, trampolineUnwind signalStack, h, hu _, hu _, rfl, rfl⟩

theorem signalStack_evaluates : ¬ (trampolineUnwind signalStack).EvaluationFails trampolineGimli := by
  intro h₀
  obtain ⟨row, error, hp, he⟩ := h₀
  have hrow : plan trampolineGimli X86.archX86 [[trampolineModule]] 0x1004 = .inr (trampolineRow, true) := rfl
  obtain rfl : (trampolineRow, true) = row := Sum.inr.inj (hrow.symm.trans hp)
  cases he

/-- Two walks that can both read the signal frame. -/
theorem retained_cache_transparent_signal :
    ∃ s : Generation.St ModuleUnwindDataInternal, Reach Generation.init Generation.Step s ∧
      ((trampolineUnwind signalStack).run trampolineGimli
        (runUnwinds trampolineGimli [trampolineUnwind signalStack] RuleCache.new)).1 =
      ((trampolineUnwind signalStack).run trampolineGimli RuleCache.new).1 := by
  obtain ⟨s, h, hu⟩ := trampoline_published
  refine ⟨s, h, retained_cache_transparent trampolineGimli h _ _ ?_ (hu _) ?_⟩
  · intro e he
    rw [List.mem_singleton.mp he]
    exact hu _
  · intro e he _
    rw [List.mem_singleton.mp he]
    exact signalStack_evaluates

end FramehopUnwind.Unwinder
