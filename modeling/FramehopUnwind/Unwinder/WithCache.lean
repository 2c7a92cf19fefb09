/-
  FramehopUnwind.Unwinder.WithCache — the rule cache over modules of every format
  (`with_cache` and all branches of `unwind_frame_impl` in vendor/framehop/src/unwinder.rs).

  A module's unwind data is DWARF, a Mach-O compact unwind table with an optional `.eh_frame`, or
  the sections of a PE image. The cache is keyed by the lookup address and the module generation.
  For a Mach-O or PE module the rule also depends on whether the frame is the first: the code
  around an instruction pointer may be a prologue or an epilogue, that around a call is neither.
  An instruction pointer and a return address share a key if the one is a byte before the other.

  A callback may write registers and then fail; the fallback rule is executed on what it has
  written, and kept (`withCache`). A call that panics or does not return is `none`.

  `Decided` is what the cache rests on: a rule comes from the tables alone. The other results, and
  failures to evaluate on the registers and the stack at hand, are not those of another call.

  Proved:
  - `formatsX86_pe`: the PE branch on x86-64 is `unwindFramePe`.
  - `withCache_dwarf`: over DWARF modules this is `unwindFrameSignalAware`.
  - `callback_decided`: the branches of all formats give their rules from the tables alone.
  - `cache_transparent_all_formats`: after any calls, the cache does not show in the outcome of
    one, if those at its key were for frames of the same kind and did not fail to evaluate.
  - `compact_never_panics`: the compact unwinders of both architectures do not panic.
-/

import FramehopUnwind.Unwinder.RuleCache
import FramehopUnwind.Unwinder.X86Compact
import FramehopUnwind.Unwinder.Aarch64Compact
import FramehopUnwind.Unwinder.PeUnwind
import FramehopUnwind.Lib.Memo

namespace FramehopUnwind.Unwinder

open Lib Lib.Word Lib.Runs Unwinder.Compact

/-! ## `with_cache` -/

section WithCache

variable {D E : Type} {A : Arch}

/-- What `with_cache` calls on a miss: module, address, relative address, registers and stack. -/
abbrev Callback (D E : Type) (A : Arch) :=
  Module D → FrameAddress → Nat → A.Regs → ReadStack → Option (Except E (UnwindResult A.Rule)) × A.Regs

variable (callback : Callback D E A)

def withCache (u : UnwinderInternal D) (address : FrameAddress) (regs : A.Regs) (cache : RuleCache A.Rule)
    (read : ReadStack) :
    Option (Unwound A) × RuleCache A.Rule :=
  let lookupAddress := address.addressForLookup
  let isFirstFrame := !address.isReturnAddress
  let insertAndExec (rule : A.Rule) (regs : A.Regs) :=
    (some (notInterrupted A (A.exec rule isFirstFrame regs read)), cache.insert lookupAddress u.modulesGeneration rule)
  match cache.lookup lookupAddress u.modulesGeneration with
  | some rule => (some (notInterrupted A (A.exec rule isFirstFrame regs read)), cache)
  | none =>
    match findModuleForAddress u.modules lookupAddress with
    | none => insertAndExec A.fallbackRule regs
    | some (m, rel) =>
      match callback m address rel regs read with
      | (some (.ok (.execRule rule)), regs) => insertAndExec rule regs
      | (some (.ok (.uncacheable returnAddress)), regs) => (some (.ok (some (returnAddress, false)), regs), cache)
      | (some (.ok (.interrupted address)), regs) => (some (.ok (some (address, true)), regs), cache)
      | (some (.error _), regs) => insertAndExec A.fallbackRule regs
      | (none, _) => (none, cache)

/-- One call, its cache apart. -/
structure Call (D : Type) (A : Arch) where
  u : UnwinderInternal D
  address : FrameAddress
  regs : A.Regs
  read : ReadStack

def Call.key (e : Call D A) : Nat × Nat := (e.address.addressForLookup, e.u.modulesGeneration)

def Call.run (e : Call D A) (cache : RuleCache A.Rule) : Option (Unwound A) × RuleCache A.Rule :=
  withCache callback e.u e.address e.regs cache e.read

/-- A rule executed for this call, on registers the callback may have written. -/
def Call.exec (e : Call D A) (rule : A.Rule) (regs : A.Regs) : Option (Unwound A) :=
  some (notInterrupted A (A.exec rule (!e.address.isReturnAddress) regs e.read))

/-- What a callback's result comes to: a rule to keep, and the outcome. -/
def Call.finish (e : Call D A) : Option (Except E (UnwindResult A.Rule)) × A.Regs → Option A.Rule × Option (Unwound A)
  | (some (.ok (.execRule rule)), regs) => (some rule, e.exec rule regs)
  | (some (.ok (.uncacheable returnAddress)), regs) => (none, some (.ok (some (returnAddress, false)), regs))
  | (some (.ok (.interrupted address)), regs) => (none, some (.ok (some (address, true)), regs))
  | (some (.error _), regs) => (some A.fallbackRule, e.exec A.fallbackRule regs)
  | (none, _) => (none, none)

/-- A call on a miss. -/
def Call.compute (e : Call D A) : Option A.Rule × Option (Unwound A) :=
  match findModuleForAddress e.u.modules e.address.addressForLookup with
  | none => (some A.fallbackRule, e.exec A.fallbackRule e.regs)
  | some (m, rel) => e.finish (callback m e.address rel e.regs e.read)

def ruleStore (R : Type) : Memo.Store (Nat × Nat) R (RuleCache R) where
  empty := .new
  lookup cache key := cache.lookup key.1 key.2
  insert cache key rule := cache.insert key.1 key.2 rule
  lookup_empty _ := rfl
  lookup_insert := by
    intro cache key rule key' rule' h
    rcases lookup_insert cache _ _ _ _ _ _ h with ⟨ha, hg, rfl⟩ | h
    · exact .inl ⟨Prod.ext ha hg, rfl⟩
    · exact .inr h

def task : Memo.Task (Nat × Nat) A.Rule (Call D A) (Option (Unwound A)) where
  key := Call.key
  use e rule := e.exec rule e.regs
  compute := Call.compute callback

/-- `with_cache` is the computation through the cache. -/
theorem run_eq (e : Call D A) (cache : RuleCache A.Rule) :
    e.run callback cache = Memo.run (ruleStore A.Rule) (task callback) e cache := by
  unfold Call.run withCache Memo.run
  simp only [ruleStore, task, Call.key, Call.compute, Call.exec]
  cases cache.lookup e.address.addressForLookup e.u.modulesGeneration with
  | some rule => rfl
  | none =>
    cases findModuleForAddress e.u.modules e.address.addressForLookup with
    | none => rfl
    | some found =>
      obtain ⟨m, rel⟩ := found
      dsimp only
      rcases callback m e.address rel e.regs e.read with ⟨_ | result, regs⟩
      · rfl
      · cases result with
        | error error => rfl
        | ok result => cases result <;> rfl

/-! ## What the cache rests on -/

/-- The tables alone give the result, and the registers are left as they are. -/
def Fixed (m : Module D) (address : FrameAddress) (rel : Nat) : Prop :=
  ∃ r, ∀ regs read, callback m address rel regs read = (r, regs)

/-- Only the kind of an address matters beside its relative address, and only the tables give rules. -/
structure Decided : Prop where
  kind : ∀ m {a a' : FrameAddress} rel regs read, a.isReturnAddress = a'.isReturnAddress →
    callback m a rel regs read = callback m a' rel regs read
  tables : ∀ m a rel, Fixed callback m a rel ∨
    ∀ regs read rule, (callback m a rel regs read).1 ≠ some (.ok (.execRule rule))

/-- What the tables have for the address is evaluated on the registers and the stack of this call,
    and fails. -/
def Call.Fails (e : Call D A) : Prop :=
  ∃ m rel error, findModuleForAddress e.u.modules e.address.addressForLookup = some (m, rel) ∧
    ¬ Fixed callback m e.address rel ∧ (callback m e.address rel e.regs e.read).1 = some (.error error)

variable {callback}

/-- What the tables give one call to keep, it also gives another. -/
theorem finish_fixed {e q : Call D A} {r : Option (Except E (UnwindResult A.Rule))} {rule : A.Rule}
    (h : (e.finish (r, e.regs)).1 = some rule) : q.exec rule q.regs = (q.finish (r, q.regs)).2 := by
  match r, h with
  | some (.ok (.execRule rule')), h =>
    cases h
    rfl
  | some (.error error), h =>
    cases h
    rfl

theorem finish_of_not_rule {e : Call D A} {r : Option (Except E (UnwindResult A.Rule)) × A.Regs} {rule : A.Rule}
    (h : (e.finish r).1 = some rule) (hne : ∀ rule, r.1 ≠ some (.ok (.execRule rule))) :
    ∃ error, r.1 = some (.error error) := by
  match r, h with
  | (some (.ok (.execRule rule')), regs), _ => exact absurd rfl (hne rule')
  | (some (.error error), regs), _ => exact ⟨error, rfl⟩

/-- A rule that a call keeps does for another call at its key what computing does. -/
theorem exec_eq_compute (hcallback : Decided callback) {e q : Call D A} (hmodules : e.u.modules = q.u.modules)
    (hlookup : e.address.addressForLookup = q.address.addressForLookup)
    (hkind : e.address.isReturnAddress = q.address.isReturnAddress) (hok : ¬ e.Fails callback) {rule : A.Rule}
    (h : (e.compute callback).1 = some rule) : q.exec rule q.regs = (q.compute callback).2 := by
  unfold Call.compute at h ⊢
  rw [← hmodules, ← hlookup]
  cases hfind : findModuleForAddress e.u.modules e.address.addressForLookup with
  | none =>
    rw [hfind] at h
    cases h
    rfl
  | some found =>
    obtain ⟨m, rel⟩ := found
    rw [hfind] at h
    dsimp only at h ⊢
    by_cases hfixed : Fixed callback m e.address rel
    · obtain ⟨r, hr⟩ := hfixed
      rw [← hcallback.kind m rel q.regs q.read hkind, hr]
      rw [hr] at h
      exact finish_fixed h
    · have hne := (hcallback.tables m e.address rel).resolve_left hfixed
      obtain ⟨error, herror⟩ := finish_of_not_rule h (hne e.regs e.read)
      exact absurd ⟨m, rel, error, hfind, hfixed, herror⟩ hok

/-- The cache that a sequence of calls leaves. -/
def runCalls (callback : Callback D E A) (history : List (Call D A)) (cache : RuleCache A.Rule) : RuleCache A.Rule :=
  history.foldl (fun cache e => (e.run callback cache).2) cache

theorem runCalls_eq (history : List (Call D A)) (cache : RuleCache A.Rule) :
    runCalls callback history cache = Memo.runs (ruleStore A.Rule) (task callback) history cache := by
  induction history generalizing cache with
  | nil => rfl
  | cons e history ih =>
    unfold runCalls Memo.runs at *
    rw [List.foldl_cons, List.foldl_cons, ih, run_eq]

theorem withCache_transparent (hcallback : Decided callback) {s : Generation.St D}
    (h : Reach Generation.init Generation.Step s)
    (history : List (Call D A)) (q : Call D A) (hh : ∀ e ∈ history, e.u ∈ s.snapshots) (hq : q.u ∈ s.snapshots)
    (hkind : ∀ e ∈ history, e.key = q.key → e.address.isReturnAddress = q.address.isReturnAddress)
    (hok : ∀ e ∈ history, e.key = q.key → ¬ e.Fails callback) :
    (q.run callback (runCalls callback history .new)).1 = (q.run callback .new).1 := by
  have hi := Generation.inv h
  rw [run_eq, run_eq, runCalls_eq]
  apply Memo.run_transparent
  intro e he hk rule hrule
  have hkey := Prod.ext_iff.mp hk
  have hmodules := hi.determined _ (hi.published _ (hh e he)) _ (hi.published _ hq) hkey.2
  exact exec_eq_compute hcallback hmodules hkey.1 (hkind e he hk) (hok e he hk) hrule

end WithCache

/-! ## All formats -/

inductive UnwindData where
  | dwarf (data : ModuleUnwindDataInternal)
  | compactUnwindInfoAndEhFrame (data : CompactUnwindInfoAndEhFrame)
  | peUnwindInfo (sections : X86.Pe.PeSections)
  deriving DecidableEq

inductive ImplError where
  | unwinder (e : UnwinderError)
  | compactUnwindInfo (e : CompactUnwindInfoUnwinderError)
  | noDwarfData
  | pe (e : X86.Pe.PeUnwinderError)
  | aarch64Unsupported

/-- How an architecture unwinds by the other formats. -/
structure Formats (A : Arch) where
  compact : CompactArch A.Rule
  /-- What a PE image's sections may leave to do on the registers and the stack. -/
  Work : Type
  /-- Sections, relative address, first frame?: an error, a rule, or work. -/
  peWork : X86.Pe.PeSections → Nat → Bool → Option (Except ImplError (A.Rule ⊕ Work))
  pePlain : Work → A.Regs → ReadStack → Option (Except ImplError Nat) × A.Regs

/-- `PeUnwinding::unwind_frame`: a rule, or the return address that the work gives. -/
def Formats.pe {A : Arch} (F : Formats A) (sections : X86.Pe.PeSections) (rel : Nat) (regs : A.Regs) (first : Bool)
    (read : ReadStack) : Option (Except ImplError (UnwindResult A.Rule)) × A.Regs :=
  match F.peWork sections rel first with
  | none => (none, regs)
  | some (.error e) => (some (.error e), regs)
  | some (.ok (.inl rule)) => (some (.ok (.execRule rule)), regs)
  | some (.ok (.inr work)) =>
    match F.pePlain work regs read with
    | (none, regs) => (none, regs)
    | (some (.error e), regs) => (some (.error e), regs)
    | (some (.ok returnAddress), regs) => (some (.ok (.uncacheable returnAddress)), regs)

theorem Formats.pe_tables {A : Arch} (F : Formats A) (sections : X86.Pe.PeSections) (rel : Nat) (first : Bool) :
    (∃ r, ∀ regs read, F.pe sections rel regs first read = (r, regs)) ∨
    ∀ regs read rule, (F.pe sections rel regs first read).1 ≠ some (.ok (.execRule rule)) := by
  unfold Formats.pe
  rcases F.peWork sections rel first with _ | _ | rule | work
  · exact .inl ⟨_, fun _ _ => rfl⟩
  · exact .inl ⟨_, fun _ _ => rfl⟩
  · exact .inl ⟨_, fun _ _ => rfl⟩
  · right
    intro regs read rule
    dsimp only
    split <;> simp

variable (G : Gimli) (I : UnwindInfo) {A : Arch} (F : Formats A)

/-- A DWARF result, which leaves the registers where it fails. -/
def ofDwarf (regs : A.Regs) : Except UnwinderError (UnwindResult A.Rule × A.Regs) →
    Option (Except ImplError (UnwindResult A.Rule)) × A.Regs
  | .ok (result, regs) => (some (.ok result), regs)
  | .error e => (some (.error (.unwinder e)), regs)

/-- `unwind_frame_impl`. -/
def unwindFrameImplAll : Callback UnwindData ImplError A := fun m address rel regs read =>
  match m.unwindData with
  | .dwarf data => ofDwarf regs (unwindFrameImpl G A { m with unwindData := data } address rel regs read)
  | .compactUnwindInfoAndEhFrame data =>
    match (data.unwinder m.baseSvma).unwindFrame I F.compact rel (!address.isReturnAddress) with
    | .error .panic => (none, regs)
    | .error (.error e) => (some (.error (.compactUnwindInfo e)), regs)
    | .ok (.execRule rule) => (some (.ok (.execRule rule)), regs)
    | .ok (.needDwarf fdeOffset) =>
      match data.ehFrame with
      | none => (some (.error .noDwarfData), regs)
      | some ehFrame =>
        ofDwarf regs ((unwindFrameWithFde G A .ehFrame ehFrame data.baseAddresses m.baseSvma regs
          (!address.isReturnAddress)
          rel fdeOffset read).mapError .dwarf)
  | .peUnwindInfo sections => F.pe sections rel regs (!address.isReturnAddress) read

variable {G I F}

theorem unwindFrameImpl_eq (m : UnwindModule) (address : FrameAddress) (rel : Nat) (regs : A.Regs) (read : ReadStack) :
    unwindFrameImpl G A m address rel regs read =
      (fdeOf G m rel).bind fun fde =>
        (unwindFrameWithFde G A fde.1 fde.2.1 fde.2.2.1 m.baseSvma regs (!address.isReturnAddress) rel
          fde.2.2.2 read).mapError .dwarf := by
  unfold unwindFrameImpl
  cases fdeOf G m rel with
  | error e => rfl
  | ok fde =>
    obtain ⟨ty, bytes, bases, fdeOffset⟩ := fde
    dsimp only [Except.bind]
    cases unwindFrameWithFde G A ty bytes bases m.baseSvma regs (!address.isReturnAddress) rel fdeOffset read <;> rfl

/-- By an FDE, the row's translation decides: it has a rule or it is evaluated. -/
theorem unwindFrameWithFde_tables (ty : UnwindSectionType) (bytes : Bytes) (bases : BaseAddresses) (baseSvma : Nat)
    (first : Bool) (rel fdeOffset : Nat) :
    (∃ r, ∀ (regs : A.Regs) read,
      ofDwarf regs ((unwindFrameWithFde G A ty bytes bases baseSvma regs first rel fdeOffset read).mapError .dwarf) =
        (r, regs)) ∨
    ∀ (regs : A.Regs) read rule,
      (ofDwarf regs
        ((unwindFrameWithFde G A ty bytes bases baseSvma regs first rel fdeOffset read).mapError .dwarf)).1 ≠
        some (.ok (.execRule rule)) := by
  simp only [unwindFrameWithFde]
  cases unwindInfoForFde G ty bytes bases (wrappingAdd baseSvma rel) fdeOffset with
  | error e =>
    left
    cases e <;> exact ⟨_, fun _ _ => rfl⟩
  | ok info =>
    obtain ⟨row, signal⟩ := info
    dsimp only
    cases hrule : A.rowRule row signal with
    | some rule =>
      left
      refine ⟨some (.ok (.execRule rule)), ?_⟩
      intro regs read
      rw [A.unwindFrame_rule row regs first signal read rule hrule]
      rfl
    | none =>
      right
      intro regs read rule
      have hne := fun regs' => A.unwindFrame_generic row regs first signal read rule regs' hrule
      cases hresult : A.unwindFrame row regs first signal read with
      | error e => simp [ofDwarf, Except.mapError]
      | ok r =>
        obtain ⟨result, regs'⟩ := r
        intro h
        have hresult' : result = .execRule rule := by simpa [ofDwarf, Except.mapError] using h
        rw [hresult'] at hresult
        exact hne regs' hresult

theorem unwindFrameImpl_tables (m : UnwindModule) (address : FrameAddress) (rel : Nat) :
    (∃ r, ∀ (regs : A.Regs) read, ofDwarf regs (unwindFrameImpl G A m address rel regs read) = (r, regs)) ∨
    ∀ (regs : A.Regs) read rule, (ofDwarf regs (unwindFrameImpl G A m address rel regs read)).1 ≠
      some (.ok (.execRule rule)) := by
  simp only [unwindFrameImpl_eq]
  cases fdeOf G m rel with
  | error e => exact .inl ⟨_, fun _ _ => rfl⟩
  | ok fde => exact unwindFrameWithFde_tables ..

theorem callback_decided : Decided (unwindFrameImplAll G I F) where
  kind := by
    intro m a a' rel regs read hkind
    simp only [unwindFrameImplAll, unwindFrameImpl, hkind]
  tables := by
    intro m a rel
    unfold Fixed unwindFrameImplAll
    cases m.unwindData with
    | dwarf data => exact unwindFrameImpl_tables ..
    | compactUnwindInfoAndEhFrame data =>
      dsimp only
      cases (data.unwinder m.baseSvma).unwindFrame I F.compact rel (!a.isReturnAddress) with
      | error fault => cases fault <;> exact .inl ⟨_, fun _ _ => rfl⟩
      | ok result =>
        cases result with
        | execRule rule => exact .inl ⟨_, fun _ _ => rfl⟩
        | needDwarf fdeOffset =>
          cases data.ehFrame with
          | none => exact .inl ⟨_, fun _ _ => rfl⟩
          | some ehFrame => exact unwindFrameWithFde_tables ..
    | peUnwindInfo sections => exact F.pe_tables sections rel (!a.isReturnAddress)

/-! ## The two architectures -/

/-- A PE result; a panic or a chain without an end does not return. -/
def ofPe {α β : Type} : Except X86.Pe.Failure α × β → Option (Except ImplError α) × β
  | (.ok result, regs) => (some (.ok result), regs)
  | (.error (.error e), regs) => (some (.error (.pe e)), regs)
  | (.error .panic, regs) | (.error .diverges, regs) => (none, regs)

/-- `fuel` is for the chains of a PE image's unwind infos. -/
def formatsX86 (U : X86.Pe.PeUnwindInfo) (fuel : Nat) (parse : Nat → X86.Opcode) : Formats X86.archX86 where
  compact := X86.compactX86 parse
  Work := X86.Pe.Work U
  peWork s rel first :=
    (ofPe (X86.Pe.findWork U s fuel rel first, ())).1.map fun r => r.map fun work =>
      match work.rule with
      | some rule => .inl rule
      | none => .inr work
  pePlain work regs read := ofPe (work.plain read regs)

def formatsAarch64 (parse : Nat → Aarch64.Opcode) : Formats Aarch64.archAarch64 where
  compact := Aarch64.compactAarch64 parse
  Work := Empty
  peWork _ _ _ := some (.error .aarch64Unsupported)
  pePlain work := work.elim

/-- On x86-64 this is the `unwind_frame` of x86_64/pe.rs. -/
theorem formatsX86_pe (U : X86.Pe.PeUnwindInfo) (fuel : Nat) (parse : Nat → X86.Opcode)
    (s : X86.Pe.PeSections) (rel : Nat) (regs : X86.UnwindRegs) (first : Bool) (read : ReadStack) :
    (formatsX86 U fuel parse).pe s rel regs first read = ofPe (X86.Pe.unwindFramePe U s fuel rel first read regs) := by
  unfold Formats.pe formatsX86 X86.Pe.unwindFramePe
  dsimp only
  cases X86.Pe.findWork U s fuel rel first with
  | error f => cases f <;> rfl
  | ok work =>
    cases hrule : work.rule with
    | some rule =>
      simp only [ofPe, Option.map_some, Except.map, hrule]
      rfl
    | none =>
      simp only [ofPe, Option.map_some, Except.map, hrule]
      rcases work.plain read regs with ⟨f | ra, regs'⟩
      · cases f <;> rfl
      · rfl

/-- A rule from a row comes with the registers as they are. -/
theorem unwindFrameImpl_rule {m : UnwindModule} {address : FrameAddress} {rel : Nat} {regs regs' : A.Regs}
    {read : ReadStack}
    {rule : A.Rule} (h : unwindFrameImpl G A m address rel regs read = .ok (.execRule rule, regs')) : regs' = regs := by
  have hof : ofDwarf regs (unwindFrameImpl G A m address rel regs read) = (some (.ok (.execRule rule)), regs') := by
    rw [h]
    rfl
  rcases unwindFrameImpl_tables (G := G) m address rel with ⟨r, hr⟩ | hne
  · exact congrArg Prod.snd (hof.symm.trans (hr regs read))
  · exact absurd (congrArg Prod.fst hof) (hne regs read rule)

/-- Over DWARF modules alone. -/
theorem withCache_dwarf (u : UnwinderInternal ModuleUnwindDataInternal) (address : FrameAddress) (regs : A.Regs)
    (cache : RuleCache A.Rule) (read : ReadStack) :
    withCache (fun m address rel regs read => ofDwarf regs (unwindFrameImpl G A m address rel regs read)) u address regs
        cache read =
      (some (unwindFrameSignalAware G A u address regs cache read).1,
        (unwindFrameSignalAware G A u address regs cache read).2) := by
  unfold withCache unwindFrameSignalAware
  dsimp only
  cases cache.lookup address.addressForLookup u.modulesGeneration with
  | some rule => rfl
  | none =>
    cases findModuleForAddress u.modules address.addressForLookup with
    | none => rfl
    | some found =>
      obtain ⟨m, rel⟩ := found
      dsimp only
      cases hresult : unwindFrameImpl G A m address rel regs read with
      | error e => rfl
      | ok r =>
        obtain ⟨result, regs'⟩ := r
        cases result with
        | execRule rule =>
          obtain rfl := unwindFrameImpl_rule hresult
          rfl
        | uncacheable | interrupted => rfl

/-! ## The cache does not show -/

/-- Over the snapshots of any run and modules of any format: if every earlier call at the query's
    lookup address and generation was for a frame of the same kind, the first or a caller, and
    none of them failed to evaluate what its tables have, the retained cache gives the query the
    outcome an empty one gives: the same result, interrupted flag and registers. -/
theorem cache_transparent_all_formats {s : Generation.St UnwindData} (h : Reach Generation.init Generation.Step s)
    (history : List (Call UnwindData A)) (q : Call UnwindData A) (hh : ∀ e ∈ history, e.u ∈ s.snapshots)
    (hq : q.u ∈ s.snapshots)
    (hkind : ∀ e ∈ history, e.key = q.key → e.address.isReturnAddress = q.address.isReturnAddress)
    (hok : ∀ e ∈ history, e.key = q.key → ¬ e.Fails (unwindFrameImplAll G I F)) :
    (q.run (unwindFrameImplAll G I F) (runCalls (unwindFrameImplAll G I F) history .new)).1 =
      (q.run (unwindFrameImplAll G I F) .new).1 :=
  withCache_transparent callback_decided h history q hh hq hkind hok

/-- Where instructions are aligned, a return address is not looked up where an instruction is. -/
theorem kind_of_aligned {a a' : FrameAddress} (ha : 4 ∣ a.address) (ha' : 4 ∣ a'.address)
    (h : a.addressForLookup = a'.addressForLookup) : a.isReturnAddress = a'.isReturnAddress := by
  match a, a' with
  | .instructionPointer a, .instructionPointer a' => rfl
  | .returnAddress a pos, .returnAddress a' pos' => rfl
  | .instructionPointer a, .returnAddress a' pos' =>
    simp only [FrameAddress.address, FrameAddress.addressForLookup] at ha ha' h
    omega
  | .returnAddress a pos, .instructionPointer a' =>
    simp only [FrameAddress.address, FrameAddress.addressForLookup] at ha ha' h
    omega

/-- A Mach-O module with one function, from 0x1100 to 0x1200. -/
def machoModule : Module UnwindData :=
  ⟨⟨0x1000, 0x2000⟩, 0x1000, 0, .compactUnwindInfoAndEhFrame ⟨[], none, none, none, ⟨none, none, none, none⟩, none⟩⟩

def machoUnwinder : UnwinderInternal UnwindData := ⟨[[machoModule]], 1, insertModule_wf wf_nil machoModule⟩

def machoCall (address : FrameAddress) (regs : Aarch64.UnwindRegs) (read : ReadStack) :
    Call UnwindData Aarch64.archAarch64 :=
  ⟨machoUnwinder, address, regs, read⟩

theorem machoModule_found : findModuleForAddress machoUnwinder.modules 0x1150 = some (machoModule, 0x150) := rfl

/-- A walk from 0x1150 and then one from the same address, with other registers and another stack. -/
theorem cache_transparent_all_formats_macho : ∃ s : Generation.St UnwindData, Reach Generation.init Generation.Step s ∧
    ∀ G regs regs' read read',
      let callback := unwindFrameImplAll G (oneFunction ⟨0x100, 0x200, 0⟩) (formatsAarch64 fun _ => .frameBased)
      let history :=
        [machoCall (.instructionPointer 0x1150) regs read, machoCall (.returnAddress 0x1154 (by decide)) regs read]
      let q := machoCall (.instructionPointer 0x1150) regs' read'
      (q.run callback (runCalls callback history .new)).1 = (q.run callback .new).1 := by
  obtain ⟨s, h, hu⟩ := Generation.runEdits_published [.add machoModule] 0 2 (by decide) rfl
  have hu : machoUnwinder ∈ s.snapshots := hu
  refine ⟨s, h, ?_⟩
  intro G regs regs' read read' callback history q
  refine cache_transparent_all_formats h history q ?_ hu ?_ ?_
  · intro e he
    rcases List.mem_pair.mp he with rfl | rfl <;> exact hu
  · intro e he hk
    have haligned : 4 ∣ e.address.address := by
      rcases List.mem_pair.mp he with rfl | rfl
      · exact ⟨0x454, rfl⟩
      · exact ⟨0x455, rfl⟩
    exact kind_of_aligned haligned ⟨0x454, rfl⟩ (show e.address.addressForLookup = q.address.addressForLookup from
      congrArg Prod.fst hk)
  · rintro e he hk ⟨m, rel, error, hfind, hfixed, -⟩
    rcases List.mem_pair.mp he with rfl | rfl
    · obtain ⟨rfl, rfl⟩ := Prod.mk.inj (Option.some.inj (machoModule_found.symm.trans hfind))
      exact hfixed ⟨some (.ok (.execRule .useFramePointer)), fun _ _ => rfl⟩
    · have hlookup : 0x1153 = 0x1150 := congrArg Prod.fst hk
      exact absurd hlookup (by decide)

/-- No table, section, text or address makes the compact unwinder of either architecture panic: the
    analysis is given an offset in the function's bytes, as it asks of its callers. -/
theorem compact_never_panics (hI : I.Covering) (parse : Nat → X86.Opcode) (parse' : Nat → Aarch64.Opcode)
    (data : CompactUnwindInfoAndEhFrame) (baseSvma : Nat) {rel : Nat} (hrel : rel < 2 ^ 32) (first : Bool) :
    (data.unwinder baseSvma).unwindFrame I (X86.compactX86 parse) rel first ≠ .error .panic ∧
      (data.unwinder baseSvma).unwindFrame I (Aarch64.compactAarch64 parse') rel first ≠ .error .panic :=
  ⟨unwindFrame_no_panic hI (X86.compactX86_panics parse) _ hrel first,
    unwindFrame_no_panic hI (Aarch64.compactAarch64_panics parse') _ hrel first⟩

theorem oneFunction_covering (f : Function) : (oneFunction f).Covering := by
  intro bytes address f' h
  simp only [oneFunction] at h
  split at h
  case isTrue hrange =>
    cases h
    exact hrange
  case isFalse => cases h

/-- A function whose bytes the module has. -/
theorem compact_never_panics_text :
    let data : CompactUnwindInfoAndEhFrame :=
      ⟨[], none, none, none, ⟨none, none, none, none⟩, some ⟨[0x55, 0xc3], ⟨0x100, 0x102⟩⟩⟩
    (data.unwinder 0).unwindFrame (oneFunction ⟨0x100, 0x102, 0⟩) (X86.compactX86 fun _ => .null) 0x101 true ≠
        .error .panic ∧
      (data.unwinder 0).unwindFrame (oneFunction ⟨0x100, 0x102, 0⟩) (Aarch64.compactAarch64 fun _ => .null) 0x101 true ≠
        .error .panic :=
  compact_never_panics (oneFunction_covering _) (fun _ => .null) (fun _ => .null) _ 0 (by decide) true

end FramehopUnwind.Unwinder
