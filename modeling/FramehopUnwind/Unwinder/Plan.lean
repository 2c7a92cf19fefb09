/-
  FramehopUnwind.Unwinder.Plan — what the module list says of an address.

  The tables of a module, of whichever format, decide how a frame is unwound before a register or
  the stack is looked at: by a rule, by the row of an FDE that has none, or, in a PE image, by work
  on the registers and the stack. A panic and a chain of PE infos without an end are decided by the
  tables too. `planAll` is that decision. `rowAt` is the row of an FDE that it comes to, with the
  FDE's mark of a signal trampoline; compact unwind info leads to one where an opcode says so.

  The parsers of the three formats are not part of the repository; `Crates` has them together.

  Proved:
  - `compute_plan`: on a miss `with_cache` carries the plan out.
  - `run_eq_some_iff`: a call's outcomes are those of its rule, cached or planned, of a row or of
    work, and of the fallback rule where a row or work fails.
  - `rowAt_caller`: a row that the first frame's address leads to, a caller's leads to.
-/

import FramehopUnwind.Unwinder.WithCache

namespace FramehopUnwind.Unwinder

open Lib Lib.Word Unwinder.Compact

/-- `gimli`, `macho_unwind_info` with its two kinds of opcodes, and `pe_unwind_info`. -/
structure Crates where
  gimli : Gimli
  unwindInfo : UnwindInfo
  opcodeX86 : Nat → X86.Opcode
  opcodeArm64 : Nat → Aarch64.Opcode
  pe : X86.Pe.PeUnwindInfo

/-- A module of DWARF data. -/
def ofDwarfModule (m : UnwindModule) : Module UnwindData := { m with unwindData := .dwarf m.unwindData }

/-! ## Plans -/

variable {A : Arch}

inductive Plan (F : Formats A) where
  | rule (rule : A.Rule)
  | row (row : UnwindTableRow) (isSignalFrame : Bool)
  | plain (work : F.Work)
  /-- The call panics, or does not come back. -/
  | stuck

section Plans

variable (G : Gimli) (I : UnwindInfo) (F : Formats A)

/-- An FDE's row has a rule or is evaluated. -/
def rowPlan : Except DwarfUnwinderError (UnwindTableRow × Bool) → Plan F
  | .error .unwindInfoForAddressFailed => .rule A.ruleIfUncoveredByFde
  | .error _ => .rule A.fallbackRule
  | .ok (row, isSignalFrame) =>
    match A.rowRule row isSignalFrame with
    | some rule => .rule rule
    | none => .row row isSignalFrame

def modulePlan (m : Module UnwindData) (rel : Nat) (first : Bool) : Plan F :=
  match m.unwindData with
  | .dwarf data =>
    match fdeOf G { m with unwindData := data } rel with
    | .error _ => .rule A.fallbackRule
    | .ok (ty, bytes, bases, fdeOffset) =>
      rowPlan F (unwindInfoForFde G ty bytes bases (wrappingAdd m.baseSvma rel) fdeOffset)
  | .compactUnwindInfoAndEhFrame data =>
    match (data.unwinder m.baseSvma).unwindFrame I F.compact rel first with
    | .error .panic => .stuck
    | .error (.error _) => .rule A.fallbackRule
    | .ok (.execRule rule) => .rule rule
    | .ok (.needDwarf fdeOffset) =>
      match data.ehFrame with
      | none => .rule A.fallbackRule
      | some ehFrame =>
        rowPlan F (unwindInfoForFde G .ehFrame ehFrame data.baseAddresses (wrappingAdd m.baseSvma rel) fdeOffset)
  | .peUnwindInfo sections =>
    match F.peWork sections rel first with
    | none => .stuck
    | some (.error _) => .rule A.fallbackRule
    | some (.ok (.inl rule)) => .rule rule
    | some (.ok (.inr work)) => .plain work

def planAll (modules : Chunks UnwindData) (lookupAddress : Nat) (first : Bool) : Plan F :=
  match findModuleForAddress modules lookupAddress with
  | none => .rule A.fallbackRule
  | some (m, rel) => modulePlan G I F m rel first

/-- The row of an FDE that unwinding at a relative address comes to, and the FDE's mark. -/
def rowAt (m : Module UnwindData) (rel : Nat) (first : Bool) : Option (UnwindTableRow × Bool) :=
  match m.unwindData with
  | .dwarf data =>
    match fdeOf G { m with unwindData := data } rel with
    | .error _ => none
    | .ok (ty, bytes, bases, fdeOffset) =>
      (unwindInfoForFde G ty bytes bases (wrappingAdd m.baseSvma rel) fdeOffset).toOption
  | .compactUnwindInfoAndEhFrame data =>
    match (data.unwinder m.baseSvma).unwindFrame I F.compact rel first, data.ehFrame with
    | .ok (.needDwarf fdeOffset), some ehFrame =>
      (unwindInfoForFde G .ehFrame ehFrame data.baseAddresses (wrappingAdd m.baseSvma rel) fdeOffset).toOption
    | _, _ => none
  | .peUnwindInfo _ => none

/-- The address is covered by an FDE that is marked as a signal trampoline's. The tables name the
    FDE as for a caller: the code around an instruction pointer has no part in it. -/
def Marked (modules : Chunks UnwindData) (lookupAddress : Nat) : Prop :=
  ∃ m rel row, findModuleForAddress modules lookupAddress = some (m, rel) ∧ rowAt G I F m rel false = some (row, true)

end Plans

variable {G : Gimli} {I : UnwindInfo} {F : Formats A}

theorem rowPlan_row {info : Except DwarfUnwinderError (UnwindTableRow × Bool)} {row : UnwindTableRow} {signal : Bool}
    (h : rowPlan F info = .row row signal) : info.toOption = some (row, signal) ∧ A.rowRule row signal = none := by
  unfold rowPlan at h
  split at h
  · cases h
  · cases h
  · split at h
    · cases h
    · rename_i hnone
      cases h
      exact ⟨rfl, hnone⟩

theorem rowPlan_ne_plain {info : Except DwarfUnwinderError (UnwindTableRow × Bool)} {work : F.Work} :
    rowPlan F info ≠ .plain work := by
  intro h
  unfold rowPlan at h
  repeat' split at h
  all_goals cases h

/-- A row to evaluate is the FDE's, and has no rule. -/
theorem modulePlan_row {m : Module UnwindData} {rel : Nat} {first : Bool} {row : UnwindTableRow} {signal : Bool}
    (h : modulePlan G I F m rel first = .row row signal) :
    rowAt G I F m rel first = some (row, signal) ∧ A.rowRule row signal = none := by
  unfold modulePlan at h
  unfold rowAt
  cases hdata : m.unwindData with
  | dwarf data =>
    rw [hdata] at h
    dsimp only at h ⊢
    split at h
    · cases h
    · exact rowPlan_row h
  | compactUnwindInfoAndEhFrame data =>
    rw [hdata] at h
    dsimp only at h ⊢
    split at h
    · cases h
    · cases h
    · cases h
    · rename_i hdwarf
      split at h
      · cases h
      · rename_i hframe
        simp only [hdwarf, hframe]
        exact rowPlan_row h
  | peUnwindInfo sections =>
    rw [hdata] at h
    dsimp only at h
    split at h <;> cases h

theorem planAll_row {modules : Chunks UnwindData} {lookup : Nat} {first : Bool} {row : UnwindTableRow} {signal : Bool}
    (h : planAll G I F modules lookup first = .row row signal) :
    ∃ m rel, findModuleForAddress modules lookup = some (m, rel) ∧ rowAt G I F m rel first = some (row, signal) ∧
      A.rowRule row signal = none := by
  unfold planAll at h
  split at h
  · cases h
  · rename_i m rel hfind
    exact ⟨m, rel, hfind, modulePlan_row h⟩

/-- A row that the first frame's address leads to, a caller's leads to. -/
theorem rowAt_caller {m : Module UnwindData} {rel : Nat} {first : Bool} {row : UnwindTableRow × Bool}
    (h : rowAt G I F m rel first = some row) : rowAt G I F m rel false = some row := by
  unfold rowAt at h ⊢
  split at h
  · exact h
  · split at h
    · rename_i hdwarf hframe
      simp only [unwindFrame_caller hdwarf, hframe]
      exact h
    · cases h
  · cases h

/-- A row to evaluate that is marked is of a marked FDE. -/
theorem marked_of_plan {modules : Chunks UnwindData} {lookup : Nat} {first : Bool} {row : UnwindTableRow}
    (h : planAll G I F modules lookup first = .row row true) : Marked G I F modules lookup := by
  obtain ⟨m, rel, hfind, hrow, -⟩ := planAll_row h
  exact ⟨m, rel, row, hfind, rowAt_caller hrow⟩

/-- A row that is evaluated is the one of the mark. -/
theorem signal_of_marked {modules : Chunks UnwindData} {lookup : Nat} {first signal : Bool} {row : UnwindTableRow}
    (hm : Marked G I F modules lookup) (h : planAll G I F modules lookup first = .row row signal) : signal = true := by
  obtain ⟨m, rel, row', hfind, hrow'⟩ := hm
  obtain ⟨m', rel', hfind', hrow, -⟩ := planAll_row h
  cases hfind.symm.trans hfind'
  cases hrow'.symm.trans (rowAt_caller hrow)
  rfl

/-- A PE image has no FDEs. -/
theorem not_marked_of_plain {modules : Chunks UnwindData} {lookup : Nat} {first : Bool} {work : F.Work}
    (h : planAll G I F modules lookup first = .plain work) : ¬ Marked G I F modules lookup := by
  intro hm
  obtain ⟨m, rel, row, hfind, hrow⟩ := hm
  unfold planAll modulePlan at h
  rw [hfind] at h
  unfold rowAt at hrow
  split at hrow
  · rename_i hdata
    simp only [hdata] at h
    split at h
    · cases h
    · exact rowPlan_ne_plain h
  · rename_i hdata
    simp only [hdata] at h
    repeat' split at h
    all_goals first | cases h | exact rowPlan_ne_plain h
  · cases hrow

/-! ## Carrying a plan out -/

section Calls

variable (G I F)

/-- The outcome of a rule for a call. -/
def Call.execute (e : Call UnwindData A) (rule : A.Rule) (regs : A.Regs) : Unwound A :=
  notInterrupted A (A.exec rule (!e.address.isReturnAddress) regs e.read)

def Call.evaluate (e : Call UnwindData A) (row : UnwindTableRow) (isSignalFrame : Bool) :
    Except DwarfUnwinderError (UnwindResult A.Rule × A.Regs) :=
  A.unwindFrame row e.regs (!e.address.isReturnAddress) isSignalFrame e.read

def Call.plan (e : Call UnwindData A) : Plan F :=
  planAll G I F e.u.modules e.address.addressForLookup (!e.address.isReturnAddress)

/-- What a plan comes to: a rule to keep, and the outcome. -/
def Call.carryOut (e : Call UnwindData A) : Plan F → Option A.Rule × Option (Unwound A)
  | .rule rule => (some rule, some (e.execute rule e.regs))
  | .row row isSignalFrame =>
    match e.evaluate row isSignalFrame with
    | .ok (.execRule rule, regs) => (some rule, some (e.execute rule regs))
    | .ok (.uncacheable returnAddress, regs) => (none, some (.ok (some (returnAddress, false)), regs))
    | .ok (.interrupted address, regs) => (none, some (.ok (some (address, true)), regs))
    | .error _ => (some A.fallbackRule, some (e.execute A.fallbackRule e.regs))
  | .plain work =>
    match F.pePlain work e.regs e.read with
    | (none, _) => (none, none)
    | (some (.error _), regs) => (some A.fallbackRule, some (e.execute A.fallbackRule regs))
    | (some (.ok returnAddress), regs) => (none, some (.ok (some (returnAddress, false)), regs))
  | .stuck => (none, none)

variable {G I F}

/-- A rule's caller was not interrupted. -/
theorem execute_eq {e : Call UnwindData A} {rule : A.Rule} {regs regs' : A.Regs} {a : Nat} {interrupted : Bool}
    (h : e.execute rule regs = (.ok (some (a, interrupted)), regs')) :
    interrupted = false ∧ A.exec rule (!e.address.isReturnAddress) regs e.read = (.ok (some a), regs') := by
  unfold Call.execute at h
  generalize A.exec rule (!e.address.isReturnAddress) regs e.read = r at h ⊢
  rcases r with ⟨_ | _ | a', regs''⟩
  · cases h
  · cases h
  · cases h
    exact ⟨rfl, rfl⟩

/-- What the tables of a module leave of a call, by its plan. -/
inductive Follows (regs : A.Regs) (first : Bool) (read : ReadStack) :
    Plan F → Option (Except ImplError (UnwindResult A.Rule)) × A.Regs → Prop
  | rule (rule : A.Rule) : Follows regs first read (.rule rule) (some (.ok (.execRule rule)), regs)
  | fallback (error : ImplError) : Follows regs first read (.rule A.fallbackRule) (some (.error error), regs)
  | row {row signal} (hnone : A.rowRule row signal = none) : Follows regs first read (.row row signal)
      (ofDwarf regs ((A.unwindFrame row regs first signal read).mapError .dwarf))
  | plain (work : F.Work) : Follows regs first read (.plain work)
      ((F.pePlain work regs read).1.map (Except.map .uncacheable), (F.pePlain work regs read).2)
  | stuck : Follows regs first read .stuck (none, regs)

theorem fde_follows (ty : UnwindSectionType) (bytes : Bytes) (bases : BaseAddresses) (baseSvma : Nat) (regs : A.Regs)
    (first : Bool) (rel fdeOffset : Nat) (read : ReadStack) :
    Follows regs first read (rowPlan F (unwindInfoForFde G ty bytes bases (wrappingAdd baseSvma rel) fdeOffset))
      (ofDwarf regs
        ((unwindFrameWithFde G A ty bytes bases baseSvma regs first rel fdeOffset read).mapError .dwarf)) := by
  unfold unwindFrameWithFde rowPlan
  cases unwindInfoForFde G ty bytes bases (wrappingAdd baseSvma rel) fdeOffset with
  | error error =>
    cases error with
    | unwindInfoForAddressFailed => exact .rule _
    | _ => exact .fallback _
  | ok info =>
    obtain ⟨row, signal⟩ := info
    dsimp only
    cases hrule : A.rowRule row signal with
    | some rule =>
      rw [A.unwindFrame_rule row regs first signal read rule hrule]
      exact .rule rule
    | none => exact .row hrule

/-- `unwind_frame_impl` follows the plan. -/
theorem impl_follows (m : Module UnwindData) (address : FrameAddress) (rel : Nat) (regs : A.Regs) (read : ReadStack) :
    Follows regs (!address.isReturnAddress) read (modulePlan G I F m rel (!address.isReturnAddress))
      (unwindFrameImplAll G I F m address rel regs read) := by
  unfold unwindFrameImplAll modulePlan
  cases m.unwindData with
  | dwarf data =>
    dsimp only
    rw [unwindFrameImpl_eq]
    cases fdeOf G { m with unwindData := data } rel with
    | error error => exact .fallback _
    | ok fde => exact fde_follows _ _ _ _ _ _ _ _ _
  | compactUnwindInfoAndEhFrame data =>
    dsimp only
    cases (data.unwinder m.baseSvma).unwindFrame I F.compact rel (!address.isReturnAddress) with
    | error fault =>
      cases fault with
      | error error => exact .fallback _
      | panic => exact .stuck
    | ok result =>
      cases result with
      | execRule rule => exact .rule rule
      | needDwarf fdeOffset =>
        cases data.ehFrame with
        | none => exact .fallback _
        | some ehFrame => exact fde_follows _ _ _ _ _ _ _ _ _
  | peUnwindInfo sections =>
    dsimp only [Formats.pe]
    rcases F.peWork sections rel (!address.isReturnAddress) with _ | error | rule | work
    · exact .stuck
    · exact .fallback error
    · exact .rule rule
    · have hplain : Follows regs (!address.isReturnAddress) read (.plain work)
        ((F.pePlain work regs read).1.map (Except.map .uncacheable), (F.pePlain work regs read).2) := .plain work
      dsimp only
      generalize F.pePlain work regs read = r at hplain ⊢
      rcases r with ⟨_ | _ | a, regs'⟩ <;> exact hplain

theorem finish_plan (e : Call UnwindData A) (m : Module UnwindData) (rel : Nat) :
    e.finish (unwindFrameImplAll G I F m e.address rel e.regs e.read) =
      e.carryOut F (modulePlan G I F m rel (!e.address.isReturnAddress)) := by
  have h := impl_follows (G := G) (I := I) (F := F) m e.address rel e.regs e.read
  generalize modulePlan G I F m rel (!e.address.isReturnAddress) = plan at h ⊢
  generalize unwindFrameImplAll G I F m e.address rel e.regs e.read = result at h ⊢
  cases h with
  | rule rule => rfl
  | fallback error => rfl
  | @row row signal hnone =>
    simp only [Call.carryOut, Call.evaluate]
    cases A.unwindFrame row e.regs (!e.address.isReturnAddress) signal e.read with
    | error error => rfl
    | ok r =>
      obtain ⟨result, regs⟩ := r
      cases result <;> rfl
  | plain work =>
    simp only [Call.carryOut]
    rcases F.pePlain work e.regs e.read with ⟨_ | _ | a, regs⟩ <;> rfl
  | stuck => rfl

theorem compute_plan (e : Call UnwindData A) : e.compute (unwindFrameImplAll G I F) = e.carryOut F (e.plan G I F) := by
  unfold Call.compute Call.plan planAll
  cases findModuleForAddress e.u.modules e.address.addressForLookup with
  | none => rfl
  | some found => exact finish_plan e found.1 found.2

/-! ## The outcomes of a call -/

variable (G I F)

/-- The rule of a call, if it comes to one: the cached one, or the tables'. -/
def Call.HasRule (e : Call UnwindData A) (cache : RuleCache A.Rule) (rule : A.Rule) : Prop :=
  cache.lookup e.key.1 e.key.2 = some rule ∨ cache.lookup e.key.1 e.key.2 = none ∧ e.plan G I F = .rule rule

inductive Call.Outcome (e : Call UnwindData A) (cache : RuleCache A.Rule) : Unwound A → Prop
  | rule {rule} (h : e.HasRule G I F cache rule) : e.Outcome cache (e.execute rule e.regs)
  | row {row signal a} {interrupted : Bool} {regs} (hl : cache.lookup e.key.1 e.key.2 = none)
      (hp : e.plan G I F = .row row signal)
      (he : e.evaluate row signal = .ok (if interrupted then .interrupted a else .uncacheable a, regs)) :
      e.Outcome cache (.ok (some (a, interrupted)), regs)
  | rowFails {row signal error} (hl : cache.lookup e.key.1 e.key.2 = none) (hp : e.plan G I F = .row row signal)
      (he : e.evaluate row signal = .error error) : e.Outcome cache (e.execute A.fallbackRule e.regs)
  | plain {work a regs} (hl : cache.lookup e.key.1 e.key.2 = none) (hp : e.plan G I F = .plain work)
      (he : F.pePlain work e.regs e.read = (some (.ok a), regs)) : e.Outcome cache (.ok (some (a, false)), regs)
  | plainFails {work error regs} (hl : cache.lookup e.key.1 e.key.2 = none) (hp : e.plan G I F = .plain work)
      (he : F.pePlain work e.regs e.read = (some (.error error), regs)) :
      e.Outcome cache (e.execute A.fallbackRule regs)

variable {G I F} {e : Call UnwindData A} {cache : RuleCache A.Rule} {u : Unwound A}

theorem run_hit_all {rule : A.Rule} (h : cache.lookup e.key.1 e.key.2 = some rule) :
    (e.run (unwindFrameImplAll G I F) cache).1 = some (e.execute rule e.regs) := by
  rw [run_eq, Memo.run_hit h]
  rfl

theorem run_miss_all (h : cache.lookup e.key.1 e.key.2 = none) :
    (e.run (unwindFrameImplAll G I F) cache).1 = (e.carryOut F (e.plan G I F)).2 := by
  rw [← compute_plan, run_eq, Memo.run_miss h]
  rfl

theorem outcome_of_carryOut (hl : cache.lookup e.key.1 e.key.2 = none) (h : (e.carryOut F (e.plan G I F)).2 = some u) :
    e.Outcome G I F cache u := by
  cases hp : e.plan G I F with
  | rule rule =>
    rw [hp] at h
    cases h
    exact .rule (.inr ⟨hl, hp⟩)
  | row row signal =>
    rw [hp, Call.carryOut] at h
    obtain ⟨-, -, -, -, hnone⟩ := planAll_row hp
    cases he : e.evaluate row signal with
    | error error =>
      rw [he] at h
      cases h
      exact .rowFails hl hp he
    | ok r =>
      obtain ⟨result, regs⟩ := r
      rw [he] at h
      cases result with
      | execRule rule => exact absurd he (A.unwindFrame_generic _ _ _ _ _ rule regs hnone)
      | uncacheable a =>
        cases h
        exact .row hl hp he
      | interrupted a =>
        cases h
        exact .row hl hp he
  | plain work =>
    rw [hp, Call.carryOut] at h
    rcases he : F.pePlain work e.regs e.read with ⟨_ | _ | a, regs⟩
    · rw [he] at h
      cases h
    · rw [he] at h
      cases h
      exact .plainFails hl hp he
    · rw [he] at h
      cases h
      exact .plain hl hp he
  | stuck =>
    rw [hp] at h
    cases h

/-- A call returns exactly its outcomes. -/
theorem run_eq_some_iff : (e.run (unwindFrameImplAll G I F) cache).1 = some u ↔ e.Outcome G I F cache u := by
  constructor
  · intro h
    cases hl : cache.lookup e.key.1 e.key.2 with
    | some rule =>
      rw [run_hit_all hl] at h
      cases h
      exact .rule (.inl hl)
    | none =>
      rw [run_miss_all hl] at h
      exact outcome_of_carryOut hl h
  · intro h
    cases h with
    | rule h =>
      rcases h with hl | ⟨hl, hp⟩
      · exact run_hit_all hl
      · rw [run_miss_all hl, hp]
        rfl
    | @row row signal a interrupted regs hl hp he =>
      rw [run_miss_all hl, hp, Call.carryOut, he]
      cases interrupted <;> rfl
    | rowFails hl hp he => rw [run_miss_all hl, hp, Call.carryOut, he]
    | plain hl hp he => rw [run_miss_all hl, hp, Call.carryOut, he]
    | plainFails hl hp he => rw [run_miss_all hl, hp, Call.carryOut, he]

end Calls

end FramehopUnwind.Unwinder
