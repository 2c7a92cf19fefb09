/-
  FramehopUnwind.Cursor.Accesses — the words a step reads and the sums it does not check
  (cursor.rs `step`, sigreturn.rs `restore`, vendor/framehop/src: unwinder.rs, dwarf.rs, macho.rs,
  code_address.rs).

  `step` again, as a program (see `Unwinder.Accesses`). Its sums besides the target's: the address
  before a return address, an address relative to its module, what the tables of the module make
  with that (`tableSums`), and the fields of the kernel's signal frame. The tables are looked at
  before any word is read. What a target adds is a parameter (`Native.Accesses`), with its three
  values. `cursor_init` makes no plain sum.

  Proved:
  - `step_run`: the program computes `step`.
  - `step_fits_iff`: a step's sums fit iff `StepFits`, which says it of the state before.
  - `analysisSums_fit`: on x86 what the analysis counts fits in every function of fewer than
    `2^16 - 1` bytes.
  - `step_reads`: every read is at a word.
-/

import FramehopUnwind.Cursor.Progress
import FramehopUnwind.Unwinder.Aarch64Accesses
import FramehopUnwind.Unwinder.AnalysisAccesses
import FramehopUnwind.Unwinder.PeAccesses
import FramehopUnwind.Unwinder.X86Accesses

namespace FramehopUnwind.Cursor

open Lib.Word Lib.Access Unwinder Unwinder.Compact
open State (Out Walk)

/-! ## The targets -/

/-- A target's part of `step` as programs: what they compute, when their sums fit, and that they
    read at words. -/
structure Native.Accesses (N : Native) extends N.Rank where
  exec : N.arch.Rule → Bool → N.arch.Regs → Prog (Except Error (Option Nat) × N.arch.Regs)
  exec_run : ∀ rule first regs read, (exec rule first regs).run read = N.arch.exec rule first regs read
  exec_reads : ∀ {read : ReadStack} {regs}, read.Words → Words regs → ∀ rule first,
    ∀ a ∈ (exec rule first regs).reads read, a < 2 ^ 64
  RuleFits : N.arch.Rule → N.arch.Regs → ReadStack → Prop
  exec_fits : ∀ rule first regs read, (exec rule first regs).Fits read ↔ RuleFits rule regs read
  fallback_fits : ∀ regs read, RuleFits N.arch.fallbackRule regs read
  unwindFrame : UnwindTableRow → N.arch.Regs → Bool → Bool →
    Prog (Except DwarfUnwinderError (UnwindResult N.arch.Rule × N.arch.Regs))
  unwindFrame_run : ∀ row regs first signal read,
    (unwindFrame row regs first signal).run read = N.arch.unwindFrame row regs first signal read
  unwindFrame_reads : ∀ {read : ReadStack} {regs row}, read.Words → Words regs → row.Words → ∀ first signal,
    ∀ a ∈ (unwindFrame row regs first signal).reads read, a < 2 ^ 64
  RowFits : UnwindTableRow → Bool → N.arch.Regs → ReadStack → Prop
  unwindFrame_fits : ∀ row regs first signal read,
    (unwindFrame row regs first signal).Fits read ↔ RowFits row signal regs read
  /-- The work of a PE image, and before it the differences on the way there. -/
  plain : ∀ K, (N.formats K).Work → N.arch.Regs → Prog (Option (Except ImplError Nat) × N.arch.Regs)
  plain_run : ∀ K work regs read, (plain K work regs).run read = (N.formats K).pePlain work regs read
  plain_reads : ∀ {K} {read : ReadStack} {regs}, K.Words → read.Words → Words regs → ∀ work,
    ∀ a ∈ (plain K work regs).reads read, a < 2 ^ 64
  PlainFits : ∀ K, (N.formats K).Work → N.arch.Regs → ReadStack → Prop
  plain_fits : ∀ K work regs read, (plain K work regs).Fits read ↔ PlainFits K work regs read
  peSums : Crates → X86.Pe.PeSections → Nat → Bool → List Bool
  /-- The analysis of a function's code, in the first frame. -/
  analysis : Crates → Function → Nat → Bytes → Prog (Option N.arch.Rule)
  analysis_rule : ∀ {K f offset code read rule}, offset ≤ code.length →
    (analysis K f offset code).run read = some rule →
      (N.formats K).compact.unwindFrame f true offset (some code) = .ok (.execRule rule)
  restore : Option (N.arch.Regs → Prog (Option (Nat × N.arch.Regs)))
  restore_run : N.restore = restore.map fun p regs read => (p regs).run read
  restore_reads : ∀ {p regs read}, restore = some p → ∀ a ∈ (p regs).reads read, a < 2 ^ 64
  RestoreFits : N.arch.Regs → ReadStack → Prop
  restore_fits : ∀ {p} regs read, restore = some p → ((p regs).Fits read ↔ RestoreFits regs read)

/-- The plain path of a PE image, as `unwind_frame_impl` sees it. -/
def plainX86 {U : X86.Pe.PeUnwindInfo} (work : X86.Pe.Work U) (regs : X86.UnwindRegs) :
    Prog (Option (Except ImplError Nat) × X86.UnwindRegs) :=
  (X86.Pe.Accesses.plain regs work).bind fun r => .done (ofPe r)

theorem plainX86_run {U : X86.Pe.PeUnwindInfo} (work : X86.Pe.Work U) (regs : X86.UnwindRegs) (read : ReadStack) :
    (plainX86 work regs).run read = ofPe (work.plain read regs) := by
  rw [plainX86, Prog.run_bind, X86.Pe.Accesses.plain_run]
  rfl

theorem plainX86_reads {U : X86.Pe.PeUnwindInfo} (hU : U.Words) {read : ReadStack} (hread : read.Words)
    {regs : X86.UnwindRegs}
    (h : regs.Words) (work : X86.Pe.Work U) : ∀ a ∈ (plainX86 work regs).reads read, a < 2 ^ 64 := by
  rw [plainX86, Prog.reads_bind, Prog.reads_done, List.append_nil]
  exact X86.Pe.Accesses.plain_reads hread hU h work

theorem plainX86_fits {U : X86.Pe.PeUnwindInfo} (work : X86.Pe.Work U) (regs : X86.UnwindRegs) (read : ReadStack) :
    (plainX86 work regs).Fits read ↔ X86.Pe.Accesses.PlainFits read regs work := by
  rw [plainX86, Prog.fits_bind, X86.Pe.Accesses.plain_fits]
  exact and_iff_left trivial

theorem analysisX86_rule {K : Crates} {f : Function} {offset : Nat} {code : Bytes} {read : ReadStack}
    {rule : X86.UnwindRule} (hoffset : offset ≤ code.length)
    (h : (X86.Accesses.ruleFromInstructionAnalysis code offset).run read = some rule) :
    (x86.formats K).compact.unwindFrame f true offset (some code) = .ok (.execRule rule) := by
  rw [X86.Accesses.ruleFromInstructionAnalysis_run] at h
  have hfirst : X86.firstFrameRule (K.opcodeX86 f.opcode) offset (some code) = .ok (some rule) := by
    unfold X86.firstFrameRule
    dsimp only
    rw [if_neg (not_lt.mpr hoffset), h]
  show X86.unwindFrameCompact K.opcodeX86 f true offset (some code) = _
  unfold X86.unwindFrameCompact
  rw [if_pos rfl, hfirst]
  rfl

def accessesX86 : x86.Accesses :=
  { rankX86 with
    exec := X86.Accesses.exec
    exec_run := fun rule first regs read => X86.Accesses.exec_run read regs rule first
    exec_reads := fun _ h => X86.Accesses.exec_reads h
    RuleFits := X86.Accesses.RuleFits
    exec_fits := fun rule first regs read => X86.Accesses.exec_fits read regs rule first
    fallback_fits := fun _ _ => trivial
    unwindFrame := X86.Accesses.unwindFrame
    unwindFrame_run := fun row regs first signal read => X86.Accesses.unwindFrame_run read regs row first signal
    unwindFrame_reads := fun hread h hrow => X86.Accesses.unwindFrame_reads hread h hrow
    RowFits := X86.Accesses.RowFits
    unwindFrame_fits := fun row regs first signal read => X86.Accesses.unwindFrame_fits read regs row first signal
    plain := fun _ => plainX86
    plain_run := fun _ => plainX86_run
    plain_reads := fun hK hread h => plainX86_reads hK.pe hread h
    PlainFits := fun _ work regs read => X86.Pe.Accesses.PlainFits read regs work
    plain_fits := fun _ => plainX86_fits
    peSums := fun K s rel first => X86.Pe.Accesses.tableSums K.pe s X86.Pe.chainFuel rel first
    analysis := fun _ _ offset code => X86.Accesses.ruleFromInstructionAnalysis code offset
    analysis_rule := analysisX86_rule
    restore := none
    restore_run := rfl
    restore_reads := nofun
    RestoreFits := fun _ _ => True
    restore_fits := nofun }

/-- On x86 the analysis of a function with fewer than `2^16 - 1` bytes counts no further than a `u16`. -/
theorem analysisSums_fit (K : Crates) (f : Function) (offset : Nat) {code : Bytes} (h : code.length + 1 < 2 ^ 16)
    (read : ReadStack) : ∀ b ∈ (accessesX86.analysis K f offset code).sumsMade read, b = true :=
  (Prog.fits_iff_sumsMade read _).mp (X86.Accesses.ruleFromInstructionAnalysis_fits read h offset)

/-- A function without an opcode is not looked at. -/
def analysisAarch64 (K : Crates) (f : Function) (offset : Nat) (code : Bytes) : Prog (Option Aarch64.UnwindRule) :=
  if K.opcodeArm64 f.opcode = .null then .done none else Aarch64.Accesses.ruleFromInstructionAnalysis code offset

theorem analysisAarch64_rule {K : Crates} {f : Function} {offset : Nat} {code : Bytes} {read : ReadStack}
    {rule : Aarch64.UnwindRule} (hoffset : offset ≤ code.length)
    (h : (analysisAarch64 K f offset code).run read = some rule) :
    (aarch64.formats K).compact.unwindFrame f true offset (some code) = .ok (.execRule rule) := by
  unfold analysisAarch64 at h
  split at h
  · cases h
  rename_i hnull
  rw [Aarch64.Accesses.ruleFromInstructionAnalysis_run] at h
  have hfirst : Aarch64.firstFrameRule (K.opcodeArm64 f.opcode) offset (some code) = .ok (some rule) := by
    unfold Aarch64.firstFrameRule
    dsimp only
    rw [if_neg hnull, if_neg (not_lt.mpr hoffset), h]
  show Aarch64.unwindFrameCompact K.opcodeArm64 f true offset (some code) = _
  unfold Aarch64.unwindFrameCompact
  dsimp only
  rw [if_pos rfl, hfirst]
  rfl

def accessesAarch64 : aarch64.Accesses :=
  { rankAarch64 with
    exec := Aarch64.Accesses.exec
    exec_run := fun rule first regs read => Aarch64.Accesses.exec_run read regs rule first
    exec_reads := fun _ _ => Aarch64.Accesses.exec_reads
    RuleFits := fun _ _ _ => True
    exec_fits := fun rule first regs read => iff_of_true (Aarch64.Accesses.exec_fits read regs rule first) trivial
    fallback_fits := fun _ _ => trivial
    unwindFrame := Aarch64.Accesses.unwindFrame
    unwindFrame_run := fun row regs first signal read => Aarch64.Accesses.unwindFrame_run read regs row first signal
    unwindFrame_reads := fun hread h hrow => Aarch64.Accesses.unwindFrame_reads hread h hrow
    RowFits := fun row _ _ _ => ∀ s ∈ Aarch64.Accesses.translationSums row, signedFits s.1 s.2 = true
    unwindFrame_fits := fun row regs first signal read => Aarch64.Accesses.unwindFrame_fits read regs row first signal
    plain := fun _ => Empty.elim
    plain_run := fun _ work => work.elim
    plain_reads := fun _ _ _ work => work.elim
    PlainFits := fun _ => Empty.elim
    plain_fits := fun _ work => work.elim
    peSums := fun _ _ _ _ => []
    analysis := analysisAarch64
    analysis_rule := analysisAarch64_rule
    restore := none
    restore_run := rfl
    restore_reads := nofun
    RestoreFits := fun _ _ => True
    restore_fits := nofun }

/-! ## The kernel's signal frame -/

/-- The fields `restore` reads, from the `sigcontext` on and in its order. -/
def sigcontextFields : List Nat := [sigcontextRegs + 29 * 8, sigcontextRegs + 30 * 8, sigcontextSp, sigcontextPc]

/-- The words at these offsets from the `sigcontext`, while they can be read: `sigcontext + offset`
    is not checked. -/
def fields (base : Nat) : List Nat → Prog (Option (List Nat))
  | [] => .done (some [])
  | offset :: offsets =>
    .sum (decide (base + offset < 2 ^ 64)) (.read (wrappingAdd base offset) fun
      | none => .done none
      | some v => (fields base offsets).bind fun vs => .done (vs.map (v :: ·)))

def restoreProg (regs : Aarch64.UnwindRegs) : Prog (Option (Nat × Aarch64.UnwindRegs)) :=
  match checkedAdd regs.sp sigcontext with
  | none => .done none
  | some base =>
    (fields base sigcontextFields).bind fun
      | some [fp, lr, sp, pc] => .done (some (pc, ((regs.setFp fp).setLr lr).setSp sp))
      | _ => .done none

/-- Each field's address is a word, as far as the fields before it can be read. -/
def FieldsFit (read : ReadStack) (base : Nat) : List Nat → Prop
  | [] => True
  | offset :: offsets => base + offset < 2 ^ 64 ∧ (read (wrappingAdd base offset) ≠ none → FieldsFit read base offsets)

def RestoreFits (regs : Aarch64.UnwindRegs) (read : ReadStack) : Prop :=
  ∀ base, checkedAdd regs.sp sigcontext = some base → FieldsFit read base sigcontextFields

theorem fields_fits (read : ReadStack) (base : Nat) (offsets : List Nat) :
    (fields base offsets).Fits read ↔ FieldsFit read base offsets := by
  induction offsets with
  | nil => exact Iff.rfl
  | cons offset offsets ih =>
    rw [fields, Prog.fits_sum, decide_eq_true_eq, Prog.fits_read, FieldsFit]
    refine and_congr_right fun _ => ?_
    cases read (wrappingAdd base offset) with
    | none => exact iff_of_true trivial fun h => absurd rfl h
    | some v =>
      simp only [Prog.fits_bind, Prog.fits_done, and_true, ne_eq, reduceCtorEq, not_false_eq_true, forall_const]
      exact ih

theorem fields_reads (read : ReadStack) (base : Nat) (offsets : List Nat) :
    ∀ a ∈ (fields base offsets).reads read, a < 2 ^ 64 := by
  induction offsets with
  | nil => exact nofun
  | cons offset offsets ih =>
    rw [fields, Prog.reads_sum, Prog.reads_read, List.forall_mem_cons]
    refine ⟨X86.Pe.wrappingAdd_words base offset, ?_⟩
    cases read (wrappingAdd base offset) with
    | none => exact nofun
    | some v => simpa using ih

theorem fields_run (read : ReadStack) (base : Nat) (offsets : List Nat) :
    (fields base offsets).run read = offsets.mapM fun offset => read (wrappingAdd base offset) := by
  induction offsets with
  | nil => rfl
  | cons offset offsets ih =>
    rw [fields, Prog.run_sum, Prog.run_read, List.mapM_cons, ← ih]
    cases read (wrappingAdd base offset) with
    | none => rfl
    | some v =>
      dsimp only
      rw [Prog.run_bind]
      cases (fields base offsets).run read <;> rfl

theorem restoreProg_run (regs : Aarch64.UnwindRegs) (read : ReadStack) :
    (restoreProg regs).run read = restore regs read := by
  unfold restoreProg restore
  cases checkedAdd regs.sp sigcontext with
  | none => rfl
  | some base =>
    simp only [Option.bind_eq_bind, Option.bind_some]
    rw [Prog.run_bind, fields_run]
    simp only [sigcontextFields, List.mapM_cons, List.mapM_nil]
    -- the first field that cannot be read ends both
    cases read (wrappingAdd base (sigcontextRegs + 29 * 8)) with
    | none => rfl
    | some fp =>
      cases read (wrappingAdd base (sigcontextRegs + 30 * 8)) with
      | none => rfl
      | some lr =>
        cases read (wrappingAdd base sigcontextSp) with
        | none => rfl
        | some sp => cases read (wrappingAdd base sigcontextPc) <;> rfl

theorem restoreProg_fits (regs : Aarch64.UnwindRegs) (read : ReadStack) :
    (restoreProg regs).Fits read ↔ RestoreFits regs read := by
  unfold restoreProg RestoreFits
  cases checkedAdd regs.sp sigcontext with
  | none => exact iff_of_true trivial nofun
  | some base =>
    simp only [Option.some.injEq, forall_eq']
    rw [Prog.fits_bind, fields_fits]
    refine and_iff_left ?_
    split <;> trivial

theorem restoreProg_reads (regs : Aarch64.UnwindRegs) (read : ReadStack) :
    ∀ a ∈ (restoreProg regs).reads read, a < 2 ^ 64 := by
  unfold restoreProg
  cases checkedAdd regs.sp sigcontext with
  | none => exact nofun
  | some base =>
    dsimp only
    rw [Prog.reads_bind, List.forall_mem_append]
    refine ⟨fields_reads read base sigcontextFields, ?_⟩
    split <;> exact nofun

def accessesAarch64Linux : aarch64Linux.Accesses :=
  { rankAarch64Linux, accessesAarch64 with
    restore := some restoreProg
    restore_run := congrArg some (funext fun regs => funext fun read => (restoreProg_run regs read).symm)
    restore_reads := by
      rintro _ regs read ⟨⟩
      exact restoreProg_reads regs read
    RestoreFits := RestoreFits
    restore_fits := by
      rintro _ regs read ⟨⟩
      exact restoreProg_fits regs read }

def Platform.accesses : (p : Platform) → p.native.Accesses
  | x86 => accessesX86
  | aarch64 => accessesAarch64
  | aarch64Linux => accessesAarch64Linux

/-! ## The unwind by the tables -/

variable (K : Crates) {N : Native} (P : N.Accesses)

/-- A section's range relative to the base. -/
def rangeSums (range : Option Range) (baseSvma : Nat) : List Bool :=
  match range with
  | some range => [decide (baseSvma ≤ range.start), decide (baseSvma ≤ range.stop)]
  | none => []

/-- The address relative to the stub helper, or to its function, and what the analysis of the
    function's code counts. An offset past the code panics first. -/
def functionSums (u : CompactUnwindInfoUnwinder) (rel : Nat) (isFirstFrame : Bool) : List Bool :=
  if inRange u.stubsRange rel then []
  else if inRange u.stubHelperRange rel then if isFirstFrame then [decide (u.stubHelperRange.1 ≤ rel)] else []
  else
    match u.functionForAddress K.unwindInfo rel with
    | .error _ => []
    | .ok f =>
      if isFirstFrame ∧ rel = f.startAddress then []
      else
        decide (f.startAddress ≤ rel) ::
          match isFirstFrame, functionBytes u.textBytes f with
          | true, some code =>
            if code.length < subU32 rel f.startAddress then []
            else (P.analysis K f (subU32 rel f.startAddress) code).sumsMade fun _ => none
          | _, _ => []

/-- `base_svma + rel` is a word. -/
def svmaFits (m : Module UnwindData) (rel : Nat) : Bool := decide (m.baseSvma + rel < 2 ^ 64)

/-- The sums that the tables of a module make by themselves. The address in the module's file is
    for the table of an `.eh_frame_hdr`, and for the FDE that was found. -/
def tableSums (m : Module UnwindData) (rel : Nat) (isFirstFrame : Bool) : List Bool :=
  match m.unwindData with
  | .dwarf data =>
    (match data with
      | .ehFrameHdrAndEhFrame _ _ _ => [svmaFits m rel]
      | _ => []) ++
    match fdeOf K.gimli { m with unwindData := data } rel with
    | .error _ => []
    | .ok _ => [svmaFits m rel]
  | .compactUnwindInfoAndEhFrame data =>
    rangeSums data.stubsSvma m.baseSvma ++ rangeSums data.stubHelperSvma m.baseSvma ++
    functionSums K P (data.unwinder m.baseSvma) rel isFirstFrame ++
    match (data.unwinder m.baseSvma).unwindFrame K.unwindInfo (N.formats K).compact rel isFirstFrame, data.ehFrame with
    | .ok (.needDwarf _), some _ => [svmaFits m rel]
    | _, _ => []
  | .peUnwindInfo sections => P.peSums K sections rel isFirstFrame

/-- `unwind_frame_with_fde`. -/
def withFdeProg (ty : UnwindSectionType) (bytes : Bytes) (bases : BaseAddresses) (svma : Nat) (regs : N.arch.Regs)
    (isFirstFrame : Bool) (fdeOffset : Nat) :
    Prog (Option (Except ImplError (UnwindResult N.arch.Rule)) × N.arch.Regs) :=
  match unwindInfoForFde K.gimli ty bytes bases svma fdeOffset with
  | .error .unwindInfoForAddressFailed => .done (some (.ok (.execRule N.arch.ruleIfUncoveredByFde)), regs)
  | .error e => .done (some (.error (.unwinder (.dwarf e))), regs)
  | .ok (row, isSignalFrame) =>
    (P.unwindFrame row regs isFirstFrame isSignalFrame).bind fun r => .done (ofDwarf regs (r.mapError .dwarf))

def implProg (m : Module UnwindData) (isFirstFrame : Bool) (rel : Nat) (regs : N.arch.Regs) :
    Prog (Option (Except ImplError (UnwindResult N.arch.Rule)) × N.arch.Regs) :=
  .sums (tableSums K P m rel isFirstFrame)
    (match m.unwindData with
    | .dwarf data =>
      match fdeOf K.gimli { m with unwindData := data } rel with
      | .error e => .done (some (.error (.unwinder e)), regs)
      | .ok (ty, bytes, bases, fdeOffset) => withFdeProg K P ty bytes bases (wrappingAdd m.baseSvma rel) regs
          isFirstFrame fdeOffset
    | .compactUnwindInfoAndEhFrame data =>
      match (data.unwinder m.baseSvma).unwindFrame K.unwindInfo (N.formats K).compact rel isFirstFrame with
      | .error .panic => .done (none, regs)
      | .error (.error e) => .done (some (.error (.compactUnwindInfo e)), regs)
      | .ok (.execRule rule) => .done (some (.ok (.execRule rule)), regs)
      | .ok (.needDwarf fdeOffset) =>
        match data.ehFrame with
        | none => .done (some (.error .noDwarfData), regs)
        | some ehFrame =>
          withFdeProg K P .ehFrame ehFrame data.baseAddresses (wrappingAdd m.baseSvma rel) regs isFirstFrame fdeOffset
    | .peUnwindInfo sections =>
      match (N.formats K).peWork sections rel isFirstFrame with
      | none => .done (none, regs)
      | some (.error e) => .done (some (.error e), regs)
      | some (.ok (.inl rule)) => .done (some (.ok (.execRule rule)), regs)
      | some (.ok (.inr work)) => (P.plain K work regs).bind fun r => .done (r.1.map (Except.map .uncacheable), r.2))

/-- `address_for_lookup`: the address before a return address. -/
def lookupFits : FrameAddress → Bool
  | .instructionPointer _ => true
  | .returnAddress address _ => decide (1 ≤ address)

/-- `with_cache`. -/
def cacheProg (u : UnwinderInternal UnwindData) (address : FrameAddress) (regs : N.arch.Regs)
    (cache : RuleCache N.arch.Rule) :
    Prog (Option (Unwound N.arch) × RuleCache N.arch.Rule) :=
  let lookupAddress := address.addressForLookup
  let isFirstFrame := !address.isReturnAddress
  let insertAndExec (rule : N.arch.Rule) (regs : N.arch.Regs) :
      Prog (Option (Unwound N.arch) × RuleCache N.arch.Rule) :=
    (P.exec rule isFirstFrame regs).bind fun r =>
      .done (some (notInterrupted N.arch r), cache.insert lookupAddress u.modulesGeneration rule)
  .sum (lookupFits address)
    (match cache.lookup lookupAddress u.modulesGeneration with
    | some rule => (P.exec rule isFirstFrame regs).bind fun r => .done (some (notInterrupted N.arch r), cache)
    | none =>
      match findModuleForAddress u.modules lookupAddress with
      | none => insertAndExec N.arch.fallbackRule regs
      | some (m, rel) =>
        .sum (decide (m.baseAvma ≤ lookupAddress))
          ((implProg K P m isFirstFrame rel regs).bind fun
            | (some (.ok (.execRule rule)), regs) => insertAndExec rule regs
            | (some (.ok (.uncacheable returnAddress)), regs) =>
              .done (some (.ok (some (returnAddress, false)), regs), cache)
            | (some (.ok (.interrupted address)), regs) => .done (some (.ok (some (address, true)), regs), cache)
            | (some (.error _), regs) => insertAndExec N.arch.fallbackRule regs
            | (none, _) => .done (none, cache)))

theorem withFdeProg_run (read : ReadStack) (ty : UnwindSectionType) (bytes : Bytes) (bases : BaseAddresses)
    (baseSvma rel : Nat) (regs : N.arch.Regs) (first : Bool) (fdeOffset : Nat) :
    (withFdeProg K P ty bytes bases (wrappingAdd baseSvma rel) regs first fdeOffset).run read =
      ofDwarf regs ((unwindFrameWithFde K.gimli N.arch ty bytes bases baseSvma regs first rel fdeOffset read).mapError
        .dwarf) := by
  unfold withFdeProg unwindFrameWithFde
  cases unwindInfoForFde K.gimli ty bytes bases (wrappingAdd baseSvma rel) fdeOffset with
  | error e => cases e <;> rfl
  | ok info =>
    dsimp only
    rw [Prog.run_bind, P.unwindFrame_run]
    rfl

theorem implProg_run (read : ReadStack) (m : Module UnwindData) (address : FrameAddress) (rel : Nat)
    (regs : N.arch.Regs) :
    (implProg K P m (!address.isReturnAddress) rel regs).run read = N.unwindFrameImpl K m address rel regs read := by
  unfold implProg Native.unwindFrameImpl unwindFrameImplAll
  rw [Prog.run_sums]
  cases m.unwindData with
  | dwarf data =>
    dsimp only
    rw [unwindFrameImpl_eq]
    cases fdeOf K.gimli { m with unwindData := data } rel with
    | error e => rfl
    | ok fde => exact withFdeProg_run K P read _ _ _ _ _ _ _ _
  | compactUnwindInfoAndEhFrame data =>
    dsimp only
    cases (data.unwinder m.baseSvma).unwindFrame K.unwindInfo (N.formats K).compact rel (!address.isReturnAddress) with
    | error fault => cases fault <;> rfl
    | ok result =>
      cases result with
      | execRule rule => rfl
      | needDwarf fdeOffset =>
        cases data.ehFrame with
        | none => rfl
        | some ehFrame => exact withFdeProg_run K P read _ _ _ _ _ _ _ _
  | peUnwindInfo sections =>
    dsimp only [Formats.pe]
    rcases (N.formats K).peWork sections rel (!address.isReturnAddress) with _ | e | rule | work
    · rfl
    · rfl
    · rfl
    · dsimp only
      rw [Prog.run_bind, P.plain_run, Prog.run_done]
      rcases (N.formats K).pePlain work regs read with ⟨_ | _ | a, regs'⟩ <;> rfl

theorem cacheProg_run (read : ReadStack) (u : UnwinderInternal UnwindData) (address : FrameAddress) (regs : N.arch.Regs)
    (cache : RuleCache N.arch.Rule) :
    (cacheProg K P u address regs cache).run read = withCache (N.unwindFrameImpl K) u address regs cache read := by
  unfold cacheProg withCache
  dsimp only
  rw [Prog.run_sum]
  cases cache.lookup address.addressForLookup u.modulesGeneration with
  | some rule =>
    dsimp only
    rw [Prog.run_bind, P.exec_run]
    rfl
  | none =>
    dsimp only
    cases findModuleForAddress u.modules address.addressForLookup with
    | none =>
      dsimp only
      rw [Prog.run_bind, P.exec_run]
      rfl
    | some found =>
      obtain ⟨m, rel⟩ := found
      dsimp only
      rw [Prog.run_sum, Prog.run_bind, implProg_run]
      rcases N.unwindFrameImpl K m address rel regs read with ⟨_ | e | result, regs'⟩
      · rfl
      · dsimp only
        rw [Prog.run_bind, P.exec_run]
        rfl
      · cases result with
        | execRule rule =>
          dsimp only
          rw [Prog.run_bind, P.exec_run]
          rfl
        | uncacheable a => rfl
        | interrupted a => rfl

/-- The row an address of a module comes to, with a rule or not. -/
def rowOf (N : Native) (m : Module UnwindData) (rel : Nat) (isFirstFrame : Bool) : Option (UnwindTableRow × Bool) :=
  rowAt K.gimli K.unwindInfo (N.formats K) m rel isFirstFrame

def planOf (N : Native) (m : Module UnwindData) (rel : Nat) (isFirstFrame : Bool) : Plan (N.formats K) :=
  modulePlan K.gimli K.unwindInfo (N.formats K) m rel isFirstFrame

theorem withFdeProg_fits (read : ReadStack) (ty : UnwindSectionType) (bytes : Bytes)
    (bases : BaseAddresses) (svma : Nat) (regs : N.arch.Regs) (first : Bool) (fdeOffset : Nat) :
    (withFdeProg K P ty bytes bases svma regs first fdeOffset).Fits read ↔
      ∀ row signal, (unwindInfoForFde K.gimli ty bytes bases svma fdeOffset).toOption = some (row, signal) →
        P.RowFits row signal regs read := by
  unfold withFdeProg
  cases unwindInfoForFde K.gimli ty bytes bases svma fdeOffset with
  | error e => cases e <;> exact iff_of_true trivial nofun
  | ok info =>
    obtain ⟨row, signal⟩ := info
    dsimp only
    rw [Prog.fits_bind, P.unwindFrame_fits, and_iff_left (Prog.fits_done _ _)]
    constructor
    · intro h row' signal' heq
      cases heq
      exact h
    · intro h
      exact h row signal rfl

theorem implProg_fits (read : ReadStack) (m : Module UnwindData) (first : Bool) (rel : Nat) (regs : N.arch.Regs) :
    (implProg K P m first rel regs).Fits read ↔
      (∀ b ∈ tableSums K P m rel first, b = true) ∧
      (∀ row signal, rowOf K N m rel first = some (row, signal) → P.RowFits row signal regs read) ∧
      ∀ work, planOf K N m rel first = .plain work → P.PlainFits K work regs read := by
  unfold implProg
  rw [Prog.fits_sums]
  refine and_congr_right fun _ => ?_
  unfold rowOf planOf rowAt modulePlan
  cases m.unwindData with
  | dwarf data =>
    dsimp only
    cases fdeOf K.gimli { m with unwindData := data } rel with
    | error e => exact iff_of_true trivial ⟨nofun, nofun⟩
    | ok fde =>
      dsimp only
      rw [withFdeProg_fits]
      exact (and_iff_left fun work h => absurd h rowPlan_ne_plain).symm
  | compactUnwindInfoAndEhFrame data =>
    dsimp only
    cases (data.unwinder m.baseSvma).unwindFrame K.unwindInfo (N.formats K).compact rel first with
    | error fault => cases fault <;> exact iff_of_true trivial ⟨nofun, nofun⟩
    | ok result =>
      cases result with
      | execRule rule => exact iff_of_true trivial ⟨nofun, nofun⟩
      | needDwarf fdeOffset =>
        cases data.ehFrame with
        | none => exact iff_of_true trivial ⟨nofun, nofun⟩
        | some ehFrame =>
          dsimp only
          rw [withFdeProg_fits]
          exact (and_iff_left fun work h => absurd h rowPlan_ne_plain).symm
  | peUnwindInfo sections =>
    dsimp only
    rcases (N.formats K).peWork sections rel first with _ | e | rule | work
    · exact iff_of_true trivial ⟨nofun, nofun⟩
    · exact iff_of_true trivial ⟨nofun, nofun⟩
    · exact iff_of_true trivial ⟨nofun, nofun⟩
    · dsimp only
      rw [Prog.fits_bind, P.plain_fits, and_iff_left (Prog.fits_done _ _)]
      constructor
      · intro h
        refine ⟨nofun, ?_⟩
        intro work' heq
        cases heq
        exact h
      · intro h
        exact h.2 work rfl

/-- The sums of an unwind by the tables fit: those of its rule, and on a miss those that the tables
    of the module it finds make, and of the row or the work they have. -/
structure TablesFit (e : Call UnwindData N.arch) (cache : RuleCache N.arch.Rule) : Prop where
  rule : ∀ rule, e.HasRule K.gimli K.unwindInfo (N.formats K) cache rule → P.RuleFits rule e.regs e.read
  tables : cache.lookup e.key.1 e.key.2 = none → ∀ m rel, findModuleForAddress e.u.modules e.key.1 = some (m, rel) →
    ∀ b ∈ tableSums K P m rel (!e.address.isReturnAddress), b = true
  row : cache.lookup e.key.1 e.key.2 = none → ∀ m rel, findModuleForAddress e.u.modules e.key.1 = some (m, rel) →
    ∀ row signal, rowOf K N m rel (!e.address.isReturnAddress) = some (row, signal) → P.RowFits row signal e.regs e.read
  plain : cache.lookup e.key.1 e.key.2 = none → ∀ m rel, findModuleForAddress e.u.modules e.key.1 = some (m, rel) →
    ∀ work, planOf K N m rel (!e.address.isReturnAddress) = .plain work → P.PlainFits K work e.regs e.read

theorem lookupFits_address (address : FrameAddress) : lookupFits address = true := by
  cases address with
  | instructionPointer a => rfl
  | returnAddress a pos => exact decide_eq_true pos

section Tables

variable {e : Call UnwindData N.arch} {cache : RuleCache N.arch.Rule}

/-- On a hit, only the cached rule's sums. -/
theorem tablesFit_hit {rule : N.arch.Rule} (hl : cache.lookup e.key.1 e.key.2 = some rule) :
    TablesFit K P e cache ↔ P.RuleFits rule e.regs e.read := by
  have hmiss : ¬ cache.lookup e.key.1 e.key.2 = none := by
    rw [hl]
    exact Option.some_ne_none rule
  constructor
  · intro h
    exact h.rule rule (.inl hl)
  · intro h
    refine ⟨?_, fun hl' => absurd hl' hmiss, fun hl' => absurd hl' hmiss, fun hl' => absurd hl' hmiss⟩
    intro rule' hrule
    rcases hrule with hl' | ⟨hl', -⟩
    · cases hl.symm.trans hl'
      exact h
    · exact absurd hl' hmiss

theorem plan_of_module {m : Module UnwindData} {rel : Nat}
    (hf : findModuleForAddress e.u.modules e.key.1 = some (m, rel)) :
    e.plan K.gimli K.unwindInfo (N.formats K) = planOf K N m rel (!e.address.isReturnAddress) := by
  unfold Call.plan planAll
  rw [show findModuleForAddress e.u.modules e.address.addressForLookup = some (m, rel) from hf]
  rfl

/-- Where no module is, the fallback rule's, which fit. -/
theorem tablesFit_no_module (hl : cache.lookup e.key.1 e.key.2 = none)
    (hf : findModuleForAddress e.u.modules e.key.1 = none) : TablesFit K P e cache := by
  have hnone : ∀ m rel, ¬ findModuleForAddress e.u.modules e.key.1 = some (m, rel) := by
    intro m rel h
    cases hf.symm.trans h
  refine ⟨?_, fun _ m rel h => absurd h (hnone m rel), fun _ m rel h => absurd h (hnone m rel),
    fun _ m rel h => absurd h (hnone m rel)⟩
  intro rule hrule
  rcases hrule with hl' | ⟨-, hp⟩
  · cases hl.symm.trans hl'
  · unfold Call.plan planAll at hp
    rw [show findModuleForAddress e.u.modules e.address.addressForLookup = none from hf] at hp
    cases hp
    exact P.fallback_fits _ _

/-- In a module, those of its tables, row and work, and of the rule the tables have. -/
theorem tablesFit_module {m : Module UnwindData} {rel : Nat} (hl : cache.lookup e.key.1 e.key.2 = none)
    (hf : findModuleForAddress e.u.modules e.key.1 = some (m, rel)) :
    TablesFit K P e cache ↔ (implProg K P m (!e.address.isReturnAddress) rel e.regs).Fits e.read ∧
      ∀ rule, planOf K N m rel (!e.address.isReturnAddress) = .rule rule → P.RuleFits rule e.regs e.read := by
  rw [implProg_fits]
  have hone : ∀ {q : Module UnwindData → Nat → Prop}, q m rel → ∀ m' rel',
      findModuleForAddress e.u.modules e.key.1 = some (m', rel') → q m' rel' := by
    intro q hq m' rel' h
    cases hf.symm.trans h
    exact hq
  constructor
  · intro h
    refine ⟨⟨h.tables hl m rel hf, h.row hl m rel hf, h.plain hl m rel hf⟩, ?_⟩
    intro rule hp
    exact h.rule rule (.inr ⟨hl, (plan_of_module K hf).trans hp⟩)
  · intro h
    obtain ⟨⟨htables, hrow, hplain⟩, hrule⟩ := h
    refine ⟨?_, fun _ => hone htables, fun _ => hone hrow, fun _ => hone hplain⟩
    intro rule hr
    rcases hr with hl' | ⟨-, hp⟩
    · cases hl.symm.trans hl'
    · exact hrule rule ((plan_of_module K hf).symm.trans hp)

end Tables

theorem cacheProg_fits (e : Call UnwindData N.arch) (cache : RuleCache N.arch.Rule) :
    (cacheProg K P e.u e.address e.regs cache).Fits e.read ↔ TablesFit K P e cache := by
  have hexec : ∀ rule regs {α : Type} (f : Except Error (Option Nat) × N.arch.Regs → α),
      ((P.exec rule (!e.address.isReturnAddress) regs).bind fun r => .done (f r)).Fits e.read ↔
        P.RuleFits rule regs e.read := by
    intro rule regs α f
    rw [Prog.fits_bind, P.exec_fits]
    exact and_iff_left trivial
  unfold cacheProg
  dsimp only
  rw [Prog.fits_sum, and_iff_right (lookupFits_address e.address)]
  cases hl : cache.lookup e.address.addressForLookup e.u.modulesGeneration with
  | some rule =>
    rw [tablesFit_hit K P hl]
    exact hexec rule _ _
  | none =>
    dsimp only
    cases hf : findModuleForAddress e.u.modules e.address.addressForLookup with
    | none =>
      refine iff_of_true ?_ (tablesFit_no_module K P hl hf)
      exact (hexec _ _ _).mpr (P.fallback_fits _ _)
    | some found =>
      obtain ⟨m, rel⟩ := found
      dsimp only
      rw [Prog.fits_sum, and_iff_right (decide_eq_true (findModuleForAddress_base hf)), Prog.fits_bind, implProg_run,
        tablesFit_module K P hl hf]
      refine and_congr_right fun _ => ?_
      -- what is done with the module's result, by its plan
      have hfollows := impl_follows (G := K.gimli) (I := K.unwindInfo) (F := N.formats K) m e.address rel e.regs e.read
      unfold planOf Native.unwindFrameImpl
      generalize modulePlan K.gimli K.unwindInfo (N.formats K) m rel (!e.address.isReturnAddress) = plan at hfollows ⊢
      generalize unwindFrameImplAll K.gimli K.unwindInfo (N.formats K) m e.address rel e.regs e.read =
        result at hfollows ⊢
      cases hfollows with
      | rule rule =>
        refine (hexec _ _ _).trans ⟨fun h rule' heq => ?_, fun h => h rule rfl⟩
        cases heq
        exact h
      | fallback error =>
        refine iff_of_true ((hexec _ _ _).mpr (P.fallback_fits _ _)) ?_
        intro rule heq
        cases heq
        exact P.fallback_fits _ _
      | @row row signal hnone =>
        refine iff_of_true ?_ nofun
        cases hu : N.arch.unwindFrame row e.regs (!e.address.isReturnAddress) signal e.read with
        | error error => exact (hexec _ _ _).mpr (P.fallback_fits _ _)
        | ok r =>
          obtain ⟨result, regs⟩ := r
          cases result with
          | execRule rule => exact absurd hu (N.arch.unwindFrame_generic _ _ _ _ _ rule regs hnone)
          | uncacheable a => trivial
          | interrupted a => trivial
      | plain work =>
        refine iff_of_true ?_ nofun
        rcases (N.formats K).pePlain work e.regs e.read with ⟨_ | _ | a, regs⟩
        · trivial
        · exact (hexec _ _ _).mpr (P.fallback_fits _ _)
        · trivial
      | stuck => exact iff_of_true trivial nofun

/-! ## The step -/

def stepUnwindProg (snap : Snapshot) (inner : SlotInner N) : Prog (Option (Out × SlotInner N)) :=
  (cacheProg K P snap.unw inner.curAddr inner.regs inner.cache).bind fun r =>
    .done (r.1.map fun unwound => advanceTo inner unwound r.2)

def stepProg (snap : Snapshot) (env : Env) (inner : SlotInner N) : Prog (Option (Out × SlotInner N)) :=
  match P.restore with
  | none => stepUnwindProg K P snap inner
  | some restore =>
    if isTrampoline env.trampoline inner.curIp then (restore inner.regs).bind fun v => .done (some (restoreTo inner v))
    else stepUnwindProg K P snap inner

theorem stepUnwindProg_run (snap : Snapshot) (read : ReadStack) (inner : SlotInner N) :
    (stepUnwindProg K P snap inner).run read = stepUnwind K snap read inner := by
  unfold stepUnwindProg stepUnwind
  rw [Prog.run_bind, cacheProg_run]
  rcases withCache (N.unwindFrameImpl K) snap.unw inner.curAddr inner.regs inner.cache read with ⟨_ | u, cache⟩ <;> rfl

/-- The program is the step. -/
theorem step_run (snap : Snapshot) (env : Env) (inner : SlotInner N) :
    (stepProg K P snap env inner).run (readStack inner env.mem) = step K snap env inner := by
  unfold stepProg step
  dsimp only
  rw [P.restore_run]
  cases P.restore with
  | none => exact stepUnwindProg_run K P snap _ inner
  | some restore =>
    dsimp only [Option.map_some]
    split
    · rw [Prog.run_bind]
      rfl
    · exact stepUnwindProg_run K P snap _ inner

/-- The sums of a step fit: of the kernel's signal frame, or of the unwind by the tables. -/
def StepFits (snap : Snapshot) (env : Env) (inner : SlotInner N) : Prop :=
  let read := readStack inner env.mem
  match signalFrame env inner with
  | some _ => P.RestoreFits inner.regs read
  | none => TablesFit K P (inner.call snap read) inner.cache

theorem stepUnwindProg_fits (snap : Snapshot) (read : ReadStack) (inner : SlotInner N) :
    (stepUnwindProg K P snap inner).Fits read ↔ TablesFit K P (inner.call snap read) inner.cache := by
  rw [stepUnwindProg, Prog.fits_bind, ← cacheProg_fits]
  exact and_iff_left trivial

theorem step_fits_iff (snap : Snapshot) (env : Env) (inner : SlotInner N) :
    (stepProg K P snap env inner).Fits (readStack inner env.mem) ↔ StepFits K P snap env inner := by
  have htables := stepUnwindProg_fits K P snap (readStack inner env.mem) inner
  have hfits := fun {p} => P.restore_fits (p := p) inner.regs (readStack inner env.mem)
  unfold stepProg StepFits signalFrame
  dsimp only
  rw [P.restore_run]
  cases hp : P.restore with
  | none => exact htables
  | some p =>
    dsimp only [Option.map_some]
    cases isTrampoline env.trampoline inner.curIp with
    | false => exact htables
    | true =>
      rw [if_pos rfl, Prog.fits_bind]
      exact (and_iff_left trivial).trans (hfits hp)

/-! ## Reads are at words -/

section Words

variable {K} {P} (hK : K.Words) {read : ReadStack} (hread : read.Words)
include hK hread

theorem withFdeProg_reads {regs : N.arch.Regs} (h : P.Words regs) (ty : UnwindSectionType) (bytes : Bytes)
    (bases : BaseAddresses) (svma : Nat) (first : Bool) (fdeOffset : Nat) :
    ∀ a ∈ (withFdeProg K P ty bytes bases svma regs first fdeOffset).reads read, a < 2 ^ 64 := by
  unfold withFdeProg
  cases hinfo : unwindInfoForFde K.gimli ty bytes bases svma fdeOffset with
  | error e => cases e <;> exact nofun
  | ok info =>
    obtain ⟨row, signal⟩ := info
    have hrow : row.Words := unwindInfoForFde_words hK.gimli (congrArg Except.toOption hinfo)
    dsimp only
    rw [Prog.reads_bind, Prog.reads_done, List.append_nil]
    exact P.unwindFrame_reads hread h hrow first signal

theorem implProg_reads {regs : N.arch.Regs} (h : P.Words regs) (m : Module UnwindData) (first : Bool) (rel : Nat) :
    ∀ a ∈ (implProg K P m first rel regs).reads read, a < 2 ^ 64 := by
  unfold implProg
  rw [Prog.reads_sums]
  cases m.unwindData with
  | dwarf data =>
    dsimp only
    cases fdeOf K.gimli { m with unwindData := data } rel with
    | error e => exact nofun
    | ok fde => exact withFdeProg_reads hK hread h _ _ _ _ _ _
  | compactUnwindInfoAndEhFrame data =>
    dsimp only
    cases (data.unwinder m.baseSvma).unwindFrame K.unwindInfo (N.formats K).compact rel first with
    | error fault => cases fault <;> exact nofun
    | ok result =>
      cases result with
      | execRule rule => exact nofun
      | needDwarf fdeOffset =>
        cases data.ehFrame with
        | none => exact nofun
        | some ehFrame => exact withFdeProg_reads hK hread h _ _ _ _ _ _
  | peUnwindInfo sections =>
    dsimp only
    rcases (N.formats K).peWork sections rel first with _ | e | rule | work
    · exact nofun
    · exact nofun
    · exact nofun
    · dsimp only
      rw [Prog.reads_bind, Prog.reads_done, List.append_nil]
      exact P.plain_reads hK hread h work

/-- The registers that a module's result leaves are words. -/
theorem impl_words {regs : N.arch.Regs} (h : P.Words regs) (m : Module UnwindData)
    (address : FrameAddress) (rel : Nat) :
    P.Words (N.unwindFrameImpl K m address rel regs read).2 := by
  have hfollows := impl_follows (G := K.gimli) (I := K.unwindInfo) (F := N.formats K) m address rel regs read
  unfold Native.unwindFrameImpl
  generalize hplan : modulePlan K.gimli K.unwindInfo (N.formats K) m rel (!address.isReturnAddress) = plan at hfollows
  generalize unwindFrameImplAll K.gimli K.unwindInfo (N.formats K) m address rel regs read = result at hfollows ⊢
  cases hfollows with
  | rule rule => exact h
  | fallback error => exact h
  | @row row signal hnone =>
    have hrow : row.Words := rowAt_words hK.gimli (modulePlan_row hplan).1
    cases hu : N.arch.unwindFrame row regs (!address.isReturnAddress) signal read with
    | error error => exact h
    | ok r => exact (P.row_words hread h hrow hu).1
  | plain work => exact (P.plain_words work hK hread h).1
  | stuck => exact h

theorem cacheProg_reads {regs : N.arch.Regs} (h : P.Words regs) (u : UnwinderInternal UnwindData)
    (address : FrameAddress)
    (cache : RuleCache N.arch.Rule) : ∀ a ∈ (cacheProg K P u address regs cache).reads read, a < 2 ^ 64 := by
  have hexec : ∀ rule regs, P.Words regs → ∀ {α : Type} (f : Except Error (Option Nat) × N.arch.Regs → α),
      ∀ a ∈ ((P.exec rule (!address.isReturnAddress) regs).bind fun r => .done (f r)).reads read, a < 2 ^ 64 := by
    intro rule regs h α f
    rw [Prog.reads_bind, Prog.reads_done, List.append_nil]
    exact P.exec_reads hread h rule _
  unfold cacheProg
  dsimp only
  rw [Prog.reads_sum]
  cases cache.lookup address.addressForLookup u.modulesGeneration with
  | some rule => exact hexec rule _ h _
  | none =>
    dsimp only
    cases findModuleForAddress u.modules address.addressForLookup with
    | none => exact hexec _ _ h _
    | some found =>
      obtain ⟨m, rel⟩ := found
      dsimp only
      rw [Prog.reads_sum, Prog.reads_bind, List.forall_mem_append]
      refine ⟨implProg_reads hK hread h m _ rel, ?_⟩
      have hregs := impl_words hK hread h m address rel
      rw [implProg_run]
      generalize N.unwindFrameImpl K m address rel regs read = r at hregs
      rcases r with ⟨_ | e | result, regs'⟩
      · exact nofun
      · exact hexec _ _ hregs _
      · cases result with
        | execRule rule => exact hexec _ _ hregs _
        | uncacheable a => exact nofun
        | interrupted a => exact nofun

end Words

/-- A step reads at words, and at no others. -/
theorem step_reads {K : Crates} {P : N.Accesses} (hK : K.Words) {snap : Snapshot} {env : Env}
    (hmem : ∀ x, env.mem x < 2 ^ 64) {inner : SlotInner N} (h : P.Words inner.regs) :
    ∀ a ∈ (stepProg K P snap env inner).reads (readStack inner env.mem), a < 2 ^ 64 := by
  have hread := readStack_words inner hmem
  have htables : ∀ a ∈ (stepUnwindProg K P snap inner).reads (readStack inner env.mem), a < 2 ^ 64 := by
    rw [stepUnwindProg, Prog.reads_bind, Prog.reads_done, List.append_nil]
    exact cacheProg_reads hK hread h _ _ _
  unfold stepProg
  cases hp : P.restore with
  | none => exact htables
  | some restore =>
    dsimp only
    split
    · rw [Prog.reads_bind, Prog.reads_done, List.append_nil]
      exact P.restore_reads hp
    · exact htables

end FramehopUnwind.Cursor
