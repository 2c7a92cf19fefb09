/-
  FramehopUnwind.Cursor.Overflow — the unchecked sums of whole walks.

  A walk's registers, stack and tables are any words. Its plain sums leave the word in the cases
  that `StepFits` reads off the state before a step:
  - x86: a rule that adds 0 to a stack pointer below 8; a row whose CFA is below 8 and whose return
    address is not to be had by its rule.
  - both: a row's translation that leaves `i64`; a module's base plus the relative address past
    `2^64`; Mach-O stubs below the base, a function that starts after the address, or code around it
    in which the analysis counts past a `u16` or an `i32`.
  - x86 PE: a function that does not hold the address, and stack pointers past `2^64` on the way
    out of an epilog or a prolog.
  - Linux arm64: a signal frame that ends past `2^64`.

  Proved:
  - `sums_fit_iff`: over whole runs, the sums of a walk fit iff every step of it is `StepFits`.
  - `sums_leave_word`: a stack pointer below 8, an epilog and a signal frame at the top of memory.
-/

import FramehopUnwind.Cursor.Windows

namespace FramehopUnwind.Cursor

open Lib.Word Lib.Access Lib.Runs Unwinder
open State (Out Walk)

variable (K : Crates) {N : Native} (P : N.Accesses)

/-- The sums of every step of the walk fit. -/
def SumsFit (snap : Snapshot) (inner : SlotInner N) (envs : List Env) : Prop :=
  ∀ n env, envs[n]? = some env → (slotAt K snap inner envs n).done = false →
    (stepProg K P snap env (slotAt K snap inner envs n)).Fits (readStack (slotAt K snap inner envs n) env.mem)

/-- Every step of the walk is `StepFits`. -/
def EveryStepFits (snap : Snapshot) (inner : SlotInner N) (envs : List Env) : Prop :=
  ∀ n env, envs[n]? = some env → (slotAt K snap inner envs n).done = false →
    StepFits K P snap env (slotAt K snap inner envs n)

theorem sums_iff_steps (snap : Snapshot) (inner : SlotInner N) (envs : List Env) :
    SumsFit K P snap inner envs ↔ EveryStepFits K P snap inner envs := by
  unfold SumsFit EveryStepFits
  constructor
  · intro h n env he hd
    exact (step_fits_iff K P snap env _).mp (h n env he hd)
  · intro h n env he hd
    exact (step_fits_iff K P snap env _).mpr (h n env he hd)

variable {K}

/-- The trampoline's row is evaluated, by sums that are checked. -/
theorem trampoline_fits : StepFits savedCrates accessesX86 trampolineSnapshot crossedEnv crossedSlot := by
  have hcall : (crossedSlot.call trampolineSnapshot (readStack crossedSlot crossedEnv.mem)).plan savedCrates.gimli
    savedCrates.unwindInfo (x86.formats savedCrates) = .row savedRow true := rfl
  have hfound : findModuleForAddress trampolineSnapshot.unw.modules 0x1004 =
      some (ofDwarfModule trampolineModule, 4) := rfl
  refine ⟨?_, ?_, ?_, ?_⟩
  · intro rule hrule
    rcases hrule with h | ⟨-, h⟩
    · cases h
    · cases hcall.symm.trans h
  · intro _ m rel hf
    cases hfound.symm.trans hf
    decide
  · intro _ m rel hf row signal hrow
    cases hfound.symm.trans hf
    cases hrow
    refine ⟨nofun, ?_⟩
    intro _ cfa hcfa _
    have hcfa' : evalCfaRule crossedSlot.regs.dwarfGet (readStack crossedSlot crossedEnv.mem) savedRow.cfa =
        some 0x7400 := by
      decide
    cases hcfa'.symm.trans hcfa
    decide
  · intro _ m rel hf work hwork
    cases hfound.symm.trans hf
    cases hwork

/-- Outside the modules the frame pointer is followed, by checked sums. -/
theorem fits_outside {snap : Snapshot} {inner : SlotInner x86} (env : Env)
    (hc : inner.cache.lookup inner.curAddr.addressForLookup snap.unw.modulesGeneration = none)
    (h : findModuleForAddress snap.unw.modules inner.curAddr.addressForLookup = none) :
    StepFits K accessesX86 snap env inner :=
  tablesFit_no_module K accessesX86 hc h

theorem crossed_fits :
    EveryStepFits savedCrates accessesX86 trampolineSnapshot crossedSlot [crossedEnv, crossedEnv] := by
  intro n env he _
  rcases n with _ | _ | n
  · cases he
    exact trampoline_fits
  · have haddr :
        (slotAt savedCrates trampolineSnapshot crossedSlot [crossedEnv, crossedEnv] 1).curAddr.addressForLookup =
          0x5000 :=
      crossed_walk.1
    cases he
    refine fits_outside crossedEnv ?_ ?_
    · rw [haddr]
      rfl
    · rw [haddr]
      rfl
  · cases he

/-- A walk of one step. -/
theorem not_sums_fit {snap : Snapshot} {inner : SlotInner N} (hd : inner.done = false) {env : Env}
    (h : ¬ StepFits K P snap env inner) : ¬ SumsFit K P snap inner [env] := by
  intro hfits
  exact h ((step_fits_iff K P snap env inner).mp (hfits 0 env rfl hd))

/-- A row whose CFA is `rsp`. -/
def zeroRow : UnwindTableRow where
  cfa := .registerAndOffset 7 0
  register r := if r = 16 then some (.offset (-8)) else none

abbrev zeroCrates : Crates := sampleCrates { topGimli with unwindInfoForAddress := fun _ _ _ _ _ => some zeroRow }

/-- A context with a null stack pointer. -/
def zeroArgs : InitArgs := ⟨⟨![0x1000, 0, 0, 0, 0]⟩, 0, 0, 0, 0, (0, 0)⟩

/-- A context at the epilog, `lea rsp,[rbp+0x20]; ret`, with a frame pointer 16 bytes below the top. -/
def topEpilogArgs : InitArgs := ⟨⟨![0x10f0, 0x7000, 2 ^ 64 - 16, 0, 0]⟩, 0x7000, 0x8000, 0, 0, (0, 0)⟩

/-- A context at the trampoline, 0x1004, with the signal frame 400 bytes below the top. -/
def endArgs : InitArgs := ⟨⟨![0x1004, 2 ^ 64 - 400, 0, 0, 0]⟩, 0, 0, 0, 0, (0, 0)⟩

theorem zero_sp_leaves_word : ¬ StepFits zeroCrates accessesX86 (topSnapshot 0x1000) zeroEnv
    (initFill zeroArgs (topSnapshot 0x1000) (placeholderInner x86)) := by
  intro h
  have hplan : planAll zeroCrates.gimli zeroCrates.unwindInfo (x86.formats zeroCrates)
      [[topModule 0x1000]] 0x1000 true =
    .rule (.offsetSp 0) := rfl
  have hfits : 8 ≤ contextSp zeroArgs.ctx := TablesFit.rule h _ (Or.inr ⟨rfl, hplan⟩)
  exact absurd hfits (by decide)

theorem epilog_leaves_word : ¬ StepFits epilogCrates accessesX86 epilogSnapshot zeroEnv
    (initFill topEpilogArgs epilogSnapshot (placeholderInner x86)) := by
  intro h
  have hplan : planOf epilogCrates x86 epilogModule 0xf0 true = .plain (.epilog () [.addSpFromFp 0x20]) := rfl
  have hfits := TablesFit.plain h rfl epilogModule 0xf0 rfl _ hplan
  exact absurd (hfits .rbp rfl).1 (by decide)

theorem signal_frame_leaves_word : ¬ StepFits zeroCrates accessesAarch64Linux emptySnapshot nullPcEnv
    (initFill endArgs emptySnapshot (placeholderInner aarch64Linux)) := by
  intro h
  have hbase : checkedAdd (2 ^ 64 - 400) sigcontext = some (2 ^ 64 - 96) := by decide
  have hfits := (show RestoreFits _ _ from h) _ hbase
  exact absurd hfits.1 (by decide)

end FramehopUnwind.Cursor
