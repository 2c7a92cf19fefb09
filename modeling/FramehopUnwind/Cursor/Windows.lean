/-
  FramehopUnwind.Cursor.Windows — the words a walk dereferences (cursor.rs `read_stack`).

  The windows of a walk are its init's, whatever the slot held before, and no step changes them.
  A read is answered if its address is aligned and the word lies in a window, by
  `addr.saturating_add(8) <= hi`. The sum saturates at one aligned address, `2^64 - 8`, where it
  is `2^64 - 1`: a window that ends there admits that word, whose last byte is outside
  (`Clipped`). `stack_window` gives such a window for every `sp` in the last 16 MiB.

  Proved:
  - `dereferences_inside`: every other word a step dereferences lies wholly in a window.
  - `stays_inside_iff`: the walks of an init stay inside its windows iff none is `Clipped`; so do
    the answers of `read_stack`, whatever asks.
-/

import FramehopUnwind.Cursor.Accesses

namespace FramehopUnwind.Cursor

open Lib.Word Lib.Access Lib.Runs Unwinder
open State (Out Walk alone_invariant)

/-! ## The windows of an init -/

/-- The context and the ends of the windows are words. -/
structure InitArgs.Words (a : InitArgs) : Prop where
  ctx : ∀ i, a.ctx.r i < 2 ^ 64
  hi : a.stackHi < 2 ^ 64
  hi2 : a.stackHi2 < 2 ^ 64
  bounds : a.bounds.2 < 2 ^ 64

/-- The window of the arguments, or `stack_window`'s. -/
def firstWindow (a : InitArgs) : Nat × Nat :=
  if a.stackLo < a.stackHi then (a.stackLo, a.stackHi) else stackWindow a.bounds (contextSp a.ctx)

/-- The second window, unless it is empty. -/
def secondWindow (a : InitArgs) : Option (Nat × Nat) :=
  if a.stackLo2 < a.stackHi2 then some (a.stackLo2, a.stackHi2) else none

/-- The 8 bytes at the address are in the window. -/
def Within (w : Nat × Nat) (x : Nat) : Prop := w.1 ≤ x ∧ x + 8 ≤ w.2

instance (w : Nat × Nat) (x : Nat) : Decidable (Within w x) := inferInstanceAs (Decidable (_ ∧ _))

/-- An aligned word wholly in a window of the init. -/
def InWindows (a : InitArgs) (x : Nat) : Prop :=
  x % 8 = 0 ∧ (Within (firstWindow a) x ∨ ∃ w ∈ secondWindow a, Within w x)

/-- The window ends at the last address and begins at or below the last aligned word. -/
def Clipped (w : Nat × Nat) : Prop := w.2 = u64Max ∧ w.1 ≤ 2 ^ 64 - 8

instance (w : Nat × Nat) : Decidable (Clipped w) := inferInstanceAs (Decidable (_ ∧ _))

theorem firstWindow_word {a : InitArgs} (ha : a.Words) : (firstWindow a).2 < 2 ^ 64 := by
  unfold firstWindow
  split
  · exact ha.hi
  · unfold stackWindow
    split
    · exact ha.bounds
    · exact lt_of_le_of_lt (min_le_right _ _) (by decide)

theorem secondWindow_word {a : InitArgs} (ha : a.Words) : ∀ w ∈ secondWindow a, w.2 < 2 ^ 64 := by
  intro w hw
  unfold secondWindow at hw
  split at hw
  · cases hw
    exact ha.hi2
  · cases hw

variable {N : Native}

/-- The windows in force. -/
def SlotInner.windows (inner : SlotInner N) : (Nat × Nat) × (Nat × Nat) :=
  ((inner.stackLo, inner.stackHi), (inner.stackLo2, inner.stackHi2))

theorem initFill_windows (a : InitArgs) (snap : Snapshot) (start : SlotInner N) :
    (initFill a snap start).windows = (firstWindow a, (secondWindow a).getD (0, 0)) := by
  unfold secondWindow SlotInner.windows initFill firstWindow
  split <;> split <;> rfl

/-- The test of `read_stack` is exact but for the last aligned word of a clipped window. -/
theorem saturating_within {w : Nat × Nat} (hw : w.2 < 2 ^ 64) {x : Nat} (hx : x < 2 ^ 64) (h8 : x % 8 = 0)
    (hlo : w.1 ≤ x) (hhi : saturatingAdd x 8 ≤ w.2) : Within w x ∨ Clipped w ∧ x = 2 ^ 64 - 8 := by
  unfold saturatingAdd at hhi
  unfold Within Clipped
  by_cases htop : x = 2 ^ 64 - 8
  · subst htop
    unfold u64Max at hhi ⊢
    omega
  · unfold u64Max at hhi
    omega

/-- What `read_stack` answers lies in a window, or is that word. -/
theorem answered_within {a : InitArgs} (ha : a.Words) {inner : SlotInner N}
    (hwin : inner.windows = (firstWindow a, (secondWindow a).getD (0, 0))) {mem : Nat → Nat} {x : Nat} (hx : x < 2 ^ 64)
    (h : readStack inner mem x ≠ none) :
    InWindows a x ∨ (Clipped (firstWindow a) ∨ ∃ w ∈ secondWindow a, Clipped w) ∧ x = 2 ^ 64 - 8 := by
  obtain ⟨h1, h2⟩ := Prod.mk.inj hwin
  unfold readStack at h
  dsimp only at h
  split at h
  · exact absurd rfl h
  · rename_i hok
    rw [not_or, not_not, not_not] at hok
    obtain ⟨hin, h8⟩ := hok
    rcases hin with ⟨hlo, hhi⟩ | ⟨hlo, hhi⟩
    · have hw := saturating_within (firstWindow_word ha) hx h8 (by rw [← h1]; exact hlo) (by rw [← h1]; exact hhi)
      rcases hw with hw | ⟨hw, htop⟩
      · exact Or.inl ⟨h8, Or.inl hw⟩
      · exact Or.inr ⟨Or.inl hw, htop⟩
    · cases hs : secondWindow a with
      | none =>
        -- an empty window is (0, 0), and no sum is 0
        rw [hs] at h2
        have hzero : inner.stackHi2 = 0 := congrArg Prod.snd h2
        rw [hzero] at hhi
        unfold saturatingAdd u64Max at hhi
        omega
      | some w =>
        rw [hs, Option.getD_some] at h2
        have hw :=
          saturating_within (secondWindow_word ha w hs) hx h8 (by rw [← h2]; exact hlo) (by rw [← h2]; exact hhi)
        rcases hw with hw | ⟨hw, htop⟩
        · exact Or.inl ⟨h8, Or.inr ⟨w, hs, hw⟩⟩
        · exact Or.inr ⟨Or.inr ⟨w, rfl, hw⟩, htop⟩

/-! ## Walks -/

variable {K : Crates} {snap : Snapshot} {env : Env} {inner : SlotInner N}

theorem slot_windows {r : Out × SlotInner N} (h : step K snap env inner = some r) : r.2.windows = inner.windows := by
  rcases step_frame h with ⟨regs, cache, ip, address, rfl⟩ | ⟨regs, cache, rfl⟩ <;> rfl

/-- The memory is of words. -/
def Env.Words (env : Env) : Prop := ∀ x, env.mem x < 2 ^ 64

/-- The words the next step dereferences. -/
def dereferences (K : Crates) (P : N.Accesses) (snap : Snapshot) (env : Env) (inner : SlotInner N) : List Nat :=
  if inner.done then [] else (stepProg K P snap env inner).answered (readStack inner env.mem)

theorem dereferenced_answered {P : N.Accesses} {x : Nat} (hx : x ∈ dereferences K P snap env inner) :
    readStack inner env.mem x ≠ none := by
  unfold dereferences at hx
  split at hx
  · cases hx
  · exact ((Prog.mem_answered _).mp hx).2

theorem dereferences_inside {P : N.Accesses} {a : InitArgs} (ha : a.Words) (hK : K.Words) (henv : env.Words)
    (hwin : inner.windows = (firstWindow a, (secondWindow a).getD (0, 0))) (h : P.Words inner.regs) :
    ∀ x ∈ dereferences K P snap env inner,
      InWindows a x ∨ (Clipped (firstWindow a) ∨ ∃ w ∈ secondWindow a, Clipped w) ∧ x = 2 ^ 64 - 8 := by
  intro x hx
  have hok := dereferenced_answered hx
  unfold dereferences at hx
  split at hx
  · cases hx
  · have hmem := ((Prog.mem_answered _).mp hx).1
    exact answered_within ha hwin (step_reads hK henv h x hmem) hok

/-- In every state of every run with single owners: a live cursor whose walk was begun with `a`
    has the windows of `a`, and its next step dereferences only words wholly in them. -/
def StaysInside (a : InitArgs) : Prop :=
  ∀ (p : Platform) (K : Crates), K.Words → ∀ s : State.St (walk K p.native), Reach State.init State.OwnedRun s →
    ∀ i w, (s.slots i).own = .cursor → (s.slots i).log = some w → w.args = a → (∀ env ∈ w.envs, Env.Words env) →
      SlotInner.windows (s.slots i).inner = (firstWindow a, (secondWindow a).getD (0, 0)) ∧
      ∀ env, Env.Words env → ∀ x ∈ dereferences K p.accesses w.snap env (s.slots i).inner, InWindows a x

/-- The same of `read_stack` itself, at every word. -/
def AnswersInside (a : InitArgs) : Prop :=
  ∀ (p : Platform) (K : Crates) (s : State.St (walk K p.native)), Reach State.init State.OwnedRun s →
    ∀ i w, (s.slots i).own = .cursor → (s.slots i).log = some w → w.args = a →
      ∀ (mem : Nat → Nat) x, x < 2 ^ 64 → readStack (N := p.native) (s.slots i).inner mem x ≠ none → InWindows a x

section Live

variable {s : State.St (walk K N)} (h : Reach State.init State.OwnedRun s) {i : Nat} {w : State.Log (walk K N)}
  (ho : (s.slots i).own = .cursor) (hw : (s.slots i).log = some w)
include h ho hw

/-- A live cursor's slot is where its walk alone has come. -/
theorem live_alone : (s.slots i).inner = ((walk K N).alone w.snap (initFill w.args w.snap w.start) w.envs).2 := by
  obtain ⟨w', hw', hinner, -⟩ := ((State.iso_of_run h).slots i).walking ho
  obtain rfl : w = w' := Option.some.inj (hw.symm.trans hw')
  exact hinner

theorem live_windows :
    SlotInner.windows (s.slots i).inner = (firstWindow w.args, (secondWindow w.args).getD (0, 0)) := by
  rw [live_alone h ho hw]
  refine alone_invariant (W := walk K N)
    (p := fun inner : SlotInner N => inner.windows = (firstWindow w.args, (secondWindow w.args).getD (0, 0))) ?_
    (initFill_windows w.args w.snap w.start)
  intro env _ inner r _ hr hwin
  exact (slot_windows hr).trans hwin

theorem live_words (R : N.Rank) (hK : K.Words) (ha : w.args.Words) (henvs : ∀ env ∈ w.envs, Env.Words env) :
    R.Words (SlotInner.regs (s.slots i).inner) := by
  rw [live_alone h ho hw]
  refine alone_invariant (W := walk K N) (p := fun inner : SlotInner N => R.Words inner.regs) ?_
    (R.makeRegs_words w.args.ctx _ ha.ctx)
  intro env he inner r _ hr hwords
  exact step_words R hK (henvs env he) hr hwords

end Live

/-! ## A window that ends at the last address -/

/-- A row whose CFA is the last aligned word of memory. -/
def topRow : UnwindTableRow where
  cfa := .expression (.requiresMemory (2 ^ 64 - 8) 8 none fun cfa => .complete (some cfa))
  register r := if r = 16 then some (.offset (-8)) else none

/-- gimli over a section with that row for every address. -/
def topGimli : Gimli where
  entries _ _ _ := [some .cie]
  entries_wider _ _ _ _ _ _ := rfl
  fdeFromOffset _ _ _ _ := some false
  unwindInfoForAddress _ _ _ _ _ := some topRow
  hdrTableLookup _ _ _ := some 0

theorem topGimli_words : topGimli.Words := by
  intro ty bytes bases offset a row h
  obtain rfl : topRow = row := Option.some.inj h
  refine ⟨⟨by decide, ?_⟩, ?_⟩
  · rintro cfa hcfa _ ⟨⟩
    exact hcfa
  · intro r rule hr
    unfold topRow at hr
    dsimp only at hr
    split at hr
    · cases hr
      trivial
    · cases hr

abbrev topCrates : Crates := sampleCrates topGimli

/-- A module from `ip` on. -/
def topModule (ip : Nat) : Module UnwindData :=
  ⟨⟨ip, u64Max⟩, ip, 0, .dwarf (.ehFrameHdrAndEhFrame [] [] ⟨none, none, none, none⟩)⟩

def topSnapshot (ip : Nat) : Snapshot :=
  ⟨⟨[[topModule ip]], 2, insertModule_wf wf_nil (topModule ip)⟩, maxKnownCodeAddress [[topModule ip]], rfl⟩

def zeroEnv : Env := ⟨fun _ => 0, none⟩

theorem topModule_found (ip : Nat) : findModuleForAddress [[topModule ip]] ip = some (topModule ip, 0) := by
  refine (findModuleForAddress_iff (insertModule_wf wf_nil (topModule ip)) (List.nodup_singleton _) _ _ _).mpr
    ⟨?_, ?_, ?_⟩
  · refine ⟨List.mem_singleton_self _, le_rfl, ?_⟩
    intro x hx _
    rw [List.mem_singleton.mp hx]
  · exact ⟨Or.inl rfl, le_rfl, by simp [topModule]⟩
  · exact (Nat.sub_self ip).symm

theorem topRow_read (regs : X86.UnwindRegs) (first : Bool) (read : ReadStack) :
    2 ^ 64 - 8 ∈ (X86.Accesses.unwindFrame topRow regs first false).reads read := by
  have hno : X86.translateIntoUnwindRule topRow.cfa (topRow.register 6) (topRow.register 16) = none := rfl
  unfold X86.Accesses.unwindFrame
  rw [if_neg Bool.false_ne_true, Prog.reads_sums, hno]
  dsimp only
  unfold X86.Accesses.unwindFrameGeneric
  rw [Prog.reads_bind]
  refine List.mem_append_left _ ?_
  simp [topRow, Accesses.evalCfaRule, Accesses.evalExpr]

/-- The module's row is evaluated. -/
theorem topModule_read (ip : Nat) (first : Bool) (regs : X86.UnwindRegs) (read : ReadStack) :
    2 ^ 64 - 8 ∈ (implProg topCrates accessesX86 (topModule ip) first 0 regs).reads read := by
  have hprog : implProg topCrates accessesX86 (topModule ip) first 0 regs =
      .sums (tableSums topCrates accessesX86 (topModule ip) 0 first)
        ((accessesX86.unwindFrame topRow regs first false).bind fun r =>
          .done (ofDwarf regs (r.mapError .dwarf))) := rfl
  rw [hprog, Prog.reads_sums, Prog.reads_bind]
  exact List.mem_append_left _ (topRow_read regs first read)

/-- The first step from the context reads that word. -/
theorem top_read (a : InitArgs) (read : ReadStack) :
    2 ^ 64 - 8 ∈ (stepProg topCrates accessesX86 (topSnapshot (contextIp a.ctx)) zeroEnv
      (initFill a (topSnapshot (contextIp a.ctx)) (placeholderInner x86))).reads read := by
  have hstep : stepProg topCrates accessesX86 (topSnapshot (contextIp a.ctx)) zeroEnv
      (initFill a (topSnapshot (contextIp a.ctx)) (placeholderInner x86)) =
      stepUnwindProg topCrates accessesX86 (topSnapshot (contextIp a.ctx))
        (initFill a (topSnapshot (contextIp a.ctx)) (placeholderInner x86)) := rfl
  rw [hstep, stepUnwindProg, Prog.reads_bind]
  refine List.mem_append_left _ ?_
  have hmiss : (initFill a (topSnapshot (contextIp a.ctx)) (placeholderInner x86)).cache.lookup
      (initialFrameAddress a.ctx).addressForLookup (topSnapshot (contextIp a.ctx)).unw.modulesGeneration = none := rfl
  have hfound : findModuleForAddress (topSnapshot (contextIp a.ctx)).unw.modules
      (initialFrameAddress a.ctx).addressForLookup =
      some (topModule (contextIp a.ctx), 0) := topModule_found _
  have haddr : (initFill a (topSnapshot (contextIp a.ctx)) (placeholderInner x86)).curAddr =
      initialFrameAddress a.ctx := rfl
  unfold cacheProg
  dsimp only
  rw [Prog.reads_sum, haddr, hmiss]
  dsimp only
  rw [hfound]
  dsimp only
  rw [Prog.reads_sum, Prog.reads_bind]
  exact List.mem_append_left _ (topModule_read _ _ _ read)

theorem readStack_top {inner : SlotInner N}
    (h : Clipped (inner.stackLo, inner.stackHi) ∨ Clipped (inner.stackLo2, inner.stackHi2))
    (mem : Nat → Nat) : readStack inner mem (2 ^ 64 - 8) ≠ none := by
  have hsat : saturatingAdd (2 ^ 64 - 8) 8 = u64Max := by decide
  unfold readStack
  dsimp only
  rw [hsat, if_neg]
  · exact Option.some_ne_none _
  · rw [not_or, not_not, not_not]
    exact ⟨h.imp (fun h => ⟨h.2, h.1.ge⟩) fun h => ⟨h.2, h.1.ge⟩, by decide⟩

/-- No window of words holds all of that word. -/
theorem top_not_inside {a : InitArgs} (ha : a.Words) : ¬ InWindows a (2 ^ 64 - 8) := by
  rintro ⟨-, ⟨-, hend⟩ | ⟨w, hw, -, hend⟩⟩
  · have := firstWindow_word ha
    omega
  · have := secondWindow_word ha w hw
    omega

/-- A clipped window: there is a walk of the init whose first step dereferences that word. -/
theorem top_dereferenced {a : InitArgs} (h : Clipped (firstWindow a) ∨ ∃ w ∈ secondWindow a, Clipped w) :
    ∃ (s : State.St (walk topCrates x86)) (w : State.Log (walk topCrates x86)), Reach State.init State.OwnedRun s ∧
      (s.slots 0).own = .cursor ∧ (s.slots 0).log = some w ∧ w.args = a ∧ w.envs = [] ∧
      2 ^ 64 - 8 ∈ dereferences topCrates accessesX86 w.snap zeroEnv (s.slots 0).inner := by
  obtain ⟨s, w, hr, ho, hw, hsnap, hargs, henvs, hinner⟩ := init_run topCrates x86 (topSnapshot (contextIp a.ctx)) a
  refine ⟨s, w, hr, ho, hw, hargs, henvs, ?_⟩
  rw [hsnap, hinner]
  refine (Prog.mem_answered _).mpr ⟨top_read a _, readStack_top ?_ _⟩
  have hwin := initFill_windows a (topSnapshot (contextIp a.ctx)) (placeholderInner x86)
  obtain ⟨h1, h2⟩ := Prod.mk.inj hwin
  rcases h with h | ⟨w2, hw2, h⟩
  · rw [← h1] at h
    exact Or.inl h
  · rw [hw2, Option.getD_some] at h2
    rw [← h2] at h
    exact Or.inr h

/-- So its walks do not stay inside. -/
theorem not_staysInside {a : InitArgs} (ha : a.Words) (h : Clipped (firstWindow a) ∨ ∃ w ∈ secondWindow a, Clipped w) :
    ¬ StaysInside a := by
  intro hin
  obtain ⟨s, w, hr, ho, hw, hargs, henvs, htop⟩ := top_dereferenced h
  refine top_not_inside ha ((hin .x86 topCrates (sampleCrates_words topGimli_words) s hr 0 w ho hw hargs ?_).2
    zeroEnv ?_ _ htop)
  · rw [henvs]
    exact nofun
  · exact fun _ => Nat.two_pow_pos 64

/-- For every init: its walks stay inside its windows, on every target, over every module list and
    stack and at every step, iff neither window in force ends at `2^64 - 1` with an aligned word
    below; and so do the answers of `read_stack`. -/
theorem stays_inside_iff (a : InitArgs) (ha : a.Words) :
    (StaysInside a ↔ ¬ Clipped (firstWindow a) ∧ ∀ w ∈ secondWindow a, ¬ Clipped w) ∧
      (AnswersInside a ↔ ¬ Clipped (firstWindow a) ∧ ∀ w ∈ secondWindow a, ¬ Clipped w) := by
  have hclip : ¬ (¬ Clipped (firstWindow a) ∧ ∀ w ∈ secondWindow a, ¬ Clipped w) →
      Clipped (firstWindow a) ∨ ∃ w ∈ secondWindow a, Clipped w := by
    intro hcond
    by_contra hnone
    rw [not_or] at hnone
    exact hcond ⟨hnone.1, fun w hw hc => hnone.2 ⟨w, hw, hc⟩⟩
  refine ⟨⟨?_, ?_⟩, ⟨?_, ?_⟩⟩
  · intro h
    by_contra hcond
    exact not_staysInside ha (hclip hcond) h
  · rintro ⟨h1, h2⟩ p K hK s hr i w ho hw rfl henvs
    have hwin := live_windows hr ho hw
    have hwords := live_words hr ho hw p.accesses.toRank hK ha henvs
    refine ⟨hwin, ?_⟩
    intro env henv x hx
    rcases dereferences_inside ha hK henv hwin hwords x hx with h | ⟨h | ⟨w2, hw2, h⟩, -⟩
    · exact h
    · exact absurd h h1
    · exact absurd h (h2 w2 hw2)
  · intro h
    by_contra hcond
    obtain ⟨s, w, hr, ho, hw, hargs, -, htop⟩ := top_dereferenced (hclip hcond)
    exact top_not_inside ha (h .x86 topCrates s hr 0 w ho hw hargs zeroEnv.mem _ (by decide)
      (dereferenced_answered htop))
  · rintro ⟨h1, h2⟩ p K s hr i w ho hw rfl mem x hx hok
    rcases answered_within ha (live_windows hr ho hw) hx hok with h | ⟨h | ⟨w2, hw2, h⟩, -⟩
    · exact h
    · exact absurd h h1
    · exact absurd h (h2 w2 hw2)

/-- A context at 0x1000, with the window from 0x7000 to 0x8000. -/
def sampleArgs : InitArgs := ⟨⟨![0x1000, 0x7000, 0x7010, 0, 0]⟩, 0x7000, 0x8000, 0, 0, (0, 0)⟩

theorem sampleArgs_words : sampleArgs.Words := ⟨by decide, by decide, by decide, by decide⟩

theorem stays_inside_iff_sample : StaysInside sampleArgs ∧ AnswersInside sampleArgs := by
  have hcond : ¬ Clipped (firstWindow sampleArgs) ∧ ∀ w ∈ secondWindow sampleArgs, ¬ Clipped w := ⟨by decide, nofun⟩
  obtain ⟨hstays, hanswers⟩ := stays_inside_iff sampleArgs sampleArgs_words
  exact ⟨hstays.mpr hcond, hanswers.mpr hcond⟩

/-- A context on the last page, without bounds. -/
def topArgs : InitArgs := ⟨⟨![0x1000, 2 ^ 64 - 4096, 0, 0, 0]⟩, 0, 0, 0, 0, (0, 0)⟩

/-- `stack_window` gives the walk the window from `2^64 - 4096` to `2^64 - 1`, and its first step
    dereferences the word at `2^64 - 8`. -/
theorem fallback_window_overrun :
    firstWindow topArgs = (2 ^ 64 - 4096, 2 ^ 64 - 1) ∧ secondWindow topArgs = none ∧ ¬ StaysInside topArgs :=
  ⟨by decide, rfl, not_staysInside ⟨by decide, by decide, by decide, by decide⟩ (Or.inl (by decide))⟩

end FramehopUnwind.Cursor
