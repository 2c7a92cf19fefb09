/-
  FramehopUnwind.Modules.EhFrameKeys — deregistering by `.eh_frame` address
  (src/modules/mod.rs: `add_jit_module`, `remove_jit_locked`,
  `remove_jit_module_by_eh_frame`).

  `jit_by_eh_frame` and `jit_eh_frame_by_key` are kept by hand: registering purges the
  key's old address, then takes the address over from the key that had it. A run keeps a
  log of what happened: a registration, the key a removal was called with, and what a
  deregistration by address took out of `jit_keys`. `Held log e k` is the log's reading of
  the pair: the last registration at address `e` was for key `k`, and `k` has since been
  neither removed nor registered again.

  Proved, for every sequence of operations:
  - `Maps`: the two maps are inverse to each other and name registered keys only.
  - `held_iff`: the map holds exactly the pairs the log holds.
  - `deregister_removes_held_key`: a deregistration removes a key exactly when the pair is
    held, and otherwise changes nothing.
-/

import FramehopUnwind.Modules.Registry

namespace FramehopUnwind.Modules

open Unwinder

variable {D : Type}

/-! ## Inverse maps -/

structure Maps (reg : Registry) : Prop where
  inverse : ∀ e k, reg.jitByEhFrame e = some k ↔ reg.jitEhFrameByKey k = some e
  registered : ∀ e k, reg.jitByEhFrame e = some k → k ∈ reg.jitKeys

/-- Forgetting a key drops the one pair it is in. -/
theorem forgetJitEhFrame_maps (reg : Registry) (h : ∀ e k, reg.jitByEhFrame e = some k ↔ reg.jitEhFrameByKey k = some e)
    (key : Nat) :
    (forgetJitEhFrame reg key).jitKeys = reg.jitKeys ∧
    (∀ e k, (forgetJitEhFrame reg key).jitByEhFrame e = some k ↔ reg.jitByEhFrame e = some k ∧ k ≠ key) ∧
    ∀ e k, (forgetJitEhFrame reg key).jitEhFrameByKey k = some e ↔ reg.jitEhFrameByKey k = some e ∧ k ≠ key := by
  unfold forgetJitEhFrame
  cases hk : reg.jitEhFrameByKey key with
  | none =>
    refine ⟨rfl, fun e k => ⟨fun he => ⟨he, ?_⟩, And.left⟩, fun e k => ⟨fun he => ⟨he, ?_⟩, And.left⟩⟩
    · intro heq
      subst heq
      rw [h, hk] at he
      cases he
    · intro heq
      subst heq
      rw [hk] at he
      cases he
  | some a =>
    have ha : reg.jitByEhFrame a = some key := (h a key).mpr hk
    simp only [ha, if_true]
    refine ⟨trivial, ?_, ?_⟩
    · intro e k
      by_cases hea : e = a
      · subst hea
        simp only [Function.update_self, ha, Option.some.injEq, false_iff, reduceCtorEq]
        intro h₀
        obtain ⟨rfl, hne⟩ := h₀
        exact hne rfl
      · rw [Function.update_of_ne hea]
        refine ⟨fun he => ⟨he, ?_⟩, And.left⟩
        intro heq
        subst heq
        rw [h, hk] at he
        exact hea (Option.some.inj he).symm
    · intro e k
      by_cases hkk : k = key
      · subst hkk
        simp
      · simp [hkk]

theorem insertEhFrame_byEhFrame (reg : Registry) (key a : Nat) :
    (insertEhFrame reg key a).jitByEhFrame = Function.update reg.jitByEhFrame a (some key) := by
  unfold insertEhFrame
  cases reg.jitByEhFrame a <;> rfl

/-- Taking an address over drops the pair it was in. -/
theorem insertEhFrame_byKey {reg : Registry}
    (h : ∀ e k, reg.jitByEhFrame e = some k ↔ reg.jitEhFrameByKey k = some e) (key a e k : Nat) :
    (insertEhFrame reg key a).jitEhFrameByKey k = some e ↔ reg.jitEhFrameByKey k = some e ∧ e ≠ a := by
  unfold insertEhFrame
  cases hp : reg.jitByEhFrame a with
  | none =>
    refine ⟨fun he => ⟨he, ?_⟩, And.left⟩
    intro heq
    subst heq
    have := (h e k).mpr he
    rw [hp] at this
    cases this
  | some prev =>
    by_cases hkp : k = prev
    · subst hkp
      simp only [Function.update_self, reduceCtorEq, false_iff, not_and, not_not]
      intro he
      rw [(h a k).mp hp] at he
      exact (Option.some.inj he).symm
    · simp only [Function.update_of_ne hkp]
      refine ⟨fun he => ⟨he, ?_⟩, And.left⟩
      intro heq
      subst heq
      exact hkp (Option.some.inj (((h e k).mpr he).symm.trans hp))

/-- Registering adds its pair and drops the pairs of its key and of its address. -/
theorem recordJit_maps {reg : Registry} (h : Maps reg) (key a : Nat) :
    (recordJit reg key a).jitKeys = insert key reg.jitKeys ∧ Maps (recordJit reg key a) ∧
    ∀ e k, (recordJit reg key a).jitByEhFrame e = some k ↔
      (e = a ∧ k = key) ∨ (reg.jitByEhFrame e = some k ∧ k ≠ key ∧ e ≠ a) := by
  obtain ⟨hkeys, hby, hof⟩ :=
    forgetJitEhFrame_maps { reg with jitKeys := insert key reg.jitKeys } h.inverse key
  simp only at hkeys hby hof
  unfold recordJit
  simp only
  generalize forgetJitEhFrame { reg with jitKeys := insert key reg.jitKeys } key = reg₁ at hkeys hby hof ⊢
  have hinv : ∀ e k, reg₁.jitByEhFrame e = some k ↔ reg₁.jitEhFrameByKey k = some e := by
    intro e k
    rw [hby, hof, h.inverse]
  have hspec : ∀ e k, (insertEhFrame reg₁ key a).jitByEhFrame e = some k ↔
      (e = a ∧ k = key) ∨ (reg.jitByEhFrame e = some k ∧ k ≠ key ∧ e ≠ a) := by
    intro e k
    rw [insertEhFrame_byEhFrame]
    by_cases hea : e = a
    · subst hea
      simp [eq_comm]
    · simp only [Function.update_of_ne hea, hby, hea, false_and, false_or, ne_eq, not_false_eq_true, and_true]
  refine ⟨by rw [insertEhFrame_keys, hkeys], ⟨?_, ?_⟩, hspec⟩
  · intro e k
    rw [hspec]
    by_cases hk : k = key
    · subst hk
      simp [eq_comm]
    · simp only [Function.update_of_ne hk, insertEhFrame_byKey hinv, hof, h.inverse]
      simp [hk]
  · intro e k he
    rw [insertEhFrame_keys, hkeys]
    rcases (hspec e k).mp he with ⟨-, rfl⟩ | ⟨he, -⟩
    · exact Finset.mem_insert_self _ _
    · exact Finset.mem_insert_of_mem (h.registered e k he)

/-- Removing a key drops its pair. -/
theorem eraseJit_maps {reg : Registry} (h : Maps reg) (key : Nat) :
    (eraseJit reg key).jitKeys = reg.jitKeys.erase key ∧ Maps (eraseJit reg key) ∧
    ∀ e k, (eraseJit reg key).jitByEhFrame e = some k ↔ reg.jitByEhFrame e = some k ∧ k ≠ key := by
  obtain ⟨hkeys, hby, hof⟩ :=
    forgetJitEhFrame_maps { reg with jitKeys := reg.jitKeys.erase key } h.inverse key
  refine ⟨hkeys, ⟨?_, ?_⟩, hby⟩
  · intro e k
    unfold eraseJit
    rw [hby, hof, h.inverse]
  · intro e k he
    obtain ⟨he, hk⟩ := (hby e k).mp he
    unfold eraseJit
    rw [hkeys]
    exact Finset.mem_erase.mpr ⟨hk, h.registered e k he⟩

/-! ## Runs and their log -/

inductive JitOp (D : Type) where
  | add (key ehFrameAddr : Nat) (m : Module D)
  | remove (key : Nat)
  | removeByEhFrame (ehFrameAddr : Nat)

def JitOp.apply (w : World D) : JitOp D → Option (World D)
  | .add key ehFrameAddr m => addJitModule w key ehFrameAddr m
  | .remove key => removeJitModule w key
  | .removeByEhFrame ehFrameAddr => removeJitModuleByEhFrame w ehFrameAddr

inductive Event where
  | added (key ehFrameAddr : Nat)
  /-- The key a removal was called with, or the keys that one by address took out of `jit_keys`. -/
  | removed (keys : Finset Nat)
  deriving DecidableEq

def JitOp.event (w w' : World D) : JitOp D → Event
  | .add key ehFrameAddr _ => .added key ehFrameAddr
  | .remove key => .removed {key}
  | .removeByEhFrame _ => .removed (w.reg.jitKeys \ w'.reg.jitKeys)

/-- The world and the log after a sequence of operations. -/
def runJitOps : List (JitOp D) → World D × List Event → Option (World D × List Event)
  | [], s => some s
  | op :: ops, (w, log) =>
    match op.apply w with
    | none => none
    | some w' => runJitOps ops (w', log ++ [op.event w w'])

/-- The last registration at `e` was for `k`, which was not removed or registered since. -/
def Held (log : List Event) (e k : Nat) : Prop :=
  ∃ before after, log = before ++ .added k e :: after ∧
    ∀ ev ∈ after, match ev with
      | .added k' e' => k' ≠ k ∧ e' ≠ e
      | .removed keys => k ∉ keys

/-- `Held` after one more event. -/
theorem held_snoc (log : List Event) (ev : Event) (e k : Nat) :
    Held (log ++ [ev]) e k ↔ ev = .added k e ∨ (Held log e k ∧ match ev with
      | .added k' e' => k' ≠ k ∧ e' ≠ e
      | .removed keys => k ∉ keys) := by
  constructor
  · intro h₀
    obtain ⟨before, after, heq, hafter⟩ := h₀
    rcases List.eq_nil_or_concat after with rfl | ⟨after, last, rfl⟩
    · left
      exact (List.append_inj_right' heq rfl |> List.singleton_inj.mp)
    · right
      have heq' : log ++ [ev] = (before ++ .added k e :: after) ++ [last] := by simpa using heq
      obtain ⟨rfl, hl⟩ := List.append_inj' heq' rfl
      obtain rfl := List.singleton_inj.mp hl
      exact ⟨⟨before, after, rfl, fun ev' h => hafter ev' (by simp [h])⟩, hafter ev (by simp)⟩
  · intro h₀
    rcases h₀ with rfl | ⟨⟨before, after, rfl, hafter⟩, hev⟩
    · exact ⟨log, [], rfl, by simp⟩
    · refine ⟨before, after ++ [ev], by simp, ?_⟩
      intro ev' h
      rcases List.mem_append.mp h with h | h
      · exact hafter ev' h
      · rw [List.mem_singleton.mp h]
        exact hev

/-! ## The invariant -/

structure KeyInv (w : World D) (log : List Event) : Prop where
  maps : Maps w.reg
  held : ∀ e k, w.reg.jitByEhFrame e = some k ↔ Held log e k

theorem removeJitLocked_removes {w w' : World D} {key : Nat} (h : removeJitLocked w key = some w') :
    w.reg.jitKeys \ w'.reg.jitKeys ⊆ {key} := by
  rcases removeJitLocked_cases h with ⟨-, rfl⟩ | ⟨-, hreg, -⟩
  · simp
  · intro k hk
    rw [hreg, eraseJit_keys, Finset.mem_sdiff, Finset.mem_erase] at hk
    by_contra hne
    exact hk.2 ⟨fun heq => hne (Finset.mem_singleton.mpr heq), hk.1⟩

/-- A removal is logged with its key, or with what it took out: the map names registered keys
    only, so a key that was not registered makes no difference. -/
theorem KeyInv.removed {w w' : World D} {log : List Event} {key : Nat} {keys : Finset Nat} (hi : KeyInv w log)
    (h : removeJitLocked w key = some w') (hkeys : keys ⊆ {key}) (htook : w.reg.jitKeys \ w'.reg.jitKeys ⊆ keys) :
    KeyInv w' (log ++ [.removed keys]) := by
  rcases removeJitLocked_cases h with ⟨hn, rfl⟩ | ⟨hk, hreg, -⟩
  · refine ⟨hi.maps, ?_⟩
    intro e k
    rw [held_snoc, ← hi.held]
    simp only [reduceCtorEq, false_or, iff_self_and]
    intro he hmem
    rw [Finset.mem_singleton.mp (hkeys hmem)] at he
    exact hn (hi.maps.registered e key he)
  · obtain ⟨hleft, hmaps, hby⟩ := eraseJit_maps hi.maps key
    rw [← hreg] at hleft hmaps hby
    refine ⟨hmaps, ?_⟩
    intro e k
    have hmem : k ∈ keys ↔ k = key := by
      constructor
      · intro hmem
        exact Finset.mem_singleton.mp (hkeys hmem)
      · rintro rfl
        apply htook
        rw [hleft]
        simp [hk]
    rw [held_snoc, hby, hi.held]
    simp only [reduceCtorEq, false_or, hmem, ne_eq]

theorem apply_keyInv {w w' : World D} {log : List Event} {op : JitOp D} (hi : KeyInv w log)
    (h : op.apply w = some w') : KeyInv w' (log ++ [op.event w w']) := by
  cases op with
  | add key a m =>
    obtain ⟨hreg, -⟩ := addJitModule_spec h
    obtain ⟨-, hmaps, hby⟩ := recordJit_maps hi.maps key a
    rw [← hreg] at hmaps hby
    refine ⟨hmaps, ?_⟩
    intro e k
    rw [hby, JitOp.event, held_snoc, hi.held]
    simp only [Event.added.injEq, ne_eq, eq_comm (a := key), eq_comm (a := a)]
    tauto
  | remove key => exact hi.removed h subset_rfl (removeJitLocked_removes h)
  | removeByEhFrame a =>
    simp only [JitOp.apply, removeJitModuleByEhFrame] at h
    split at h
    · cases h
      refine ⟨hi.maps, ?_⟩
      intro e k
      rw [JitOp.event, held_snoc, hi.held]
      simp
    · exact hi.removed h (removeJitLocked_removes h) subset_rfl

theorem run_keyInv {ops : List (JitOp D)} {w w' : World D} {log log' : List Event} (hi : KeyInv w log)
    (h : runJitOps ops (w, log) = some (w', log')) : KeyInv w' log' := by
  induction ops generalizing w log with
  | nil => cases h; exact hi
  | cons op ops ih =>
    simp only [runJitOps] at h
    split at h
    · cases h
    · rename_i w₁ hop
      exact ih (apply_keyInv hi hop) h

theorem KeyInv.start {w : World D} (h : w.reg.jitKeys = ∅ ∧ (∀ e, w.reg.jitByEhFrame e = none) ∧
    ∀ k, w.reg.jitEhFrameByKey k = none) : KeyInv w [] := by
  refine ⟨⟨?_, ?_⟩, ?_⟩
  · intro e k
    simp [h.2.1, h.2.2]
  · intro e k he
    rw [h.2.1] at he
    cases he
  · intro e k
    simp [h.2.1, Held]

/-- Deregistering an address changes nothing if the log holds no key for it, and removes the
    one key the log holds for it otherwise. -/
theorem KeyInv.deregister {w w' : World D} {log : List Event} {e : Nat} (hi : KeyInv w log)
    (h : removeJitModuleByEhFrame w e = some w') :
    ((∀ k, ¬ Held log e k) ∧ w' = w) ∨
    ∃ key ∈ w.reg.jitKeys, (∀ k, Held log e k ↔ key = k) ∧ w'.reg.jitKeys = w.reg.jitKeys.erase key ∧
      w'.chunks = editChunks w.chunks (.remove key) := by
  unfold removeJitModuleByEhFrame at h
  cases he : w.reg.jitByEhFrame e with
  | none =>
    rw [he] at h
    cases h
    refine Or.inl ⟨?_, rfl⟩
    intro k hk
    rw [← hi.held, he] at hk
    cases hk
  | some key =>
    rw [he] at h
    have hkey := hi.maps.registered e key he
    rcases removeJitLocked_cases h with ⟨hn, -⟩ | ⟨-, hreg, hchunks⟩
    · exact absurd hkey hn
    refine Or.inr ⟨key, hkey, ?_, ?_, hchunks⟩
    · intro k
      rw [← hi.held, he, Option.some.injEq]
    · rw [hreg]
      exact (eraseJit_maps hi.maps key).1

theorem KeyInv.deregister_none {w : World D} {log : List Event} {e : Nat} (hi : KeyInv w log)
    (h : removeJitModuleByEhFrame w e = none) : 2 ^ 64 ≤ w.counter + 2 := by
  simp only [removeJitModuleByEhFrame] at h
  split at h
  · cases h
  · rename_i k hk
    simp only [removeJitLocked, hi.maps.registered e k hk, if_true, Option.map_eq_none_iff] at h
    simpa using withWriter_none h

/-- For every sequence of operations from a registry without JIT modules: the two maps are
    inverse and name registered keys; and deregistering address `e` removes key `k` exactly
    when the log holds the pair, then that key alone and one published module that starts
    there, and otherwise changes nothing. It aborts only on an exhausted counter. -/
theorem deregister_removes_held_key (ops : List (JitOp D)) (w₀ w : World D) (log : List Event)
    (h0 : w₀.reg.jitKeys = ∅ ∧ (∀ e, w₀.reg.jitByEhFrame e = none) ∧ ∀ k, w₀.reg.jitEhFrameByKey k = none)
    (h : runJitOps ops (w₀, []) = some (w, log)) :
    (∀ e k, w.reg.jitByEhFrame e = some k ↔ w.reg.jitEhFrameByKey k = some e) ∧
    (∀ e k, w.reg.jitByEhFrame e = some k → k ∈ w.reg.jitKeys) ∧
    ∀ e, (removeJitModuleByEhFrame w e = none → 2 ^ 64 ≤ w.counter + 2) ∧
      ∀ w', removeJitModuleByEhFrame w e = some w' →
        (∀ k, k ∈ w.reg.jitKeys ∧ k ∉ w'.reg.jitKeys ↔ Held log e k) ∧
        (∀ k, Held log e k → w'.reg.jitKeys = w.reg.jitKeys.erase k ∧ w'.chunks = editChunks w.chunks (.remove k)) ∧
        ((∀ k, ¬ Held log e k) → w' = w) := by
  have hi := run_keyInv (KeyInv.start h0) h
  refine ⟨hi.maps.inverse, hi.maps.registered, fun e => ⟨hi.deregister_none, ?_⟩⟩
  intro w' hw
  rcases hi.deregister hw with ⟨hno, rfl⟩ | ⟨key, hkey, hheld, hkeys, hchunks⟩
  · refine ⟨?_, fun k hk => absurd hk (hno k), fun _ => rfl⟩
    intro k
    exact ⟨fun hk => absurd hk.1 hk.2, fun hk => absurd hk (hno k)⟩
  · refine ⟨?_, ?_, fun hno => absurd ((hheld key).mpr rfl) (hno key)⟩
    · intro k
      rw [hheld, hkeys, Finset.mem_erase]
      constructor
      · intro h₀
        obtain ⟨hm, hn⟩ := h₀
        by_contra hne
        exact hn ⟨Ne.symm hne, hm⟩
      · intro heq
        subst heq
        exact ⟨hkey, fun hk => hk.1 rfl⟩
    · intro k hk
      obtain rfl := (hheld k).mp hk
      exact ⟨hkeys, hchunks⟩

/-- Key 16 is registered at address 100, then 32 takes the address over: deregistering 100
    removes 32 alone. -/
theorem deregister_removes_held_key_reused :
    ∃ (w w' : World Unit) (log : List Event),
      runJitOps [.add 16 100 ⟨⟨16, 32⟩, 16, 16, ()⟩, .add 32 100 ⟨⟨32, 48⟩, 32, 32, ()⟩] (World.new 0, []) =
        some (w, log) ∧
      removeJitModuleByEhFrame w 100 = some w' ∧ w.reg.jitKeys = {16, 32} ∧ w'.reg.jitKeys = {16} := by
  obtain ⟨w, log, h⟩ : ∃ (w : World Unit) (log : List Event), runJitOps
      [.add 16 100 ⟨⟨16, 32⟩, 16, 16, ()⟩, .add 32 100 ⟨⟨32, 48⟩, 32, 32, ()⟩] (World.new 0, []) = some (w, log) :=
    ⟨_, _, rfl⟩
  obtain ⟨-, -, hr⟩ := deregister_removes_held_key _ _ w log ⟨rfl, fun _ => rfl, fun _ => rfl⟩ h
  cases h
  refine ⟨_, _, _, rfl, rfl, by decide, ?_⟩
  rw [(((hr 100).2 _ rfl).2.1 32 ⟨[.added 16 100], [], rfl, by simp⟩).1]
  decide

end FramehopUnwind.Modules
