/-
  FramehopUnwind.Unwinder.Generation — module generations under any interleaving
  (vendor/framehop/src/unwinder.rs, `next_modules_generation`; this repository's patch).

  Threads run `new`, `add_module` and `remove_module`; each takes a generation from one
  shared counter by a load, a checked increment and a weak compare-exchange, retried with
  the value the failed exchange saw (`Pc`). The weak exchange may fail with the counter
  unchanged (`casFail`). Every access of the counter is one step. The list is edited before
  the counter is touched, so what is left of a call is its edited list (`Want`).

  `vals` is history: every unwinder value a completed call ever gave, and every clone.
  `snapshots` are the values `with_writer` published. A call that finds the counter
  exhausted panics and gives no value.

  Proved, for every run from any counter value:
  - `run_exhausted`, `exhausted_call_panics`: a counter at `2^64 - 1` stays there, no call
    returns, and a call that takes its remaining steps panics.
  - `generation_determines_modules`: no two calls return the same generation, and values
    with equal generations have equal module lists.
  - `runEdits_published`: what a sequence of edits gives, some run publishes.
-/

import FramehopUnwind.Lib.Runs
import FramehopUnwind.Lib.Word
import FramehopUnwind.Unwinder.Edits

namespace FramehopUnwind.Unwinder.Generation

open Lib.Runs Lib.Word Relation

variable {D : Type}

/-- What a call does with its generation: give an unwinder with these modules. -/
structure Want (D : Type) where
  modules : Chunks D
  wf : WF modules

def Want.value (w : Want D) (g : Nat) : UnwinderInternal D := ⟨w.modules, g, w.wf⟩

inductive Pc (D : Type) where
  | idle
  /-- Before the load of the counter. -/
  | load (w : Want D)
  /-- Before the increment and compare-exchange of the `generation` it holds. -/
  | cas (w : Want D) (generation : Nat)

structure St (D : Type) where
  counter : Nat
  pc : Nat → Pc D
  /-- Generations returned so far. -/
  returned : List Nat
  /-- Every value a call gave or cloned. -/
  vals : List (UnwinderInternal D)
  snapshots : List (UnwinderInternal D)

def init (s : St D) : Prop :=
  s.counter ≤ u64Max ∧ (∀ t, s.pc t = .idle) ∧ s.returned = [] ∧ s.vals = [] ∧ s.snapshots = []

inductive Step : St D → St D → Prop
  | new (s : St D) (t : Nat) : s.pc t = .idle →
      Step s { s with pc := Function.update s.pc t (.load ⟨[], wf_nil⟩) }
  | clone (s : St D) (u : UnwinderInternal D) : u ∈ s.vals → Step s { s with vals := s.vals ++ [u] }
  | add (s : St D) (t : Nat) (u : UnwinderInternal D) (m : Module D) : s.pc t = .idle → u ∈ s.vals →
      Step s { s with pc := Function.update s.pc t (.load ⟨insertModule u.modules m, insertModule_wf u.wf m⟩) }
  | remove (s : St D) (t : Nat) (u : UnwinderInternal D) (start : Nat) (modules : Chunks D)
      (h : deleteModule u.modules start = some modules) : s.pc t = .idle → u ∈ s.vals →
      Step s { s with pc := Function.update s.pc t (.load ⟨modules, deleteModule_wf u.wf h⟩) }
  /-- No module has that start: the unwinder is left as it is. -/
  | removeAbsent (s : St D) (u : UnwinderInternal D) (start : Nat) : u ∈ s.vals → deleteModule u.modules start = none →
      Step s { s with vals := s.vals ++ [u] }
  | publish (s : St D) (u : UnwinderInternal D) : u ∈ s.vals → Step s { s with snapshots := s.snapshots ++ [u] }
  | load (s : St D) (t : Nat) (w : Want D) : s.pc t = .load w →
      Step s { s with pc := Function.update s.pc t (.cas w s.counter) }
  | casOk (s : St D) (t : Nat) (w : Want D) (g : Nat) : s.pc t = .cas w g → g + 1 ≤ u64Max → s.counter = g →
      Step s { s with
        counter := g + 1
        pc := Function.update s.pc t .idle
        returned := s.returned ++ [g]
        vals := s.vals ++ [w.value g] }
  /-- The exchange fails, spuriously if the counter is `g`, and hands back the counter. -/
  | casFail (s : St D) (t : Nat) (w : Want D) (g : Nat) : s.pc t = .cas w g → g + 1 ≤ u64Max →
      Step s { s with pc := Function.update s.pc t (.cas w s.counter) }
  /-- The increment overflows. The call unwinds through `add_module` or `remove_module`, whose
      `self` has the edited list under its old generation; it is not used again: `with_writer` drops
      the clone it was editing, and only a test of the counter catches the panic. -/
  | panic (s : St D) (t : Nat) (w : Want D) (g : Nat) : s.pc t = .cas w g → ¬ g + 1 ≤ u64Max →
      Step s { s with pc := Function.update s.pc t .idle }

/-! ## The invariant -/

structure Inv (s : St D) : Prop where
  bounded : s.counter ≤ u64Max
  returnedBelow : ∀ g ∈ s.returned, g < s.counter
  nodup : s.returned.Nodup
  valsBelow : ∀ u ∈ s.vals, u.modulesGeneration < s.counter
  determined : ∀ u ∈ s.vals, ∀ v ∈ s.vals, u.modulesGeneration = v.modulesGeneration → u.modules = v.modules
  published : ∀ u ∈ s.snapshots, u ∈ s.vals

theorem Inv.withPc {s : St D} (h : Inv s) (pc : Nat → Pc D) : Inv { s with pc := pc } :=
  ⟨h.bounded, h.returnedBelow, h.nodup, h.valsBelow, h.determined, h.published⟩

theorem Inv.clone {s : St D} (h : Inv s) {u : UnwinderInternal D} (hu : u ∈ s.vals) :
    Inv { s with vals := s.vals ++ [u] } := by
  have mem : ∀ v ∈ s.vals ++ [u], v ∈ s.vals := by
    intro v hv
    rcases List.mem_append.mp hv with hv | hv
    · exact hv
    · rwa [List.mem_singleton.mp hv]
  exact ⟨h.bounded, h.returnedBelow, h.nodup, fun v hv => h.valsBelow v (mem v hv),
    fun v hv w hw => h.determined v (mem v hv) w (mem w hw), fun v hv => List.mem_append_left _ (h.published v hv)⟩

/-- A returned generation is fresh, so the value that carries it agrees with no other. -/
theorem Inv.casOk {s : St D} (h : Inv s) {w : Want D} (pc : Nat → Pc D) (hm : s.counter + 1 ≤ u64Max) :
    Inv { s with
      counter := s.counter + 1
      pc := pc
      returned := s.returned ++ [s.counter]
      vals := s.vals ++ [w.value s.counter] } := by
  refine ⟨hm, ?_, ?_, ?_, ?_,
    fun u hu => List.mem_append_left _ (h.published u hu)⟩
  · intro g hg
    show g < s.counter + 1
    rcases List.mem_append.mp hg with hg | hg
    · have := h.returnedBelow g hg; omega
    · simp at hg; omega
  · rw [List.nodup_append]
    refine ⟨h.nodup, by simp, ?_⟩
    intro g hg g' hg' e
    have := h.returnedBelow g hg
    simp at hg'
    omega
  · intro u hu
    show u.modulesGeneration < s.counter + 1
    rcases List.mem_append.mp hu with hu | hu
    · have := h.valsBelow u hu; omega
    · rw [List.mem_singleton.mp hu]
      exact Nat.lt_succ_self _
  · intro u hu v hv e
    rcases List.mem_append.mp hu with hu | hu <;> rcases List.mem_append.mp hv with hv | hv
    · exact h.determined u hu v hv e
    · rw [List.mem_singleton.mp hv] at e
      exact absurd e (h.valsBelow u hu).ne
    · rw [List.mem_singleton.mp hu] at e
      exact absurd e (h.valsBelow v hv).ne'
    · rw [List.mem_singleton.mp hu, List.mem_singleton.mp hv]

theorem step_inv {s s' : St D} (h : Inv s) (hs : Step s s') : Inv s' := by
  cases hs with
  | new t _ => exact h.withPc _
  | clone u hu => exact h.clone hu
  | add t u m _ _ => exact h.withPc _
  | remove t u start modules hd _ _ => exact h.withPc _
  | removeAbsent u start hu _ => exact h.clone hu
  | publish u hu =>
    refine ⟨h.bounded, h.returnedBelow, h.nodup, h.valsBelow, h.determined, ?_⟩
    intro v hv
    rcases List.mem_append.mp hv with hv | hv
    · exact h.published v hv
    · rwa [List.mem_singleton.mp hv]
  | load t w _ => exact h.withPc _
  | casOk t w g _ hm hc =>
    subst hc
    exact h.casOk _ hm
  | casFail t w g _ _ => exact h.withPc _
  | panic t w g _ _ => exact h.withPc _

theorem inv {s : St D} (h : Reach init Step s) : Inv s := by
  refine h.invariant ?_ (fun s t _ hi hs => step_inv hi hs)
  intro s h0
  obtain ⟨hc, -, hr, hv, hp⟩ := h0
  exact ⟨hc, by simp [hr], by simp [hr], by simp [hv], by simp [hv], by simp [hp]⟩

/-! ## Exhaustion -/

/-- Nothing a call does moves a counter at its maximum, or returns a generation from it. -/
theorem step_exhausted {s s' : St D} (hc : s.counter = u64Max) (hs : Step s s') :
    s'.counter = u64Max ∧ s'.returned = s.returned := by
  cases hs with
  | casOk t w g _ hm hg => omega
  | _ => exact ⟨hc, rfl⟩

theorem run_exhausted {s s' : St D} (hc : s.counter = u64Max) (hr : ReflTransGen Step s s') :
    s'.counter = u64Max ∧ s'.returned = s.returned := by
  refine stable (P := fun x => x.counter = u64Max ∧ x.returned = s.returned) ?_ ⟨hc, rfl⟩ hr
  intro a b ha hab
  obtain ⟨h1, h2⟩ := step_exhausted ha.1 hab
  exact ⟨h1, h2.trans ha.2⟩

/-- The steps left to a call on an exhausted counter before it panics. -/
def remaining : Pc D → Nat
  | .idle => 0
  | .load _ => 3
  | .cas _ g => if g = u64Max then 1 else 2

/-- With the counter exhausted, each step of a call leaves it fewer to go, and the call
    ends by panicking: it gives no value. -/
theorem exhausted_call_panics {s s' : St D} (hc : s.counter = u64Max) (hs : Step s s') {t : Nat}
    (hb : s.pc t ≠ .idle) (hne : s'.pc t ≠ s.pc t) :
    remaining (s'.pc t) < remaining (s.pc t) ∧ s'.vals = s.vals := by
  have upd : ∀ (t' : Nat) (p : Pc D), Function.update s.pc t' p t ≠ s.pc t → t' = t := by
    intro t' p hu
    by_contra e
    exact hu (Function.update_of_ne (Ne.symm e) _ _)
  cases hs with
  | new t' hi => exact absurd (upd t' _ hne ▸ hi) hb
  | clone u _ => exact absurd rfl hne
  | add t' u m hi _ => exact absurd (upd t' _ hne ▸ hi) hb
  | remove t' u start modules _ hi _ => exact absurd (upd t' _ hne ▸ hi) hb
  | removeAbsent u start _ _ => exact absurd rfl hne
  | publish u _ => exact absurd rfl hne
  | load t' w hp =>
    obtain rfl := upd t' _ hne
    refine ⟨?_, rfl⟩
    simp only [Function.update_self, hp, hc, remaining, if_true]
    omega
  | casOk t' w g _ hm hg => omega
  | casFail t' w g hp hm =>
    obtain rfl := upd t' _ hne
    have : g ≠ u64Max := by omega
    refine ⟨?_, rfl⟩
    simp only [Function.update_self, hp, hc, remaining, this, if_true, if_false]
    omega
  | panic t' w g hp _ =>
    obtain rfl := upd t' _ hne
    refine ⟨?_, rfl⟩
    simp only [Function.update_self, hp, remaining]
    split <;> omega

/-! ## A call that runs alone -/

/-- The load and the exchange of a call no other step comes between are
    `nextModulesGeneration`. -/
theorem alone_runs (s : St D) (t : Nat) (w : Want D) (hp : s.pc t = .load w) {g c : Nat}
    (h : nextModulesGeneration s.counter = some (g, c)) :
    ∃ s₁ s₂, Step s s₁ ∧ Step s₁ s₂ ∧ s₂.pc t = .idle ∧ s₂.counter = c ∧ s₂.returned = s.returned ++ [g] ∧
      s₂.vals = s.vals ++ [w.value g] := by
  unfold nextModulesGeneration at h
  split at h
  · rename_i hlt
    cases h
    exact ⟨_, _, .load s t w hp, .casOk _ t w s.counter (Function.update_self _ _ _) (by unfold u64Max; omega) rfl,
      Function.update_self _ _ _, rfl, rfl, rfl⟩
  · cases h

/-- A thread that has nothing under way and holds `u` carries an edit out: the sequential
    `applyEdit` is a run. -/
theorem applyEdit_runs {s : St D} {u u' : UnwinderInternal D} {e : Edit D} {c : Nat} (hp : s.pc 0 = .idle)
    (hu : u ∈ s.vals) (h : applyEdit u e s.counter = some (u', c)) :
    ∃ s', ReflTransGen Step s s' ∧ s'.pc 0 = .idle ∧ u' ∈ s'.vals ∧ s'.counter = c := by
  -- a call that has edited its list: load, exchange
  have finish : ∀ (w : Want D) (s₁ : St D), Step s s₁ → s₁.pc 0 = .load w → s₁.counter = s.counter →
      (nextModulesGeneration s.counter).map (fun r => (w.value r.1, r.2)) = some (u', c) →
      ∃ s', ReflTransGen Step s s' ∧ s'.pc 0 = .idle ∧ u' ∈ s'.vals ∧ s'.counter = c := by
    intro w s₁ hs hp₁ hc hn
    obtain ⟨⟨g, c'⟩, hg, he⟩ := Option.map_eq_some_iff.mp hn
    cases he
    rw [← hc] at hg
    obtain ⟨s₂, s₃, h₂, h₃, hidle, hc₃, -, hv⟩ := alone_runs s₁ 0 w hp₁ hg
    exact ⟨s₃, ((ReflTransGen.single hs).tail h₂).tail h₃, hidle, by simp [hv], hc₃⟩
  cases e with
  | add m =>
    exact finish ⟨insertModule u.modules m, insertModule_wf u.wf m⟩ _ (.add s 0 u m hp hu)
      (by simp only [Function.update_self]) rfl h
  | remove start =>
    simp only [applyEdit, removeModule] at h
    split at h
    · cases h
      exact ⟨s, .refl, hp, hu, rfl⟩
    · rename_i modules hd
      exact finish ⟨modules, deleteModule_wf u.wf hd⟩ _ (.remove s 0 u start modules hd hp hu)
        (by simp only [Function.update_self]) rfl h

theorem applyEdits_runs {es : List (Edit D)} {s : St D} {u u' : UnwinderInternal D} {c : Nat} (hp : s.pc 0 = .idle)
    (hu : u ∈ s.vals) (h : applyEdits es u s.counter = some (u', c)) :
    ∃ s', ReflTransGen Step s s' ∧ s'.pc 0 = .idle ∧ u' ∈ s'.vals := by
  induction es generalizing s u with
  | nil => cases h; exact ⟨s, .refl, hp, hu⟩
  | cons e es ih =>
    simp only [applyEdits] at h
    split at h
    · cases h
    · rename_i v c₁ he
      obtain ⟨s₁, hr, hp₁, hv, rfl⟩ := applyEdit_runs hp hu he
      obtain ⟨s₂, hr₂, hp₂, hu₂⟩ := ih hp₁ hv h
      exact ⟨s₂, hr.trans hr₂, hp₂, hu₂⟩

/-- Whatever a sequence of edits from `new` gives is published by some run. -/
theorem runEdits_published (es : List (Edit D)) (counter c : Nat) {u : UnwinderInternal D} (hc : counter ≤ u64Max)
    (h : runEdits es counter = some (u, c)) : ∃ s : St D, Reach init Step s ∧ u ∈ s.snapshots := by
  let s₀ : St D := ⟨counter, fun _ => .idle, [], [], []⟩
  unfold runEdits UnwinderInternal.new at h
  split at h
  · cases h
  rename_i v c₁ hn
  obtain ⟨⟨g, c'⟩, hg, he⟩ := Option.map_eq_some_iff.mp hn
  cases he
  obtain ⟨s₂, s₃, h₂, h₃, hidle, rfl, -, hv⟩ :=
    alone_runs { s₀ with pc := Function.update s₀.pc 0 (.load ⟨[], wf_nil⟩) } 0 ⟨[], wf_nil⟩
      (by simp only [Function.update_self]) hg
  obtain ⟨s₄, hr, -, hu⟩ := applyEdits_runs (u := (⟨[], wf_nil⟩ : Want D).value g) hidle (by simp [hv]) h
  have h0 : Reach init Step s₀ := Reach.start ⟨hc, fun _ => rfl, rfl, rfl, rfl⟩
  exact ⟨_, ((((h0.tail (.new s₀ 0 rfl)).tail h₂).tail h₃).trans hr).tail (.publish s₄ u hu), by simp⟩

/-! ## Generations and lists -/

/-- In every run: no two calls return the same generation; once the counter is at its
    maximum it stays there, no later call returns, and a call that takes its remaining steps
    panics without giving a value; and any two unwinder values of the run, the published
    snapshots among them, with equal generations have equal module lists. -/
theorem generation_determines_modules {s : St D} (h : Reach init Step s) :
    s.returned.Nodup ∧
    (s.counter = u64Max → ∀ s', ReflTransGen Step s s' →
      s'.counter = u64Max ∧ s'.returned = s.returned ∧
      ∀ s'' t, Step s' s'' → s'.pc t ≠ .idle → s''.pc t ≠ s'.pc t →
        remaining (s''.pc t) < remaining (s'.pc t) ∧ s''.vals = s'.vals) ∧
    (∀ u ∈ s.snapshots, u ∈ s.vals) ∧
    ∀ u ∈ s.vals, ∀ v ∈ s.vals, u.modulesGeneration = v.modulesGeneration → u.modules = v.modules := by
  have hi := inv h
  refine ⟨hi.nodup, ?_, hi.published, hi.determined⟩
  intro hc s' hr
  obtain ⟨h1, h2⟩ := run_exhausted hc hr
  exact ⟨h1, h2, fun s'' t hs hb hne => exhausted_call_panics h1 hs hb hne⟩

/-- Two modules, below and above. -/
def low : Module Unit := ⟨⟨16, 32⟩, 16, 16, ()⟩

def high : Module Unit := ⟨⟨64, 96⟩, 64, 64, ()⟩

/-- A thread edits the empty unwinder and another edits its clone; both have loaded the same
    generation when the first one's exchange takes it. -/
theorem generation_determines_modules_two :
    ∃ (s : St Unit) (u v : UnwinderInternal Unit), Reach init Step s ∧ u ∈ s.snapshots ∧ v ∈ s.snapshots ∧
      u.modules = [[low]] ∧ v.modules = [[high]] ∧ s.returned.Nodup ∧ u.modulesGeneration ≠ v.modulesGeneration := by
  let empty : UnwinderInternal Unit := ⟨[], 0, wf_nil⟩
  have hempty : Reach init Step (⟨1, Function.update _ 0 .idle, [0], [empty], []⟩ : St Unit) :=
    (((Reach.start ⟨by decide, fun _ => rfl, rfl, rfl, rfl⟩).tail
      (.new ⟨0, fun _ => .idle, [], [], []⟩ 0 rfl)).tail (.load _ 0 ⟨[], wf_nil⟩ rfl)).tail
      (.casOk _ 0 ⟨[], wf_nil⟩ 0 rfl (by decide) rfl)
  have hcloned := hempty.tail (.clone _ empty (by simp))
  have hboth := (hcloned.tail (.add _ 0 empty low rfl (by simp))).tail (.add _ 1 empty high rfl (by simp))
  have hloaded := (hboth.tail (.load _ 0 _ rfl)).tail (.load _ 1 _ rfl)
  have hfirst := hloaded.tail (.casOk _ 0 _ 1 rfl (by decide) rfl)
  have hsecond := (hfirst.tail (.casFail _ 1 _ 1 rfl (by decide))).tail (.casOk _ 1 _ 2 rfl (by decide) rfl)
  have hpublished := (hsecond.tail (.publish _ _ (List.mem_append_left _ List.mem_concat_self))).tail
    (.publish _ _ List.mem_concat_self)
  obtain ⟨hnodup, -, hvals, hdetermined⟩ := generation_determines_modules hpublished
  refine ⟨_, _, _, hpublished, List.mem_append_left _ List.mem_concat_self, List.mem_concat_self, rfl, rfl, hnodup, ?_⟩
  intro heq
  have hsame := hdetermined _ (hvals _ (List.mem_append_left _ List.mem_concat_self)) _
    (hvals _ List.mem_concat_self) heq
  cases hsame

end FramehopUnwind.Unwinder.Generation
