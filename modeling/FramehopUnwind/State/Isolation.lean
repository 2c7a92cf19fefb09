/-
  FramehopUnwind.State.Isolation — a walk with one owner runs as if it were alone.

  A cursor has one owner, as the header asks: two calls in progress with the same unreleased
  cursor are both `fini` (`OneOwner`). Copies of finished cursors may be presented at any time.
  Then a call past its nonce check keeps the slot until it returns, nobody else touches the
  slot's inner state, and the snapshot a step reads is the one that was acquired.

  Proved:
  - `Iso.step`: one access keeps the invariant.
  - `walk_alone`: what a walk's steps gave is what `Walk.alone` gives on the same inner state
    at the claim, init arguments and step inputs, over a snapshot current during init.
  - `no_use_after_free`: no access reads or frees a freed snapshot.
-/

import FramehopUnwind.State.Hazard

namespace FramehopUnwind.State

open Lib.Word Lib.Runs

variable {W : Walk} {s s' : St W} {t : Nat} {q : Pc W} {i : Nat} {x : Slot W}

/-! ## One walk, alone -/

/-- One `step` call of a live cursor; one that does not return leaves the walk where it is. -/
def Walk.advance (W : Walk) (snap : W.Snap) (env : W.Env) (inner : W.Inner) : Out × W.Inner :=
  if W.done inner then (⟨0, 0, 0⟩, inner) else (W.step snap env inner).getD (⟨0, 0, 0⟩, inner)

/-- The outputs of a sequence of `step` calls, and the inner state after them. -/
def Walk.alone (W : Walk) (snap : W.Snap) : W.Inner → List W.Env → List Out × W.Inner
  | inner, [] => ([], inner)
  | inner, env :: envs =>
    let r := W.advance snap env inner
    let rest := W.alone snap r.2 envs
    (r.1 :: rest.1, rest.2)

theorem alone_concat (snap : W.Snap) (inner : W.Inner) (envs : List W.Env) (env : W.Env) :
    W.alone snap inner (envs ++ [env]) =
      ((W.alone snap inner envs).1 ++ [(W.advance snap env (W.alone snap inner envs).2).1],
        (W.advance snap env (W.alone snap inner envs).2).2) := by
  induction envs generalizing inner with
  | nil => rfl
  | cons e es ih =>
    rw [List.cons_append, Walk.alone, ih]
    rfl

/-- What every step that returns keeps, a walk keeps. -/
theorem alone_invariant {snap : W.Snap} {inner : W.Inner} {envs : List W.Env} {p : W.Inner → Prop}
    (hstep : ∀ env ∈ envs, ∀ inner r, W.done inner = false → W.step snap env inner = some r → p inner → p r.2)
    (h : p inner) :
    p (W.alone snap inner envs).2 := by
  induction envs generalizing inner with
  | nil => exact h
  | cons env envs ih =>
    refine ih (fun env' he => hstep env' (List.mem_cons_of_mem _ he)) ?_
    unfold Walk.advance
    split
    case isTrue => exact h
    case isFalse hd =>
      cases hr : W.step snap env inner with
      | none => exact h
      | some r => exact hstep env List.mem_cons_self inner r (Bool.not_eq_true _ ▸ hd) hr h

/-- The inner state after the first `n` of a sequence of `step` calls. -/
def Walk.innerAt (W : Walk) (snap : W.Snap) (inner : W.Inner) (envs : List W.Env) (n : Nat) : W.Inner :=
  (W.alone snap inner (envs.take n)).2

theorem innerAt_succ {snap : W.Snap} {inner : W.Inner} {envs : List W.Env} {n : Nat} {env : W.Env}
    (h : envs[n]? = some env) :
    W.innerAt snap inner envs (n + 1) = (W.advance snap env (W.innerAt snap inner envs n)).2 := by
  unfold Walk.innerAt
  rw [List.take_add_one, h, Option.toList_some, alone_concat]

theorem alone_out {snap : W.Snap} {inner : W.Inner} {envs : List W.Env} {n : Nat} {env : W.Env}
    (h : envs[n]? = some env) :
    (W.alone snap inner envs).1[n]? = some (W.advance snap env (W.innerAt snap inner envs n)).1 := by
  induction envs generalizing inner n with
  | nil => cases h
  | cons e es ih =>
    cases n with
    | zero =>
      cases h
      rfl
    | succ n =>
      rw [List.getElem?_cons_succ] at h
      exact ih h

/-- Every step of the walk, until it is done, returns. -/
def Walk.Returns (W : Walk) (snap : W.Snap) (inner : W.Inner) (envs : List W.Env) : Prop :=
  ∀ n env, envs[n]? = some env → W.done (W.innerAt snap inner envs n) = false →
    ∃ r, W.step snap env (W.innerAt snap inner envs n) = some r

/-- A step that returned is the walk's next. -/
theorem returned_step {snap : W.Snap} {inner : W.Inner} {envs : List W.Env} (h : W.Returns snap inner envs) {n : Nat}
    {env : W.Env} (he : envs[n]? = some env) (hd : W.done (W.innerAt snap inner envs n) = false) :
    W.step snap env (W.innerAt snap inner envs n) =
      some ((W.advance snap env (W.innerAt snap inner envs n)).1, W.innerAt snap inner envs (n + 1)) := by
  obtain ⟨r, hr⟩ := h n env he hd
  rw [innerAt_succ he, Walk.advance, hd, hr]
  rfl

theorem innerAt_concat {snap : W.Snap} {inner : W.Inner} {envs : List W.Env} {n : Nat} (h : n ≤ envs.length)
    (env : W.Env) :
    W.innerAt snap inner (envs ++ [env]) n = W.innerAt snap inner envs n := by
  rw [Walk.innerAt, Walk.innerAt, List.take_append_of_le_length h]

/-- A walk that returned so far, and one more step that returns. -/
theorem returns_concat {snap : W.Snap} {inner : W.Inner} {envs : List W.Env}
    (h : W.Returns snap inner envs) {env : W.Env}
    (hr : W.done (W.alone snap inner envs).2 = false → ∃ r, W.step snap env (W.alone snap inner envs).2 = some r) :
    W.Returns snap inner (envs ++ [env]) := by
  intro n e he hd
  rcases Nat.lt_or_ge n envs.length with hn | hn
  · rw [innerAt_concat hn.le] at hd ⊢
    rw [List.getElem?_append_left hn] at he
    exact h n e he hd
  · -- the new step is the last one
    obtain ⟨rfl, rfl⟩ : n = envs.length ∧ env = e := by
      rw [List.getElem?_append_right hn, List.getElem?_singleton] at he
      split at he
      case isTrue hz => exact ⟨by omega, Option.some.inj he⟩
      case isFalse => cases he
    have hlast : W.innerAt snap inner (envs ++ [env]) envs.length = (W.alone snap inner envs).2 := by
      rw [innerAt_concat le_rfl, Walk.innerAt, List.take_length]
    rw [hlast] at hd ⊢
    exact hr hd

/-- The walk of a log, alone. -/
def Log.alone (w : Log W) : List Out × W.Inner := W.alone w.snap (W.fill w.args w.snap w.start) w.envs

/-! ## The invariant -/

/-- The call is a `fini`. -/
def Pc.finishing : Pc W → Bool
  | .relSlot _ none | .relCas _ none => true
  | _ => false

/-- Two calls in progress with the same unreleased cursor are both `fini`. -/
def OneOwner (s : St W) : Prop :=
  ∀ t t' c c', t ≠ t' → (s.pc t).presents = some c → (s.pc t').presents = some c' → c.slot = c'.slot →
    c.claim = c'.claim → c.claim ∈ (s.slots c.slot).released ∨
      (s.pc t).finishing = true ∧ (s.pc t').finishing = true

def OwnedRun (s s' : St W) : Prop := Run s s' ∧ OneOwner s'

/-- The log is the walk alone's, whose steps returned, over the snapshot of a publication current
    during init. -/
def Logged (hist : List (Publication W)) (w : Log W) : Prop :=
  w.outs = w.alone.1 ∧ W.Returns w.snap (W.fill w.args w.snap w.start) w.envs ∧
    ∃ h pub, w.held = some h ∧ h.since ≤ h.index + 1 ∧ hist[h.index]? = some pub ∧ pub.snap = w.snap

structure Slot.Walked (hist : List (Publication W)) (x : Slot W) : Prop where
  logged : ∀ w, x.log = some w → Logged hist w
  walking : x.own = .cursor → ∃ w, x.log = some w ∧ x.inner = w.alone.2 ∧ w.held = x.held

/-- The slot whose inner state an actor past its nonce check works on. -/
def Pc.uses : Pc W → Option Nat
  | .useSlot _ c | .use _ c => some c.slot
  | _ => none

def Pc.Walks (s : St W) : Pc W → Prop
  | .useSlot _ c | .use _ c => (s.slots c.slot).own = .cursor ∧ (s.slots c.slot).claims = c.claim
  | .claimSeq _ i => (s.slots i).inner = (s.slots i).start
  | .acqSlot _ c _ | .acqLoad _ c _ | .acqStore _ c _ _ | .acqCheck _ c _ _ | .acqNull _ c | .maxCode _ c _ =>
    (s.slots c.slot).inner = (s.slots c.slot).start
  | .fillSlot _ c _ snap | .fill _ c _ snap => (s.slots c.slot).inner = (s.slots c.slot).start ∧
    ∃ h pub, (s.slots c.slot).held = some h ∧ s.hist[h.index]? = some pub ∧ pub.snap = snap
  | .fault _ => False
  | _ => True

structure Iso (s : St W) : Prop where
  pcs : ∀ t, (s.pc t).Walks s
  slots : ∀ i, (s.slots i).Walked s.hist

theorem Iso.start (h : init s) : Iso s := by
  subst h
  refine ⟨fun t => trivial, fun i => ⟨?_, ?_⟩⟩
  · intro w hw
    cases hw
  · intro ho
    cases ho

theorem OneOwner.start (h : init s) : OneOwner s := by
  subst h
  intro t t' c c' _ hc
  cases hc

/-- What an actor knows of its walk depends on its slot and on the publications there were. -/
theorem Pc.Walks.mono (h : q.Walks s) (hs : ∀ j, q.takes = some j ∨ q.uses = some j → s'.slots j = s.slots j)
    (hh : ∀ (j : Nat) pub, s.hist[j]? = some pub → s'.hist[j]? = some pub) : q.Walks s' := by
  cases q with
  | useSlot op c => rw [Pc.Walks, hs c.slot (Or.inr rfl)]; exact h
  | use op c => rw [Pc.Walks, hs c.slot (Or.inr rfl)]; exact h
  | claimSeq a i => rw [Pc.Walks, hs i (Or.inl rfl)]; exact h
  | acqSlot a c l => rw [Pc.Walks, hs c.slot (Or.inl rfl)]; exact h
  | acqLoad a c l => rw [Pc.Walks, hs c.slot (Or.inl rfl)]; exact h
  | acqStore a c l p => rw [Pc.Walks, hs c.slot (Or.inl rfl)]; exact h
  | acqCheck a c l p => rw [Pc.Walks, hs c.slot (Or.inl rfl)]; exact h
  | acqNull a c => rw [Pc.Walks, hs c.slot (Or.inl rfl)]; exact h
  | maxCode a c p => rw [Pc.Walks, hs c.slot (Or.inl rfl)]; exact h
  | fillSlot a c p snap =>
    obtain ⟨hi, h', pub, hheld, hget, hsnap⟩ := h
    rw [Pc.Walks, hs c.slot (Or.inl rfl)]
    exact ⟨hi, h', pub, hheld, hh _ _ hget, hsnap⟩
  | fill a c p snap =>
    obtain ⟨hi, h', pub, hheld, hget, hsnap⟩ := h
    rw [Pc.Walks, hs c.slot (Or.inl rfl)]
    exact ⟨hi, h', pub, hheld, hh _ _ hget, hsnap⟩
  | fault j => exact h
  | _ => trivial

theorem Slot.Walked.mono {hist hist' : List (Publication W)} (h : x.Walked hist)
    (hh : ∀ (j : Nat) pub, hist[j]? = some pub → hist'[j]? = some pub) : x.Walked hist' := by
  refine ⟨?_, h.walking⟩
  intro w hw
  obtain ⟨ho, hr, h', pub, hheld, hs, hget, hsnap⟩ := h.logged w hw
  exact ⟨ho, hr, h', pub, hheld, hs, hh _ _ hget, hsnap⟩

namespace Inv

/-- A call past its nonce check has the live cursor. -/
theorem live_cursor (hI : Inv s) (hf : Fresh s) {c : Cursor} (hp : (s.pc t).presents = some c)
    (hw : (c.claim, c.nonce) ∈ (s.slots c.slot).written) (hn : (s.slots c.slot).seq = c.nonce) :
    (s.slots c.slot).own = .cursor ∧ (s.slots c.slot).claims = c.claim := by
  obtain ⟨hl, hk⟩ := (hI.slot c.slot).matches hw (hf t c hp) hn
  exact ⟨((hI.slot c.slot).written _ _ hw).2.2.2 hk hl, hk.symm⟩

/-- A live cursor's claim is not released. -/
theorem cursor_live (hI : Inv s) (h : (s.slots i).own = .cursor) : (s.slots i).claims ∉ (s.slots i).released := by
  have hc := hI.cell i
  rw [Cell, h] at hc
  exact fun hr => (((hI.slot i).released _).mp hr).2.2 ⟨rfl, hc.2.1⟩

end Inv

namespace Iso

/-- What a step of a live cursor reads. -/
theorem walking (hO : Iso s) (hI : Inv s) (hS : Safe s) (h : (s.slots i).own = .cursor) :
    ∃ w p id, (s.slots i).log = some w ∧ (s.slots i).inner = w.alone.2 ∧ (s.slots i).snapshot = some p ∧
      s.heap p = some (id, w.snap) := by
  obtain ⟨w, hw, hinner, hheld⟩ := (hO.slots i).walking h
  obtain ⟨-, -, h', pub, hh, -, hget, hsnap⟩ := (hO.slots i).logged w hw
  have hc := hI.cell i
  rw [Cell, h] at hc
  obtain ⟨-, -, -, h'', hh', hptr⟩ := hc
  rw [hheld] at hh
  obtain rfl : h'' = h' := Option.some.inj (hh'.symm.trans hh)
  obtain ⟨-, pub', hget', -, hheap⟩ := hS.held i h'' hh'
  obtain rfl : pub' = pub := Option.some.inj (hget'.symm.trans hget)
  exact ⟨w, h''.ptr, pub'.id, hw, hinner, hptr, hsnap ▸ hheap⟩

theorem move_walks (hO : Iso s) (hI : Inv s) (hS : Safe s) (hf : Fresh s) (h : Move s (s.pc t) q) : q.Walks s := by
  have hk := hO.pcs t
  have hok := hI.pcs t
  have howner := fun i => hI.owner (t := t) (i := i)
  have hlive := fun c => hI.live_cursor (t := t) hf (c := c)
  have hknows := hS.knows t
  generalize s.pc t = q₀ at h hk hok howner hlive hknows
  cases h with
  | acqSlot a c l h => exact hk
  | acqLoad a c l p h => exact hk
  | acqLoadNull a c l h => exact hk
  | acqRetry a c l p h => exact hk
  | maxCode a c p v h =>
    obtain ⟨-, -, h', hheld, rfl⟩ := howner c.slot rfl
    obtain ⟨-, pub, hget, -, hheap⟩ := hS.held _ h' hheld
    refine ⟨hk, h', pub, hheld, hget, ?_⟩
    rw [h] at hheap
    exact (congrArg Prod.snd (Option.some.inj hheap)).symm
  | maxCodeFault a c p h =>
    obtain ⟨-, -, h', hheld, rfl⟩ := howner c.slot rfl
    obtain ⟨-, pub, -, -, hheap⟩ := hS.held _ h' hheld
    rw [h] at hheap
    cases hheap
  | fillSlot a c p snap h => exact hk
  | liveSeq op c h => exact hlive c rfl hok h
  | useSlot op c h => exact hk
  | useFault c p hd hp h =>
    obtain ⟨w, p', id, -, -, hp', hheap⟩ := hO.walking hI hS hk.1
    obtain rfl : p' = p := Option.some.inj (hp'.symm.trans hp)
    rw [h] at hheap
    cases hheap
  | cloneFault p h => exact hS.current_allocated hknows.symm h
  | freeFault n p hn h => exact (hS.retired.2 p (List.mem_of_getElem? hn)).1 h
  | claimBusy a i h => unfold afterSlot; split <;> trivial
  | scanMiss n i p hn h => unfold afterSlot; split <;> trivial
  | _ => trivial

theorem goto (hO : Iso s) (hq : q.Walks s) : Iso (s.goto t q) := by
  refine ⟨?_, hO.slots⟩
  intro t'
  by_cases ht : t' = t
  · rw [ht, goto_pc_self]
    exact hq.mono (fun _ _ => rfl) fun _ _ => id
  · rw [goto_pc_ne _ _ ht]
    exact (hO.pcs t').mono (fun _ _ => rfl) fun _ _ => id

/-- A write to a slot that no other actor has or uses. -/
theorem setSlot (hO : Iso s) (hx : x.Walked s.hist) (hq : q.Walks (s.setSlot i x))
    (hother : ∀ t', t' ≠ t → (s.pc t').takes ≠ some i ∧ (s.pc t').uses ≠ some i) : Iso ((s.setSlot i x).goto t q) := by
  refine ⟨?_, ?_⟩
  · intro t'
    by_cases ht : t' = t
    · rw [ht, goto_pc_self]
      exact hq.mono (fun _ _ => rfl) fun _ _ => id
    · rw [goto_pc_ne _ _ ht]
      refine (hO.pcs t').mono (fun j hj => setSlot_slots_ne _ _ ?_) fun _ _ => id
      intro heq
      subst heq
      exact hj.elim (hother t' ht).1 (hother t' ht).2
  · intro j
    rw [goto_slots]
    by_cases hj : j = i
    · rw [hj, setSlot_slots_self]
      exact hx
    · rw [setSlot_slots_ne _ _ hj]
      exact hO.slots j

/-- Nobody uses a slot that no cursor has. -/
theorem uses_ne (hO : Iso s) (h : (s.slots i).own ≠ .cursor) : ∀ t', (s.pc t').uses ≠ some i := by
  intro t' hu
  have hk := hO.pcs t'
  generalize s.pc t' = q at hu hk
  cases q with
  | useSlot op c =>
    obtain rfl := Option.some.inj hu
    exact h hk.1
  | use op c =>
    obtain rfl := Option.some.inj hu
    exact h hk.1
  | _ => cases hu

/-- One call at a time is past its nonce check, and then no other call of the cursor is on. -/
theorem alone_in_slot (hO : Iso s) (hI : Inv s) (h1 : OneOwner s) {c : Cursor} (hp : (s.pc t).presents = some c)
    (ho : (s.slots c.slot).own = .cursor) (hk : (s.slots c.slot).claims = c.claim) :
    ∀ t', t' ≠ t → (s.pc t').takes ≠ some c.slot ∧ (s.pc t').uses ≠ some c.slot := by
  intro t' ht
  refine ⟨?_, ?_⟩
  · intro h
    have := (hI.own t' c.slot).mp h
    rw [ho] at this
    cases this
  · intro h
    have hwalks := hO.pcs t'
    have h1 := fun c' => h1 t t' c c' (Ne.symm ht) hp
    generalize s.pc t' = q at h hwalks h1
    cases q with
    | useSlot op c' =>
      have hs := Option.some.inj h
      have hk' := hwalks.2
      rw [hs, hk] at hk'
      rcases h1 c' rfl hs.symm hk' with h | h
      · exact hI.cursor_live ho (hk ▸ h)
      · cases h.2
    | use op c' =>
      have hs := Option.some.inj h
      have hk' := hwalks.2
      rw [hs, hk] at hk'
      rcases h1 c' rfl hs.symm hk' with h | h
      · exact hI.cursor_live ho (hk ▸ h)
      · cases h.2
    | _ => cases h

end Iso

/-! ## Steps -/

namespace Iso

theorem taken_alone (hO : Iso s) (hI : Inv s) (h : (s.pc t).takes = some i) :
    ∀ t', t' ≠ t → (s.pc t').takes ≠ some i ∧ (s.pc t').uses ≠ some i := by
  intro t' ht
  have ho := (hI.own t i).mp h
  refine ⟨?_, hO.uses_ne (by simp [ho]) t'⟩
  intro h'
  exact ht (Own.actor.inj (((hI.own t' i).mp h').symm.trans ho))

theorem touch (hO : Iso s) (hI : Inv s) (hS : Safe s) (hf : Fresh s) (h1 : OneOwner s) (h : Touch s t (s.pc t) q i x) :
    Iso ((s.setSlot i x).goto t q) := by
  have hk := hO.pcs t
  have halone := fun i => hO.taken_alone hI (t := t) (i := i)
  have hwin := hI.winner hf t
  -- a slot that an actor has taken is no cursor's
  have htaken : ∀ i, (s.pc t).takes = some i → (s.slots i).own ≠ .cursor := by
    intro i h
    rw [(hI.own t i).mp h]
    exact nofun
  generalize hq : s.pc t = q₀ at h hk halone hwin htaken
  cases h with
  | claimed a i h =>
    have ho := hI.free h
    refine hO.setSlot ⟨(hO.slots i).logged, nofun⟩ ?_ fun t' _ => ⟨?_, hO.uses_ne (by simp [ho]) t'⟩
    · rw [Pc.Walks, setSlot_slots_self]
    · intro h'
      have := (hI.own t' i).mp h'
      rw [ho] at this
      cases this
  | claimSeq a i =>
    refine hO.setSlot ⟨nofun, fun h => absurd h (htaken i rfl)⟩ ?_ (halone i rfl)
    rw [Pc.Walks, setSlot_slots_self]
    exact hk
  | acqStore a c l p =>
    refine hO.setSlot ⟨(hO.slots _).logged, (hO.slots _).walking⟩ ?_ (halone _ rfl)
    rw [Pc.Walks, setSlot_slots_self]
    exact hk
  | acquired a c l p h =>
    refine hO.setSlot ⟨(hO.slots _).logged, fun h => absurd h (htaken _ rfl)⟩ ?_ (halone _ rfl)
    rw [Pc.Walks, setSlot_slots_self]
    exact hk
  | acqNull a c => exact hO.setSlot ⟨(hO.slots _).logged, (hO.slots _).walking⟩ trivial (halone _ rfl)
  | fill a c p snap =>
    obtain ⟨hinner, h', pub, hheld, hget, hsnap⟩ := hk
    refine hO.setSlot ⟨?_, fun _ => ⟨_, rfl, ?_, rfl⟩⟩ trivial (halone _ rfl)
    · intro w hw
      cases hw
      exact ⟨rfl, nofun, h', pub, hheld, (hS.held _ h' hheld).1, hget, hsnap⟩
    · simp only [Log.alone, Walk.alone, hinner]
  | relWon c rc h =>
    refine hO.setSlot ⟨(hO.slots _).logged, nofun⟩ trivial ?_
    cases rc with
    | some rc => exact halone _ rfl
    | none =>
      obtain ⟨-, hkc, ho⟩ := hwin c none rfl h
      exact hO.alone_in_slot hI h1 (by rw [hq]; rfl) ho hkc.symm
  | relHazard c rc =>
    exact hO.setSlot ⟨(hO.slots _).logged, fun h => absurd h (htaken _ rfl)⟩ trivial (halone _ rfl)
  | relSnapshot c rc => exact hO.setSlot ⟨(hO.slots _).logged, (hO.slots _).walking⟩ trivial (halone _ rfl)
  | relInUse c rc => exact hO.setSlot ⟨(hO.slots _).logged, nofun⟩ trivial (halone _ rfl)

/-- A step of a live cursor advances its walk, alone. -/
theorem use (hO : Iso s) (hI : Inv s) (hS : Safe s) (h1 : OneOwner s) {c : Cursor} {env : W.Env} {r : Out × W.Inner}
    (hq : s.pc t = .use .step c) (h : Use s c env r) :
    Iso ((s.setSlot c.slot ((s.slots c.slot).record env r)).goto t (.ret (.stepped r.1))) := by
  have hk := hO.pcs t
  rw [hq] at hk
  obtain ⟨ho, hkc⟩ := hk
  obtain ⟨w, p, id, hw, hinner, hsnap, hheap⟩ := hO.walking hI hS ho
  obtain ⟨hr, hreturns⟩ : r = W.advance w.snap env w.alone.2 ∧
      (W.done w.alone.2 = false → ∃ r, W.step w.snap env w.alone.2 = some r) := by
    rw [← hinner, Walk.advance]
    cases h with
    | done h =>
      rw [if_pos h, h]
      exact ⟨rfl, nofun⟩
    | noSnapshot _ h =>
      rw [hsnap] at h
      cases h
    | step p' v _ hd h hv hr =>
      obtain rfl : p = p' := Option.some.inj (hsnap.symm.trans h)
      rw [hheap] at hv
      obtain rfl := Option.some.inj hv
      rw [hd, hr]
      exact ⟨rfl, fun _ => ⟨r, rfl⟩⟩
  have halone : ({ w with envs := w.envs ++ [env], outs := w.outs ++ [r.1] } : Log W).alone =
      (w.alone.1 ++ [r.1], r.2) := by
    rw [hr]
    exact alone_concat _ _ _ _
  have hrec : ((s.slots c.slot).record env r).log =
      some { w with envs := w.envs ++ [env], outs := w.outs ++ [r.1] } := by
    rw [Slot.record, hw]
    rfl
  refine hO.setSlot ⟨?_, fun _ => ⟨_, hrec, ?_, ?_⟩⟩ trivial
    (hO.alone_in_slot hI h1 (by rw [hq]; rfl) ho hkc)
  · intro w' hw'
    obtain rfl := Option.some.inj (hrec.symm.trans hw')
    obtain ⟨hout, hret, hacq⟩ := (hO.slots c.slot).logged w hw
    exact ⟨by rw [halone, ← hout], returns_concat hret hreturns, hacq⟩
  · rw [halone]
    rfl
  · obtain ⟨w', hw', -, hheld⟩ := (hO.slots c.slot).walking ho
    obtain rfl := Option.some.inj (hw.symm.trans hw')
    exact hheld

theorem share (hO : Iso s) (hI : Inv s) (h : Share s t (s.pc t) q s') : Iso (s'.goto t q) := by
  have hpc := h.takes.2.2.2
  have hq : q.Walks s' := by
    generalize s.pc t = q₀ at h
    cases h <;> trivial
  have hslots : s'.slots = s.slots := by
    generalize s.pc t = q₀ at h
    cases h with
    | grow n hn h => exact hI.grow_slots
    | _ => rfl
  have hhist : ∀ (j : Nat) pub, s.hist[j]? = some pub → s'.hist[j]? = some pub := by
    generalize s.pc t = q₀ at h
    cases h with
    | wSwap new =>
      intro j pub hj
      rw [List.getElem?_append_left (List.getElem?_eq_some_iff.mp hj).1]
      exact hj
    | _ => exact fun _ _ => id
  refine Iso.goto ⟨?_, ?_⟩ hq
  · intro t'
    rw [hpc]
    exact (hO.pcs t').mono (fun j _ => by rw [hslots]) hhist
  · intro i
    rw [hslots]
    exact (hO.slots i).mono hhist

theorem step (hO : Iso s) (hI : Inv s) (hS : Safe s) (hf : Fresh s) (h1 : OneOwner s) (h : Step t s s') : Iso s' := by
  cases h with
  | move h => exact hO.goto (hO.move_walks hI hS hf h)
  | touch h => exact hO.touch hI hS hf h1 h
  | use hq h => exact hO.use hI hS h1 hq h
  | share h => exact hO.share hI h

end Iso

theorem OwnedRun.reach (h : Reach init OwnedRun s) : Reach init Run s := h.mono (fun _ => id) fun _ _ hr => hr.1

theorem oneOwner_of_run (h : Reach init OwnedRun s) : OneOwner s :=
  h.invariant (fun _ => OneOwner.start) fun _ _ _ _ hr => hr.2

theorem iso_of_run (h : Reach init OwnedRun s) : Iso s := by
  refine h.invariant (fun _ => Iso.start) ?_
  intro s s' hs hO h₀
  obtain ⟨⟨⟨t, ht⟩, -⟩, -⟩ := h₀
  have hrun := OwnedRun.reach hs
  exact hO.step (inv_of_run hrun) (safe_of_run hrun) (fresh_of_run hrun) (oneOwner_of_run hs) ht

/-! ## Whole runs -/

/-- What the steps of a slot's last walk gave is what they give alone, over a snapshot that
    was current during init. -/
theorem walk_alone (h : Reach init OwnedRun s) {w : Log W} (hw : (s.slots i).log = some w) : Logged s.hist w :=
  ((iso_of_run h).slots i).logged w hw

/-- No access of a run with single owners reads or frees a freed snapshot. -/
theorem no_use_after_free (h : Reach init OwnedRun s) (t : Nat) (slot : Option Nat) : s.pc t ≠ .fault slot := by
  intro hq
  have hk := (iso_of_run h).pcs t
  rw [hq] at hk
  exact hk

/-- A call with an unreleased cursor is not refused: it goes on to the slot, and a `step` then
    appends what it returns to the walk's log. -/
theorem step_recorded (h : Reach init OwnedRun s) {op : Op} {c : Cursor}
    (hq : s.pc t = .liveSlot op c ∨ s.pc t = .liveSeq op c ∨ s.pc t = .useSlot op c ∨ s.pc t = .use op c)
    (hr : c.claim ∉ (s.slots c.slot).released) (hs : Step t s s') :
    (s'.pc t = .liveSeq op c ∨ s'.pc t = .useSlot op c ∨ s'.pc t = .use op c) ∨
    op = .getReg ∧ s'.slots = s.slots ∨
    ∃ env out w, s'.pc t = .ret (.stepped out) ∧ (s.slots c.slot).log = some w ∧
      (s'.slots c.slot).log = some { w with envs := w.envs ++ [env], outs := w.outs ++ [out] } := by
  have hrun := OwnedRun.reach h
  have hI := inv_of_run hrun
  have hO := iso_of_run h
  have hw : (c.claim, c.nonce) ∈ (s.slots c.slot).written := by
    have := hI.pcs t
    rcases hq with hq | hq | hq | hq <;> rwa [hq] at this
  have hhas := hI.hasSlot_of_written hw
  obtain ⟨hn, hpos, hle, -⟩ := (hI.slot c.slot).written _ _ hw
  obtain ⟨hk, hl⟩ := hI.last_claim ⟨hpos, hle, hr⟩
  have hseq : (s.slots c.slot).seq = c.nonce := by
    rw [(hI.slot c.slot).seq, hn, hl, hk]
    rfl
  cases hs with
  | @move q h =>
    have hwalks := hO.move_walks hI (safe_of_run hrun) (fresh_of_run hrun) h
    rw [goto_pc_self, goto_slots]
    rcases hq with hq | hq | hq | hq <;> rw [hq] at h
    · cases h with
      | liveSlot _ _ h => exact Or.inl (Or.inl rfl)
      | liveNoSlot _ _ h => exact absurd hhas h
    · cases h with
      | liveSeq _ _ h => exact Or.inl (Or.inr (Or.inl rfl))
      | notLive _ _ h => exact absurd hseq h
    · cases h with
      | useSlot _ _ h => exact Or.inl (Or.inr (Or.inr rfl))
      | useNoSlot _ _ h => exact absurd hhas h
    · cases h with
      | getReg _ => exact Or.inr (Or.inl ⟨rfl, rfl⟩)
      | useFault => exact hwalks.elim
  | touch h => rcases hq with hq | hq | hq | hq <;> rw [hq] at h <;> cases h
  | @use c' env r hq' h =>
    obtain ⟨rfl, rfl⟩ : Op.step = op ∧ c' = c := by
      rcases hq with hq | hq | hq | hq <;> rw [hq'] at hq <;> cases hq
      exact ⟨rfl, rfl⟩
    have hk := hO.pcs t
    rw [hq'] at hk
    obtain ⟨w, hwlog, -⟩ := (hO.slots _).walking hk.1
    refine Or.inr (Or.inr ⟨env, r.1, w, goto_pc_self _ _ _, hwlog, ?_⟩)
    rw [goto_slots, setSlot_slots_self, Slot.record, hwlog]
    rfl
  | share h => rcases hq with hq | hq | hq | hq <;> rw [hq] at h <;> cases h

theorem Within.owned {n : Nat} (h : Within n s) (hn : n < 2 ^ 63) : Reach init OwnedRun s ∧
    ∀ t, t ≠ 1 → (s.pc t).presents = none := by
  induction h with
  | start h =>
    refine ⟨Reach.start h, ?_⟩
    intro t _
    subst h
    rfl
  | @next n t s s' h hs hp ih =>
    obtain ⟨hr, hone⟩ := ih (Nat.lt_of_succ_lt hn)
    have hone' : ∀ t', t' ≠ 1 → (s'.pc t').presents = none := by
      intro t' ht'
      by_cases ht : t' = t
      · subst ht
        exact hp.resolve_left ht'
      · rw [hs.pc_ne ht]
        exact hone t' ht'
    have hb : Bounded s' := fun i => (((h.next hs hp).reach hn).2 i).trans_lt hn
    refine ⟨hr.tail ⟨⟨⟨t, hs⟩, hb.fresh⟩, ?_⟩, hone'⟩
    intro t₁ t₂ c c' hne h₁ h₂
    by_cases h1 : t₁ = 1
    · rw [hone' t₂ fun h2 => hne (h1.trans h2.symm)] at h₂
      cases h₂
    · rw [hone' t₁ h1] at h₁
      cases h₁

/-- Actor 1 steps the walk on slot 0, with nobody else making an access. -/
theorem step_alone {n : Nat} (hn : Within n s) {r : Result} (hq : s.pc 1 = .ret r) (hh : s.hasSlot 0) {nonce k : Nat}
    (hw : (k, nonce) ∈ (s.slots 0).written) (hs : (s.slots 0).seq = nonce) (hd : W.done (s.slots 0).inner = false)
    {p : Ptr} (hp : (s.slots 0).snapshot = some p) {v : Nat × W.Snap} (hv : s.heap p = some v) {env : W.Env}
    {out : Out × W.Inner} (hr : W.step v.2 env (s.slots 0).inner = some out) :
    Within (n + 5) ((s.setSlot 0 ((s.slots 0).record env out)).goto 1 (.ret (.stepped out.1))) := by
  have hrun := hn
    |>.next (.move (t := 1) (q := .liveSlot .step ⟨0, nonce, k⟩) (by rw [hq]; exact .callOp _ _ _ hw)) (.inl rfl)
    |>.next (.move (t := 1) (.liveSlot _ _ hh)) (.inl rfl)
    |>.next (.move (t := 1) (.liveSeq _ _ hs)) (.inl rfl)
    |>.next (.move (t := 1) (.useSlot _ _ hh)) (.inl rfl)
    |>.next (.use (t := 1) rfl (.step _ env p v out hd hp hv hr)) (.inl rfl)
  simpa using hrun

/-- Actor 1 starts a walk and makes a step; actor 0 publishes another snapshot; actor 1 makes a
    second step. -/
theorem walk_beside_publication (snap snap' : W.Snap) (args : W.Args) {env env' : W.Env} {r r' : Out × W.Inner}
    (hd₀ : W.done (W.fill args snap W.placeholder) = false)
    (hr : W.step snap env (W.fill args snap W.placeholder) = some r) (hd : W.done r.2 = false)
    (hr' : W.step snap env' r.2 = some r') :
    ∃ (s : St W) (held : Option Held), Reach init OwnedRun s ∧ (s.slots 0).own = .cursor ∧
      (s.slots 0).log = some ⟨W.placeholder, args, snap, held, [env, env'], [r.1, r'.1]⟩ ∧
      (s.hist.map Publication.snap) = [snap, snap'] ∧ s.retired = [7] := by
  obtain ⟨s₀, hn, hh, hx, hc, hv, hfree, hhist, hret, hlock, hidle⟩ := first_publication (W := W) snap
  obtain ⟨r₀, hq₀⟩ := hidle 0
  obtain ⟨r₁, hq₁⟩ := hidle 1
  obtain ⟨c, x, hn, hcur, hslot⟩ := init_alone hn hq₁ (by rw [hx]; rfl) hh hc hv args
  rw [hx] at hcur hslot
  have hx0 : (((s₀.setSlot 0 x).goto 1 (.ret (.init 0 (some c)))).slots 0) = x := by
    rw [goto_slots, setSlot_slots_self]
  have hwritten : (c.claim, c.nonce) ∈ x.written := by
    rw [hslot]
    exact List.mem_cons_self
  have hfields : x.seq = c.nonce ∧ x.snapshot = some 7 ∧ x.inner = W.fill args snap W.placeholder ∧
      x.hazard = some 7 := by
    subst hslot
    exact ⟨rfl, rfl, rfl, rfl⟩
  obtain ⟨hseq, hsnap, hinner, hhazard⟩ := hfields
  have hn := step_alone hn rfl hh (hx0 ▸ hwritten) (hx0 ▸ hseq) (by rw [hx0, hinner]; exact hd₀) (hx0 ▸ hsnap) hv
    (by rw [hx0, hinner]; exact hr)
  rw [hx0] at hn
  obtain ⟨s, hn, -, hret, -, hslots, hheap, hpc, hh, hhist'⟩ :=
    publish_alone hn hq₀ hlock hc hv hfree hret hh hhazard snap'
  have hslot0 : s.slots 0 = x.record env r := by
    rw [hslots, goto_slots, setSlot_slots_self]
  have hn := step_alone hn hpc hh (by rw [hslot0]; exact hwritten) (by rw [hslot0]; exact hseq)
    (by rw [hslot0]; exact hd)
    (by rw [hslot0]; exact hsnap) hheap (by rw [hslot0]; exact hr')
  rw [hslot0] at hn
  have hlast : (((s.setSlot 0 ((x.record env r).record env' r')).goto 1 (.ret (.stepped r'.1))).slots 0) =
      (x.record env r).record env' r' := by
    rw [goto_slots, setSlot_slots_self]
  refine ⟨_, x.held, (hn.owned (by decide)).1, ?_, ?_, ?_, hret⟩
  · rw [hlast, hslot]
    rfl
  · rw [hlast, hslot]
    rfl
  · rw [goto_hist, setSlot_hist, hhist', goto_hist, setSlot_hist, goto_hist, setSlot_hist, hhist]
    rfl

end FramehopUnwind.State
