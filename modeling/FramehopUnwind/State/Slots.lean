/-
  FramehopUnwind.State.Slots — who has a slot.

  The history variable `own` says who has a slot, and `Inv` ties it to the atomics at every
  point of a claim and of a release: the parity and value of `seq`, `in_use`, the hazard, and
  the actor inside `cursor_init` or `release_slot` (`Pc.Owner`).

  A nonce is 64 bits wide. A copy of a cursor could match again once its slot has been claimed
  2^63 times since; `Fresh` excludes that. It holds when no slot is claimed 2^63 times
  (`Bounded.fresh`), and when no cursor is in use after its release (`Inv.fresh`), since an
  unreleased claim is its slot's last.

  Proved:
  - `Inv.step`: one access keeps the invariant.
  - `slots_owned_once`: one unreleased claim a slot, one release a claim; a released claim's
    cursor does nothing and gives nothing; a failed init keeps no slot; an idle pool is clear.
-/

import FramehopUnwind.State.Protocol

namespace FramehopUnwind.State

open Lib.Word Lib.Runs

variable {W : Walk} {s s' : St W} {t : Nat} {q : Pc W} {i : Nat} {x : Slot W}

/-! ## The invariant -/

/-- The nonce of a slot's `k`-th claim. -/
def nonceOf (k : Nat) : Nat := (2 * k - 1) % 2 ^ 64

structure Slot.Ok (x : Slot W) : Prop where
  seq : x.seq = (2 * x.claims - x.live.toNat) % 2 ^ 64
  claimed : x.live = true → 0 < x.claims
  released : ∀ k, k ∈ x.released ↔ 0 < k ∧ k ≤ x.claims ∧ ¬ (k = x.claims ∧ x.live = true)
  once : x.released.Nodup
  written : ∀ k n, (k, n) ∈ x.written →
    n = nonceOf k ∧ 0 < k ∧ k ≤ x.claims ∧ (k = x.claims → x.live = true → x.own = .cursor)
  hazard : ∀ h, x.held = some h → x.hazard = some h.ptr

/-- The slot an actor has taken and not yet handed on. -/
def Pc.takes : Pc W → Option Nat
  | .claimSeq _ i => some i
  | .acqSlot _ c _ | .acqLoad _ c _ | .acqStore _ c _ _ | .acqCheck _ c _ _ | .acqNull _ c => some c.slot
  | .maxCode _ c _ | .fillSlot _ c _ _ | .fill _ c _ _ => some c.slot
  | .relSlot c (some _) | .relCas c (some _) => some c.slot
  | .relHazard c _ | .relSnapshot c _ | .relInUse c _ => some c.slot
  | .fault slot => slot
  | _ => none

/-- The slot's last claim is the cursor's and is not released. -/
def Mine (c : Cursor) (i : Nat) (x : Slot W) : Prop :=
  c.slot = i ∧ x.inUse = true ∧ x.live = true ∧ c.claim = x.claims ∧ c.nonce = x.seq

/-- The slot as the actor that took it left it. -/
def Pc.Owner : Pc W → Nat → Slot W → Prop
  | .claimSeq _ j, i, x =>
    j = i ∧ x.inUse = true ∧ x.live = false ∧ x.hazard = none ∧ x.snapshot = none ∧ x.held = none
  | .acqSlot _ c _, i, x | .acqLoad _ c _, i, x | .acqStore _ c _ _, i, x | .acqNull _ c, i, x =>
    Mine c i x ∧ x.snapshot = none ∧ x.held = none
  | .acqCheck _ c _ p, i, x => Mine c i x ∧ x.snapshot = none ∧ x.held = none ∧ x.hazard = some p
  | .maxCode _ c p, i, x | .fillSlot _ c p _, i, x | .fill _ c p _, i, x =>
    Mine c i x ∧ x.snapshot = none ∧ ∃ h, x.held = some h ∧ h.ptr = p
  | .relSlot c (some _), i, x | .relCas c (some _), i, x => Mine c i x ∧ x.snapshot = none
  | .relHazard c _, i, x => c.slot = i ∧ x.inUse = true ∧ x.live = false
  | .relSnapshot c _, i, x => c.slot = i ∧ x.inUse = true ∧ x.live = false ∧ x.hazard = none ∧ x.held = none
  | .relInUse c _, i, x =>
    c.slot = i ∧ x.inUse = true ∧ x.live = false ∧ x.hazard = none ∧ x.held = none ∧ x.snapshot = none
  | .fault (some j), i, x => j = i ∧ x.inUse = true
  | _, _, _ => False

def Cell (pc : Nat → Pc W) (i : Nat) (x : Slot W) : Prop :=
  match x.own with
  | .free => x.inUse = false ∧ x.live = false ∧ x.hazard = none ∧ x.snapshot = none ∧ x.held = none
  | .cursor =>
    x.inUse = true ∧ x.live = true ∧ (x.claims, x.seq) ∈ x.written ∧ ∃ h, x.held = some h ∧ x.snapshot = some h.ptr
  | .actor t => (pc t).Owner i x

/-- What an actor knows of the slots it does not have. -/
def Pc.Ok (s : St W) : Pc W → Prop
  | .claimCas _ i => s.hasSlot i
  | .liveSlot _ c | .liveSeq _ c | .useSlot _ c | .use _ c | .relSlot c none | .relCas c none =>
    (c.claim, c.nonce) ∈ (s.slots c.slot).written
  | .relSlot _ (some rc) | .relCas _ (some rc) => rc < 0
  | .relHazard c rc | .relSnapshot c rc | .relInUse c rc => c.claim ∈ (s.slots c.slot).released ∧ ∀ r ∈ rc, r < 0
  | .ret (.init rc (some c)) =>
    rc = 0 ∧ (c.claim, c.nonce) ∈ (s.slots c.slot).written ∨ rc < 0 ∧ c.claim ∈ (s.slots c.slot).released
  | .ret (.init rc none) => rc = -1
  | _ => True

structure Inv (s : St W) : Prop where
  pool : ∀ c, s.chunks c = true ↔ slotChunkLen * c < s.allocated
  whole : slotChunkLen ∣ s.allocated ∧ s.allocated ≤ slotChunkLen * maxSlotChunks
  unused : ∀ i, s.chunks (i / slotChunkLen) = false → s.slots i = Slot.new W
  own : ∀ t i, (s.pc t).takes = some i ↔ (s.slots i).own = .actor t
  slot : ∀ i, (s.slots i).Ok
  cell : ∀ i, Cell s.pc i (s.slots i)
  pcs : ∀ t, (s.pc t).Ok s

/-- The cursor a call presents, until the call is refused or has won the release. -/
def Pc.presents : Pc W → Option Cursor
  | .liveSlot _ c | .liveSeq _ c | .useSlot _ c | .use _ c | .relSlot c none | .relCas c none => some c
  | _ => none

/-- No cursor in use is from 2^63 claims ago. -/
def Fresh (s : St W) : Prop :=
  ∀ t c, (s.pc t).presents = some c → (s.slots c.slot).claims < c.claim + 2 ^ 63

/-- A step of any actor, with no cursor in use from 2^63 claims ago. -/
def Run (s s' : St W) : Prop := (∃ t, Step t s s') ∧ Fresh s'

theorem Inv.start (h : init s) : Inv s := by
  subst h
  refine ⟨by simp, by simp, fun _ _ => rfl, by simp [Pc.takes, Slot.new], ?_, ?_, fun t => trivial⟩
  · intro i
    constructor <;> simp [Slot.new, Nat.pos_iff_ne_zero]
  · intro i
    simp [Cell, Slot.new]

theorem Fresh.start (h : init s) : Fresh s := by
  subst h
  intro t c hc
  simp [Pc.presents] at hc

namespace Inv

theorem chunk_iff (hI : Inv s) (c : Nat) : s.chunk c ↔ slotChunkLen * c < s.allocated := by
  unfold St.chunk
  rw [hI.pool]
  have := hI.whole.2
  simp only [slotChunkLen, maxSlotChunks] at *
  omega

/-- A slot that is not as it was made is in a published chunk. -/
theorem hasSlot (hI : Inv s) (h : s.slots i ≠ Slot.new W) : s.hasSlot i := by
  cases hc : s.chunks (i / slotChunkLen) with
  | false => exact absurd (hI.unused i hc) h
  | true => exact (hI.chunk_iff _).mpr ((hI.pool _).mp hc)

theorem hasSlot_of_own (hI : Inv s) (h : (s.slots i).own ≠ .free) : s.hasSlot i :=
  hI.hasSlot fun h' => h (by rw [h']; rfl)

theorem hasSlot_of_takes (hI : Inv s) (h : (s.pc t).takes = some i) : s.hasSlot i :=
  hI.hasSlot_of_own (by simp [(hI.own t i).mp h])

theorem hasSlot_of_written (hI : Inv s) {k : Nat × Nat} (h : k ∈ (s.slots i).written) : s.hasSlot i :=
  hI.hasSlot fun h' => by simp [h', Slot.new] at h

/-- What an actor that has a slot can rely on. -/
theorem owner (hI : Inv s) (h : (s.pc t).takes = some i) : (s.pc t).Owner i (s.slots i) := by
  have hc := hI.cell i
  rwa [Cell, (hI.own t i).mp h] at hc

end Inv

/-! ## Accesses that write nothing -/

theorem hasSlot_succ (hc : s.hasSlot i) (h : ¬ (i + 1) % slotChunkLen = 0) : s.hasSlot (i + 1) := by
  have : (i + 1) / slotChunkLen = i / slotChunkLen := by simp only [slotChunkLen] at *; omega
  rwa [St.hasSlot, this]

/-- What an actor knows stays true as chunks are published, cursors written and claims released. -/
theorem Pc.Ok.mono (h : q.Ok s) (hc : ∀ i, s.hasSlot i → s'.hasSlot i)
    (hw : ∀ i, (s.slots i).written ⊆ (s'.slots i).written)
    (hr : ∀ i, (s.slots i).released ⊆ (s'.slots i).released) : q.Ok s' := by
  unfold Pc.Ok at h ⊢
  split at h
  · exact hc _ h
  all_goals try exact hw _ h
  all_goals try exact h
  all_goals try exact ⟨hr _ h.1, h.2⟩
  exact h.imp (fun h => ⟨h.1, hw _ h.2⟩) fun h => ⟨h.1, hr _ h.2⟩

/-- Only the actor that has the slot matters. -/
theorem Cell.congr {pc pc' : Nat → Pc W} (h : Cell pc i x)
    (hp : ∀ t, x.own = .actor t → (pc t).Owner i x → (pc' t).Owner i x) : Cell pc' i x := by
  unfold Cell at h ⊢
  cases ho : x.own with
  | actor t =>
    simp only [ho] at h
    exact hp t ho h
  | _ => simpa only [ho] using h

namespace Inv

/-- An init's own release finds its slot and wins. -/
theorem own_release (hI : Inv s) (t : Nat) (c : Cursor) (rc : Int) :
    (s.pc t = .relSlot c (some rc) → s.hasSlot c.slot) ∧
    (s.pc t = .relCas c (some rc) → (s.slots c.slot).seq = c.nonce) := by
  refine ⟨fun h => hI.hasSlot_of_takes (t := t) (by rw [h]; rfl), ?_⟩
  intro h
  have ho := hI.owner (t := t) (i := c.slot) (by rw [h]; rfl)
  rw [h] at ho
  exact ho.1.2.2.2.2.symm

/-- A move leaves an actor the slot it has. -/
theorem move_takes (hI : Inv s) (h : Move s (s.pc t) q) : q.takes = (s.pc t).takes := by
  have hrel := hI.own_release t
  generalize s.pc t = q₀ at h hrel
  cases h with
  | relSlot c rc h => cases rc <;> rfl
  | relNoSlot c rc h =>
    cases rc with
    | none => rfl
    | some rc => exact absurd ((hrel c rc).1 rfl) h
  | relLost c rc h =>
    cases rc with
    | none => rfl
    | some rc => exact absurd ((hrel c rc).2 rfl) h
  | claimBusy a i h => unfold afterSlot; split <;> rfl
  | scanMiss n i p hn h => unfold afterSlot; split <;> rfl
  | _ => rfl

theorem move_owner (hI : Inv s) (h : Move s (s.pc t) q) (ho : (s.pc t).Owner i (s.slots i)) :
    q.Owner i (s.slots i) := by
  have hrel := hI.own_release t
  generalize s.pc t = q₀ at h ho hrel
  cases h with
  | acqNoSlot a c l h => exact ⟨ho.1, ho.2.1⟩
  | acqRetry a c l p h => exact ⟨ho.1, ho.2.1, ho.2.2.1⟩
  | maxCodeFault a c p h => exact ⟨ho.1.1, ho.1.2.1⟩
  | fillNoSlot a c p snap h => exact ⟨ho.1, ho.2.1⟩
  | relSlot c rc h => cases rc <;> exact ho
  | relNoSlot c rc h =>
    cases rc with
    | none => exact ho
    | some rc => exact absurd ((hrel c rc).1 rfl) h
  | relLost c rc h =>
    cases rc with
    | none => exact ho
    | some rc => exact absurd ((hrel c rc).2 rfl) h
  | claimBusy a i h => exact ho.elim
  | scanMiss n i p hn h => exact ho.elim
  | _ => exact ho

theorem move_ok (hI : Inv s) (h : Move s (s.pc t) q) : q.Ok s := by
  have hrel := hI.own_release t
  have hok := hI.pcs t
  generalize s.pc t = q₀ at h hok hrel
  cases h with
  | callOp r op c hw => exact hw
  | callFini r c hw => exact hw
  | deadOp r op => cases op <;> trivial
  | claimChunk a c h =>
    have : slotChunkLen * c / slotChunkLen = c := by simp [slotChunkLen]
    rwa [Pc.Ok, St.hasSlot, this]
  | claimNone a c h => rfl
  | acqNoSlot a c l h => exact (by decide : (-2 : Int) < 0)
  | fillNoSlot a c p snap h => exact (by decide : (-3 : Int) < 0)
  | claimBusy a i h =>
    unfold afterSlot
    split
    · trivial
    · exact hasSlot_succ hok ‹_›
  | relSlot c rc h => cases rc <;> exact hok
  | relNoSlot c rc h =>
    cases rc with
    | none => trivial
    | some rc => exact absurd ((hrel c rc).1 rfl) h
  | relLost c rc h =>
    cases rc with
    | none => trivial
    | some rc => exact absurd ((hrel c rc).2 rfl) h
  | liveSlot op c h => exact hok
  | liveNoSlot op c h => cases op <;> trivial
  | liveSeq op c h => exact hok
  | notLive op c h => cases op <;> trivial
  | useSlot op c h => exact hok
  | useNoSlot op c h => cases op <;> trivial
  | scanMiss n i p hn h => unfold afterSlot; split <;> trivial
  | _ => trivial

theorem goto (hI : Inv s) (ht : q.takes = (s.pc t).takes)
    (ho : ∀ i, (s.pc t).Owner i (s.slots i) → q.Owner i (s.slots i)) (hq : q.Ok s) : Inv (s.goto t q) := by
  refine ⟨hI.pool, hI.whole, hI.unused, ?_, hI.slot, ?_, ?_⟩
  · intro t' i
    rw [goto_slots, ← hI.own t' i]
    by_cases htt : t' = t
    · rw [htt, goto_pc_self, ht]
    · rw [goto_pc_ne _ _ htt]
  · intro i
    refine (hI.cell i).congr ?_
    intro t' _
    by_cases htt : t' = t
    · subst htt
      rw [goto_pc_self]
      exact ho i
    · rw [goto_pc_ne _ _ htt]
      exact id
  · intro t'
    by_cases htt : t' = t
    · rw [htt, goto_pc_self]
      exact hq.mono (fun _ => id) (fun _ _ => id) fun _ _ => id
    · rw [goto_pc_ne _ _ htt]
      exact (hI.pcs t').mono (fun _ => id) (fun _ _ => id) fun _ _ => id

theorem move (hI : Inv s) (h : Move s (s.pc t) q) : Inv (s.goto t q) :=
  hI.goto (hI.move_takes h) (fun _ => hI.move_owner h) (hI.move_ok h)

end Inv

/-! ## Accesses that write one slot -/

/-- The invariant after actor `t` wrote slot `i`, which no other actor has before or after. -/
theorem Inv.setSlot (hI : Inv s) (hp : ∀ j, (s.pc t).takes = some j → j = i)
    (hfrom : ∀ t', (s.slots i).own = .actor t' → t' = t) (hto : ∀ t', x.own = .actor t' → t' = t)
    (hq : ∀ j, q.takes = some j ↔ j = i ∧ x.own = .actor t) (hok : x.Ok) (hcell : Cell (fun _ => q) i x)
    (hhas : s.hasSlot i) (hw : (s.slots i).written ⊆ x.written) (hr : (s.slots i).released ⊆ x.released)
    (hqok : q.Ok (s.setSlot i x)) : Inv ((s.setSlot i x).goto t q) := by
  have hgrow : ∀ (β : Type) (f : Slot W → List β) j, f (s.slots i) ⊆ f x →
      f (s.slots j) ⊆ f ((s.setSlot i x).slots j) := by
    intro β f j h
    by_cases hj : j = i
    · rw [hj, setSlot_slots_self]; exact h
    · rw [setSlot_slots_ne _ _ hj]; exact fun _ => id
  refine ⟨hI.pool, hI.whole, ?_, ?_, ?_, ?_, ?_⟩
  · intro j hc
    by_cases hj : j = i
    · subst hj
      exact absurd hhas.2 (by simpa [St.setSlot, St.goto] using hc)
    · rw [goto_slots, setSlot_slots_ne _ _ hj]
      exact hI.unused j hc
  · intro t' j
    rw [goto_slots]
    by_cases ht : t' = t
    · subst ht
      rw [goto_pc_self, hq]
      by_cases hj : j = i
      · simp [hj]
      · rw [setSlot_slots_ne _ _ hj, ← hI.own]
        exact ⟨fun h => absurd h.1 hj, fun h => absurd (hp j h) hj⟩
    · rw [goto_pc_ne _ _ ht, setSlot_pc, hI.own]
      by_cases hj : j = i
      · subst hj
        rw [setSlot_slots_self]
        exact ⟨fun h => absurd (hfrom _ h) ht, fun h => absurd (hto _ h) ht⟩
      · rw [setSlot_slots_ne _ _ hj]
  · intro j
    rw [goto_slots]
    by_cases hj : j = i
    · rw [hj, setSlot_slots_self]; exact hok
    · rw [setSlot_slots_ne _ _ hj]; exact hI.slot j
  · intro j
    rw [goto_slots]
    by_cases hj : j = i
    · subst hj
      rw [setSlot_slots_self]
      refine hcell.congr ?_
      intro t' ho
      rw [hto t' ho, goto_pc_self]
      exact id
    · rw [setSlot_slots_ne _ _ hj]
      refine (hI.cell j).congr ?_
      intro t' ho
      have ht : t' ≠ t := by
        intro heq
        subst heq
        exact hj (hp j ((hI.own t' j).mpr ho))
      rw [goto_pc_ne _ _ ht]
      exact id
  · intro t'
    by_cases ht : t' = t
    · rw [ht, goto_pc_self]
      exact hqok.mono (fun _ => id) (fun _ _ => id) fun _ _ => id
    · rw [goto_pc_ne _ _ ht]
      exact (hI.pcs t').mono (fun _ => id) (fun j => hgrow _ (·.written) j hw) fun j => hgrow _ (·.released) j hr

/-- A write to the slot the actor has, which it keeps. -/
theorem Inv.setOwnSlot (hI : Inv s) (hp : (s.pc t).takes = some i) (ho : x.own = (s.slots i).own)
    (hq : q.takes = some i)
    (hok : x.Ok) (hcell : q.Owner i x) (hw : x.written = (s.slots i).written) (hr : x.released = (s.slots i).released)
    (hqok : q.Ok (s.setSlot i x)) : Inv ((s.setSlot i x).goto t q) := by
  have hown := (hI.own t i).mp hp
  have hx : x.own = .actor t := ho.trans hown
  refine hI.setSlot ?_ ?_ ?_ ?_ hok ?_ (hI.hasSlot_of_takes hp)
    (by rw [hw]; exact fun _ => id) (by rw [hr]; exact fun _ => id) hqok
  · intro j hj
    rw [hp] at hj
    exact (Option.some.inj hj).symm
  · intro t' h
    rw [hown] at h
    exact (Own.actor.inj h).symm
  · intro t' h
    rw [hx] at h
    exact (Own.actor.inj h).symm
  · intro j
    rw [hq, Option.some.injEq]
    exact ⟨fun h => ⟨h.symm, hx⟩, fun h => h.1.symm⟩
  · rw [Cell, hx]
    exact hcell

/-- A written cursor whose nonce is the slot's is its last claim's, and that is not released. -/
theorem Slot.Ok.matches (hx : x.Ok) {k n : Nat} (hw : (k, n) ∈ x.written) (hf : x.claims < k + 2 ^ 63)
    (hn : x.seq = n) : x.live = true ∧ k = x.claims := by
  obtain ⟨rfl, hpos, hle, -⟩ := hx.written k n hw
  have hseq := hx.seq
  rw [hn, nonceOf] at hseq
  cases hl : x.live with
  | false =>
    simp only [hl, Bool.toNat_false] at hseq
    omega
  | true =>
    simp only [hl, Bool.toNat_true] at hseq
    exact ⟨rfl, by omega⟩

/-- A slot with `in_use` clear is nobody's. -/
theorem Inv.free (hI : Inv s) (h : (s.slots i).inUse = false) : (s.slots i).own = .free := by
  have hc := hI.cell i
  unfold Cell at hc
  cases ho : (s.slots i).own with
  | free => rfl
  | cursor =>
    simp only [ho, h] at hc
    exact absurd hc.1 (by decide)
  | actor t =>
    simp only [ho] at hc
    have : (s.slots i).inUse = true := by
      generalize s.pc t = q at hc
      unfold Pc.Owner at hc
      split at hc
      all_goals first | exact hc.2.1 | exact hc.1.2.1 | exact hc.2 | exact hc.elim
    rw [h] at this
    exact absurd this (by decide)

/-- The claim a `seq` bump makes. -/
theorem Slot.Ok.claim (hx : x.Ok) (hl : x.live = false) :
    ({ x with seq := wrappingAdd x.seq 1, claims := x.claims + 1, live := true, log := none } : Slot W).Ok := by
  have hseq := hx.seq
  simp only [hl, Bool.toNat_false] at hseq
  refine ⟨?_, fun _ => Nat.succ_pos _, ?_, hx.once, ?_, hx.hazard⟩
  · simp only [hseq, wrappingAdd, Bool.toNat_true]
    omega
  · intro k
    simp only [hx.released, hl]
    constructor
    · intro h
      exact ⟨h.1, by omega, fun h' => by omega⟩
    · intro h
      have : k ≠ x.claims + 1 := fun h' => h.2.2 ⟨h', trivial⟩
      exact ⟨h.1, by omega, by simp⟩
  · intro k n hk
    obtain ⟨hn, hpos, hle, -⟩ := hx.written k n hk
    exact ⟨hn, hpos, Nat.le_succ_of_le hle, fun h => absurd hle (by rw [h]; exact Nat.not_succ_le_self _)⟩

/-- A slot between claims may change hands. -/
theorem Slot.Ok.handOver (hx : x.Ok) (hl : x.live = false) (b : Bool) (o : Own) (inner : W.Inner) :
    ({ x with inUse := b, own := o, start := inner } : Slot W).Ok := by
  refine ⟨hx.seq, hx.claimed, hx.released, hx.once, ?_, hx.hazard⟩
  intro k n hk
  obtain ⟨h1, h2, h3, -⟩ := hx.written k n hk
  exact ⟨h1, h2, h3, fun _ h => absurd (hl.symm.trans h) (by decide)⟩

/-- The live claim's cursor is written. -/
theorem Slot.Ok.write (hx : x.Ok) (hl : x.live = true) {c : Cursor} (hk : c.claim = x.claims) (hn : c.nonce = x.seq)
    (inner : W.Inner) (p : Option Ptr) (log : Option (Log W)) :
    ({ x with inner := inner, snapshot := p, own := .cursor, written := (c.claim, c.nonce) :: x.written, log := log } :
      Slot W).Ok := by
  refine ⟨hx.seq, hx.claimed, hx.released, hx.once, ?_, hx.hazard⟩
  intro k n hmem
  rcases List.mem_cons.mp hmem with hnew | hmem
  · obtain ⟨rfl, rfl⟩ := Prod.ext_iff.mp hnew
    have hseq := hx.seq
    rw [hl] at hseq
    exact ⟨hn.trans (by rw [hseq, nonceOf, hk]; rfl), hk ▸ hx.claimed hl, hk.le, fun _ _ => rfl⟩
  · obtain ⟨h1, h2, h3, -⟩ := hx.written k n hmem
    exact ⟨h1, h2, h3, fun _ _ => rfl⟩

/-- The release a CAS of `seq` wins. -/
theorem Slot.Ok.release (hx : x.Ok) (hl : x.live = true) {c : Cursor} (hn : x.seq = c.nonce) (hk : c.claim = x.claims) :
    ({ x with
      seq := wrappingAdd c.nonce 1, live := false, own := .actor t, released := c.claim :: x.released } : Slot W).Ok
    := by
  have hseq := hx.seq
  have hpos := hx.claimed hl
  simp only [hl, Bool.toNat_true] at hseq
  refine ⟨?_, fun h => absurd h (by simp), ?_, ?_, ?_, hx.hazard⟩
  · simp only [← hn, hseq, wrappingAdd, Bool.toNat_false]
    omega
  · intro k
    simp only [List.mem_cons, hx.released, hk, hl]
    constructor
    · intro h₀
      rcases h₀ with rfl | h
      · exact ⟨hpos, le_rfl, by simp⟩
      · exact ⟨h.1, h.2.1, by simp⟩
    · intro h
      by_cases hkc : k = x.claims
      · exact Or.inl hkc
      · exact Or.inr ⟨h.1, h.2.1, by simp [hkc]⟩
  · refine List.nodup_cons.mpr ⟨?_, hx.once⟩
    intro h
    exact ((hx.released _).mp h).2.2 ⟨hk, hl⟩
  · intro k n hk
    obtain ⟨hn', hpos', hle, -⟩ := hx.written k n hk
    exact ⟨hn', hpos', hle, fun _ h => absurd h (by simp)⟩

namespace Inv

/-- Who wins a release: the init whose claim it is, or a call with the live cursor. -/
theorem winner (hI : Inv s) (hf : Fresh s) (t : Nat) (c : Cursor) (rc : Option Int) (hq : s.pc t = .relCas c rc)
    (hn : (s.slots c.slot).seq = c.nonce) :
    (s.slots c.slot).live = true ∧ c.claim = (s.slots c.slot).claims ∧
      (s.slots c.slot).own = (if rc.isSome then .actor t else .cursor) := by
  cases rc with
  | some rc =>
    have htakes : (s.pc t).takes = some c.slot := by rw [hq]; rfl
    have ho := hI.owner htakes
    rw [hq] at ho
    exact ⟨ho.1.2.2.1, ho.1.2.2.2.1, (hI.own t c.slot).mp htakes⟩
  | none =>
    have hw := hI.pcs t
    rw [hq] at hw
    obtain ⟨hl, hk⟩ := (hI.slot c.slot).matches hw (hf t c (by rw [hq]; rfl)) hn
    exact ⟨hl, hk, ((hI.slot c.slot).written _ _ hw).2.2.2 hk hl⟩

theorem touch (hI : Inv s) (hf : Fresh s) (h : Touch s t (s.pc t) q i x) : Inv ((s.setSlot i x).goto t q) := by
  have htakes : ∀ j, (s.pc t).takes = some j → (s.pc t).Owner j (s.slots j) := fun j => hI.owner
  have hwin := hI.winner hf t
  have hok := hI.pcs t
  generalize hq : s.pc t = q₀ at h htakes hwin hok
  cases h with
  | claimed a i h =>
    have hown := hI.free h
    have hc := hI.cell i
    rw [Cell, hown] at hc
    exact hI.setSlot (by rw [hq]; simp [Pc.takes]) (by simp [hown]) (by simp +contextual) (by simp [Pc.takes, eq_comm])
      ((hI.slot i).handOver hc.2.1 _ _ _) ⟨rfl, rfl, hc.2.1, hc.2.2.1, hc.2.2.2.1, hc.2.2.2.2⟩ hok (fun _ => id)
      (fun _ => id) trivial
  | claimSeq a i =>
    obtain ⟨-, hu, hl, hz, hs, hh⟩ := htakes i rfl
    exact hI.setOwnSlot (by rw [hq]; rfl) rfl rfl ((hI.slot i).claim hl) ⟨⟨rfl, hu, rfl, rfl, rfl⟩, hs, hh⟩
      rfl rfl trivial
  | acqStore a c l p =>
    obtain ⟨hm, hs, hh⟩ := htakes c.slot rfl
    exact hI.setOwnSlot (by rw [hq]; rfl) rfl rfl { hI.slot c.slot with hazard := by simp [hh] }
      ⟨hm, hs, hh, rfl⟩ rfl rfl
      trivial
  | acquired a c l p h =>
    obtain ⟨hm, hs, hh, hz⟩ := htakes c.slot rfl
    exact hI.setOwnSlot (by rw [hq]; rfl) rfl rfl { hI.slot c.slot with hazard := by simp [hz] } ⟨hm, hs, _, rfl, rfl⟩
      rfl rfl trivial
  | acqNull a c =>
    obtain ⟨hm, hs, hh⟩ := htakes c.slot rfl
    exact hI.setOwnSlot (by rw [hq]; rfl) rfl rfl { hI.slot c.slot with hazard := by simp [hh] } ⟨hm, hs⟩ rfl rfl
      (by decide : (-2 : Int) < 0)
  | fill a c p snap =>
    obtain ⟨hm, hs, h, hh, rfl⟩ := htakes c.slot rfl
    have hown := (hI.own t c.slot).mp (by rw [hq]; rfl)
    refine hI.setSlot (by rw [hq]; simp [Pc.takes]) (by simp +contextual [hown]) (by simp) (by simp [Pc.takes])
      ((hI.slot c.slot).write hm.2.2.1 hm.2.2.2.1 hm.2.2.2.2 _ _ _) ?_ (hI.hasSlot_of_own (by simp [hown]))
      (List.subset_cons_self _ _) (fun _ => id) ?_
    · exact ⟨hm.2.1, hm.2.2.1, by simp [hm.2.2.2.1, hm.2.2.2.2], h, hh, rfl⟩
    · exact Or.inl ⟨rfl, by simp⟩
  | relWon c rc h =>
    obtain ⟨hl, hk, hown⟩ := hwin c rc rfl h
    have hc := hI.cell c.slot
    have hu : (s.slots c.slot).inUse = true := by
      cases hu : (s.slots c.slot).inUse with
      | true => rfl
      | false =>
        rw [hI.free hu] at hown
        split at hown <;> cases hown
    refine hI.setSlot ?_ ?_ (by simp +contextual) (by simp [Pc.takes, eq_comm]) ((hI.slot c.slot).release hl h hk)
      ⟨rfl, hu, rfl⟩ (hI.hasSlot_of_own ?_) (fun _ => id) (List.subset_cons_self _ _) ⟨by simp, ?_⟩
    · rw [hq]
      cases rc <;> simp [Pc.takes]
    · rw [hown]
      split <;> simp +contextual
    · rw [hown]
      split <;> simp
    · cases rc with
      | none => simp
      | some rc => simpa [Pc.Ok] using hok
  | relHazard c rc =>
    obtain ⟨hi, hu, hl⟩ := htakes c.slot rfl
    exact hI.setOwnSlot (by rw [hq]; rfl) rfl rfl { hI.slot c.slot with hazard := by simp }
      ⟨hi, hu, hl, rfl, rfl⟩ rfl rfl
      (by simpa [Pc.Ok] using hok)
  | relSnapshot c rc =>
    obtain ⟨hi, hu, hl, hz, hh⟩ := htakes c.slot rfl
    exact hI.setOwnSlot (by rw [hq]; rfl) rfl rfl { hI.slot c.slot with } ⟨hi, hu, hl, hz, hh, rfl⟩ rfl rfl
      (by simpa [Pc.Ok] using hok)
  | relInUse c rc =>
    obtain ⟨hi, hu, hl, hz, hh, hs⟩ := htakes c.slot rfl
    have hown := (hI.own t c.slot).mp (by rw [hq]; rfl)
    refine hI.setSlot (by rw [hq]; simp [Pc.takes]) (by simp +contextual [hown]) (by simp) ?_
      ((hI.slot c.slot).handOver hl _ _ _) ⟨rfl, hl, hz, hs, hh⟩ (hI.hasSlot_of_own (by simp [hown])) (fun _ => id)
      (fun _ => id) ?_
    · cases rc <;> simp [Pc.takes]
    · cases rc with
      | none => trivial
      | some rc => exact Or.inr ⟨hok.2 rc rfl, by simpa using hok.1⟩

end Inv

/-! ## The other accesses -/

theorem owner_record (env : W.Env) (r : Out × W.Inner) : q.Owner i (x.record env r) ↔ q.Owner i x := by
  unfold Pc.Owner
  split <;> rfl

/-- Work on the inner state does not show in the slot's atomics. -/
theorem Inv.record (hI : Inv s) (j : Nat) (hj : s.hasSlot j) (env : W.Env) (r : Out × W.Inner) :
    Inv (s.setSlot j ((s.slots j).record env r)) := by
  have hslot : ∀ i, (s.setSlot j ((s.slots j).record env r)).slots i = s.slots i ∨
      i = j ∧ (s.setSlot j ((s.slots j).record env r)).slots i = (s.slots i).record env r := by
    intro i
    by_cases h : i = j
    · subst h
      exact Or.inr ⟨rfl, setSlot_slots_self _ _ _⟩
    · exact Or.inl (setSlot_slots_ne _ _ h)
  refine ⟨hI.pool, hI.whole, ?_, ?_, ?_, ?_, ?_⟩
  · intro i hc
    rcases hslot i with h | ⟨rfl, -⟩
    · rw [h]; exact hI.unused i hc
    · exact absurd hj.2 (by simpa [St.setSlot] using hc)
  · intro t' i
    rcases hslot i with h | ⟨-, h⟩ <;> rw [h] <;> exact hI.own t' i
  · intro i
    have hx := hI.slot i
    rcases hslot i with h | ⟨-, h⟩ <;> rw [h]
    · exact hx
    · exact ⟨hx.seq, hx.claimed, hx.released, hx.once, hx.written, hx.hazard⟩
  · intro i
    rcases hslot i with h | ⟨-, h⟩ <;> rw [h]
    · exact hI.cell i
    · have hc := hI.cell i
      unfold Cell at hc ⊢
      cases ho : (s.slots i).own with
      | actor t =>
        simp only [ho] at hc
        have : ((s.slots i).record env r).own = .actor t := ho
        simp only [this]
        exact (owner_record env r).mpr hc
      | _ =>
        simp only [ho] at hc
        simpa only [Slot.record, ho] using hc
  · intro t'
    refine (hI.pcs t').mono (fun _ => id) (fun i => ?_) fun i => ?_ <;>
      rcases hslot i with h | ⟨-, h⟩ <;> rw [h] <;> exact fun _ => id

/-- Publishing a chunk stores no slot over another: the chunk's slots are as they were made. -/
theorem Inv.grow_slots (hI : Inv s) :
    (fun i => if i / slotChunkLen = s.allocated / slotChunkLen then Slot.new W else s.slots i) = s.slots := by
  have hnot : s.chunks (s.allocated / slotChunkLen) = false := by
    have hp := hI.pool (s.allocated / slotChunkLen)
    rw [Nat.mul_div_cancel' hI.whole.1] at hp
    simpa using hp
  funext i
  split
  · rename_i h
    exact (hI.unused i (by rw [h]; exact hnot)).symm
  · rfl

theorem Inv.grow (hI : Inv s) (h : s.allocated < slotChunkLen * maxSlotChunks) :
    Inv { s with chunks := Function.update s.chunks (s.allocated / slotChunkLen) true,
                 slots := fun i => if i / slotChunkLen = s.allocated / slotChunkLen then Slot.new W else s.slots i,
                 allocated := s.allocated + slotChunkLen } := by
  have hw := hI.whole
  have hgrow : ∀ c, Function.update s.chunks (s.allocated / slotChunkLen) true c = true ↔
      slotChunkLen * c < s.allocated + slotChunkLen := by
    intro c
    by_cases hc : c = s.allocated / slotChunkLen
    · rw [hc, Function.update_self, Nat.mul_div_cancel' hw.1]
      simp [slotChunkLen]
    · rw [Function.update_of_ne hc, hI.pool c]
      simp only [slotChunkLen] at *
      omega
  have hkeep : ∀ c, s.chunks c = true → Function.update s.chunks (s.allocated / slotChunkLen) true c = true :=
    fun c hc => (hgrow c).mpr (Nat.lt_add_right _ ((hI.pool c).mp hc))
  rw [hI.grow_slots]
  refine ⟨hgrow, ?_, ?_, hI.own, hI.slot, hI.cell, ?_⟩
  · simp only [slotChunkLen, maxSlotChunks] at *
    omega
  · intro i hc
    refine hI.unused i ?_
    cases hc' : s.chunks (i / slotChunkLen) with
    | false => rfl
    | true => exact absurd (hkeep _ hc') (by simpa using hc)
  · intro t'
    exact (hI.pcs t').mono (fun i hi => ⟨hi.1, hkeep _ hi.2⟩) (fun _ _ => id) fun _ _ => id

/-- The invariant does not see the writers' state. -/
theorem Inv.congr (hI : Inv s) (hp : s'.pc = s.pc) (hs : s'.slots = s.slots) (hc : s'.chunks = s.chunks)
    (ha : s'.allocated = s.allocated) : Inv s' := by
  refine ⟨by rw [hc, ha]; exact hI.pool, by rw [ha]; exact hI.whole, by rw [hc, hs]; exact hI.unused,
    by rw [hp, hs]; exact hI.own, by rw [hs]; exact hI.slot, by rw [hp, hs]; exact hI.cell, ?_⟩
  intro t'
  rw [hp]
  refine (hI.pcs t').mono ?_ (by rw [hs]; exact fun _ _ => id) (by rw [hs]; exact fun _ _ => id)
  intro i hi
  rwa [St.hasSlot, St.chunk, hc]

theorem Pc.Owner.takes (h : q.Owner i x) : q.takes = some i := by
  unfold Pc.Owner at h
  split at h
  all_goals first | exact congrArg some h.1.1 | exact congrArg some h.1 | exact h.elim

theorem Share.takes {q₀ : Pc W} (h : Share s t q₀ q s') :
    q₀.takes = none ∧ q.takes = none ∧ q.Ok s' ∧ s'.pc = s.pc := by
  cases h <;> exact ⟨rfl, rfl, trivial, rfl⟩

theorem Inv.share (hI : Inv s) (h : Share s t (s.pc t) q s') : Inv (s'.goto t q) := by
  obtain ⟨h₀, hq, hok, hpc⟩ := h.takes
  have hI' : Inv s' := by
    generalize s.pc t = q₀ at h
    cases h with
    | grow n hn h => exact hI.grow h
    | _ => exact hI.congr rfl rfl rfl rfl
  rw [← hpc] at h₀
  refine hI'.goto (hq.trans h₀.symm) ?_ hok
  intro i ho
  rw [ho.takes] at h₀
  cases h₀

theorem Inv.step (hI : Inv s) (hf : Fresh s) (h : Step t s s') : Inv s' := by
  cases h with
  | move h => exact hI.move h
  | touch h => exact hI.touch hf h
  | @use c env r hq h =>
    have hw := hI.pcs t
    rw [hq] at hw
    exact (hI.record c.slot (hI.hasSlot_of_written hw) env r).goto (by simp [hq, Pc.takes])
      (by simp [hq, Pc.Owner]) trivial
  | share h => exact hI.share h

theorem fresh_of_run (h : Reach init Run s) : Fresh s :=
  h.invariant (fun _ => Fresh.start) fun _ _ _ _ hr => hr.2

theorem inv_of_run (h : Reach init Run s) : Inv s := by
  refine h.invariant (fun _ => Inv.start) ?_
  intro s s' hs hI h₀
  obtain ⟨⟨t, ht⟩, -⟩ := h₀
  exact hI.step (fresh_of_run hs) ht

/-! ## Calls with a released cursor -/

/-- The states of a run from `s`, up to the return of the call `t` is in. -/
inductive Call (t : Nat) (s : St W) : St W → Prop
  | start : Call t s s
  | next {s₁ s₂ : St W} (h : Call t s s₁) (hq : ∀ r, s₁.pc t ≠ .ret r) (hr : Run s₁ s₂) : Call t s s₂

/-- Where a call that presents `c` starts: `step` or `get_reg`, or `fini` for `none`. -/
def Pc.present (c : Cursor) : Option Op → Pc W
  | some op => .liveSlot op c
  | none => .relSlot c none

/-- Its comparison of the nonce. -/
def Pc.check (c : Cursor) : Option Op → Pc W
  | some op => .liveSeq op c
  | none => .relCas c none

/-- What it returns when it is refused: failure and no output. -/
def refusal : Option Op → Result
  | some op => op.failed
  | none => .finished

/-- The accesses a refused call has left. -/
def Pc.left : Pc W → Nat
  | .liveSlot _ _ | .relSlot _ _ => 2
  | .liveSeq _ _ | .relCas _ _ => 1
  | _ => 0

theorem Touch.released {q₀ : Pc W} (h : Touch s t q₀ q i x) : (s.slots i).released ⊆ x.released := by
  cases h with
  | relWon c rc h => exact List.subset_cons_self _ _
  | _ => exact fun _ => id

theorem released_setSlot (h : (s.slots i).released ⊆ x.released) (j : Nat) :
    (s.slots j).released ⊆ ((s.setSlot i x).slots j).released := by
  by_cases hj : j = i
  · subst hj
    rwa [setSlot_slots_self]
  · rw [setSlot_slots_ne _ _ hj]
    exact fun _ => id

/-- What is released stays released. -/
theorem Inv.released_step (hI : Inv s) (h : Step t s s') (j : Nat) : (s.slots j).released ⊆ (s'.slots j).released := by
  cases h with
  | move h => exact fun _ => id
  | touch h => exact released_setSlot h.released j
  | use hq h => exact released_setSlot (x := (s.slots _).record _ _) (fun _ => id) j
  | share h =>
    generalize s.pc t = q₀ at h
    cases h with
    | grow n hn h =>
      rw [goto_slots, hI.grow_slots]
      exact fun _ => id
    | _ => exact fun _ => id

theorem Step.pc_ne (h : Step t s s') {t' : Nat} (ht : t' ≠ t) : s'.pc t' = s.pc t' := by
  cases h with
  | share h => rw [goto_pc_ne _ _ ht, h.takes.2.2.2]
  | _ => exact goto_pc_ne _ _ ht

/-- With a released cursor, a call has one access to make, which changes only where it stands:
    the nonce cannot match. -/
theorem Inv.refuse (hI : Inv s) (hf : Fresh s) {c : Cursor} {op : Option Op}
    (hq : s.pc t = .present c op ∨ s.pc t = .check c op) (hr : c.claim ∈ (s.slots c.slot).released) :
    ∃ q, (∀ s', Step t s s' ↔ s' = s.goto t q) ∧ q.left < (s.pc t).left ∧
      (q = .check c op ∨ q = .ret (refusal op)) := by
  have hw : (c.claim, c.nonce) ∈ (s.slots c.slot).written := by
    have := hI.pcs t
    cases op <;> rcases hq with hq | hq <;> rwa [hq] at this
  have hc : (s.pc t).presents = some c := by
    cases op <;> rcases hq with hq | hq <;> rw [hq] <;> rfl
  have hhas := hI.hasSlot_of_written hw
  have hseq : (s.slots c.slot).seq ≠ c.nonce := by
    intro h
    obtain ⟨hl, hk⟩ := (hI.slot c.slot).matches hw (hf t c hc) h
    exact (((hI.slot c.slot).released _).mp hr).2.2 ⟨hk, hl⟩
  have hone : ∀ q, Move s (s.pc t) q → (∀ q', Move s (s.pc t) q' → q' = q) → (∀ q' i x, ¬ Touch s t (s.pc t) q' i x) →
      (∀ c', s.pc t ≠ .use .step c') → (∀ q' s', ¬ Share s t (s.pc t) q' s') → ∀ s', Step t s s' ↔ s' = s.goto t q := by
    intro q h hm ht hu hs s'
    constructor
    · intro h
      cases h with
      | move h => rw [hm _ h]
      | touch h => exact absurd h (ht _ _ _)
      | use h _ => exact absurd h (hu _)
      | share h => exact absurd h (hs _ _)
    · intro heq
      subst heq
      exact .move h
  rcases hq with hq | hq <;> cases op with
  | none => ?_
  | some op => ?_
  all_goals rw [hq] at hone ⊢
  · refine ⟨.relCas c none, hone _ (.relSlot c none hhas) ?_ (by rintro _ _ _ ⟨⟩) nofun (by rintro _ _ ⟨⟩),
      by simp [Pc.left, Pc.present], Or.inl rfl⟩
    intro q' h
    cases h with
    | relSlot => rfl
    | relNoSlot _ _ h => exact absurd hhas h
  · refine ⟨.liveSeq op c, hone _ (.liveSlot op c hhas) ?_ (by rintro _ _ _ ⟨⟩) nofun (by rintro _ _ ⟨⟩),
      by simp [Pc.left, Pc.present], Or.inl rfl⟩
    intro q' h
    cases h with
    | liveSlot => rfl
    | liveNoSlot _ _ h => exact absurd hhas h
  · refine ⟨.ret .finished, hone _ (.relLost c none hseq) ?_ ?_ nofun (by rintro _ _ ⟨⟩),
      by simp [Pc.left, Pc.check], Or.inr rfl⟩
    · intro q' h
      cases h with
      | relLost => rfl
    · intro q' i x h
      cases h with
      | relWon _ _ h => exact absurd h hseq
  · refine ⟨.ret op.failed, hone _ (.notLive op c hseq) ?_ (by rintro _ _ _ ⟨⟩) nofun (by rintro _ _ ⟨⟩),
      by simp [Pc.left, Pc.check], Or.inr rfl⟩
    intro q' h
    cases h with
    | notLive => rfl
    | liveSeq _ _ h => exact absurd h hseq

/-- A call whose cursor is released before it compares the nonce is refused to its return. -/
theorem refused_call {s₁ : St W} (h : Reach init Run s) {c : Cursor} {op : Option Op}
    (hb : s.pc t = .present c op ∨ s.pc t = .check c op) (hr : c.claim ∈ (s.slots c.slot).released) (hc : Call t s s₁) :
    Reach init Run s₁ ∧ ((s₁.pc t = .present c op ∨ s₁.pc t = .check c op) ∨ s₁.pc t = .ret (refusal op)) ∧
      c.claim ∈ (s₁.slots c.slot).released := by
  induction hc with
  | start => exact ⟨h, Or.inl hb, hr⟩
  | next hc hq hrun ih =>
    obtain ⟨hreach, hpc, hrel⟩ := ih
    refine ⟨hreach.tail hrun, ?_⟩
    obtain ⟨⟨t', hstep⟩, -⟩ := hrun
    have hI := inv_of_run hreach
    refine ⟨?_, hI.released_step hstep _ hrel⟩
    rcases hpc with hpc | hpc
    · by_cases ht : t = t'
      · subst ht
        obtain ⟨q, huniq, -, hq'⟩ := hI.refuse (fresh_of_run hreach) hpc hrel
        rw [(huniq _).mp hstep, goto_pc_self]
        exact hq'.imp_left Or.inr
      · rw [hstep.pc_ne ht]
        exact Or.inl hpc
    · exact absurd hpc (hq _)

/-! ## Slots and claims -/

/-- Claim `k` of slot `i` was made and is not released. -/
def Outstanding (s : St W) (i k : Nat) : Prop := 0 < k ∧ k ≤ (s.slots i).claims ∧ k ∉ (s.slots i).released

theorem Inv.last_claim (hI : Inv s) {k : Nat} (h : Outstanding s i k) :
    k = (s.slots i).claims ∧ (s.slots i).live = true := by
  by_contra hn
  exact h.2.2 (((hI.slot i).released k).mpr ⟨h.1, h.2.1, hn⟩)

/-- Every slot has been claimed fewer than 2^63 times. -/
def Bounded (s : St W) : Prop := ∀ i, (s.slots i).claims < 2 ^ 63

theorem Bounded.fresh (h : Bounded s) : Fresh s := fun _ c _ => Nat.lt_add_left _ (h c.slot)

def BoundedRun (s s' : St W) : Prop := (∃ t, Step t s s') ∧ Bounded s'

theorem BoundedRun.reach (h : Reach init BoundedRun s) : Reach init Run s :=
  h.mono (fun _ => id) fun _ _ hr => ⟨hr.1, hr.2.fresh⟩

/-- An unreleased claim is an init's in progress, or a written cursor's. -/
theorem Inv.outstanding (hI : Inv s) {k : Nat} (h : Outstanding s i k) :
    (∃ t, (s.pc t).takes = some i) ∨ ∃ n, (k, n) ∈ (s.slots i).written := by
  obtain ⟨rfl, hl⟩ := hI.last_claim h
  have hc := hI.cell i
  unfold Cell at hc
  cases ho : (s.slots i).own with
  | free =>
    simp only [ho] at hc
    exact absurd (hc.2.1.symm.trans hl) (by decide)
  | cursor =>
    simp only [ho] at hc
    exact Or.inr ⟨_, hc.2.2.1⟩
  | actor t => exact Or.inl ⟨t, (hI.own t i).mpr ho⟩

theorem Inv.idle (hI : Inv s) (hk : ∀ k, ¬ Outstanding s i k) (ht : ∀ t, (s.pc t).takes ≠ some i) :
    (s.slots i).inUse = false ∧ (s.slots i).hazard = none := by
  have hc := hI.cell i
  unfold Cell at hc
  cases ho : (s.slots i).own with
  | free =>
    simp only [ho] at hc
    exact ⟨hc.1, hc.2.2.1⟩
  | cursor =>
    simp only [ho] at hc
    refine absurd ⟨(hI.slot i).claimed hc.2.1, le_rfl, ?_⟩ (hk (s.slots i).claims)
    intro h
    exact (((hI.slot i).released _).mp h).2.2 ⟨rfl, hc.2.1⟩
  | actor t => exact absurd ((hI.own t i).mpr ho) (ht t)

/-- In every reachable state: the unreleased claims of a slot are one claim, and one actor at most
    is inside a claim or a release of it, with none while a new claim takes its number; each claim's
    release was won at most once; a call with a released cursor, also one whose cursor is released
    while it stands before the comparison of the nonce, at each moment up to its return has one
    access to make, which changes only where the call stands, and it returns failure; a failed
    init's claim is released, and every unreleased claim is an init's in progress or a written
    cursor's; and with no claim outstanding or in progress every slot is free and its hazard
    null. -/
theorem slots_owned_once (h : Reach init BoundedRun s) :
    (∀ i k k', Outstanding s i k → Outstanding s i k' → k = k') ∧
    (∀ i t t', (s.pc t).takes = some i → (s.pc t').takes = some i → t = t') ∧
    (∀ i t a, s.pc t = .claimSeq a i → ∀ k, ¬ Outstanding s i k) ∧
    (∀ i, (s.slots i).released.Nodup ∧ ∀ k ∈ (s.slots i).released, 0 < k ∧ k ≤ (s.slots i).claims) ∧
    (∀ t c op, s.pc t = .present c op ∨ s.pc t = .check c op → c.claim ∈ (s.slots c.slot).released → ∀ s₁, Call t s s₁ →
      s₁.pc t = .ret (refusal op) ∨
      ∃ q, (∀ s₂, Step t s₁ s₂ ↔ s₂ = s₁.goto t q) ∧ q.left < (s₁.pc t).left) ∧
    (∀ t rc claim, s.pc t = .ret (.init rc claim) → rc < 0 → ∀ c ∈ claim, c.claim ∈ (s.slots c.slot).released) ∧
    (∀ i k, Outstanding s i k → (∃ t, (s.pc t).takes = some i) ∨ ∃ n, (k, n) ∈ (s.slots i).written) ∧
    ((∀ i k, ¬ Outstanding s i k) → (∀ t, (s.pc t).takes = none) →
      ∀ i, (s.slots i).inUse = false ∧ (s.slots i).hazard = none) := by
  have hrun := BoundedRun.reach h
  have hI := inv_of_run hrun
  refine ⟨?_, ?_, ?_, fun i => ⟨(hI.slot i).once, ?_⟩,
    ?_, ?_, fun i k => hI.outstanding, ?_⟩
  · intro i k k' hk hk'
    exact (hI.last_claim hk).1.trans (hI.last_claim hk').1.symm
  · intro i t t' ht ht'
    exact Own.actor.inj (((hI.own t i).mp ht).symm.trans ((hI.own t' i).mp ht'))
  · intro i t a hq k hk
    have ho := hI.owner (t := t) (i := i) (by rw [hq]; rfl)
    rw [hq] at ho
    exact absurd (ho.2.2.1.symm.trans (hI.last_claim hk).2) (by decide)
  · intro k hk
    have := ((hI.slot i).released k).mp hk
    exact ⟨this.1, this.2.1⟩
  · intro t c op hb hr s₁ hc
    obtain ⟨hreach, hpc | hpc, hrel⟩ := refused_call hrun hb hr hc
    · obtain ⟨q, huniq, hleft, -⟩ := (inv_of_run hreach).refuse (fresh_of_run hreach) hpc hrel
      exact Or.inr ⟨q, huniq, hleft⟩
    · exact Or.inl hpc
  · intro t rc claim hq hrc c hc
    have hok := hI.pcs t
    rw [hq, Option.mem_def.mp hc] at hok
    rcases hok with ⟨rfl, -⟩ | hok
    · exact absurd hrc (by decide)
    · exact hok.2
  · intro hk ht i
    exact hI.idle (hk i) fun t h => by rw [ht t] at h; cases h

/-- A cursor is never in use after its claim is released: the single owner finishes it last. -/
def SingleUse (s : St W) : Prop := ∀ t c, (s.pc t).presents = some c → c.claim ∉ (s.slots c.slot).released

/-- With single owners no slot's number of claims matters. -/
theorem Inv.fresh (hI : Inv s) (h : SingleUse s) : Fresh s := by
  intro t c hc
  have hw : (c.claim, c.nonce) ∈ (s.slots c.slot).written := by
    have hok := hI.pcs t
    generalize s.pc t = q at hc hok
    unfold Pc.presents at hc
    split at hc
    all_goals cases hc
    all_goals exact hok
  obtain ⟨-, hpos, hle, -⟩ := (hI.slot c.slot).written _ _ hw
  have := (hI.last_claim ⟨hpos, hle, h t c hc⟩).1
  omega

/-! ## A first walk -/

/-- Reached from the start in `n` accesses, with actor 1 alone presenting cursors. -/
inductive Within {W : Walk} : Nat → St W → Prop
  | start {s₀ : St W} (h : init s₀) : Within 0 s₀
  | next {n t₁ : Nat} {s₁ s₂ : St W} (h : Within n s₁) (hs : Step t₁ s₁ s₂)
      (hp : t₁ = 1 ∨ (s₂.pc t₁).presents = none) : Within (n + 1) s₂

theorem Step.claims (hI : Inv s) (h : Step t s s') (j : Nat) : (s'.slots j).claims ≤ (s.slots j).claims + 1 := by
  have hset : ∀ i x, x.claims ≤ (s.slots i).claims + 1 → ((s.setSlot i x).slots j).claims ≤ (s.slots j).claims + 1 := by
    intro i x hx
    by_cases hj : j = i
    · subst hj
      rwa [setSlot_slots_self]
    · rw [setSlot_slots_ne _ _ hj]
      exact Nat.le_succ _
  cases h with
  | move h => exact Nat.le_succ _
  | touch h =>
    refine hset _ _ ?_
    generalize s.pc t = q₀ at h
    cases h with
    | claimSeq a i => exact le_rfl
    | _ => exact Nat.le_succ _
  | use hq h => exact hset _ _ (Nat.le_succ _)
  | share h =>
    generalize s.pc t = q₀ at h
    cases h with
    | grow n hn h =>
      rw [goto_slots, hI.grow_slots]
      exact Nat.le_succ _
    | _ => exact Nat.le_succ _

/-- Fewer than 2^63 accesses make fewer than 2^63 claims. -/
theorem Within.reach {n : Nat} (h : Within n s) (hn : n < 2 ^ 63) :
    Reach init BoundedRun s ∧ ∀ i, (s.slots i).claims ≤ n := by
  induction h with
  | start h =>
    refine ⟨Reach.start h, ?_⟩
    intro i
    subst h
    exact le_rfl
  | @next n t s s' h hs _ ih =>
    obtain ⟨hr, hc⟩ := ih (Nat.lt_of_succ_lt hn)
    have hc' : ∀ i, (s'.slots i).claims ≤ n + 1 :=
      fun i => (hs.claims (inv_of_run (BoundedRun.reach hr)) i).trans (Nat.succ_le_succ (hc i))
    exact ⟨hr.tail ⟨⟨t, hs⟩, fun i => (hc' i).trans_lt hn⟩, hc'⟩

/-- Actor 0 makes a chunk of slots and publishes `snap` at address 7. -/
theorem first_publication (snap : W.Snap) : ∃ s : St W, Within 12 s ∧ s.hasSlot 0 ∧ s.slots 0 = Slot.new W ∧
    s.current = some 7 ∧ s.heap 7 = some (0, snap) ∧ s.heap 8 = none ∧ s.hist = [⟨7, 0, snap⟩] ∧ s.retired = [] ∧
    s.writerLock = none ∧ ∀ t, ∃ r, s.pc t = .ret r := by
  refine ⟨_, Within.start rfl
    |>.next (.move (t := 0) (.callGrow _ 1)) (.inr rfl)
    |>.next (.share (t := 0) (.gLock 1 rfl)) (.inr rfl)
    |>.next (.share (t := 0) (.grow 1 Nat.one_pos (by decide : 0 < slotChunkLen * maxSlotChunks))) (.inr rfl)
    |>.next (.share (t := 0) (.grown 1 fun h => absurd h.1 (by decide : ¬ 16 < 1))) (.inr rfl)
    |>.next (.move (t := 0) (.callWriter _)) (.inr rfl)
    |>.next (.share (t := 0) (.wLock rfl)) (.inr rfl)
    |>.next (.move (t := 0) .wLoad) (.inr rfl)
    |>.next (.share (t := 0) (.wBuild _ 7 snap nofun rfl)) (.inr rfl)
    |>.next (.share (t := 0) (.wSwap _)) (.inr rfl)
    |>.next (.share (t := 0) (.wPush _)) (.inr rfl)
    |>.next (.move (t := 0) (.reclaimed 0 0 rfl)) (.inr rfl)
    |>.next (.share (t := 0) .wUnlock) (.inr rfl), ⟨by decide, ?_⟩, ?_, rfl, rfl, rfl, rfl, rfl, rfl, ?_⟩
  · simp [St.goto, slotChunkLen]
  · simp [St.goto, slotChunkLen]
  · rintro (_ | t) <;> exact ⟨_, rfl⟩

/-- Actor 1 starts a walk on slot 0, with nobody else making an access. -/
theorem init_alone {n : Nat} (hn : Within n s) {r : Result} (hq : s.pc 1 = .ret r) (hs : (s.slots 0).inUse = false)
    (hh : s.hasSlot 0) {p : Ptr} (hc : s.current = some p) {v : Nat × W.Snap} (hv : s.heap p = some v) (a : W.Args) :
    ∃ (c : Cursor) (x : Slot W), Within (n + 11) ((s.setSlot 0 x).goto 1 (.ret (.init 0 (some c)))) ∧
      c = ⟨0, wrappingAdd (s.slots 0).seq 1, (s.slots 0).claims + 1⟩ ∧
      x = { s.slots 0 with
            inUse := true, seq := c.nonce, hazard := some p,
            inner := W.fill a v.2 (s.slots 0).inner, snapshot := some p,
            claims := c.claim, live := true, own := .cursor, held := some ⟨p, s.hist.length - 1, s.hist.length⟩,
            start := (s.slots 0).inner, written := (c.claim, c.nonce) :: (s.slots 0).written,
            log := some ⟨(s.slots 0).inner, a, v.2, some ⟨p, s.hist.length - 1, s.hist.length⟩, [], []⟩ } := by
  have hrun := hn
    |>.next (.move (t := 1) (by rw [hq]; exact .callInit _ a)) (.inl rfl)
    |>.next (.move (t := 1) (.claimChunk a 0 hh)) (.inl rfl)
    |>.next (.touch (t := 1) (.claimed a 0 hs)) (.inl rfl)
    |>.next (.touch (t := 1) (.claimSeq a 0)) (.inl rfl)
    |>.next (.move (t := 1) (.acqSlot a _ _ hh)) (.inl rfl)
    |>.next (.move (t := 1) (.acqLoad a _ _ p hc)) (.inl rfl)
    |>.next (.touch (t := 1) (.acqStore a _ _ p)) (.inl rfl)
    |>.next (.touch (t := 1) (.acquired a _ _ p hc)) (.inl rfl)
    |>.next (.move (t := 1) (.maxCode a _ p v hv)) (.inl rfl)
    |>.next (.move (t := 1) (.fillSlot a _ p _ hh)) (.inl rfl)
    |>.next (.touch (t := 1) (.fill a _ p _)) (.inl rfl)
  refine ⟨_, _, ?_, rfl, rfl⟩
  simpa using hrun

/-- Actor 1 finishes the walk on slot 0, with nobody else making an access. -/
theorem fini_alone {n : Nat} (hn : Within n s) {r : Result} (hq : s.pc 1 = .ret r) (hh : s.hasSlot 0) {nonce k : Nat}
    (hw : (k, nonce) ∈ (s.slots 0).written) (hs : (s.slots 0).seq = nonce) :
    ∃ x : Slot W, Within (n + 6) ((s.setSlot 0 x).goto 1 (.ret .finished)) ∧
      x = { s.slots 0 with
            inUse := false, seq := wrappingAdd nonce 1, hazard := none, snapshot := none, live := false, own := .free,
            held := none, released := k :: (s.slots 0).released } := by
  have hrun := hn
    |>.next (.move (t := 1) (q := .relSlot ⟨0, nonce, k⟩ none) (by rw [hq]; exact .callFini _ _ hw)) (.inl rfl)
    |>.next (.move (t := 1) (.relSlot _ _ hh)) (.inl rfl)
    |>.next (.touch (t := 1) (.relWon _ _ hs)) (.inl rfl)
    |>.next (.touch (t := 1) (.relHazard _ _)) (.inl rfl)
    |>.next (.touch (t := 1) (.relSnapshot _ _)) (.inl rfl)
    |>.next (.touch (t := 1) (.relInUse _ _)) (.inl rfl)
  refine ⟨_, ?_, rfl⟩
  simpa [afterRelease] using hrun

/-- A walk that counts down from what init was given. -/
def countdown : Walk where
  Snap := Nat
  Inner := Nat
  Args := Nat
  Env := Unit
  placeholder := 0
  fill a _ _ := a
  done n := n == 0
  step snap _ n := some (⟨1, snap, n⟩, n - 1)
  reg n := (n, n)

/-- A copy of a finished cursor is presented to fini while the slot's next walk is on. -/
theorem slots_owned_once_stale_copy : ∃ s : St countdown,
    Reach init BoundedRun s ∧ s.pc 2 = .present ⟨0, 1, 1⟩ none ∧ Outstanding s 0 2 ∧
      ∀ s₁, Call 2 s s₁ → s₁.pc 2 = .ret .finished ∨
        ∃ q, (∀ s₂, Step 2 s₁ s₂ ↔ s₂ = s₁.goto 2 q) ∧ q.left < (s₁.pc 2).left := by
  obtain ⟨s₀, hn, hh, hx, hc, hv, -, -, -, -, hidle⟩ := first_publication (W := countdown) (5 : Nat)
  obtain ⟨r, hq⟩ := hidle 1
  obtain ⟨r₂, hq₂⟩ := hidle 2
  obtain ⟨c, x, hn, hcur, hslot⟩ := init_alone hn hq (by rw [hx]; rfl) hh hc hv (3 : Nat)
  rw [hx] at hcur hslot
  subst hcur hslot
  obtain ⟨y, hn, rfl⟩ := fini_alone hn rfl hh List.mem_cons_self rfl
  obtain ⟨c', z, hn, rfl, rfl⟩ := init_alone hn rfl rfl hh hc hv (4 : Nat)
  obtain ⟨hreach, hclaims⟩ := hn.reach (by decide)
  have hreach := hreach.tail ⟨⟨2, .move (q := .relSlot ⟨0, 1, 1⟩ none) (by
    simp only [goto_pc_ne _ _ (by decide : 2 ≠ 1), setSlot_pc, hq₂]
    exact .callFini _ _ (List.mem_cons_of_mem _ List.mem_cons_self))⟩, fun i => (hclaims i).trans_lt (by decide)⟩
  refine ⟨_, hreach, rfl, ⟨Nat.two_pos, le_rfl, ?_⟩, ?_⟩
  · exact List.not_mem_cons_of_ne_of_not_mem (by decide : 2 ≠ 1) List.not_mem_nil
  · exact (slots_owned_once hreach).2.2.2.2.1 2 _ none (.inl rfl) List.mem_cons_self

end FramehopUnwind.State
