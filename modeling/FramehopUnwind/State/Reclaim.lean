/-
  FramehopUnwind.State.Reclaim — retired snapshots are reclaimed (`reclaim` and `with_writer`
  of state.rs).

  A writer swaps CURRENT, pushes the snapshot it swapped out on the retired list, and frees
  every entry of the list that no slot's hazard points to. An address may be used again, so a
  publication is told from a later one at its address by the allocation's id.

  Between the swap and the push the old snapshot is in neither place: the writer has it
  (`Place.handed`).

  Proved:
  - `Accounts.step`: every publication that is not freed is allocated, and current, retired or
    in a writer's hands; what is retired was published.
  - `retired_reclaimed`: every publication is in one place; and when a write's reclaim has met
    no reader's access, the retired list is exactly the publications that are not current, not
    freed and still pointed to by a hazard, at most one a slot.
-/

import FramehopUnwind.State.Hazard

namespace FramehopUnwind.State

open Lib.Runs

variable {W : Walk} {s s' : St W} {t : Nat} {q : Pc W} {i : Nat} {x : Slot W}

/-! ## Where a publication is -/

/-- The publication's allocation is still there. -/
def Alive (s : St W) (pub : Publication W) : Prop := s.heap pub.ptr = some (pub.id, pub.snap)

/-- The snapshot a writer has swapped out and not yet pushed. -/
def Pc.hand : Pc W → Option Ptr
  | .wPush old => old
  | _ => none

inductive Place where
  | current
  | retired
  | handed
  | freed
  deriving DecidableEq, Repr

def Publication.At (s : St W) (pub : Publication W) : Place → Prop
  | .current => Alive s pub ∧ s.current = some pub.ptr
  | .retired => Alive s pub ∧ pub.ptr ∈ s.retired
  | .handed => Alive s pub ∧ ∃ t, (s.pc t).hand = some pub.ptr
  | .freed => pub.id ∈ s.frees

structure Accounts (s : St W) : Prop where
  ids : ∀ pub ∈ s.hist, pub.id < s.nextId
  alive : ∀ pub ∈ s.hist, pub.id ∉ s.frees → Alive s pub
  placed : ∀ pub ∈ s.hist, Alive s pub → s.current = some pub.ptr ∨ pub.ptr ∈ s.retired ∨
    ∃ t, (s.pc t).hand = some pub.ptr
  listed : ∀ p ∈ s.retired, ∃ pub ∈ s.hist, pub.ptr = p ∧ Alive s pub
  handed : ∀ t p, (s.pc t).hand = some p → ∃ pub ∈ s.hist, pub.ptr = p ∧ Alive s pub

theorem Accounts.start (h : init s) : Accounts s := by
  subst h
  constructor <;> simp [Pc.hand]

namespace Accounts

/-- An access that writes neither the list, CURRENT nor the heap. -/
theorem frame (hA : Accounts s) (hheap : s'.heap = s.heap) (hnext : s'.nextId = s.nextId) (hhist : s'.hist = s.hist)
    (hfrees : s'.frees = s.frees) (hretired : s'.retired = s.retired) (hcurrent : s'.current = s.current)
    (hhand : ∀ t', (s'.pc t').hand = (s.pc t').hand) : Accounts s' := by
  refine ⟨?_, ?_, ?_, ?_, ?_⟩
  · rw [hhist, hnext]
    exact hA.ids
  · unfold Alive
    rw [hheap, hhist, hfrees]
    exact hA.alive
  · unfold Alive
    simp only [hheap, hhist, hretired, hcurrent, hhand]
    exact hA.placed
  · unfold Alive
    rw [hheap, hhist, hretired]
    exact hA.listed
  · unfold Alive
    simp only [hheap, hhist, hhand]
    exact hA.handed

end Accounts

theorem goto_hand (h₀ : (s.pc t).hand = none) (hq : q.hand = none) (t' : Nat) :
    ((s.goto t q).pc t').hand = (s.pc t').hand := by
  by_cases ht : t' = t
  · rw [ht, goto_pc_self, h₀, hq]
  · rw [goto_pc_ne _ _ ht]

theorem Move.hand {q₀ : Pc W} (h : Move s q₀ q) : q₀.hand = none ∧ q.hand = none := by
  cases h with
  | claimBusy a i h =>
    unfold afterSlot
    split <;> exact ⟨rfl, rfl⟩
  | scanMiss n i p hn h =>
    unfold afterSlot
    split <;> exact ⟨rfl, rfl⟩
  | _ => exact ⟨rfl, rfl⟩

theorem Pc.hand_writing {p : Ptr} (h : q.hand = some p) : q.writing = true := by
  cases q with
  | wPush old => rfl
  | _ => cases h

theorem Touch.hand {q₀ : Pc W} (h : Touch s t q₀ q i x) : q₀.hand = none ∧ q.hand = none := by
  cases h <;> exact ⟨rfl, rfl⟩

namespace Accounts

/-- A new allocation is at an address where nothing was, and under an id of its own. -/
theorem build (hA : Accounts s) {cur : Option Ptr} (hq : s.pc t = .wBuild cur) {p : Ptr} (hp : s.heap p = none)
    (snap : W.Snap) :
    Accounts (({ s with
      heap := Function.update s.heap p (some (s.nextId, snap)), nextId := s.nextId + 1 } : St W).goto t
      (.wSwap ⟨p, s.nextId, snap⟩)) := by
  have hhand := goto_hand (s := s) (t := t) (q := .wSwap ⟨p, s.nextId, snap⟩) (by rw [hq]; rfl) rfl
  have halive : ∀ pub ∈ s.hist, Function.update s.heap p (some (s.nextId, snap)) pub.ptr = some (pub.id, pub.snap) ↔
      Alive s pub := by
    intro pub hpub
    by_cases hpp : pub.ptr = p
    · have := hA.ids pub hpub
      rw [Alive, hpp, Function.update_self, hp]
      constructor
      · intro h
        have hid : s.nextId = pub.id := congrArg Prod.fst (Option.some.inj h)
        omega
      · intro h
        cases h
    · rw [Alive, Function.update_of_ne hpp]
  refine ⟨fun pub hpub => Nat.lt_succ_of_lt (hA.ids pub hpub), ?_, ?_, ?_, ?_⟩
  · intro pub hpub hid
    exact (halive pub hpub).mpr (hA.alive pub hpub hid)
  · intro pub hpub h
    refine (hA.placed pub hpub ((halive pub hpub).mp h)).imp_right (Or.imp_right ?_)
    intro h₀
    obtain ⟨t', ht'⟩ := h₀
    exact ⟨t', (hhand t').trans ht'⟩
  · intro p' hp'
    obtain ⟨pub, hpub, hptr, h⟩ := hA.listed p' hp'
    exact ⟨pub, hpub, hptr, (halive pub hpub).mpr h⟩
  · intro t' p' ht'
    obtain ⟨pub, hpub, hptr, h⟩ := hA.handed t' p' ((hhand t').symm.trans ht')
    exact ⟨pub, hpub, hptr, (halive pub hpub).mpr h⟩

/-- What was current is in the writer's hands. -/
theorem swap (hA : Accounts s) (hS : Safe s) {new : Publication W} (hq : s.pc t = .wSwap new) :
    Accounts (({ s with current := some new.ptr, hist := s.hist ++ [new] } : St W).goto t (.wPush s.current)) := by
  have hk := hS.knows t
  rw [hq] at hk
  have hnew : Alive s new := hk.2
  have hmem : ∀ pub, pub ∈ s.hist ++ [new] → pub ∈ s.hist ∨ pub = new := by
    intro pub hpub
    simpa using hpub
  refine ⟨?_, ?_, ?_, ?_, ?_⟩
  · intro pub hpub
    rcases hmem pub hpub with hpub | rfl
    · exact hA.ids pub hpub
    · exact (hS.ids _ _ hnew).1
  · intro pub hpub hid
    rcases hmem pub hpub with hpub | rfl
    · exact hA.alive pub hpub hid
    · exact hnew
  · intro pub hpub h
    rcases hmem pub hpub with hpub | rfl
    · rcases hA.placed pub hpub h with hc | hr | ⟨t', ht'⟩
      · refine Or.inr (Or.inr ⟨t, ?_⟩)
        rw [goto_pc_self]
        exact hc
      · exact Or.inr (Or.inl hr)
      · refine Or.inr (Or.inr ⟨t', ?_⟩)
        have hne : t' ≠ t := by
          intro heq
          rw [heq, hq] at ht'
          cases ht'
        rw [goto_pc_ne _ _ hne]
        exact ht'
    · exact Or.inl rfl
  · intro p hp
    obtain ⟨pub, hpub, hptr, h⟩ := hA.listed p hp
    exact ⟨pub, List.mem_append_left _ hpub, hptr, h⟩
  · intro t' p ht'
    by_cases htt : t' = t
    · rw [htt, goto_pc_self] at ht'
      obtain ⟨pub, hpub, hptr⟩ := Option.map_eq_some_iff.mp (hS.current.symm.trans ht')
      exact ⟨pub, List.mem_append_left _ (List.mem_of_getLast? hpub), hptr, hS.last pub hpub⟩
    · rw [goto_pc_ne _ _ htt] at ht'
      obtain ⟨pub, hpub, hptr, h⟩ := hA.handed t' p ht'
      exact ⟨pub, List.mem_append_left _ hpub, hptr, h⟩

/-- What was in the writer's hands is on the list. -/
theorem push (hA : Accounts s) (hS : Safe s) {old : Option Ptr} (hq : s.pc t = .wPush old) :
    Accounts (({ s with retired := s.retired ++ old.toList } : St W).goto t (.scanChunk 0 0)) := by
  have hhand : (s.pc t).hand = old := by rw [hq]; rfl
  refine ⟨hA.ids, hA.alive, ?_, ?_, ?_⟩
  · intro pub hpub h
    rcases hA.placed pub hpub h with hc | hr | ⟨t', ht'⟩
    · exact Or.inl hc
    · exact Or.inr (Or.inl (List.mem_append_left _ hr))
    · obtain rfl := hS.writing_unique (by rw [hq]; rfl) (Pc.hand_writing ht')
      rw [hhand] at ht'
      refine Or.inr (Or.inl (List.mem_append_right _ ?_))
      rw [ht']
      exact List.mem_singleton_self _
  · intro p hp
    rcases List.mem_append.mp hp with hp | hp
    · exact hA.listed p hp
    · exact hA.handed t p (hhand.trans (Option.mem_toList.mp hp))
  · intro t' p ht'
    by_cases htt : t' = t
    · rw [htt, goto_pc_self] at ht'
      cases ht'
    · rw [goto_pc_ne _ _ htt] at ht'
      exact hA.handed t' p ht'

theorem free (hA : Accounts s) (hS : Safe s) {n : Nat} (hq : s.pc t = .wFree n) {p : Ptr} (hn : s.retired[n]? = some p)
    {v : Nat × W.Snap} (hv : s.heap p = some v) :
    Accounts (({ s with
      retired := s.retired.eraseIdx n, heap := Function.update s.heap p none, frees := s.frees ++ [v.1] } : St W).goto t
      (.scanChunk n 0)) := by
  have hhand := goto_hand (s := s) (t := t) (q := .scanChunk n 0) (by rw [hq]; rfl) rfl
  have herase : ∀ p', p' ∈ s.retired.eraseIdx n ↔ p' ≠ p ∧ p' ∈ s.retired := fun p' => mem_eraseIdx hS.retired.1 hn
  have halive : ∀ pub : Publication W, Function.update s.heap p none pub.ptr = some (pub.id, pub.snap) ↔
      pub.ptr ≠ p ∧ Alive s pub := by
    intro pub
    by_cases hpp : pub.ptr = p
    · simp [hpp]
    · simp [Alive, hpp]
  refine ⟨hA.ids, ?_, ?_, ?_, ?_⟩
  · intro pub hpub hid
    have hid' : pub.id ∉ s.frees ∧ pub.id ≠ v.1 := by
      have : pub.id ∉ s.frees ++ [v.1] := hid
      simpa using this
    have h := hA.alive pub hpub hid'.1
    refine (halive pub).mpr ⟨?_, h⟩
    intro hpp
    rw [Alive, hpp, hv] at h
    cases h
    exact hid'.2 rfl
  · intro pub hpub h
    obtain ⟨hpp, h⟩ := (halive pub).mp h
    rcases hA.placed pub hpub h with hc | hr | ⟨t', ht'⟩
    · exact Or.inl hc
    · exact Or.inr (Or.inl ((herase _).mpr ⟨hpp, hr⟩))
    · exact Or.inr (Or.inr ⟨t', (hhand t').trans ht'⟩)
  · intro p' hp'
    obtain ⟨hpp, hr⟩ := (herase p').mp hp'
    obtain ⟨pub, hpub, rfl, h⟩ := hA.listed p' hr
    exact ⟨pub, hpub, rfl, (halive pub).mpr ⟨hpp, h⟩⟩
  · intro t' p' ht'
    have hs : (s.pc t').hand = some p' := (hhand t').symm.trans ht'
    rw [hS.writing_unique (by rw [hq]; rfl) (Pc.hand_writing hs), hq] at hs
    cases hs

theorem share (hA : Accounts s) (hS : Safe s) (h : Share s t (s.pc t) q s') : Accounts (s'.goto t q) := by
  generalize hq : s.pc t = q₀ at h
  have hnone : ∀ q₀ : Pc W, s.pc t = q₀ → q₀.hand = none → (s.pc t).hand = none := fun q₀ h h₀ => h ▸ h₀
  cases h with
  | wBuild cur p snap hc hp => exact hA.build hq hp snap
  | wSwap new => exact hA.swap hS hq
  | wPush old => exact hA.push hS hq
  | wFree n p v hn h => exact hA.free hS hq hn h
  | _ => exact hA.frame rfl rfl rfl rfl rfl rfl (goto_hand (hnone _ hq rfl) rfl)

theorem step (hA : Accounts s) (hS : Safe s) (h : Step t s s') : Accounts s' := by
  cases h with
  | move h => exact hA.frame rfl rfl rfl rfl rfl rfl (goto_hand h.hand.1 h.hand.2)
  | touch h => exact hA.frame rfl rfl rfl rfl rfl rfl (goto_hand h.hand.1 h.hand.2)
  | use hq h => exact hA.frame rfl rfl rfl rfl rfl rfl (goto_hand (show (s.pc t).hand = none by rw [hq]; rfl) rfl)
  | share h => exact hA.share hS h

end Accounts

theorem accounts_of_run (h : Reach init Run s) : Accounts s := by
  refine h.invariant (fun _ => Accounts.start) ?_
  intro s s' hs hA h₀
  obtain ⟨⟨t, ht⟩, -⟩ := h₀
  exact hA.step (safe_of_run hs) ht

/-- A publication is in one place. -/
theorem Publication.at_unique (hA : Accounts s) (hS : Safe s) {pub : Publication W} (hpub : pub ∈ s.hist) :
    ∃! place, pub.At s place := by
  by_cases hid : pub.id ∈ s.frees
  · -- what is freed is not allocated any more
    have hdead : ¬ Alive s pub := fun h => (hS.ids _ _ h).2 hid
    refine ⟨.freed, hid, ?_⟩
    intro place h
    cases place with
    | freed => rfl
    | _ => exact absurd h.1 hdead
  · have h := hA.alive pub hpub hid
    have hretired : pub.ptr ∈ s.retired → s.current ≠ some pub.ptr := fun hr => (hS.retired.2 _ hr).2
    have hloose : ∀ t, (s.pc t).hand = some pub.ptr → Loose s pub.ptr := by
      intro t ht
      have hk := hS.knows t
      generalize s.pc t = q at ht hk
      cases q with
      | wPush old =>
        rw [show old = some pub.ptr from ht] at hk
        exact hk
      | _ => cases ht
    rcases hA.placed pub hpub h with hc | hr | ⟨t, ht⟩
    · refine ⟨.current, ⟨h, hc⟩, ?_⟩
      intro place hp
      cases place with
      | current => rfl
      | retired => exact absurd hc (hretired hp.2)
      | handed =>
        obtain ⟨-, t, ht⟩ := hp
        exact absurd hc (hloose t ht).2.2
      | freed => exact absurd hp hid
    · refine ⟨.retired, ⟨h, hr⟩, ?_⟩
      intro place hp
      cases place with
      | current => exact absurd hp.2 (hretired hr)
      | retired => rfl
      | handed =>
        obtain ⟨-, t, ht⟩ := hp
        exact absurd hr (hloose t ht).2.1
      | freed => exact absurd hp hid
    · refine ⟨.handed, ⟨h, t, ht⟩, ?_⟩
      intro place hp
      cases place with
      | current => exact absurd hp.2 (hloose t ht).2.2
      | retired => exact absurd hp.2 (hloose t ht).2.1
      | handed => rfl
      | freed => exact absurd hp hid

/-! ## A reclaim that no reader disturbs -/

/-- The next access is a reader's: of init, step, get_reg or fini. -/
def Pc.reading : Pc W → Bool
  | .claimChunk _ _ | .claimCas _ _ | .claimSeq _ _ | .acqSlot _ _ _ | .acqLoad _ _ _ | .acqStore _ _ _ _
  | .acqCheck _ _ _ _ | .acqNull _ _ | .maxCode _ _ _ | .fillSlot _ _ _ _ | .fill _ _ _ _ | .relSlot _ _ | .relCas _ _
  | .relHazard _ _ | .relSnapshot _ _ | .relInUse _ _ | .liveSlot _ _ | .liveSeq _ _ | .useSlot _ _ | .use _ _ => true
  | _ => false

/-- The states of a run from `s`, up to the return of the call `t` is in, without an access by a
    reader. -/
inductive QuietCall (t : Nat) (s : St W) : St W → Prop
  | start : QuietCall t s s
  | next {t₁ : Nat} {s₁ s₂ : St W} (h : QuietCall t s s₁) (hq : ∀ r, s₁.pc t ≠ .ret r)
      (hquiet : (s₁.pc t₁).reading = false)
      (hs : Step t₁ s₁ s₂) (hf : Fresh s₂) : QuietCall t s s₂

/-- Some slot's hazard points to `p`. -/
def Hazarded (s : St W) (p : Ptr) : Prop := ∃ i, (s.slots i).hazard = some p

/-- How far the writer's reclaim has come: the entries before the one under scan are kept for a
    hazard. -/
def Pc.Scanned (s : St W) : Pc W → Prop
  | .scanChunk n _ | .scanSlot n _ | .wFree n => ∀ j p, j < n → s.retired[j]? = some p → Hazarded s p
  | .wUnlock | .ret _ => ∀ p ∈ s.retired, Hazarded s p
  | .wPush _ => True
  | _ => False

theorem Pc.Scanned.writing (h : q.Scanned s) (hq : ∀ r, q ≠ .ret r) : q.writing = true := by
  cases q with
  | ret r => exact absurd rfl (hq r)
  | _ => first | rfl | exact h.elim

theorem Touch.reading {q₀ : Pc W} (h : Touch s t q₀ q i x) : q₀.reading = true := by
  cases h <;> rfl

/-- No hazard changes without a reader's access. -/
theorem Inv.quiet_slots (hI : Inv s) (hquiet : (s.pc t).reading = false) (h : Step t s s') : s'.slots = s.slots := by
  cases h with
  | move h => rfl
  | touch h => exact absurd (h.reading) (by simp [hquiet])
  | use hq h =>
    rw [hq] at hquiet
    cases hquiet
  | share h =>
    generalize s.pc t = q₀ at h
    cases h with
    | grow n hn h => exact hI.grow_slots
    | _ => rfl

/-- The retired list is the writer's. -/
theorem Step.retired (h : Step t s s') (hw : (s.pc t).writing = false) : s'.retired = s.retired := by
  cases h with
  | move h => rfl
  | touch h => rfl
  | use hq h => rfl
  | share h =>
    generalize s.pc t = q₀ at h hw
    cases h with
    | wPush old => cases hw
    | wFree n p v hn h => cases hw
    | _ => rfl

theorem Pc.Scanned.congr (h : q.Scanned s) (hslots : s'.slots = s.slots) (hretired : s'.retired = s.retired) :
    q.Scanned s' := by
  have hz : ∀ p, Hazarded s p → Hazarded s' p := by
    intro p hp
    rwa [Hazarded, hslots]
  unfold Pc.Scanned at h ⊢
  split at h
  all_goals first
    | exact fun j p hj hp => hz p (h j p hj (hretired ▸ hp))
    | exact fun p hp => hz p (h p (hretired ▸ hp))
    | trivial

/-- The writer's own accesses. -/
theorem Pc.Scanned.own (h : (s.pc t).Scanned s) (hS : Safe s) (hq : ∀ r, s.pc t ≠ .ret r) (hs : Step t s s') :
    (s'.pc t).Scanned s' := by
  cases hs with
  | move hm =>
    rw [goto_pc_self]
    refine Pc.Scanned.congr (s := s) ?_ rfl rfl
    generalize s.pc t = q₀ at hm h hq
    cases hm with
    | scanChunk n c p hn hc => exact h
    | notHazarded n c p hn hc => exact h
    | scanHit n i p hn hz =>
      intro j p' hj hp'
      rcases Nat.lt_succ_iff_lt_or_eq.mp hj with hj | rfl
      · exact h j p' hj hp'
      · rw [hn] at hp'
        cases hp'
        exact ⟨i, hz⟩
    | scanMiss n i p hn hz =>
      unfold afterSlot
      split <;> exact h
    | freeFault n p hn hheap => exact absurd hheap (hS.retired.2 p (List.mem_of_getElem? hn)).1
    | reclaimed n c hn =>
      intro p hp
      obtain ⟨j, hj⟩ := List.mem_iff_getElem?.mp hp
      have hlen := List.getElem?_eq_none_iff.mp hn
      obtain ⟨hlt, -⟩ := List.getElem?_eq_some_iff.mp hj
      exact h j p (by omega) hj
    | callInit r a => exact absurd rfl (hq r)
    | callOp r op c hw => exact absurd rfl (hq r)
    | callFini r c hw => exact absurd rfl (hq r)
    | deadOp r op => exact absurd rfl (hq r)
    | deadFini r => exact absurd rfl (hq r)
    | callWriter r => exact absurd rfl (hq r)
    | callGrow r n => exact absurd rfl (hq r)
    | _ => exact h.elim
  | touch ht =>
    generalize s.pc t = q₀ at ht h
    cases ht <;> exact h.elim
  | use hu =>
    rw [hu] at h
    exact h.elim
  | share hsh =>
    rw [goto_pc_self]
    generalize s.pc t = q₀ at hsh h
    cases hsh with
    | wPush old => exact fun j p hj => absurd hj (Nat.not_lt_zero j)
    | wFree n p v hn hheap =>
      intro j p' hj hp'
      refine h j p' hj ?_
      have hp' : (s.retired.eraseIdx n)[j]? = some p' := hp'
      rwa [List.getElem?_eraseIdx_of_lt hj] at hp'
    | wUnlock => exact h
    | _ => exact h.elim

/-- One access in a call that no reader disturbs. -/
theorem Pc.Scanned.step {t₁ : Nat} (h : (s.pc t).Scanned s) (hI : Inv s) (hS : Safe s) (hq : ∀ r, s.pc t ≠ .ret r)
    (hquiet : (s.pc t₁).reading = false) (hs : Step t₁ s s') : (s'.pc t).Scanned s' := by
  by_cases ht : t = t₁
  · subst ht
    exact h.own hS hq hs
  · -- the others wait for the lock
    rw [hs.pc_ne ht]
    refine h.congr (hI.quiet_slots hquiet hs) (hs.retired ?_)
    by_contra hw
    exact ht (hS.writing_unique (by simpa using hw) (h.writing hq))

theorem QuietCall.reach (h : Reach init Run s) (hc : QuietCall t s s') : Reach init Run s' := by
  induction hc with
  | start => exact h
  | next _ _ _ hs hf ih => exact ih.tail ⟨⟨_, hs⟩, hf⟩

theorem QuietCall.scanned (h : Reach init Run s) {old : Option Ptr} (hq : s.pc t = .wPush old) (hc : QuietCall t s s') :
    (s'.pc t).Scanned s' := by
  induction hc with
  | start =>
    rw [hq]
    trivial
  | next hc hret hquiet hs _ ih =>
    have hr := QuietCall.reach h hc
    exact ih.step (inv_of_run hr) (safe_of_run hr) hret hquiet hs

/-- When the reclaim is over, no writer has a snapshot in its hands. -/
theorem QuietCall.hands (h : Reach init Run s) {old : Option Ptr} (hq : s.pc t = .wPush old) (hc : QuietCall t s s')
    (hend : s'.pc t = .wUnlock ∨ ∃ r, s'.pc t = .ret r) (t' : Nat) : (s'.pc t').hand = none := by
  have hwriter : ∀ s₁ : St W, Reach init Run s₁ → (s₁.pc t).writing = true → t' ≠ t → (s₁.pc t').hand = none := by
    intro s₁ hr hw ht
    by_contra hne
    obtain ⟨p, hp⟩ := Option.ne_none_iff_exists'.mp hne
    exact ht ((safe_of_run hr).writing_unique hw (Pc.hand_writing hp))
  by_cases ht : t' = t
  · rw [ht]
    rcases hend with hend | ⟨r, hend⟩ <;> rw [hend] <;> rfl
  rcases hend with hend | ⟨r, hend⟩
  · exact hwriter s' (QuietCall.reach h hc) (by rw [hend]; rfl) ht
  · cases hc with
    | start =>
      rw [hq] at hend
      cases hend
    | @next t₁ s₁ _ hc hret hquiet hs _ =>
      -- the writer's own return was the last access
      have ht₁ : t = t₁ := by
        by_contra hne
        exact hret r ((hs.pc_ne hne).symm.trans hend)
      subst ht₁
      rw [hs.pc_ne ht]
      exact hwriter s₁ (QuietCall.reach h hc) ((QuietCall.scanned h hq hc).writing hret) ht

/-! ## What is left on the list -/

/-- A slot of the list's hazards is allocated, so there are no more entries than slots. -/
theorem Inv.retired_length (hI : Inv s) (hnodup : s.retired.Nodup) (h : ∀ p ∈ s.retired, Hazarded s p) :
    s.retired.length ≤ s.allocated := by
  have hsub : s.retired ⊆ (List.range s.allocated).filterMap fun i => (s.slots i).hazard := by
    intro p hp
    obtain ⟨i, hi⟩ := h p hp
    refine List.mem_filterMap.mpr ⟨i, List.mem_range.mpr ?_, hi⟩
    have hslot : s.hasSlot i := hI.hasSlot fun hnew => by rw [hnew] at hi; cases hi
    have hlt := (hI.chunk_iff _).mp hslot
    obtain ⟨k, hk⟩ := hI.whole.1
    simp only [slotChunkLen] at *
    omega
  calc s.retired.length ≤ ((List.range s.allocated).filterMap fun i => (s.slots i).hazard).length :=
        (List.subperm_of_subset hnodup hsub).length_le
    _ ≤ (List.range s.allocated).length := List.length_filterMap_le _ _
    _ = s.allocated := List.length_range

/-- In every reachable state every publication is in exactly one place: current, retired, handed
    from CURRENT to the list by a writer between its swap and its push, or freed. And from the
    swap of a write on, if no access is a reader's until its reclaim is over: the retired list
    holds exactly the publications that are not freed, not current and pointed to by a hazard;
    each once, and at most one a slot; and a publication that is not current and that no hazard
    points to is freed. -/
theorem retired_reclaimed (h : Reach init Run s) :
    (∀ pub ∈ s.hist, ∃! place, pub.At s place) ∧
    ∀ t old s', s.pc t = .wPush old → QuietCall t s s' → (s'.pc t = .wUnlock ∨ ∃ r, s'.pc t = .ret r) →
      (∀ p, p ∈ s'.retired ↔ (∃ pub ∈ s'.hist, pub.ptr = p ∧ pub.id ∉ s'.frees) ∧ s'.current ≠ some p ∧
        ∃ i, (s'.slots i).hazard = some p) ∧
      s'.retired.Nodup ∧ s'.retired.length ≤ s'.allocated ∧
      ∀ pub ∈ s'.hist, ¬ pub.At s' .current → (∀ i, (s'.slots i).hazard ≠ some pub.ptr) → pub.id ∈ s'.frees := by
  refine ⟨fun pub hpub => Publication.at_unique (accounts_of_run h) (safe_of_run h) hpub, ?_⟩
  intro t old s' hq hcall hend
  have hr := QuietCall.reach h hcall
  have hS := safe_of_run hr
  have hA := accounts_of_run hr
  have hkept : ∀ p ∈ s'.retired, Hazarded s' p := by
    have hscan := QuietCall.scanned h hq hcall
    rcases hend with hend | ⟨r, hend⟩
    · rw [hend] at hscan
      exact hscan
    · rw [hend] at hscan
      exact hscan
  have hplaced : ∀ pub ∈ s'.hist, pub.id ∉ s'.frees → ¬ s'.current = some pub.ptr → pub.ptr ∈ s'.retired := by
    intro pub hpub hid hc
    rcases hA.placed pub hpub (hA.alive pub hpub hid) with hc' | hr | ⟨t', ht'⟩
    · exact absurd hc' hc
    · exact hr
    · rw [QuietCall.hands h hq hcall hend t'] at ht'
      cases ht'
  refine ⟨?_, hS.retired.1, (inv_of_run hr).retired_length hS.retired.1 hkept, ?_⟩
  · intro p
    constructor
    · intro hp
      obtain ⟨pub, hpub, hptr, halive⟩ := hA.listed p hp
      exact ⟨⟨pub, hpub, hptr, (hS.ids _ _ halive).2⟩, (hS.retired.2 p hp).2, hkept p hp⟩
    · intro h₀
      obtain ⟨⟨pub, hpub, rfl, hid⟩, hc, -⟩ := h₀
      exact hplaced pub hpub hid hc
  · intro pub hpub hc hz
    by_contra hid
    have hmem := hplaced pub hpub hid fun h => hc ⟨hA.alive pub hpub hid, h⟩
    obtain ⟨i, hi⟩ := hkept _ hmem
    exact hz i hi

/-- One more access of a call that no reader disturbs, within a bounded run. -/
theorem QuietCall.within {s₁ s₂ : St W} {n : Nat} (h : Within n s₁ ∧ QuietCall 0 s s₁) (hs : Step 0 s₁ s₂)
    (hp : (s₂.pc 0).presents = none) (hq : ∀ r, s₁.pc 0 ≠ .ret r) (hquiet : (s₁.pc 0).reading = false)
    (hn : n + 1 < 2 ^ 63) : Within (n + 1) s₂ ∧ QuietCall 0 s s₂ := by
  have hw := h.1.next hs (Or.inr hp)
  exact ⟨hw, h.2.next hq hquiet hs (fresh_of_run (BoundedRun.reach (hw.reach hn).1))⟩

/-- Actor 0 publishes at `p'` while slot 0's hazard is the current snapshot. -/
theorem publish_quiet {n : Nat} (hn : Within n s) (hlt : n + 10 < 2 ^ 63) {r : Result} (hq : s.pc 0 = .ret r)
    (hlock : s.writerLock = none) {p p' : Ptr} (hc : s.current = some p) {v : Nat × W.Snap} (hv : s.heap p = some v)
    (hf : s.heap p' = none) (hret : s.retired = []) (hh : s.hasSlot 0) (hz : (s.slots 0).hazard = some p)
    (snap : W.Snap) :
    ∃ s₁ s' : St W, Within (n + 5) s₁ ∧ s₁.pc 0 = .wPush (some p) ∧ QuietCall 0 s₁ s' ∧ s'.pc 0 = .ret .wrote ∧
      s'.retired = [p] := by
  have hone : s.retired ++ s.current.toList = [p] := by rw [hret, hc]; rfl
  have hswap := swap_alone hn hq hlock hc hv hf snap
  have hpush := QuietCall.within ⟨hswap, .start⟩ (.share (t := 0) (.wPush _)) rfl nofun rfl (by omega)
  have hscan := QuietCall.within hpush (.move (t := 0) (.scanChunk 0 0 p (congrArg (·[0]?) hone) hh)) rfl nofun
    rfl (by omega)
  have hhit := QuietCall.within hscan (.move (t := 0) (.scanHit 0 0 p (congrArg (·[0]?) hone) hz)) rfl nofun
    rfl (by omega)
  have hend := QuietCall.within hhit (.move (t := 0) (.reclaimed 1 0 (congrArg (·[1]?) hone))) rfl nofun rfl (by omega)
  have hdone := QuietCall.within hend (.share (t := 0) .wUnlock) rfl nofun rfl (by omega)
  exact ⟨_, _, hswap, congrArg Pc.wPush hc, hdone.2, rfl, hone⟩

/-- A writer publishes over a walk and looks at the hazards: the walk's snapshot, and nothing
    else, is left on the list. -/
theorem retired_reclaimed_walk : ∃ s s' : St countdown, Reach init Run s ∧ s.pc 0 = .wPush (some 7) ∧ QuietCall 0 s s' ∧
    s'.pc 0 = .ret .wrote ∧ s'.retired = [7] ∧ s'.retired.length ≤ s'.allocated ∧
    (∃ pub ∈ s'.hist, pub.ptr = 7 ∧ pub.id ∉ s'.frees) ∧ s'.current ≠ some 7 ∧ ∃ i, (s'.slots i).hazard = some 7 := by
  obtain ⟨s₀, hn, hh, hx, hc, hv, hfree, hhist, hret, hlock, hidle⟩ := first_publication (W := countdown) (5 : Nat)
  obtain ⟨r, hq⟩ := hidle 1
  obtain ⟨r₀, hq₀⟩ := hidle 0
  obtain ⟨c, x, hn, -, rfl⟩ := init_alone hn hq (by rw [hx]; rfl) hh hc hv (3 : Nat)
  obtain ⟨s, s', hs, hpush, hcall, hend, hone⟩ :=
    publish_quiet hn (by decide) hq₀ hlock hc hv hfree hret hh rfl (6 : Nat)
  have hreach := BoundedRun.reach (hs.reach (by decide)).1
  obtain ⟨hexact, -, hlength, -⟩ := (retired_reclaimed hreach).2 0 _ s' hpush hcall (Or.inr ⟨_, hend⟩)
  exact ⟨s, s', hreach, hpush, hcall, hend, hone, hlength,
    (hexact 7).mp (by rw [hone]; exact List.mem_singleton_self _)⟩

/-- Between a writer's swap and its push the snapshot it swapped out is not current, not retired
    and not freed. -/
theorem handed_in_no_list : ∃ s : St countdown, Reach init Run s ∧ ∃ pub ∈ s.hist,
    ¬ pub.At s .current ∧ ¬ pub.At s .retired ∧ ¬ pub.At s .freed := by
  obtain ⟨s₀, hn, -, -, hc, hv, hfree, hhist, hret, hlock, hidle⟩ := first_publication (W := countdown) (5 : Nat)
  obtain ⟨r₀, hq₀⟩ := hidle 0
  have hreach := BoundedRun.reach ((swap_alone hn hq₀ hlock hc hv hfree (6 : Nat)).reach (by decide)).1
  refine ⟨_, hreach, ⟨7, 0, (5 : Nat)⟩, ?_, ?_, ?_, ?_⟩
  · show _ ∈ s₀.hist ++ [_]
    rw [hhist]
    exact List.mem_cons_self
  · intro h
    cases h.2
  · intro h
    have hmem : 7 ∈ s₀.retired := h.2
    rw [hret] at hmem
    cases hmem
  · exact ((safe_of_run (BoundedRun.reach (hn.reach (by decide)).1)).ids _ _ hv).2

end FramehopUnwind.State
