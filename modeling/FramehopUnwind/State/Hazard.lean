/-
  FramehopUnwind.State.Hazard — no snapshot is freed while it is held.

  A writer swaps CURRENT and then scans the hazards; a reader stores its hazard and then
  checks CURRENT again. So what is retired is no longer current and nobody can start to hold
  it: the holders of the snapshot under scan only get fewer, and those there are stand at or
  behind the scan (`Clear`). Chunks are published in order and slots taken from published
  chunks only, so a scan that finds no further chunk has passed every holder.

  `held` is a pointer that `acquire_snapshot` returned and `release_slot` has not cleared. It
  names the publication that was current at the check, so an address that is freed and used
  again is told apart from the snapshot that was there before.

  Proved:
  - `Safe.step`: one access keeps the invariant.
  - `held_not_freed`: what is held or current is allocated, with its own contents; nothing is
    freed twice; what is held was current during the call that acquired it.
-/

import FramehopUnwind.State.Slots

namespace FramehopUnwind.State

open Lib.Word Lib.Runs

variable {W : Walk} {s s' : St W} {t : Nat} {q : Pc W} {i : Nat} {x : Slot W}

/-! ## The invariant -/

/-- The actor is between `WRITER.lock()` and the guard's drop. -/
def Pc.writing : Pc W → Bool
  | .wLoad | .wBuild _ | .wSwap _ | .wPush _ | .scanChunk _ _ | .scanSlot _ _ | .wFree _ | .wUnlock => true
  | _ => false

/-- Whoever holds the `n`-th retired snapshot has a slot from `pos` on. -/
def Clear (s : St W) (n pos : Nat) : Prop :=
  ∀ i h, (s.slots i).held = some h → s.retired[n]? = some h.ptr → pos ≤ i

/-- `p` is allocated, and neither current nor retired. -/
def Loose (s : St W) (p : Ptr) : Prop := s.heap p ≠ none ∧ p ∉ s.retired ∧ s.current ≠ some p

/-- What an actor inside `acquire_snapshot` or `with_writer` knows. -/
def Pc.Knows (s : St W) : Pc W → Prop
  | .acqSlot _ _ l | .acqLoad _ _ l | .acqStore _ _ l _ | .acqCheck _ _ l _ => l ≤ s.hist.length
  | .wBuild cur => cur = s.current
  | .wSwap new => Loose s new.ptr ∧ s.heap new.ptr = some (new.id, new.snap)
  | .wPush (some old) => Loose s old
  | .scanChunk n c => Clear s n (slotChunkLen * c)
  | .scanSlot n i => Clear s n i
  | .wFree n => ∀ i h, (s.slots i).held = some h → s.retired[n]? ≠ some h.ptr
  | _ => True

structure Safe (s : St W) : Prop where
  lock : ∀ t, (s.pc t).writing = true → s.writerLock = some t
  knows : ∀ t, (s.pc t).Knows s
  current : s.current = s.hist.getLast?.map (·.ptr)
  last : ∀ pub ∈ s.hist.getLast?, s.heap pub.ptr = some (pub.id, pub.snap)
  retired : s.retired.Nodup ∧ ∀ p ∈ s.retired, s.heap p ≠ none ∧ s.current ≠ some p
  held : ∀ i h, (s.slots i).held = some h → h.since ≤ h.index + 1 ∧
    ∃ pub, s.hist[h.index]? = some pub ∧ pub.ptr = h.ptr ∧ s.heap h.ptr = some (pub.id, pub.snap)
  ids : ∀ p v, s.heap p = some v → v.1 < s.nextId ∧ v.1 ∉ s.frees
  distinct : ∀ p p' v v', s.heap p = some v → s.heap p' = some v' → v.1 = v'.1 → p = p'
  frees : s.frees.Nodup ∧ ∀ id ∈ s.frees, id < s.nextId

theorem Safe.start (h : init s) : Safe s := by
  subst h
  constructor <;> simp [Pc.writing, Pc.Knows, Slot.new]

namespace Safe

theorem current_allocated (hS : Safe s) {p : Ptr} (h : s.current = some p) : s.heap p ≠ none := by
  rw [hS.current] at h
  obtain ⟨pub, hpub, rfl⟩ := Option.map_eq_some_iff.mp h
  rw [hS.last pub hpub]
  exact Option.some_ne_none _

/-- One writer at a time. -/
theorem writing_unique (hS : Safe s) (ht : (s.pc t).writing = true) {t' : Nat}
    (ht' : (s.pc t').writing = true) : t' = t :=
  Option.some.inj ((hS.lock t' ht').symm.trans (hS.lock t ht))

end Safe

/-- A slot somebody holds a snapshot with is taken. -/
theorem Inv.held_own (hI : Inv s) {h : Held} (hh : (s.slots i).held = some h) : (s.slots i).own ≠ .free := by
  intro ho
  have hc := hI.cell i
  rw [Cell, ho] at hc
  rw [hc.2.2.2.2] at hh
  cases hh

/-! ## Readers and scans -/

theorem Inv.move_knows (hI : Inv s) (hk : (s.pc t).Knows s) (h : Move s (s.pc t) q) : q.Knows s := by
  generalize s.pc t = q₀ at h hk
  cases h with
  | wLoad => rfl
  | acqSlot a c l h => exact hk
  | acqLoad a c l p h => exact hk
  | acqRetry a c l p h => exact hk
  | claimBusy a i h => unfold afterSlot; split <;> trivial
  | scanChunk n c p hn h => exact hk
  | notHazarded n c p hn h =>
    -- a holder's chunk is published, so every chunk before it is
    intro i h' hh hp
    refine h ((hI.chunk_iff c).mpr ?_)
    have hchunk := (hI.chunk_iff _).mp (hI.hasSlot_of_own (hI.held_own hh))
    have hle := hk i h' hh hp
    simp only [slotChunkLen] at *
    omega
  | scanHit n i p hn h => exact fun i _ _ _ => Nat.zero_le _
  | scanMiss n i p hn h =>
    have hclear : Clear s n (i + 1) := by
      intro j h' hh hp
      refine Nat.lt_of_le_of_ne (hk j h' hh hp) ?_
      intro heq
      subst heq
      rw [hn] at hp
      exact h ((hI.slot i).hazard h' hh ▸ hp.symm ▸ rfl)
    unfold afterSlot
    split
    · rename_i hmod
      have : slotChunkLen * ((i + 1) / slotChunkLen) = i + 1 := Nat.mul_div_cancel' (Nat.dvd_of_mod_eq_zero hmod)
      rw [Pc.Knows, this]
      exact hclear
    · exact hclear
  | _ => trivial

/-- What an actor knows outlasts the others' accesses: publications are only added, and for the
    writer everything stays but new holders of what is not retired. -/
theorem Pc.Knows.mono (h : q.Knows s) (hh : s.hist.length ≤ s'.hist.length)
    (hw : q.writing = true → s'.heap = s.heap ∧ s'.retired = s.retired ∧ s'.current = s.current ∧
      ∀ i h, (s'.slots i).held = some h → (s.slots i).held = some h ∨ h.ptr ∉ s.retired) : q.Knows s' := by
  have hclear : ∀ n pos, Clear s n pos → q.writing = true → Clear s' n pos := by
    intro n pos hc hq i h hi hp
    obtain ⟨-, hr, -, hheld⟩ := hw hq
    rw [hr] at hp
    rcases hheld i h hi with hi | hi
    · exact hc i h hi hp
    · exact absurd (List.mem_of_getElem? hp) hi
  have hloose : ∀ p, Loose s p → q.writing = true → Loose s' p := by
    intro p hp hq
    obtain ⟨h1, h2, h3, -⟩ := hw hq
    rwa [Loose, h1, h2, h3]
  cases q with
  | acqSlot a c l => exact le_trans h hh
  | acqLoad a c l => exact le_trans h hh
  | acqStore a c l p => exact le_trans h hh
  | acqCheck a c l p => exact le_trans h hh
  | wBuild cur => exact Eq.trans h (hw rfl).2.2.1.symm
  | wSwap new => exact ⟨hloose _ h.1 rfl, by rw [(hw rfl).1]; exact h.2⟩
  | wPush old =>
    cases old with
    | none => trivial
    | some old => exact hloose _ h rfl
  | scanChunk n c => exact hclear _ _ h rfl
  | scanSlot n i => exact hclear _ _ h rfl
  | wFree n =>
    intro i h' hi hp
    rw [(hw rfl).2.1] at hp
    rcases (hw rfl).2.2.2 i h' hi with hi | hi
    · exact h i h' hi hp
    · exact hi (List.mem_of_getElem? hp)
  | _ => trivial

theorem Move.writing {q₀ : Pc W} (h : Move s q₀ q) (hq : q.writing = true) : q₀.writing = true := by
  cases h with
  | claimBusy a i h =>
    unfold afterSlot at hq
    split at hq <;> cases hq
  | _ => first | rfl | cases hq

namespace Safe

/-- An access that writes nothing but a lock or the pool. -/
theorem frame (hS : Safe s) {l k : Option Nat} {chunks : Nat → Bool} {allocated : Nat}
    (hother : ∀ t', t' ≠ t → (s.pc t').writing = true → l = some t') (hlock : q.writing = true → l = some t)
    (hk : q.Knows s) :
    Safe (({ s with writerLock := l, poolLock := k, chunks := chunks, allocated := allocated } : St W).goto t q) := by
  refine ⟨?_, ?_, hS.current, hS.last, hS.retired, hS.held, hS.ids, hS.distinct, hS.frees⟩
  · intro t' ht'
    by_cases ht : t' = t
    · subst ht
      rw [goto_pc_self] at ht'
      exact hlock ht'
    · rw [goto_pc_ne _ _ ht] at ht'
      exact hother t' ht ht'
  · intro t'
    by_cases ht : t' = t
    · rw [ht, goto_pc_self]
      exact hk.mono le_rfl fun _ => ⟨rfl, rfl, rfl, fun _ _ => Or.inl⟩
    · rw [goto_pc_ne _ _ ht]
      exact (hS.knows t').mono le_rfl fun _ => ⟨rfl, rfl, rfl, fun _ _ => Or.inl⟩

theorem move (hS : Safe s) (hI : Inv s) (h : Move s (s.pc t) q) : Safe (s.goto t q) :=
  hS.frame (fun t' _ => hS.lock t') (fun hq => hS.lock t (h.writing hq)) (hI.move_knows (hS.knows t) h)

/-- A write to one slot that lets go of what the slot held, keeps it, or holds what is current. -/
theorem setSlot (hS : Safe s) (hq : q.writing = false) (hk : q.Knows s)
    (hx : ∀ h, x.held = some h → (s.slots i).held = some h ∨
      s.current = some h.ptr ∧ h.index = s.hist.length - 1 ∧ h.since ≤ s.hist.length) :
    Safe ((s.setSlot i x).goto t q) := by
  have hheld : ∀ j h, ((s.setSlot i x).slots j).held = some h → (s.slots j).held = some h ∨
      s.current = some h.ptr ∧ h.index = s.hist.length - 1 ∧ h.since ≤ s.hist.length := by
    intro j h hj
    by_cases hji : j = i
    · subst hji
      rw [setSlot_slots_self] at hj
      exact hx h hj
    · rw [setSlot_slots_ne _ _ hji] at hj
      exact Or.inl hj
  have hnew : ∀ j h, ((s.setSlot i x).slots j).held = some h → (s.slots j).held = some h ∨ h.ptr ∉ s.retired := by
    intro j h hj
    refine (hheld j h hj).imp_right ?_
    intro hc hr
    exact (hS.retired.2 _ hr).2 hc.1
  refine ⟨?_, ?_, hS.current, hS.last, hS.retired, ?_, hS.ids, hS.distinct, hS.frees⟩
  · intro t' ht'
    by_cases ht : t' = t
    · rw [ht, goto_pc_self, hq] at ht'
      cases ht'
    · rw [goto_pc_ne _ _ ht] at ht'
      exact hS.lock t' ht'
  · intro t'
    by_cases ht : t' = t
    · rw [ht, goto_pc_self]
      exact hk.mono le_rfl fun h => by rw [hq] at h; cases h
    · rw [goto_pc_ne _ _ ht]
      exact (hS.knows t').mono le_rfl fun _ => ⟨rfl, rfl, rfl, hnew⟩
  · intro j h hj
    rcases hheld j h hj with hj | ⟨hc, hi, hsince⟩
    · exact hS.held j h hj
    · rw [hS.current] at hc
      obtain ⟨pub, hpub, hptr⟩ := Option.map_eq_some_iff.mp hc
      have hget : s.hist[h.index]? = some pub := by rw [hi, ← List.getLast?_eq_getElem?, hpub]
      have hpos := (List.getElem?_eq_some_iff.mp hget).1
      exact ⟨by omega, pub, hget, hptr, by rw [← hptr]; exact hS.last pub hpub⟩

theorem touch (hS : Safe s) (h : Touch s t (s.pc t) q i x) : Safe ((s.setSlot i x).goto t q) := by
  have hk := hS.knows t
  generalize s.pc t = q₀ at h hk
  cases h with
  | claimSeq a i => exact hS.setSlot rfl le_rfl fun h => Or.inl
  | acqStore a c l p => exact hS.setSlot rfl hk fun h => Or.inl
  | acquired a c l p h =>
    refine hS.setSlot rfl trivial fun h' hh => Or.inr ?_
    cases hh
    exact ⟨h, rfl, hk⟩
  | relHazard c rc => exact hS.setSlot rfl trivial fun h hh => by cases hh
  | _ => exact hS.setSlot rfl trivial fun h => Or.inl

end Safe

/-! ## Writers -/

/-- A snapshot is on the list once, so erasing its entry takes it off. -/
theorem mem_eraseIdx {retired : List Ptr} (hnodup : retired.Nodup) {n : Nat} {p p' : Ptr} (hn : retired[n]? = some p) :
    p' ∈ retired.eraseIdx n ↔ p' ≠ p ∧ p' ∈ retired := by
  obtain ⟨hlt, rfl⟩ := List.getElem?_eq_some_iff.mp hn
  rw [← hnodup.erase_getElem n hlt]
  exact hnodup.mem_erase_iff

namespace Safe

/-- An access by the writer: the other actors know of publications at most. -/
theorem ofWriter (hS : Safe s) (ht : (s.pc t).writing = true) (hpc : s'.pc = s.pc)
    (hh : s.hist.length ≤ s'.hist.length) (hlock : q.writing = true → s'.writerLock = s.writerLock) (hk : q.Knows s')
    (hcurrent : s'.current = s'.hist.getLast?.map (·.ptr))
    (hlast : ∀ pub ∈ s'.hist.getLast?, s'.heap pub.ptr = some (pub.id, pub.snap))
    (hretired : s'.retired.Nodup ∧ ∀ p ∈ s'.retired, s'.heap p ≠ none ∧ s'.current ≠ some p)
    (hheld : ∀ i h, (s'.slots i).held = some h → h.since ≤ h.index + 1 ∧
      ∃ pub, s'.hist[h.index]? = some pub ∧ pub.ptr = h.ptr ∧ s'.heap h.ptr = some (pub.id, pub.snap))
    (hids : ∀ p v, s'.heap p = some v → v.1 < s'.nextId ∧ v.1 ∉ s'.frees)
    (hdistinct : ∀ p p' v v', s'.heap p = some v → s'.heap p' = some v' → v.1 = v'.1 → p = p')
    (hfrees : s'.frees.Nodup ∧ ∀ id ∈ s'.frees, id < s'.nextId) : Safe (s'.goto t q) := by
  have hother : ∀ t', t' ≠ t → (s.pc t').writing = true → False := fun t' h h' => h (hS.writing_unique ht h')
  refine ⟨?_, ?_, hcurrent, hlast, hretired, hheld, hids, hdistinct, hfrees⟩
  · intro t' ht'
    by_cases htt : t' = t
    · subst htt
      rw [goto_pc_self] at ht'
      exact (hlock ht').trans (hS.lock t' ht)
    · rw [goto_pc_ne _ _ htt, hpc] at ht'
      exact (hother t' htt ht').elim
  · intro t'
    by_cases htt : t' = t
    · rw [htt, goto_pc_self]
      exact hk.mono le_rfl fun _ => ⟨rfl, rfl, rfl, fun _ _ => Or.inl⟩
    · rw [goto_pc_ne _ _ htt, hpc]
      exact (hS.knows t').mono hh fun h => (hother t' htt h).elim

theorem build (hS : Safe s) {cur : Option Ptr} (hq : s.pc t = .wBuild cur) {p : Ptr} (hp : s.heap p = none)
    (snap : W.Snap) :
    Safe (({ s with heap := Function.update s.heap p (some (s.nextId, snap)), nextId := s.nextId + 1 } : St W).goto t
      (.wSwap ⟨p, s.nextId, snap⟩)) := by
  -- what is allocated is at another address
  have hne : ∀ p' v, s.heap p' = some v → Function.update s.heap p (some (s.nextId, snap)) p' = some v := by
    intro p' v hv
    rw [Function.update_of_ne, hv]
    intro heq
    subst heq
    rw [hp] at hv
    cases hv
  have hold : ∀ p', s.heap p' ≠ none → Function.update s.heap p (some (s.nextId, snap)) p' ≠ none := by
    intro p' h
    obtain ⟨v, hv⟩ := Option.ne_none_iff_exists'.mp h
    rw [hne p' v hv]
    exact Option.some_ne_none _
  have hloose : ∀ p', s.heap p' ≠ none → p' ≠ p := by
    intro p' h heq
    subst heq
    exact h hp
  refine hS.ofWriter (by rw [hq]; rfl) rfl le_rfl (fun _ => rfl) ⟨⟨?_, ?_, ?_⟩, ?_⟩ hS.current
    (fun pub hpub => hne _ _ (hS.last pub hpub)) ⟨hS.retired.1, fun p' h =>
      ⟨hold p' (hS.retired.2 p' h).1, (hS.retired.2 p' h).2⟩⟩
    ?_ ?_ ?_ ⟨hS.frees.1, ?_⟩
  · simp
  · exact fun h => hloose p (hS.retired.2 p h).1 rfl
  · exact fun h => hloose p (hS.current_allocated h) rfl
  · simp
  · intro i h hh
    obtain ⟨hs, pub, hget, hptr, hheap⟩ := hS.held i h hh
    exact ⟨hs, pub, hget, hptr, hne _ _ hheap⟩
  · intro p' v hv
    by_cases hpp : p' = p
    · subst hpp
      simp only [Function.update_self, Option.some.injEq] at hv
      subst hv
      exact ⟨Nat.lt_succ_self _, fun h => absurd (hS.frees.2 _ h) (lt_irrefl _)⟩
    · simp only [Function.update_of_ne hpp] at hv
      exact ⟨Nat.lt_succ_of_lt (hS.ids p' v hv).1, (hS.ids p' v hv).2⟩
  · intro p₁ p₂ v₁ v₂ h₁ h₂ hid
    have hlt : ∀ p' v, p' ≠ p → Function.update s.heap p (some (s.nextId, snap)) p' = some v → v.1 < s.nextId := by
      intro p' v hpp hv
      rw [Function.update_of_ne hpp] at hv
      exact (hS.ids p' v hv).1
    by_cases hp₁ : p₁ = p <;> by_cases hp₂ : p₂ = p
    · rw [hp₁, hp₂]
    · have := hlt p₂ v₂ hp₂ h₂
      simp only [hp₁, Function.update_self, Option.some.injEq] at h₁
      rw [← hid, ← h₁] at this
      exact absurd this (lt_irrefl _)
    · have := hlt p₁ v₁ hp₁ h₁
      simp only [hp₂, Function.update_self, Option.some.injEq] at h₂
      rw [hid, ← h₂] at this
      exact absurd this (lt_irrefl _)
    · simp only [Function.update_of_ne hp₁, Function.update_of_ne hp₂] at h₁ h₂
      exact hS.distinct p₁ p₂ v₁ v₂ h₁ h₂ hid
  · intro id h
    exact Nat.lt_succ_of_lt (hS.frees.2 id h)

theorem swap (hS : Safe s) {new : Publication W} (hq : s.pc t = .wSwap new) :
    Safe (({ s with current := some new.ptr, hist := s.hist ++ [new] } : St W).goto t (.wPush s.current)) := by
  have hk := hS.knows t
  rw [hq] at hk
  obtain ⟨⟨hal, hret, hcur⟩, hheap⟩ := hk
  refine hS.ofWriter (by rw [hq]; rfl) rfl (by simp) (fun _ => rfl) ?_ (by simp) ?_
    ⟨hS.retired.1, fun p h => ⟨(hS.retired.2 p h).1, ?_⟩⟩ ?_ hS.ids hS.distinct hS.frees
  · cases hc : s.current with
    | none => trivial
    | some old =>
      refine ⟨hS.current_allocated hc, fun h => (hS.retired.2 old h).2 hc, ?_⟩
      intro h
      exact hcur (hc.trans h.symm)
  · intro pub hpub
    rw [List.getLast?_concat, Option.mem_some_iff] at hpub
    subst hpub
    exact hheap
  · intro h'
    exact hret (Option.some.inj h' ▸ h)
  · intro i h hh
    obtain ⟨hs, pub, hget, hptr, hheap'⟩ := hS.held i h hh
    refine ⟨hs, pub, ?_, hptr, hheap'⟩
    rw [List.getElem?_append_left (List.getElem?_eq_some_iff.mp hget).1]
    exact hget

theorem push (hS : Safe s) {old : Option Ptr} (hq : s.pc t = .wPush old) :
    Safe (({ s with retired := s.retired ++ old.toList } : St W).goto t (.scanChunk 0 0)) := by
  have hk := hS.knows t
  rw [hq] at hk
  refine hS.ofWriter (by rw [hq]; rfl) rfl le_rfl (fun _ => rfl) (fun i _ _ _ => Nat.zero_le _) hS.current
    hS.last ?_ hS.held
    hS.ids hS.distinct hS.frees
  cases old with
  | none => simpa using hS.retired
  | some old =>
    obtain ⟨hal, hret, hcur⟩ := hk
    refine ⟨List.nodup_append.mpr ⟨hS.retired.1, List.nodup_singleton _, ?_⟩, ?_⟩
    · intro a ha b hb heq
      subst heq
      exact hret (List.mem_singleton.mp hb ▸ ha)
    · intro p hp
      rcases List.mem_append.mp hp with hp | hp
      · exact hS.retired.2 p hp
      · rw [List.mem_singleton.mp hp]
        exact ⟨hal, hcur⟩

theorem free (hS : Safe s) {n : Nat} (hq : s.pc t = .wFree n) {p : Ptr} (hn : s.retired[n]? = some p) {v : Nat × W.Snap}
    (hv : s.heap p = some v) :
    Safe (({ s with
      retired := s.retired.eraseIdx n, heap := Function.update s.heap p none, frees := s.frees ++ [v.1] } : St W).goto t
      (.scanChunk n 0)) := by
  have hk := hS.knows t
  rw [hq] at hk
  have hmem := List.mem_of_getElem? hn
  have hkeep : ∀ p', p' ≠ p → Function.update s.heap p none p' = s.heap p' := fun p' h => Function.update_of_ne h _ _
  have hsome : ∀ p' v', Function.update s.heap p none p' = some v' → p' ≠ p ∧ s.heap p' = some v' := by
    intro p' v' h
    have : p' ≠ p := by
      intro heq
      subst heq
      rw [Function.update_self] at h
      cases h
    exact ⟨this, hkeep p' this ▸ h⟩
  have herase : ∀ p' ∈ s.retired.eraseIdx n, p' ≠ p := fun p' h => ((mem_eraseIdx hS.retired.1 hn).mp h).1
  refine hS.ofWriter (by rw [hq]; rfl) rfl le_rfl (fun _ => rfl) (fun i _ _ _ => Nat.zero_le _) hS.current ?_
    ⟨hS.retired.1.eraseIdx n, ?_⟩ ?_ ?_ ?_
    ⟨List.nodup_append.mpr ⟨hS.frees.1, List.nodup_singleton _, ?_⟩, ?_⟩
  · intro pub hpub
    have hne : pub.ptr ≠ p := by
      intro heq
      subst heq
      refine (hS.retired.2 _ hmem).2 ?_
      rw [hS.current, Option.mem_def.mp hpub]
      rfl
    exact (hkeep _ hne).trans (hS.last pub hpub)
  · intro p' h
    have hret := hS.retired.2 p' (List.mem_of_mem_eraseIdx h)
    exact ⟨fun h' => hret.1 ((hkeep p' (herase p' h)).symm.trans h'), hret.2⟩
  · intro i h hh
    obtain ⟨hs, pub, hget, hptr, hheap⟩ := hS.held i h hh
    have hne : h.ptr ≠ p := by
      intro heq
      subst heq
      exact hk i h hh hn
    exact ⟨hs, pub, hget, hptr, (hkeep _ hne).trans hheap⟩
  · intro p' v' h
    obtain ⟨hne, h⟩ := hsome p' v' h
    refine ⟨(hS.ids p' v' h).1, ?_⟩
    intro hmem'
    rcases List.mem_append.mp hmem' with hmem' | hmem'
    · exact (hS.ids p' v' h).2 hmem'
    · exact hne (hS.distinct p' p v' v h hv (List.mem_singleton.mp hmem'))
  · intro p₁ p₂ v₁ v₂ h₁ h₂ hid
    exact hS.distinct p₁ p₂ v₁ v₂ (hsome _ _ h₁).2 (hsome _ _ h₂).2 hid
  · intro a ha b hb heq
    subst heq
    exact (hS.ids p v hv).2 (List.mem_singleton.mp hb ▸ ha)
  · intro id h
    rcases List.mem_append.mp h with h | h
    · exact hS.frees.2 id h
    · rw [List.mem_singleton.mp h]
      exact (hS.ids p v hv).1

theorem share (hS : Safe s) (hI : Inv s) (h : Share s t (s.pc t) q s') : Safe (s'.goto t q) := by
  generalize hq : s.pc t = q₀ at h
  have hunlock : (s.pc t).writing = true → ∀ t', t' ≠ t → (s.pc t').writing = true → none = some t' :=
    fun h t' ht h' => absurd (hS.writing_unique h h') ht
  cases h with
  | wLock h => exact hS.frame (fun t' _ h' => absurd (h.symm.trans (hS.lock t' h')) nofun) (fun _ => rfl) trivial
  | wBuild cur p snap hc hp => exact hS.build hq hp snap
  | wPanic cur => exact hS.frame (hunlock (by rw [hq]; rfl)) nofun trivial
  | wSwap new => exact hS.swap hq
  | wPush old => exact hS.push hq
  | wFree n p v hn h => exact hS.free hq hn h
  | wUnlock => exact hS.frame (hunlock (by rw [hq]; rfl)) nofun trivial
  | gLock n h => exact hS.frame (fun t' _ => hS.lock t') nofun trivial
  | grow n hn h =>
    rw [hI.grow_slots]
    exact hS.frame (fun t' _ => hS.lock t') nofun trivial
  | grown n h => exact hS.frame (fun t' _ => hS.lock t') nofun trivial

theorem step (hS : Safe s) (hI : Inv s) (h : Step t s s') : Safe s' := by
  cases h with
  | move h => exact hS.move hI h
  | touch h => exact hS.touch h
  | use hq h => exact hS.setSlot rfl trivial fun h => Or.inl
  | share h => exact hS.share hI h

end Safe

theorem safe_of_run (h : Reach init Run s) : Safe s := by
  refine h.invariant (fun _ => Safe.start) ?_
  intro s s' hs hS h₀
  obtain ⟨⟨t, ht⟩, -⟩ := h₀
  exact hS.step (inv_of_run hs) ht

/-! ## What is held -/

/-- In every reachable state: a pointer that `acquire_snapshot` returned for a slot and
    `release_slot` has not cleared is allocated, and the snapshot there is the one published
    under it, which was current at a moment of that call: publication `index` is current
    while there are `index + 1` publications, and there were at most that many when the call
    started. CURRENT is allocated; no snapshot is freed twice; and what an init reads, a
    writer clones or a reclaim frees next is allocated. -/
theorem held_not_freed (h : Reach init Run s) :
    (∀ i held, (s.slots i).held = some held → held.since ≤ held.index + 1 ∧
      ∃ pub, s.hist[held.index]? = some pub ∧ pub.ptr = held.ptr ∧ s.heap held.ptr = some (pub.id, pub.snap)) ∧
    (∀ t a c p, s.pc t = .maxCode a c p → ∃ held, (s.slots c.slot).held = some held ∧ held.ptr = p) ∧
    (∀ p, s.current = some p → s.heap p ≠ none) ∧
    (s.frees.Nodup ∧ ∀ p v, s.heap p = some v → v.1 ∉ s.frees) ∧
    (∀ t p, s.pc t = .wBuild (some p) → s.heap p ≠ none) ∧
    (∀ t n p, s.pc t = .wFree n → s.retired[n]? = some p → s.heap p ≠ none) := by
  have hI := inv_of_run h
  have hS := safe_of_run h
  refine ⟨hS.held, ?_, fun p => hS.current_allocated, ⟨hS.frees.1, fun p v hv => (hS.ids p v hv).2⟩,
    ?_, fun t n p _ hn => (hS.retired.2 p (List.mem_of_getElem? hn)).1⟩
  · intro t a c p hq
    have ho := hI.owner (t := t) (i := c.slot) (by rw [hq]; rfl)
    rw [hq] at ho
    exact ho.2.2
  · intro t p hq
    have hk := hS.knows t
    rw [hq] at hk
    exact hS.current_allocated hk.symm

/-- Actor 0 swaps in `snap` at `p'`. -/
theorem swap_alone {n : Nat} (hn : Within n s) {r : Result} (hq : s.pc 0 = .ret r)
    (hlock : s.writerLock = none) {p p' : Ptr}
    (hc : s.current = some p) {v : Nat × W.Snap} (hv : s.heap p = some v) (hf : s.heap p' = none) (snap : W.Snap) :
    Within (n + 5) (({ s with
      writerLock := some 0, heap := Function.update s.heap p' (some (s.nextId, snap)), nextId := s.nextId + 1,
      current := some p', hist := s.hist ++ [⟨p', s.nextId, snap⟩] } : St W).goto 0 (.wPush s.current)) := by
  have hbuild : ∀ q, s.current = some q → s.heap q ≠ none := by
    intro q h
    rw [Option.some.inj (h.symm.trans hc), hv]
    exact Option.some_ne_none _
  have hrun := hn
    |>.next (.move (t := 0) (q := .wLock) (by rw [hq]; exact .callWriter _)) (.inr rfl)
    |>.next (.share (t := 0) (.wLock hlock)) (.inr rfl)
    |>.next (.move (t := 0) .wLoad) (.inr rfl)
    |>.next (.share (t := 0) (.wBuild _ p' snap hbuild hf)) (.inr rfl)
    |>.next (.share (t := 0) (.wSwap _)) (.inr rfl)
  simpa [St.goto] using hrun

/-- Actor 0 publishes at `p'` while slot 0's hazard is the current snapshot, which is all it retires. -/
theorem publish_alone {n : Nat} (hn : Within n s) {r : Result} (hq : s.pc 0 = .ret r)
    (hlock : s.writerLock = none) {p p' : Ptr}
    (hc : s.current = some p) {v : Nat × W.Snap} (hv : s.heap p = some v) (hf : s.heap p' = none)
    (hret : s.retired = []) (hh : s.hasSlot 0) (hz : (s.slots 0).hazard = some p) (snap : W.Snap) :
    ∃ s' : St W, Within (n + 10) s' ∧ s'.current = some p' ∧ s'.retired = [p] ∧ s'.pc 0 = .ret .wrote ∧
      s'.slots = s.slots ∧
      s'.heap p = some v ∧ s'.pc 1 = s.pc 1 ∧ s'.hasSlot 0 ∧ s'.hist = s.hist ++ [⟨p', s.nextId, snap⟩] := by
  have hone : s.retired ++ s.current.toList = [p] := by rw [hret, hc]; rfl
  have hne : p ≠ p' := by
    rintro rfl
    cases hv.symm.trans hf
  refine ⟨_, swap_alone hn hq hlock hc hv hf snap
    |>.next (.share (t := 0) (.wPush _)) (.inr rfl)
    |>.next (.move (t := 0) (.scanChunk 0 0 p (congrArg (·[0]?) hone) hh)) (.inr rfl)
    |>.next (.move (t := 0) (.scanHit 0 0 p (congrArg (·[0]?) hone) hz)) (.inr rfl)
    |>.next (.move (t := 0) (.reclaimed 1 0 (congrArg (·[1]?) hone))) (.inr rfl)
    |>.next (.share (t := 0) .wUnlock) (.inr rfl), rfl, hone, rfl, rfl, ?_, rfl, hh, rfl⟩
  exact (Function.update_of_ne hne _ _).trans hv

/-- A writer publishes over a walk and looks at the hazards: the walk's snapshot stays. -/
theorem held_not_freed_republished : ∃ s : St countdown, Reach init Run s ∧
    s.current = some 8 ∧ s.retired = [7] ∧ s.pc 0 = .ret .wrote ∧
    (s.slots 0).held = some ⟨7, 0, 1⟩ ∧ ∃ pub, s.hist[0]? = some pub ∧ s.heap 7 = some (pub.id, pub.snap) := by
  obtain ⟨s₀, hn, hh, hx, hc, hv, hfree, hhist, hret, hlock, hidle⟩ := first_publication (W := countdown) (5 : Nat)
  obtain ⟨r, hq⟩ := hidle 1
  obtain ⟨r₀, hq₀⟩ := hidle 0
  obtain ⟨c, x, hn, -, rfl⟩ := init_alone hn hq (by rw [hx]; rfl) hh hc hv (3 : Nat)
  obtain ⟨s, hn, hcur, hret, hq, hslots, -⟩ := publish_alone hn hq₀ hlock hc hv hfree hret hh rfl (6 : Nat)
  have hreach := BoundedRun.reach (hn.reach (by decide)).1
  have hheld : (s.slots 0).held = some ⟨7, 0, 1⟩ := by
    rw [hslots, goto_slots, setSlot_slots_self, hhist]
    rfl
  obtain ⟨-, pub, hget, -, hheap⟩ := (held_not_freed hreach).1 0 _ hheld
  exact ⟨s, hreach, hcur, hret, hq, hheld, pub, hget, hheap⟩

end FramehopUnwind.State
