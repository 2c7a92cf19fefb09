/-
  FramehopUnwind.State.Pool — how large the slot pool is (state.rs: init, thread_registered,
  ensure_slots, slots, slot, claim_slot).

  `PoolStep` is a step of the protocol with the two calls that grow the pool told apart: `init`
  with its argument, and `thread_registered`, whose fetch_add on REGISTERED_THREADS is a step of
  its own, so that later numbers may get the pool's lock first. It also keeps the chunk pointers;
  a chunk is leaked, so the allocator never hands out its address again. The thread counter is a
  number: 2^63 registrations do not happen.

  The defect. `thread_registered` counts two slots a thread from the default of 16, whatever
  `init` was given, so what `init` asked for above 16 and what the threads add are not summed:
  the pool has the larger of the two targets, rounded up to whole chunks. It is as large as
  documented iff the smaller of the two excesses fits into that rounding, or the pool is full
  (`Covered`).

  Proved:
  - `Pool.reach_iff`: its runs are those of the protocol.
  - `Pool.Inv.step`: one step keeps the pool whole and its books true.
  - `slots_eq`, `claimAll_free`, `claim_alone`: an idle pool hands out its indices in order, each
    once, and so does the protocol's scan.
  - `pool_size`: in every run the indices are valid and stay the same slots, at most 1024; n + 2k of
    them in a covered state, and in a state with no call in progress only there.
-/

import FramehopUnwind.State.Slots

namespace FramehopUnwind.State

open Lib.Word Lib.Runs Relation

variable {W : Walk}

/-! ## The calls that grow the pool -/

def defaultSlots : Nat := 16
def slotsPerThread : Nat := 2

/-- `init` with its argument, or `thread_registered` with the number its fetch_add gave. -/
inductive Growth where
  | init (numSlots : Nat)
  | register (threads : Nat)
  deriving DecidableEq, Repr

/-- What the call passes to `ensure_slots`. -/
def Growth.target : Growth → Nat
  | .init numSlots => if numSlots = 0 then defaultSlots else numSlots
  | .register threads => defaultSlots + slotsPerThread * threads

structure Pool (W : Walk) where
  st : St W
  /-- `SLOT_CHUNKS`: the address of a chunk's first slot. -/
  slotChunks : Nat → Option Nat
  registeredThreads : Nat
  /-- The growth call each actor is in. -/
  calls : Nat → Option Growth
  /-- The growth calls that have returned. -/
  done : List Growth

/-- Nothing has run yet. -/
def Pool.start (p : Pool W) : Prop :=
  init p.st ∧ p.slotChunks = (fun _ => none) ∧ p.registeredThreads = 0 ∧ p.calls = (fun _ => none) ∧ p.done = []

/-- The actor's call is `g`, about to take the pool's lock. -/
def Pool.enter (p : Pool W) (t : Nat) (g : Growth) : Pool W :=
  { p with st := p.st.goto t (.gLock g.target), calls := Function.update p.calls t (some g) }

/-- The actor's call `g` returns. -/
def Pool.leave (p : Pool W) (t : Nat) (g : Growth) (s : St W) : Pool W :=
  { p with st := s.goto t (.ret .grown), calls := Function.update p.calls t none, done := p.done ++ [g] }

inductive PoolStep (t : Nat) (p : Pool W) : Pool W → Prop
  | init (r) (numSlots : Nat) (hq : p.st.pc t = .ret r) : PoolStep t p (p.enter t (.init numSlots))
  | register (r) (hq : p.st.pc t = .ret r) :
      PoolStep t p { p.enter t (.register (p.registeredThreads + 1)) with registeredThreads := p.registeredThreads + 1 }
  | grow (n first s') (hq : p.st.pc t = .grow n) (h : Share p.st t (.grow n) (.grow n) s')
      (hf : ∀ c, p.slotChunks c ≠ some first) :
      PoolStep t p { p with
        st := s'.goto t (.grow n)
        slotChunks := Function.update p.slotChunks (p.st.allocated / slotChunkLen) (some first) }
  | grown (n g s') (hq : p.st.pc t = .grow n) (hg : p.calls t = some g) (h : Share p.st t (.grow n) (.ret .grown) s') :
      PoolStep t p (p.leave t g s')
  -- everything else, the lock included
  | other (s') (h : Step t p.st s') (hg : ∀ n, p.st.pc t ≠ .grow n) (hc : ∀ n, s'.pc t ≠ .gLock n) :
      PoolStep t p { p with st := s' }

/-! ## Reading the pool -/

/-- `slot_chunk(i)`. -/
def Pool.slotChunk (p : Pool W) (i : Nat) : Option Nat := if i < maxSlotChunks then p.slotChunks i else none

/-- `Iterator::map_while`. -/
def mapWhile {α β : Type} (f : α → Option β) : List α → List β
  | [] => []
  | a :: l => match f a with
    | some b => b :: mapWhile f l
    | none => []

/-- `slots()`: each slot by its chunk's address and its place in the chunk. -/
def Pool.slots (p : Pool W) : List (Nat × Nat) :=
  (mapWhile p.slotChunk (List.range maxSlotChunks)).flatMap fun first =>
    (List.range slotChunkLen).map fun j => (first, j)

/-- `slot(idx)`. -/
def Pool.slot (p : Pool W) (idx : Nat) : Option (Nat × Nat) :=
  (p.slotChunk (idx / slotChunkLen)).map fun first => (first, idx % slotChunkLen)

/-- The index `claim_slot` returns, by what `in_use` is in each slot. -/
def Pool.claimSlot (p : Pool W) (inUse : Nat × Nat → Bool) : Option Nat := p.slots.findIdx? fun x => !inUse x

/-- What `m` calls of `claim_slot` return, up to the first that fails. -/
def Pool.claimAll (p : Pool W) : Nat → (Nat × Nat → Bool) → List Nat
  | 0, _ => []
  | m + 1, inUse => match p.claimSlot inUse with
    | some i => i :: p.claimAll m fun x => inUse x || p.slot i == some x
    | none => []

/-! ## The books -/

def Growth.threads : Growth → Option Nat
  | .init _ => none
  | .register threads => some threads

def Growth.numSlots : Growth → Option Nat
  | .init numSlots => some (if numSlots = 0 then defaultSlots else numSlots)
  | .register _ => none

/-- The registrations so far. -/
def Pool.registrations (p : Pool W) : Nat := (p.done.filterMap Growth.threads).length

/-- The largest `num_slots` so far, 0 counting as 16. -/
def Pool.largest (p : Pool W) : Nat := (p.done.filterMap Growth.numSlots).foldr max 0

/-- The rounding to whole chunks has room for the smaller of the two excesses over what the
    other target covers, or the larger target fills the pool. -/
def Covered (n k : Nat) : Prop :=
  slotChunkLen * (maxSlotChunks - 1) < max n (defaultSlots + slotsPerThread * k) ∨
    min (slotsPerThread * k) (n - defaultSlots) ≤
      (slotChunkLen - max n (defaultSlots + slotsPerThread * k) % slotChunkLen) % slotChunkLen

instance (n k : Nat) : Decidable (Covered n k) := inferInstanceAs (Decidable (_ ∨ _))

/-! ## The invariant -/

/-- The target of the `ensure_slots` an actor is in. -/
def Pc.growing : Pc W → Option Nat
  | .gLock n | .grow n => some n
  | _ => none

def Pool.Started (p : Pool W) (g : Growth) : Prop := g ∈ p.done ∨ ∃ t, p.calls t = some g

structure Pool.Inv (p : Pool W) : Prop where
  chunks : ∀ c, p.st.chunks c = (p.slotChunks c).isSome
  pool : ∀ c, (p.slotChunks c).isSome = true ↔ slotChunkLen * c < p.st.allocated
  whole : slotChunkLen ∣ p.st.allocated ∧ p.st.allocated ≤ slotChunkLen * maxSlotChunks
  distinct : ∀ c d x, p.slotChunks c = some x → p.slotChunks d = some x → c = d
  inCall : ∀ t, (p.st.pc t).growing = (p.calls t).map Growth.target
  counted : ∀ k, p.Started (.register k) ↔ 0 < k ∧ k ≤ p.registeredThreads
  once : (p.done.filterMap Growth.threads).Nodup
  apart : ∀ t k, p.calls t = some (.register k) →
    .register k ∉ p.done ∧ ∀ u, p.calls u = some (.register k) → u = t
  covered : ∀ g ∈ p.done, min (slotChunkLen * maxSlotChunks) g.target ≤ p.st.allocated
  tight : p.st.allocated = 0 ∨ ∃ g, p.Started g ∧ p.st.allocated < g.target + slotChunkLen

theorem Pool.Inv.start {p : Pool W} (h : p.start) : p.Inv := by
  obtain ⟨s, chunks, threads, calls, done⟩ := p
  obtain ⟨hi, rfl, rfl, rfl, rfl⟩ := h
  obtain rfl : s = _ := hi
  constructor <;> simp [Pc.growing, Pool.Started, Nat.pos_iff_ne_zero]

/-- A step outside the growth loop takes the pool's lock, or leaves the pool alone. -/
theorem Step.outside {s s' : St W} {t : Nat} (h : Step t s s') (hg : ∀ n, s.pc t ≠ .grow n)
    (hc : ∀ n, s'.pc t ≠ .gLock n) :
    s'.chunks = s.chunks ∧ s'.allocated = s.allocated ∧ ∀ u, (s'.pc u).growing = (s.pc u).growing := by
  have hpc : ∀ (s₁ : St W) q, s₁.pc = s.pc → q.growing = (s.pc t).growing →
      ∀ u, ((s₁.goto t q).pc u).growing = (s.pc u).growing := by
    intro s₁ q hs hq u
    by_cases hu : u = t
    · subst hu
      rw [goto_pc_self, hq]
    · rw [goto_pc_ne _ _ hu, hs]
  cases h with
  | move h =>
    rw [goto_pc_self] at hc
    refine ⟨rfl, rfl, hpc s _ rfl ?_⟩
    generalize s.pc t = q₀ at h
    cases h with
    | callGrow r n => exact absurd rfl (hc n)
    | claimBusy a i h => unfold afterSlot; split <;> rfl
    | scanMiss n i p hn h => unfold afterSlot; split <;> rfl
    | _ => rfl
  | touch h =>
    refine ⟨rfl, rfl, hpc _ _ rfl ?_⟩
    generalize s.pc t = q₀ at h
    cases h <;> rfl
  | use hq h => exact ⟨rfl, rfl, hpc _ _ rfl (by rw [hq]; rfl)⟩
  | share h =>
    generalize hq : s.pc t = q₀ at h
    cases h with
    | grow n hn h => exact absurd hq (hg n)
    | grown n h => exact absurd hq (hg n)
    | _ => exact ⟨rfl, rfl, hpc _ _ rfl (by rw [hq]; rfl)⟩

namespace Pool

variable {p q : Pool W} {t : Nat}

theorem enter_calls (ht : p.calls t = none) (g g' : Growth) (u : Nat) :
    (p.enter t g).calls u = some g' ↔ u = t ∧ g' = g ∨ p.calls u = some g' := by
  unfold enter
  by_cases hu : u = t
  · subst hu
    simp [ht, eq_comm]
  · simp [hu]

theorem leave_calls (g g' : Growth) (s : St W) (u : Nat) :
    (p.leave t g s).calls u = some g' ↔ u ≠ t ∧ p.calls u = some g' := by
  unfold leave
  by_cases hu : u = t
  · subst hu
    simp
  · simp [hu]

theorem started_enter (ht : p.calls t = none) (g g' : Growth) : (p.enter t g).Started g' ↔ p.Started g' ∨ g' = g := by
  simp only [Started, enter_calls ht]
  constructor
  · intro h₀
    rcases h₀ with hd | ⟨u, ⟨-, rfl⟩ | hu⟩
    · exact .inl (.inl hd)
    · exact .inr rfl
    · exact .inl (.inr ⟨u, hu⟩)
  · intro h₀
    rcases h₀ with (hd | ⟨u, hu⟩) | rfl
    · exact .inl hd
    · exact .inr ⟨u, .inr hu⟩
    · exact .inr ⟨t, .inl ⟨rfl, rfl⟩⟩

/-- A call that returns is still among those started. -/
theorem started_leave {g : Growth} (hg : p.calls t = some g) (s : St W) (g' : Growth) :
    (p.leave t g s).Started g' ↔ p.Started g' := by
  have hdone : g' ∈ (p.leave t g s).done ↔ g' ∈ p.done ∨ g' = g := by simp [leave]
  simp only [Started, leave_calls, hdone]
  constructor
  · intro h₀
    rcases h₀ with (hd | rfl) | ⟨u, -, hu⟩
    · exact .inl hd
    · exact .inr ⟨t, hg⟩
    · exact .inr ⟨u, hu⟩
  · intro h₀
    rcases h₀ with hd | ⟨u, hu⟩
    · exact .inl (.inl hd)
    · by_cases htu : u = t
      · subst htu
        exact .inl (.inr (Option.some.inj (hu.symm.trans hg)))
      · exact .inr ⟨u, htu, hu⟩

theorem Inv.idle (hI : p.Inv) {r : Result} (hq : p.st.pc t = .ret r) : p.calls t = none := by
  have h := hI.inCall t
  rw [hq] at h
  exact Option.map_eq_none_iff.mp h.symm

theorem Inv.inCall_enter (hI : p.Inv) (g : Growth) (u : Nat) :
    ((p.enter t g).st.pc u).growing = ((p.enter t g).calls u).map Growth.target := by
  unfold enter
  by_cases htu : u = t
  · subst htu
    simp [Pc.growing]
  · simp only [goto_pc_ne _ _ htu, Function.update_of_ne htu]
    exact hI.inCall u

theorem Inv.tight_enter (hI : p.Inv) (ht : p.calls t = none) (g : Growth) :
    p.st.allocated = 0 ∨ ∃ g', (p.enter t g).Started g' ∧ p.st.allocated < g'.target + slotChunkLen := by
  obtain h0 | ⟨g', hs, hlt⟩ := hI.tight
  · exact .inl h0
  · exact .inr ⟨g', (started_enter ht g g').mpr (.inl hs), hlt⟩

theorem Inv.init (hI : p.Inv) {r : Result} (hq : p.st.pc t = .ret r) (numSlots : Nat) :
    (p.enter t (.init numSlots)).Inv := by
  have ht := hI.idle hq
  have hreg : ∀ u k, (p.enter t (.init numSlots)).calls u = some (.register k) ↔ p.calls u = some (.register k) := by
    intro u k
    simp [enter_calls ht]
  refine ⟨hI.chunks, hI.pool, hI.whole, hI.distinct, hI.inCall_enter _, ?_, hI.once, ?_, hI.covered,
    hI.tight_enter ht _⟩
  · intro k
    rw [started_enter ht, hI.counted]
    simp [enter]
  · simp only [hreg]
    exact hI.apart

theorem Inv.register (hI : p.Inv) {r : Result} (hq : p.st.pc t = .ret r) :
    Inv { p.enter t (.register (p.registeredThreads + 1)) with registeredThreads := p.registeredThreads + 1 } := by
  have ht := hI.idle hq
  have hnew : ¬ p.Started (.register (p.registeredThreads + 1)) := by
    rw [hI.counted]
    omega
  refine ⟨hI.chunks, hI.pool, hI.whole, hI.distinct, hI.inCall_enter _, ?_, hI.once, ?_, hI.covered,
    hI.tight_enter ht _⟩
  · intro k
    refine (started_enter ht _ (.register k)).trans ?_
    rw [hI.counted, Growth.register.injEq]
    dsimp only
    omega
  · intro u k hu
    simp only [enter_calls ht, Growth.register.injEq] at hu ⊢
    obtain ⟨rfl, rfl⟩ | hu := hu
    · -- the new number is nobody else's
      refine ⟨fun hd => hnew (.inl hd), ?_⟩
      intro v h₀
      rcases h₀ with ⟨rfl, -⟩ | hv
      · rfl
      · exact absurd (.inr ⟨v, hv⟩) hnew
    · obtain ⟨hd, huniq⟩ := hI.apart u k hu
      refine ⟨hd, ?_⟩
      intro v h₀
      rcases h₀ with ⟨rfl, rfl⟩ | hv
      · exact absurd (.inr ⟨u, hu⟩) hnew
      · exact huniq v hv

/-- The call of an actor in the growth loop. -/
theorem Inv.call_of_grow (hI : p.Inv) {n : Nat} (hq : p.st.pc t = .grow n) :
    ∃ g, p.calls t = some g ∧ g.target = n := by
  have h := hI.inCall t
  rw [hq] at h
  exact Option.map_eq_some_iff.mp h.symm

theorem Inv.pool_grow (hI : p.Inv) (first c : Nat) :
    (Function.update p.slotChunks (p.st.allocated / slotChunkLen) (some first) c).isSome = true ↔
      slotChunkLen * c < p.st.allocated + slotChunkLen := by
  obtain ⟨m, hm⟩ := hI.whole.1
  rw [hm, Nat.mul_div_cancel_left m (by decide)]
  by_cases hc : c = m
  · subst hc
    simp [slotChunkLen]
  · rw [Function.update_of_ne hc, hI.pool, hm]
    simp only [slotChunkLen]
    omega

theorem Inv.grow (hI : p.Inv) {n first : Nat} (hq : p.st.pc t = .grow n) {s' : St W}
    (h : Share p.st t (.grow n) (.grow n) s') (hf : ∀ c, p.slotChunks c ≠ some first) :
    Inv { p with
      st := s'.goto t (.grow n)
      slotChunks := Function.update p.slotChunks (p.st.allocated / slotChunkLen) (some first) } := by
  obtain ⟨g, hg, rfl⟩ := hI.call_of_grow hq
  cases h with
  | grow n hn hmax =>
    refine ⟨?_, hI.pool_grow first, ⟨hI.whole.1.add dvd_rfl, ?_⟩, ?_, ?_, hI.counted, hI.once, hI.apart, ?_, ?_⟩
    · intro c
      by_cases hc : c = p.st.allocated / slotChunkLen
      · subst hc
        simp [St.goto]
      · simp [St.goto, hc, hI.chunks]
    · obtain ⟨m, hm⟩ := hI.whole.1
      simp only [St.goto, slotChunkLen, maxSlotChunks] at *
      omega
    · intro c d x hc hd
      dsimp only at hc hd
      by_cases hcm : c = p.st.allocated / slotChunkLen
      · by_cases hdm : d = p.st.allocated / slotChunkLen
        · exact hcm.trans hdm.symm
        · rw [hcm, Function.update_self] at hc
          rw [Function.update_of_ne hdm, ← hc] at hd
          exact absurd hd (hf d)
      · rw [Function.update_of_ne hcm] at hc
        by_cases hdm : d = p.st.allocated / slotChunkLen
        · rw [hdm, Function.update_self, ← hc] at hd
          exact absurd hd.symm (hf c)
        · rw [Function.update_of_ne hdm] at hd
          exact hI.distinct c d x hc hd
    · intro u
      rw [← hI.inCall u]
      by_cases hu : u = t
      · subst hu
        rw [goto_pc_self, hq]
      · rw [goto_pc_ne _ _ hu]
    · intro g' hg'
      exact (hI.covered g' hg').trans (Nat.le_add_right _ _)
    · exact .inr ⟨g, .inr ⟨t, hg⟩, Nat.add_lt_add_right hn _⟩

theorem Inv.grown (hI : p.Inv) {n : Nat} {g : Growth} (hq : p.st.pc t = .grow n) (hg : p.calls t = some g) {s' : St W}
    (h : Share p.st t (.grow n) (.ret .grown) s') : (p.leave t g s').Inv := by
  obtain ⟨g', hg', rfl⟩ := hI.call_of_grow hq
  obtain rfl := Option.some.inj (hg'.symm.trans hg)
  cases h with
  | grown n hn =>
    refine ⟨hI.chunks, hI.pool, hI.whole, hI.distinct, ?_, ?_, ?_, ?_, ?_, ?_⟩
    · intro u
      by_cases hu : u = t
      · subst hu
        simp [leave, Pc.growing]
      · simp only [leave, goto_pc_ne _ _ hu, Function.update_of_ne hu]
        exact hI.inCall u
    · intro k
      rw [started_leave hg, hI.counted]
      rfl
    · simp only [leave, List.filterMap_append]
      cases g' with
      | init numSlots =>
        change (_ ++ []).Nodup
        rw [List.append_nil]
        exact hI.once
      | register k =>
        -- the number that leaves is not among those that have left
        refine hI.once.append (List.nodup_singleton k) (List.disjoint_singleton.mpr ?_)
        rw [List.mem_filterMap]
        intro h₀
        rcases h₀ with ⟨_ | k', hd, hk⟩
        · cases hk
        · obtain rfl := Option.some.inj hk
          exact (hI.apart t _ hg).1 hd
    · intro u k hu
      simp only [leave_calls] at hu ⊢
      obtain ⟨hd, huniq⟩ := hI.apart u k hu.2
      refine ⟨?_, fun v hv => huniq v hv.2⟩
      simp only [leave, List.mem_append, List.mem_singleton, not_or]
      refine ⟨hd, ?_⟩
      rintro rfl
      exact hu.1 (huniq t hg).symm
    · intro g hg'
      simp only [leave, List.mem_append, List.mem_singleton] at hg'
      obtain hd | rfl := hg'
      · exact hI.covered g hd
      · simp only [leave, St.goto]
        omega
    · simp only [started_leave hg]
      exact hI.tight

theorem Inv.step (hI : p.Inv) (h : PoolStep t p q) : q.Inv := by
  cases h with
  | init r numSlots hq => exact hI.init hq numSlots
  | register r hq => exact hI.register hq
  | grow n first s' hq h hf => exact hI.grow hq h hf
  | grown n g s' hq hg h => exact hI.grown hq hg h
  | other s' h hg hc =>
    obtain ⟨hchunks, halloc, hpc⟩ := h.outside hg hc
    refine ⟨?_, ?_, ?_, hI.distinct, ?_, hI.counted, hI.once, hI.apart, ?_, ?_⟩
    · simpa only [hchunks] using hI.chunks
    · simpa only [halloc] using hI.pool
    · simpa only [halloc] using hI.whole
    · simpa only [hpc] using hI.inCall
    · simpa only [halloc] using hI.covered
    · rw [halloc]
      exact hI.tight

/-! ## What the scans see -/

theorem mapWhile_append {α β : Type} {f : α → Option β} {g : α → β} {l : List α} (h : ∀ a ∈ l, f a = some (g a))
    (r : List α) : mapWhile f (l ++ r) = l.map g ++ mapWhile f r := by
  induction l with
  | nil => rfl
  | cons a l ih =>
    rw [List.forall_mem_cons] at h
    simp [mapWhile, h.1, ih h.2]

/-- Blocks of `b` items each, one after the other. -/
theorem flatMap_range {α : Type} (g : Nat → α) {b : Nat} (hb : 0 < b) (m : Nat) :
    ((List.range m).map g).flatMap (fun x => (List.range b).map fun j => (x, j)) =
      (List.range (b * m)).map fun i => (g (i / b), i % b) := by
  induction m with
  | zero => simp
  | succ m ih =>
    rw [List.range_succ, List.map_append, List.flatMap_append, ih, Nat.mul_succ, List.range_add, List.map_append]
    congr 1
    simp only [List.map_cons, List.map_nil, List.flatMap_cons, List.flatMap_nil, List.append_nil, List.map_map]
    refine List.map_congr_left ?_
    intro j hj
    have hj := List.mem_range.mp hj
    simp [Nat.mul_add_div hb, Nat.div_eq_of_lt hj, Nat.mod_eq_of_lt hj]

section Scan

/-- The address in chunk `c`, which is there. -/
def firstOf (p : Pool W) (c : Nat) : Nat := (p.slotChunks c).getD 0

theorem Inv.slotChunk_eq (hI : p.Inv) (c : Nat) :
    p.slotChunk c = if slotChunkLen * c < p.st.allocated then some (p.firstOf c) else none := by
  have hpool := hI.pool c
  have hmax := hI.whole.2
  unfold slotChunk firstOf
  cases hc : p.slotChunks c with
  | none =>
    rw [hc] at hpool
    rw [if_neg (fun h => Bool.false_ne_true (hpool.mpr h)), ite_self]
  | some x =>
    rw [hc] at hpool
    have hlt := hpool.mp rfl
    have : c < maxSlotChunks := Nat.lt_of_mul_lt_mul_left (hlt.trans_le hmax)
    rw [if_pos this, if_pos hlt]
    rfl

theorem Inv.slot_eq (hI : p.Inv) (i : Nat) : p.slot i =
    if i < p.st.allocated then some (p.firstOf (i / slotChunkLen), i % slotChunkLen) else none := by
  have hiff : slotChunkLen * (i / slotChunkLen) < p.st.allocated ↔ i < p.st.allocated := by
    obtain ⟨m, hm⟩ := hI.whole.1
    rw [hm]
    simp only [slotChunkLen]
    omega
  unfold slot
  rw [hI.slotChunk_eq]
  simp only [hiff]
  split <;> rfl

theorem Inv.slot_isSome (hI : p.Inv) {i : Nat} : (∃ x, p.slot i = some x) ↔ i < p.st.allocated := by
  rw [hI.slot_eq]
  split <;> simp [*]

theorem Inv.slots_eq (hI : p.Inv) : p.slots =
    (List.range p.st.allocated).map fun i => (p.firstOf (i / slotChunkLen), i % slotChunkLen) := by
  obtain ⟨⟨m, hm⟩, hmax⟩ := hI.whole
  rw [hm] at hmax ⊢
  have hle : m ≤ maxSlotChunks := Nat.le_of_mul_le_mul_left hmax (by decide)
  have hsome : ∀ c ∈ List.range m, p.slotChunk c = some (p.firstOf c) := by
    intro c hc
    rw [hI.slotChunk_eq, if_pos]
    rw [hm]
    exact Nat.mul_lt_mul_of_pos_left (List.mem_range.mp hc) (by decide)
  have hchunks : mapWhile p.slotChunk (List.range maxSlotChunks) = (List.range m).map p.firstOf := by
    obtain ⟨d, hd⟩ := Nat.exists_eq_add_of_le hle
    rw [hd, List.range_add, mapWhile_append hsome]
    -- the scan stops at the first chunk that is not there, or at the last cell
    cases d with
    | zero => simp [mapWhile]
    | succ d =>
      have hnone : p.slotChunk m = none := by rw [hI.slotChunk_eq, hm, if_neg (lt_irrefl _)]
      simp [List.range_succ_eq_map, mapWhile, hnone]
  unfold slots
  rw [hchunks, flatMap_range _ (by decide)]

theorem Inv.slots_length (hI : p.Inv) : p.slots.length = p.st.allocated := by
  rw [hI.slots_eq, List.length_map, List.length_range]

theorem Inv.slots_getElem (hI : p.Inv) (i : Nat) : p.slots[i]? = p.slot i := by
  rw [hI.slot_eq, hI.slots_eq, List.getElem?_map]
  split
  case isTrue h => rw [List.getElem?_range h]; rfl
  case isFalse h => rw [List.getElem?_eq_none (by simpa using h)]; rfl

/-- No two indices name one slot. -/
theorem Inv.slot_injective (hI : p.Inv) {i j : Nat} {x : Nat × Nat} (hi : p.slot i = some x) (hj : p.slot j = some x) :
    i = j := by
  obtain ⟨y, hy, rfl⟩ := Option.map_eq_some_iff.mp hi
  obtain ⟨z, hz, heq⟩ := Option.map_eq_some_iff.mp hj
  obtain ⟨rfl, hmod⟩ := Prod.mk.inj heq
  have hcell : ∀ c x, p.slotChunk c = some x → p.slotChunks c = some x := by
    intro c x hc
    unfold slotChunk at hc
    split at hc
    · exact hc
    · cases hc
  have hdiv := hI.distinct _ _ _ (hcell _ _ hy) (hcell _ _ hz)
  rw [← Nat.div_add_mod i slotChunkLen, ← Nat.div_add_mod j slotChunkLen, hdiv, hmod]

theorem Inv.claimSlot_some (hI : p.Inv) {inUse : Nat × Nat → Bool} {i : Nat} : p.claimSlot inUse = some i ↔
    (∃ x, p.slot i = some x ∧ inUse x = false) ∧ ∀ j < i, ∀ x, p.slot j = some x → inUse x = true := by
  simp only [claimSlot, List.findIdx?_eq_some_iff_getElem, ← hI.slots_getElem]
  constructor
  · intro h₀
    obtain ⟨hi, hfree, hbusy⟩ := h₀
    refine ⟨⟨_, List.getElem?_eq_getElem hi, by simpa using hfree⟩, ?_⟩
    intro j hj x hx
    obtain ⟨hlt, rfl⟩ := List.getElem?_eq_some_iff.mp hx
    simpa using hbusy j hj
  · intro h₀
    obtain ⟨⟨x, hx, hfree⟩, hbusy⟩ := h₀
    obtain ⟨hi, rfl⟩ := List.getElem?_eq_some_iff.mp hx
    refine ⟨hi, by simp [hfree], ?_⟩
    intro j hj
    simp [hbusy j hj _ (List.getElem?_eq_getElem (hj.trans hi))]

theorem Inv.claimSlot_none (hI : p.Inv) {inUse : Nat × Nat → Bool} : p.claimSlot inUse = none ↔
    ∀ i x, p.slot i = some x → inUse x = true := by
  simp only [claimSlot, List.findIdx?_eq_none_iff, ← hI.slots_getElem, Bool.not_eq_false']
  constructor
  · intro h i x hx
    exact h x (List.mem_of_getElem? hx)
  · intro h x hx
    obtain ⟨i, hi⟩ := List.mem_iff_getElem?.mp hx
    exact h i x hi

/-- With the first `j` slots in use, the calls hand out the rest in order. -/
theorem Inv.claimAll_from (hI : p.Inv) (m : Nat) : ∀ (j : Nat) (inUse : Nat × Nat → Bool), j ≤ p.st.allocated →
    (∀ i x, p.slot i = some x → inUse x = decide (i < j)) →
    p.claimAll m inUse = List.range' j (min m (p.st.allocated - j)) := by
  induction m with
  | zero =>
    intro j inUse _ _
    simp [claimAll]
  | succ m ih =>
    intro j inUse hj hu
    by_cases hlt : j < p.st.allocated
    · obtain ⟨y, hslot⟩ := hI.slot_isSome.mpr hlt
      have hclaim : p.claimSlot inUse = some j := by
        refine hI.claimSlot_some.mpr ⟨⟨_, hslot, by simp [hu j _ hslot]⟩, ?_⟩
        intro i hi x hx
        simp [hu i x hx, hi]
      have hnext : ∀ i x, p.slot i = some x → (inUse x || p.slot j == some x) = decide (i < j + 1) := by
        intro i x hx
        rw [hu i x hx]
        by_cases hij : i = j
        · subst hij
          simp [hx]
        · have hne : p.slot j ≠ some x := fun h => hij (hI.slot_injective hx h)
          simp only [beq_eq_false_iff_ne.mpr hne, Bool.or_false, decide_eq_decide]
          omega
      have hlen : min (m + 1) (p.st.allocated - j) = min m (p.st.allocated - (j + 1)) + 1 := by omega
      simp only [claimAll, hclaim]
      rw [ih (j + 1) _ hlt hnext, hlen, List.range'_succ]
    · have hclaim : p.claimSlot inUse = none := by
        refine hI.claimSlot_none.mpr ?_
        intro i x hx
        have hi := hI.slot_isSome.mp ⟨x, hx⟩
        rw [hu i x hx, decide_eq_true_eq]
        omega
      have hzero : p.st.allocated - j = 0 := by omega
      simp [claimAll, hclaim, hzero]

theorem Inv.claimAll_free (hI : p.Inv) (m : Nat) :
    p.claimAll m (fun _ => false) = List.range (min m p.slots.length) := by
  rw [hI.claimAll_from m 0 _ (Nat.zero_le _) (by simp), hI.slots_length, Nat.sub_zero, List.range_eq_range']

theorem Inv.chunk_iff (hI : p.Inv) (c : Nat) : p.st.chunk c ↔ slotChunkLen * c < p.st.allocated := by
  have hmax := hI.whole.2
  unfold St.chunk
  rw [hI.chunks, hI.pool]
  simp only [slotChunkLen, maxSlotChunks] at *
  omega

theorem step_move {s : St W} {q q' : Pc W} (h : Move (s.goto t q) q q') : Step t (s.goto t q) (s.goto t q') := by
  have := Step.move (t := t) (s := s.goto t q) (q := q') (by rwa [goto_pc_self])
  rwa [goto_goto] at this

/-- The protocol's scan, past slots that are busy. -/
theorem Inv.scan_alone (hI : p.Inv) (a : W.Args) {i : Nat} (hi : i < p.st.allocated)
    (hbusy : ∀ j < i, (p.st.slots j).inUse = true) :
    ReflTransGen (Step t) (p.st.goto t (.claimChunk a 0)) (p.st.goto t (.claimCas a i)) := by
  induction i with
  | zero => exact .single (step_move (.claimChunk a 0 ((hI.chunk_iff 0).mpr (by omega))))
  | succ i ih =>
    have hrun := ih (Nat.lt_of_succ_lt hi) fun j hj => hbusy j (Nat.lt_succ_of_lt hj)
    have hnext := step_move (t := t) (.claimBusy a i (hbusy i (Nat.lt_succ_self i)))
    unfold afterSlot at hnext
    split at hnext
    case isTrue hmod =>
      -- the scan reads the next chunk's pointer first
      have hdiv : slotChunkLen * ((i + 1) / slotChunkLen) = i + 1 := Nat.mul_div_cancel' (Nat.dvd_of_mod_eq_zero hmod)
      have hchunk := step_move (t := t) (.claimChunk a _ ((hI.chunk_iff ((i + 1) / slotChunkLen)).mpr (by omega)))
      rw [hdiv] at hchunk
      exact (hrun.tail hnext).tail hchunk
    case isFalse => exact hrun.tail hnext

/-- The protocol's scan finds the slot `claim_slot` returns, or fails with it. -/
theorem Inv.claim_alone (hI : p.Inv) (a : W.Args) {inUse : Nat × Nat → Bool}
    (hu : ∀ i x, p.slot i = some x → inUse x = (p.st.slots i).inUse) :
    ReflTransGen (Step t) (p.st.goto t (.claimChunk a 0))
      (p.st.goto t (match p.claimSlot inUse with
        | some i => .claimCas a i
        | none => .ret (.init (-1) none))) := by
  cases hclaim : p.claimSlot inUse with
  | some i =>
    obtain ⟨⟨x, hx, -⟩, hbusy⟩ := hI.claimSlot_some.mp hclaim
    have hi := hI.slot_isSome.mp ⟨x, hx⟩
    refine hI.scan_alone a hi ?_
    intro j hj
    obtain ⟨y, hy⟩ := hI.slot_isSome.mpr (hj.trans hi)
    rw [← hu j y hy]
    exact hbusy j hj y hy
  | none =>
    have hbusy : ∀ j < p.st.allocated, (p.st.slots j).inUse = true := by
      intro j hj
      obtain ⟨y, hy⟩ := hI.slot_isSome.mpr hj
      rw [← hu j y hy]
      exact hI.claimSlot_none.mp hclaim j y hy
    have hend : ∀ c, slotChunkLen * c = p.st.allocated → ¬ p.st.chunk c := by
      intro c hc h
      exact absurd ((hI.chunk_iff c).mp h) hc.not_lt
    obtain ⟨m, hm⟩ := hI.whole.1
    cases m with
    | zero => exact .single (step_move (.claimNone a 0 (hend 0 hm.symm)))
    | succ m =>
      have hlast : p.st.allocated - 1 + 1 = slotChunkLen * (m + 1) := by
        rw [hm]
        simp only [slotChunkLen]
        omega
      have hscan := hI.scan_alone (t := t) a (i := p.st.allocated - 1) (by omega) fun j hj => hbusy j (by omega)
      have hnext := step_move (t := t) (.claimBusy a _ (hbusy (p.st.allocated - 1) (by omega)))
      rw [afterSlot, hlast, if_pos (Nat.mul_mod_right ..), Nat.mul_div_cancel_left _ (by decide)] at hnext
      exact (hscan.tail hnext).tail (step_move (.claimNone a _ (hend (m + 1) hm.symm)))

end Scan

end Pool

/-! ## The protocol's runs -/

def PoolRun (p q : Pool W) : Prop := ∃ t, PoolStep t p q

theorem Pool.inv_of_run {p : Pool W} (h : Reach Pool.start PoolRun p) : p.Inv :=
  h.invariant (fun _ h => Inv.start h) fun _ _ _ hI hs => hI.step hs.choose_spec

/-- Every step is one of the protocol's. -/
theorem PoolStep.refines {t : Nat} {p q : Pool W} (h : PoolStep t p q) : Step t p.st q.st := by
  cases h with
  | init r numSlots hq => exact .move (by rw [hq]; exact .callGrow r _)
  | register r hq => exact .move (by rw [hq]; exact .callGrow r _)
  | grow n first s' hq h hf => exact .share (by rw [hq]; exact h)
  | grown n g s' hq hg h => exact .share (by rw [hq]; exact h)
  | other s' h hg hc => exact h

theorem Growth.target_ne (g : Growth) : g.target ≠ 0 := by
  cases g with
  | init numSlots =>
    simp only [target]
    split
    case isTrue => decide
    case isFalse hne => exact hne
  | register threads =>
    simp only [target, defaultSlots]
    omega

/-- A call that grows the pool asks for a slot. -/
theorem PoolStep.target_ne {t n : Nat} {p q : Pool W} (h : PoolStep t p q) (hq : q.st.pc t = .gLock n) : n ≠ 0 := by
  cases h with
  | init r numSlots hr =>
    obtain rfl := Pc.gLock.inj ((goto_pc_self ..).symm.trans hq)
    exact Growth.target_ne _
  | register r hr =>
    obtain rfl := Pc.gLock.inj ((goto_pc_self ..).symm.trans hq)
    exact Growth.target_ne _
  | grow m first s' hr h hf => cases (goto_pc_self ..).symm.trans hq
  | grown m g s' hr hg h => cases (goto_pc_self ..).symm.trans hq
  | other s' h hg hc => exact absurd hq (hc n)

theorem Pool.Inv.exists_fresh {p : Pool W} (hI : p.Inv) : ∃ first, ∀ c, p.slotChunks c ≠ some first := by
  refine ⟨((List.range maxSlotChunks).map p.firstOf).foldr max 0 + 1, ?_⟩
  intro c hc
  have hlt : c < maxSlotChunks :=
    Nat.lt_of_mul_lt_mul_left (((hI.pool c).mp (Option.isSome_iff_exists.mpr ⟨_, hc⟩)).trans_le hI.whole.2)
  have hle : p.firstOf c ≤ ((List.range maxSlotChunks).map p.firstOf).foldr max 0 :=
    List.le_max_of_le (List.mem_map_of_mem (List.mem_range.mpr hlt)) le_rfl
  rw [Pool.firstOf, hc, Option.getD_some] at hle
  omega

theorem Move.of_gLock {s : St W} {q q' : Pc W} {n : Nat} (h : Move s q q') (hq : q' = .gLock n) : ∃ r, q = .ret r := by
  cases h with
  | callGrow r m => exact ⟨r, rfl⟩
  | claimBusy a i h =>
    unfold afterSlot at hq
    split at hq <;> cases hq
  | scanMiss m i p hm h =>
    unfold afterSlot at hq
    split at hq <;> cases hq
  | _ => cases hq

/-- And every step of the protocol is one of the pool's, if a call that grows it asks for a slot. -/
theorem Pool.Inv.lift {p : Pool W} {t : Nat} {s' : St W} (hI : p.Inv) (h : Step t p.st s')
    (hn : ∀ n, s'.pc t = .gLock n → n ≠ 0) : ∃ q, PoolStep t p q ∧ q.st = s' := by
  by_cases hgrow : ∃ n, p.st.pc t = .grow n
  · -- in the loop: another chunk, or the end
    obtain ⟨n, hq⟩ := hgrow
    cases h with
    | move h =>
      rw [hq] at h
      cases h
    | touch h =>
      rw [hq] at h
      cases h
    | use hq' h => cases hq.symm.trans hq'
    | share h =>
      rw [hq] at h
      cases h with
      | grow _ hlt hmax =>
        obtain ⟨first, hf⟩ := hI.exists_fresh
        exact ⟨_, .grow n first _ hq (.grow n hlt hmax) hf, rfl⟩
      | grown _ hend =>
        obtain ⟨g, hg, -⟩ := hI.call_of_grow hq
        exact ⟨_, .grown n g _ hq hg (.grown n hend), rfl⟩
  · by_cases hlock : ∃ n, s'.pc t = .gLock n
    · -- a call that enters the loop, as one of init's
      obtain ⟨n, hl⟩ := hlock
      have hpos := hn n hl
      cases h with
      | move h =>
        rw [goto_pc_self] at hl
        obtain ⟨r, hr⟩ := h.of_gLock hl
        subst hl
        refine ⟨_, .init r n hr, ?_⟩
        simp only [Pool.enter, Growth.target, if_neg hpos]
      | touch h =>
        rw [goto_pc_self] at hl
        subst hl
        generalize p.st.pc t = q at h
        cases h
      | use hq h =>
        rw [goto_pc_self] at hl
        cases hl
      | share h =>
        rw [goto_pc_self] at hl
        subst hl
        generalize p.st.pc t = q at h
        cases h
    · exact ⟨_, .other s' h (fun n hq => hgrow ⟨n, hq⟩) fun n hq => hlock ⟨n, hq⟩, rfl⟩

/-- A step of the protocol, in which a call that grows the pool asks for a slot. -/
def GrowthRun (s s' : St W) : Prop := ∃ t, Step t s s' ∧ ∀ n, s'.pc t = .gLock n → n ≠ 0

/-- The pool's runs are the protocol's. -/
theorem Pool.reach_iff {s : St W} : (∃ p : Pool W, Reach Pool.start PoolRun p ∧ p.st = s) ↔ Reach init GrowthRun s := by
  constructor
  · intro h₀
    obtain ⟨p, ⟨p₀, h0, hr⟩, rfl⟩ := h₀
    refine ⟨p₀.st, h0.1, hr.lift Pool.st ?_⟩
    intro p q hs
    obtain ⟨t, hs⟩ := hs
    exact ⟨t, hs.refines, fun n => hs.target_ne⟩
  · intro h
    refine h.invariant (P := fun s => ∃ p : Pool W, Reach Pool.start PoolRun p ∧ p.st = s) ?_ ?_
    · intro s₀ h0
      exact ⟨⟨s₀, fun _ => none, 0, fun _ => none, []⟩, .start ⟨h0, rfl, rfl, rfl, rfl⟩, rfl⟩
    · intro s s' _ hp hs
      obtain ⟨p, hp, rfl⟩ := hp
      obtain ⟨t, hs, hn⟩ := hs
      obtain ⟨q, hq, rfl⟩ := (Pool.inv_of_run hp).lift hs hn
      exact ⟨q, hp.tail ⟨t, hq⟩, rfl⟩

/-! ## How many slots there are -/

/-- No call that grows the pool is in progress. -/
def Pool.Quiet (p : Pool W) : Prop := ∀ t, p.calls t = none

/-- What `init` and the threads ask for, each on its own. -/
def asked (n k : Nat) : Nat := max n (if k = 0 then 0 else defaultSlots + slotsPerThread * k)

/-- A chunk pointer is never overwritten. -/
theorem Pool.Inv.slot_stable {p q : Pool W} {t i : Nat} {x : Nat × Nat} (hI : p.Inv) (h : PoolStep t p q)
    (hx : p.slot i = some x) : q.slot i = some x := by
  cases h with
  | grow n first s' hq h hf =>
    obtain ⟨y, hy, rfl⟩ := Option.map_eq_some_iff.mp hx
    have hlt : slotChunkLen * (i / slotChunkLen) < p.st.allocated := by
      rw [hI.slotChunk_eq] at hy
      by_contra hn
      rw [if_neg hn] at hy
      cases hy
    have hne : i / slotChunkLen ≠ p.st.allocated / slotChunkLen := by
      intro heq
      rw [heq, Nat.mul_div_cancel' hI.whole.1] at hlt
      exact lt_irrefl _ hlt
    simp only [slot, slotChunk, Function.update_of_ne hne]
    exact hx
  | _ => exact hx

theorem Pool.Inv.slot_stable_run {p q : Pool W} {i : Nat} {x : Nat × Nat} (hI : p.Inv) (h : ReflTransGen PoolRun p q)
    (hx : p.slot i = some x) : q.slot i = some x := by
  have hkeep : ∀ p q : Pool W, p.Inv ∧ p.slot i = some x → PoolRun p q → q.Inv ∧ q.slot i = some x :=
    fun _ _ hp hs => ⟨hp.1.step hs.choose_spec, hp.1.slot_stable hs.choose_spec hp.2⟩
  exact (stable hkeep ⟨hI, hx⟩ h).2

theorem length_le_of_nodup {l : List Nat} {m : Nat} (hl : l.Nodup) (h : ∀ x ∈ l, 0 < x ∧ x ≤ m) : l.length ≤ m := by
  have hsub : l ⊆ List.range' 1 m := by
    intro x hx
    have := h x hx
    rw [List.mem_range'_1]
    omega
  simpa using (hl.subperm hsub).length_le

/-- Every call that has returned has got what it asked for. -/
theorem Pool.Inv.asked_le {p : Pool W} (hI : p.Inv) :
    min (slotChunkLen * maxSlotChunks) (asked p.largest p.registrations) ≤ p.st.allocated := by
  by_cases hfull : slotChunkLen * maxSlotChunks ≤ p.st.allocated
  · exact (min_le_left _ _).trans hfull
  have hgot : ∀ g ∈ p.done, g.target ≤ p.st.allocated := by
    intro g hg
    have := hI.covered g hg
    omega
  have hinit : p.largest ≤ p.st.allocated := by
    refine List.max_le_of_forall_le _ _ ?_
    intro x hx
    obtain ⟨_ | k, hd, hg⟩ := List.mem_filterMap.mp hx
    · obtain rfl := Option.some.inj hg
      exact hgot _ hd
    · cases hg
  have hthreads :
      ∀ k ∈ p.done.filterMap Growth.threads, 0 < k ∧ defaultSlots + slotsPerThread * k ≤ p.st.allocated := by
    intro k hk
    obtain ⟨_ | k', hd, hg⟩ := List.mem_filterMap.mp hk
    · cases hg
    · obtain rfl := Option.some.inj hg
      exact ⟨((hI.counted k').mp (.inl hd)).1, hgot _ hd⟩
  -- k numbers, all different, so one of them is at least k
  have hlen : p.registrations ≤ (p.st.allocated - defaultSlots) / slotsPerThread := by
    refine length_le_of_nodup hI.once ?_
    intro k hk
    obtain ⟨hpos, hle⟩ := hthreads k hk
    simp only [defaultSlots, slotsPerThread] at hle ⊢
    omega
  unfold asked
  simp only [defaultSlots, slotsPerThread] at hlen ⊢
  split <;> omega

/-- With no call in progress, the pool is a chunk short of more than what was asked for. -/
theorem Pool.Inv.lt_asked {p : Pool W} (hI : p.Inv) (hq : p.Quiet) :
    p.st.allocated = 0 ∨ p.st.allocated < asked p.largest p.registrations + slotChunkLen := by
  have hdone : ∀ g, p.Started g → g ∈ p.done := by
    intro g h₀
    rcases h₀ with hd | ⟨t, ht⟩
    · exact hd
    · rw [hq t] at ht
      cases ht
  have hcount : p.registeredThreads ≤ p.registrations := by
    have hsub : List.range' 1 p.registeredThreads ⊆ p.done.filterMap Growth.threads := by
      intro k hk
      rw [List.mem_range'_1] at hk
      exact List.mem_filterMap.mpr ⟨_, hdone _ ((hI.counted k).mpr ⟨by omega, by omega⟩), rfl⟩
    have := (List.nodup_range' (s := 1) (n := p.registeredThreads)).subperm hsub
    simpa [Pool.registrations] using this.length_le
  refine hI.tight.imp_right ?_
  intro h₀
  obtain ⟨g, hg, hlt⟩ := h₀
  refine hlt.trans_le (Nat.add_le_add_right ?_ _)
  cases g with
  | init numSlots =>
    exact le_max_of_le_left (List.le_max_of_le (List.mem_filterMap.mpr ⟨_, hdone _ hg, rfl⟩) le_rfl)
  | register k =>
    obtain ⟨hpos, hle⟩ := (hI.counted k).mp hg
    refine le_max_of_le_right ?_
    rw [if_neg (by omega)]
    exact Nat.add_le_add_left (Nat.mul_le_mul_left _ (hle.trans hcount)) _

theorem promised_of_covered {n k a : Nat} (hw : slotChunkLen ∣ a) (hc : Covered n k)
    (h : min (slotChunkLen * maxSlotChunks) (asked n k) ≤ a) :
    min (slotChunkLen * maxSlotChunks) (n + slotsPerThread * k) ≤ a := by
  unfold Covered at hc
  unfold asked at h
  simp only [slotChunkLen, maxSlotChunks, defaultSlots, slotsPerThread] at *
  split at h <;> omega

theorem covered_of_promised {n k a : Nat} (hw : slotChunkLen ∣ a) (h : a = 0 ∨ a < asked n k + slotChunkLen)
    (hp : min (slotChunkLen * maxSlotChunks) (n + slotsPerThread * k) ≤ a) : Covered n k := by
  unfold Covered
  unfold asked at h
  simp only [slotChunkLen, maxSlotChunks, defaultSlots, slotsPerThread] at *
  split at h <;> omega

/-- In every run: at most 1024 slots; the indices below their number are the valid ones, and stay
    the same slots; with none in use `claim_slot` hands out each of them once; there are n + 2k
    where that is covered, and, once no call is in progress, only there. -/
theorem pool_size {p : Pool W} (h : Reach Pool.start PoolRun p) :
    p.slots.length ≤ 1024 ∧
    (∀ i, (p.slot i).isSome = true ↔ i < p.slots.length) ∧
    (∀ q, ReflTransGen PoolRun p q → ∀ i x, p.slot i = some x → q.slot i = some x) ∧
    (∀ i j x, p.slot i = some x → p.slot j = some x → i = j) ∧
    (∀ m, p.claimAll m (fun _ => false) = List.range (min m p.slots.length)) ∧
    (Covered p.largest p.registrations →
      min 1024 (p.largest + slotsPerThread * p.registrations) ≤ p.slots.length) ∧
    (p.Quiet → (min 1024 (p.largest + slotsPerThread * p.registrations) ≤ p.slots.length ↔
      Covered p.largest p.registrations)) := by
  have hI := Pool.inv_of_run h
  have hlower : Covered p.largest p.registrations →
      min 1024 (p.largest + slotsPerThread * p.registrations) ≤ p.slots.length := by
    intro hc
    rw [hI.slots_length]
    exact promised_of_covered hI.whole.1 hc hI.asked_le
  refine ⟨?_, ?_, ?_, ?_, hI.claimAll_free, hlower, ?_⟩
  · rw [hI.slots_length]
    exact hI.whole.2
  · intro i
    rw [hI.slots_length, ← hI.slot_isSome, Option.isSome_iff_exists]
  · intro q hq i x hx
    exact hI.slot_stable_run hq hx
  · intro i j x hi hj
    exact hI.slot_injective hi hj
  · intro hq
    refine ⟨?_, hlower⟩
    intro hp
    rw [hI.slots_length] at hp
    exact covered_of_promised hI.whole.1 (hI.lt_asked hq) hp

/-! ## A call on its own -/

/-- Every actor is between two calls. -/
def Pool.Idle (p : Pool W) : Prop := (∀ t, ∃ r, p.st.pc t = .ret r) ∧ p.st.poolLock = none

/-- The growth loop ends, with enough slots or with all of them. -/
theorem Pool.Inv.grow_alone {t n : Nat} (m : Nat) : ∀ {p : Pool W}, p.Inv → p.st.pc t = .grow n →
    slotChunkLen * maxSlotChunks - p.st.allocated ≤ m →
    ∃ q, ReflTransGen PoolRun p q ∧ q.st.pc t = .grow n ∧
      ¬ (q.st.allocated < n ∧ q.st.allocated < slotChunkLen * maxSlotChunks) ∧
      (∀ u, u ≠ t → q.st.pc u = p.st.pc u) ∧ q.calls = p.calls ∧ q.done = p.done ∧
      q.registeredThreads = p.registeredThreads := by
  induction m with
  | zero =>
    intro p hI hq hm
    exact ⟨p, .refl, hq, by omega, fun _ _ => rfl, rfl, rfl, rfl⟩
  | succ m ih =>
    intro p hI hq hm
    by_cases hmore : p.st.allocated < n ∧ p.st.allocated < slotChunkLen * maxSlotChunks
    · obtain ⟨first, hf⟩ := hI.exists_fresh
      have hstep := PoolStep.grow n first _ hq (.grow n hmore.1 hmore.2) hf
      obtain ⟨q, hrun, hq', hend, hpc, hcalls, hdone, hthreads⟩ := ih (hI.step hstep) (goto_pc_self ..) (by
        simp only [St.goto, slotChunkLen] at hm ⊢
        omega)
      refine ⟨q, .head ⟨t, hstep⟩ hrun, hq', hend, ?_, hcalls, hdone, hthreads⟩
      intro u hu
      rw [hpc u hu, goto_pc_ne _ _ hu]
    · exact ⟨p, .refl, hq, hmore, fun _ _ => rfl, rfl, rfl, rfl⟩

/-- A call that finds the lock free returns, if nobody else runs. -/
theorem Pool.Inv.call_alone {p e : Pool W} {t : Nat} {g : Growth} (hI : p.Inv) (hidle : p.Idle) (hs : PoolStep t p e)
    (hst : e.st = p.st.goto t (.gLock g.target)) (hcall : e.calls t = some g) :
    ∃ q, ReflTransGen PoolRun p q ∧ q.Idle ∧ q.done = e.done ++ [g] ∧ q.registeredThreads = e.registeredThreads := by
  have hpc : e.st.pc t = .gLock g.target := by rw [hst, goto_pc_self]
  have hlock : PoolStep t e _ := .other (({ e.st with poolLock := some t } : St W).goto t (.grow g.target))
    (.share (by rw [hpc]; exact .gLock _ (by rw [hst]; exact hidle.2)))
    (by rw [hpc]; simp) (by simp)
  obtain ⟨q, hrun, hq, hend, hothers, hcalls, hdone, hthreads⟩ :=
    grow_alone _ ((hI.step hs).step hlock) (goto_pc_self ..) le_rfl
  refine ⟨_, ((ReflTransGen.head ⟨t, hs⟩ (.head ⟨t, hlock⟩ hrun)).tail
    ⟨t, .grown _ g _ hq (by rw [hcalls]; exact hcall) (.grown _ hend)⟩), ⟨?_, rfl⟩, ?_, hthreads⟩
  · intro u
    by_cases hu : u = t
    · subst hu
      exact ⟨_, goto_pc_self ..⟩
    · obtain ⟨r, hr⟩ := hidle.1 u
      refine ⟨r, ?_⟩
      simp only [leave, goto_pc_ne _ _ hu]
      rw [hothers u hu, goto_pc_ne _ _ hu]
      change e.st.pc u = .ret r
      rw [hst, goto_pc_ne _ _ hu, hr]
  · simp only [leave, hdone]

/-- `init(numSlots)`, then one thread registers, all on one actor. -/
theorem init_then_register (W : Walk) (numSlots : Nat) : ∃ p : Pool W, Reach Pool.start PoolRun p ∧ p.Quiet ∧
    p.done = [.init numSlots, .register 1] := by
  have hstart : Reach Pool.start PoolRun (⟨_, fun _ => none, 0, fun _ => none, []⟩ : Pool W) :=
    .start ⟨rfl, rfl, rfl, rfl, rfl⟩
  obtain ⟨p, hrun, hidle, hdone, hthreads⟩ := (Pool.inv_of_run hstart).call_alone (t := 0) (g := .init numSlots)
    ⟨fun _ => ⟨_, rfl⟩, rfl⟩ (.init _ numSlots rfl) rfl (by simp [Pool.enter])
  have hp := hstart.trans hrun
  obtain ⟨r, hr⟩ := hidle.1 0
  obtain ⟨q, hrun, hidle, hdone', -⟩ :=
    (Pool.inv_of_run hp).call_alone (t := 0) (g := .register (p.registeredThreads + 1))
    hidle (.register r hr) rfl (by simp [Pool.enter])
  have hq := hp.trans hrun
  refine ⟨q, hq, ?_, ?_⟩
  · intro t
    obtain ⟨r, hr⟩ := hidle.1 t
    exact (Pool.inv_of_run hq).idle hr
  · rw [hdone', hthreads]
    exact congrArg (· ++ _) hdone

/-- `fh_init(20)` and one registration: 32 slots, at least 22. -/
theorem pool_size_twenty : ∃ p : Pool countdown, Reach Pool.start PoolRun p ∧ p.largest = 20 ∧ p.registrations = 1 ∧
    22 ≤ p.slots.length ∧ p.slots.length ≤ 1024 := by
  obtain ⟨p, hp, -, hdone⟩ := init_then_register countdown 20
  obtain ⟨hmax, -, -, -, -, hcov, -⟩ := pool_size hp
  have hn : p.largest = 20 := by rw [Pool.largest, hdone]; rfl
  have hk : p.registrations = 1 := by rw [Pool.registrations, hdone]; rfl
  rw [hn, hk] at hcov
  exact ⟨p, hp, hn, hk, hcov (by decide), hmax⟩

/-- `fh_init(32)` and one registration leave 32 slots, two fewer than documented. -/
theorem registered_thread_adds_none : ∃ p : Pool countdown, Reach Pool.start PoolRun p ∧ p.Quiet ∧ p.largest = 32 ∧
    p.registrations = 1 ∧ p.slots.length = 32 ∧ ¬ min 1024 (p.largest + 2 * p.registrations) ≤ p.slots.length := by
  obtain ⟨p, hp, hq, hdone⟩ := init_then_register countdown 32
  have hI := Pool.inv_of_run hp
  have hn : p.largest = 32 := by rw [Pool.largest, hdone]; rfl
  have hk : p.registrations = 1 := by rw [Pool.registrations, hdone]; rfl
  have hlen : p.slots.length = 32 := by
    have hlo := hI.asked_le
    have hhi := hI.lt_asked hq
    obtain ⟨m, hm⟩ := hI.whole.1
    rw [hn, hk] at hlo hhi
    rw [hI.slots_length]
    simp only [asked, slotChunkLen, maxSlotChunks, defaultSlots, slotsPerThread, one_ne_zero, if_false] at hlo hhi hm
    omega
  refine ⟨p, hp, hq, hn, hk, hlen, ?_⟩
  rw [hn, hk, hlen]
  decide

end FramehopUnwind.State
