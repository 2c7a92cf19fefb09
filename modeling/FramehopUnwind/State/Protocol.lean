/-
  FramehopUnwind.State.Protocol — the shared state of the unwinder as a step relation
  (state.rs, and the calls of cursor.rs on it).

  Any number of actors, each between two calls or inside one; a reader in a signal handler
  is an actor of its own, so the writer it interrupted can stand anywhere. One step is one
  access to shared memory, under sequentially consistent interleaving: a load, a store, a
  CAS, a swap, a lock. What a slot's owner does to `SlotInner` between two accesses is one
  step, and so is one `SLOT_CHUNKS` store with the count its mutex guards.

  The walk is a parameter (`Walk`): nothing here depends on what unwinding computes.

  A slot is named by its index. A chunk is stored once, under the pool's lock, and never
  freed, so the index determines the slot (`Inv.grow_slots`).

  A snapshot lives at an address of `heap`; the allocator may hand out any free address,
  also one that was freed. Reading or freeing an address with nothing in it is `fault`.

  Cursors are values: any call may present any cursor a successful init wrote, however
  often and wherever it has been copied to. An uninitialised or finished cursor is dead.

  History variables (`claims`, `live`, `own`, `held`, `start`, `written`, `released`, `log`,
  `hist`, `frees`, a cursor's `claim`) are written and never read by the code's steps.
-/

import FramehopUnwind.Lib.Runs
import FramehopUnwind.Lib.Word

namespace FramehopUnwind.State

open Lib.Word Lib.Runs

/-! ## The data -/

/-- What one `step` call returns and writes: the code, `*out_ip` and `*out_sp`. -/
structure Out where
  rc : Int
  ip : Nat
  sp : Nat
  deriving DecidableEq, Repr

/-- A walk over an immutable snapshot: `Inner` is `SlotInner` less its snapshot pointer,
    `Args` what `cursor_init` reads, `Env` what a step reads outside the slot. A step is `none`
    if it panics, which aborts the process, or does not return; no access follows it. -/
structure Walk where
  Snap : Type
  Inner : Type
  Args : Type
  Env : Type
  placeholder : Inner
  fill : Args → Snap → Inner → Inner
  done : Inner → Bool
  step : Snap → Env → Inner → Option (Out × Inner)
  reg : Inner → Nat × Nat

/-- The address of a snapshot, never null. -/
abbrev Ptr := Nat

/-- `FhCursor` with its magic, and the number of the claim its nonce was issued for. -/
structure Cursor where
  slot : Nat
  nonce : Nat
  claim : Nat
  deriving DecidableEq, Repr

/-- Who has a slot: nobody, an actor inside `cursor_init` or `release_slot`, or the cursor
    a finished `cursor_init` wrote. -/
inductive Own where
  | free
  | actor (t : Nat)
  | cursor
  deriving DecidableEq, Repr

/-- A pointer `acquire_snapshot` returned: it was the `index`-th publication, and `since` had been made
    when the call started. -/
structure Held where
  ptr : Ptr
  index : Nat
  since : Nat
  deriving DecidableEq, Repr

/-- A walk's inputs and outputs since its init: the slot's inner state at the claim, what
    init read, the snapshot and how it was acquired, and what each step saw and gave. -/
structure Log (W : Walk) where
  start : W.Inner
  args : W.Args
  snap : W.Snap
  held : Option Held
  envs : List W.Env
  outs : List Out

structure Slot (W : Walk) where
  inUse : Bool
  seq : Nat
  hazard : Option Ptr
  inner : W.Inner
  /-- `inner.snapshot`. -/
  snapshot : Option Ptr
  /-- Claims so far: the last one is claim number `claims`. -/
  claims : Nat
  /-- The last claim is not released. -/
  live : Bool
  own : Own
  held : Option Held
  /-- The inner state when the slot was last claimed. -/
  start : W.Inner
  /-- The claims whose cursor was written, with its nonce. -/
  written : List (Nat × Nat)
  /-- The claims in the order their release was won. -/
  released : List Nat
  log : Option (Log W)

def Slot.new (W : Walk) : Slot W where
  inUse := false
  seq := 0
  hazard := none
  inner := W.placeholder
  snapshot := none
  claims := 0
  live := false
  own := .free
  held := none
  start := W.placeholder
  written := []
  released := []
  log := none

/-- A publication of CURRENT; `id` numbers the allocation. -/
structure Publication (W : Walk) where
  ptr : Ptr
  id : Nat
  snap : W.Snap

/-! ## Where an actor stands -/

inductive Op where
  | step
  | getReg
  deriving DecidableEq, Repr

/-- What the last call returned. A failed init names the claim it made, if any. -/
inductive Result where
  | idle
  | init (rc : Int) (claim : Option Cursor)
  | stepped (out : Out)
  | regs (ip sp : Nat)
  | finished
  | wrote
  | panicked
  | grown
  deriving DecidableEq, Repr

def Op.failed : Op → Result
  | .step => .stepped ⟨-1, 0, 0⟩
  | .getReg => .regs 0 0

/-- What a call returns after `release_slot`: init's code, or fini's nothing. -/
def afterRelease (c : Cursor) : Option Int → Result
  | some rc => .init rc (some c)
  | none => .finished

/-- The access an actor makes next. -/
inductive Pc (W : Walk) where
  | ret (r : Result)
  /-- A freed snapshot was read, or freed again; the slot the actor had taken. -/
  | fault (slot : Option Nat)
  -- claim_slot
  | claimChunk (a : W.Args) (chunk : Nat)
  | claimCas (a : W.Args) (i : Nat)
  | claimSeq (a : W.Args) (i : Nat)
  -- acquire_snapshot, which started with `since` publications
  | acqSlot (a : W.Args) (c : Cursor) (since : Nat)
  | acqLoad (a : W.Args) (c : Cursor) (since : Nat)
  | acqStore (a : W.Args) (c : Cursor) (since : Nat) (p : Ptr)
  | acqCheck (a : W.Args) (c : Cursor) (since : Nat) (p : Ptr)
  | acqNull (a : W.Args) (c : Cursor)
  -- the rest of cursor_init
  | maxCode (a : W.Args) (c : Cursor) (p : Ptr)
  | fillSlot (a : W.Args) (c : Cursor) (p : Ptr) (snap : W.Snap)
  | fill (a : W.Args) (c : Cursor) (p : Ptr) (snap : W.Snap)
  -- release_slot, from init (with its code) or from fini
  | relSlot (c : Cursor) (rc : Option Int)
  | relCas (c : Cursor) (rc : Option Int)
  | relHazard (c : Cursor) (rc : Option Int)
  | relSnapshot (c : Cursor) (rc : Option Int)
  | relInUse (c : Cursor) (rc : Option Int)
  -- step and get_reg
  | liveSlot (op : Op) (c : Cursor)
  | liveSeq (op : Op) (c : Cursor)
  | useSlot (op : Op) (c : Cursor)
  | use (op : Op) (c : Cursor)
  -- with_writer
  | wLock
  | wLoad
  | wBuild (cur : Option Ptr)
  | wSwap (new : Publication W)
  | wPush (old : Option Ptr)
  -- is_hazarded for the n-th retired snapshot
  | scanChunk (n chunk : Nat)
  | scanSlot (n i : Nat)
  | wFree (n : Nat)
  | wUnlock
  -- ensure_slots
  | gLock (n : Nat)
  | grow (n : Nat)

structure St (W : Walk) where
  pc : Nat → Pc W
  slots : Nat → Slot W
  /-- `SLOT_CHUNKS[i]` is not null. -/
  chunks : Nat → Bool
  allocated : Nat
  poolLock : Option Nat
  current : Option Ptr
  heap : Ptr → Option (Nat × W.Snap)
  retired : List Ptr
  writerLock : Option Nat
  /-- Allocations so far. -/
  nextId : Nat
  hist : List (Publication W)
  /-- The allocations freed, in order. -/
  frees : List Nat

def slotChunkLen : Nat := 16
def maxSlotChunks : Nat := 64

variable {W : Walk}

def init (s : St W) : Prop :=
  s = { pc := fun _ => .ret .idle, slots := fun _ => Slot.new W, chunks := fun _ => false, allocated := 0,
        poolLock := none, current := none, heap := fun _ => none, retired := [], writerLock := none, nextId := 0,
        hist := [], frees := [] }

/-- `slot_chunk(i)` is `Some`. -/
def St.chunk (s : St W) (i : Nat) : Prop := i < maxSlotChunks ∧ s.chunks i = true

/-- `slot(i)` is `Some`. -/
def St.hasSlot (s : St W) (i : Nat) : Prop := s.chunk (i / slotChunkLen)

def St.goto (s : St W) (t : Nat) (q : Pc W) : St W := { s with pc := Function.update s.pc t q }

def St.setSlot (s : St W) (i : Nat) (x : Slot W) : St W := { s with slots := Function.update s.slots i x }

@[simp] theorem goto_pc_self (s : St W) (t : Nat) (q : Pc W) : (s.goto t q).pc t = q := by simp [St.goto]

theorem goto_pc_ne (s : St W) {t t' : Nat} (q : Pc W) (h : t' ≠ t) : (s.goto t q).pc t' = s.pc t' := by
  simp [St.goto, h]

@[simp] theorem goto_slots (s : St W) (t : Nat) (q : Pc W) : (s.goto t q).slots = s.slots := rfl
@[simp] theorem goto_hist (s : St W) (t : Nat) (q : Pc W) : (s.goto t q).hist = s.hist := rfl

@[simp] theorem setSlot_slots_self (s : St W) (i : Nat) (x : Slot W) : (s.setSlot i x).slots i = x := by
  simp [St.setSlot]

theorem setSlot_slots_ne (s : St W) {i j : Nat} (x : Slot W) (h : j ≠ i) : (s.setSlot i x).slots j = s.slots j := by
  simp [St.setSlot, h]

@[simp] theorem setSlot_pc (s : St W) (i : Nat) (x : Slot W) : (s.setSlot i x).pc = s.pc := rfl
@[simp] theorem setSlot_hist (s : St W) (i : Nat) (x : Slot W) : (s.setSlot i x).hist = s.hist := rfl

@[simp] theorem goto_goto (s : St W) (t : Nat) (q q' : Pc W) : (s.goto t q).goto t q' = s.goto t q' := by simp [St.goto]

@[simp] theorem setSlot_setSlot (s : St W) (i : Nat) (x y : Slot W) : (s.setSlot i x).setSlot i y = s.setSlot i y := by
  simp [St.setSlot]

@[simp] theorem goto_setSlot (s : St W) (t : Nat) (q : Pc W) (i : Nat) (x : Slot W) :
    (s.goto t q).setSlot i x = (s.setSlot i x).goto t q := rfl

/-- `slots()` after slot `i`: the next slot of the chunk, or the next chunk. -/
def afterSlot (i : Nat) (chunk slot : Nat → Pc W) : Pc W :=
  if (i + 1) % slotChunkLen = 0 then chunk ((i + 1) / slotChunkLen) else slot (i + 1)

/-! ## Steps -/

/-- An access that writes nothing, or the start of a call. -/
inductive Move (s : St W) : Pc W → Pc W → Prop
  -- the calls
  | callInit (r a) : Move s (.ret r) (.claimChunk a 0)
  | callOp (r op) (c : Cursor) (hw : (c.claim, c.nonce) ∈ (s.slots c.slot).written) : Move s (.ret r) (.liveSlot op c)
  | callFini (r) (c : Cursor) (hw : (c.claim, c.nonce) ∈ (s.slots c.slot).written) : Move s (.ret r) (.relSlot c none)
  | deadOp (r) (op : Op) : Move s (.ret r) (.ret op.failed)
  | deadFini (r) : Move s (.ret r) (.ret .finished)
  | callWriter (r) : Move s (.ret r) .wLock
  | callGrow (r n) : Move s (.ret r) (.gLock n)
  -- claim_slot
  | claimChunk (a c) (h : s.chunk c) : Move s (.claimChunk a c) (.claimCas a (slotChunkLen * c))
  | claimNone (a c) (h : ¬ s.chunk c) : Move s (.claimChunk a c) (.ret (.init (-1) none))
  | claimBusy (a i) (h : (s.slots i).inUse = true) : Move s (.claimCas a i) (afterSlot i (.claimChunk a) (.claimCas a))
  -- acquire_snapshot
  | acqSlot (a c l) (h : s.hasSlot c.slot) : Move s (.acqSlot a c l) (.acqLoad a c l)
  | acqNoSlot (a c l) (h : ¬ s.hasSlot c.slot) : Move s (.acqSlot a c l) (.relSlot c (some (-2)))
  | acqLoad (a c l p) (h : s.current = some p) : Move s (.acqLoad a c l) (.acqStore a c l p)
  | acqLoadNull (a c l) (h : s.current = none) : Move s (.acqLoad a c l) (.acqNull a c)
  | acqRetry (a c l p) (h : s.current ≠ some p) : Move s (.acqCheck a c l p) (.acqLoad a c l)
  -- cursor_init
  | maxCode (a c p) (v : Nat × W.Snap) (h : s.heap p = some v) : Move s (.maxCode a c p) (.fillSlot a c p v.2)
  | maxCodeFault (a c p) (h : s.heap p = none) : Move s (.maxCode a c p) (.fault (some c.slot))
  | fillSlot (a c p snap) (h : s.hasSlot c.slot) : Move s (.fillSlot a c p snap) (.fill a c p snap)
  | fillNoSlot (a c p snap) (h : ¬ s.hasSlot c.slot) : Move s (.fillSlot a c p snap) (.relSlot c (some (-3)))
  -- release_slot
  | relSlot (c rc) (h : s.hasSlot c.slot) : Move s (.relSlot c rc) (.relCas c rc)
  | relNoSlot (c rc) (h : ¬ s.hasSlot c.slot) : Move s (.relSlot c rc) (.ret (afterRelease c rc))
  | relLost (c rc) (h : (s.slots c.slot).seq ≠ c.nonce) : Move s (.relCas c rc) (.ret (afterRelease c rc))
  -- is_live, then slot
  | liveSlot (op c) (h : s.hasSlot c.slot) : Move s (.liveSlot op c) (.liveSeq op c)
  | liveNoSlot (op c) (h : ¬ s.hasSlot c.slot) : Move s (.liveSlot op c) (.ret op.failed)
  | liveSeq (op c) (h : (s.slots c.slot).seq = c.nonce) : Move s (.liveSeq op c) (.useSlot op c)
  | notLive (op c) (h : (s.slots c.slot).seq ≠ c.nonce) : Move s (.liveSeq op c) (.ret op.failed)
  | useSlot (op c) (h : s.hasSlot c.slot) : Move s (.useSlot op c) (.use op c)
  | useNoSlot (op c) (h : ¬ s.hasSlot c.slot) : Move s (.useSlot op c) (.ret op.failed)
  | getReg (c) : Move s (.use .getReg c)
      (.ret (.regs (W.reg (s.slots c.slot).inner).1 (W.reg (s.slots c.slot).inner).2))
  | useFault (c p) (hd : W.done (s.slots c.slot).inner = false) (hp : (s.slots c.slot).snapshot = some p)
      (h : s.heap p = none) : Move s (.use .step c) (.fault none)
  -- with_writer
  | wLoad : Move s .wLoad (.wBuild s.current)
  | cloneFault (p) (h : s.heap p = none) : Move s (.wBuild (some p)) (.fault none)
  | scanChunk (n c p) (hn : s.retired[n]? = some p) (h : s.chunk c) :
      Move s (.scanChunk n c) (.scanSlot n (slotChunkLen * c))
  | notHazarded (n c p) (hn : s.retired[n]? = some p) (h : ¬ s.chunk c) : Move s (.scanChunk n c) (.wFree n)
  | scanHit (n i p) (hn : s.retired[n]? = some p) (h : (s.slots i).hazard = some p) :
      Move s (.scanSlot n i) (.scanChunk (n + 1) 0)
  | scanMiss (n i p) (hn : s.retired[n]? = some p) (h : (s.slots i).hazard ≠ some p) :
      Move s (.scanSlot n i) (afterSlot i (.scanChunk n) (.scanSlot n))
  | freeFault (n p) (hn : s.retired[n]? = some p) (h : s.heap p = none) : Move s (.wFree n) (.fault none)
  | reclaimed (n c) (h : s.retired[n]? = none) : Move s (.scanChunk n c) .wUnlock

def Slot.record (x : Slot W) (env : W.Env) (r : Out × W.Inner) : Slot W :=
  { x with inner := r.2, log := x.log.map fun w => { w with envs := w.envs ++ [env], outs := w.outs ++ [r.1] } }

/-- An access of actor `t` that writes one slot. -/
inductive Touch (s : St W) (t : Nat) : Pc W → Pc W → Nat → Slot W → Prop
  -- claim_slot
  | claimed (a i) (h : (s.slots i).inUse = false) :
      Touch s t (.claimCas a i) (.claimSeq a i) i
        { s.slots i with inUse := true, own := .actor t, start := (s.slots i).inner }
  | claimSeq (a i) :
      Touch s t (.claimSeq a i)
        (.acqSlot a ⟨i, wrappingAdd (s.slots i).seq 1, (s.slots i).claims + 1⟩ s.hist.length) i
        { s.slots i with seq := wrappingAdd (s.slots i).seq 1, claims := (s.slots i).claims + 1, live := true,
                         log := none }
  -- acquire_snapshot
  | acqStore (a c l p) :
      Touch s t (.acqStore a c l p) (.acqCheck a c l p) c.slot { s.slots c.slot with hazard := some p }
  | acquired (a c l p) (h : s.current = some p) :
      Touch s t (.acqCheck a c l p) (.maxCode a c p) c.slot
        { s.slots c.slot with held := some ⟨p, s.hist.length - 1, l⟩ }
  | acqNull (a c) : Touch s t (.acqNull a c) (.relSlot c (some (-2))) c.slot { s.slots c.slot with hazard := none }
  -- cursor_init
  | fill (a c p snap) :
      Touch s t (.fill a c p snap) (.ret (.init 0 (some c))) c.slot
        { s.slots c.slot with inner := W.fill a snap (s.slots c.slot).inner, snapshot := some p, own := .cursor,
                              written := (c.claim, c.nonce) :: (s.slots c.slot).written,
                              log := some ⟨(s.slots c.slot).start, a, snap, (s.slots c.slot).held, [], []⟩ }
  -- release_slot
  | relWon (c rc) (h : (s.slots c.slot).seq = c.nonce) :
      Touch s t (.relCas c rc) (.relHazard c rc) c.slot
        { s.slots c.slot with seq := wrappingAdd c.nonce 1, live := false, own := .actor t,
                              released := c.claim :: (s.slots c.slot).released }
  | relHazard (c rc) :
      Touch s t (.relHazard c rc) (.relSnapshot c rc) c.slot { s.slots c.slot with hazard := none, held := none }
  | relSnapshot (c rc) :
      Touch s t (.relSnapshot c rc) (.relInUse c rc) c.slot { s.slots c.slot with snapshot := none }
  | relInUse (c rc) :
      Touch s t (.relInUse c rc) (.ret (afterRelease c rc)) c.slot { s.slots c.slot with inUse := false, own := .free }

/-- A `step` call's work on its slot; the snapshot is read only where `step` reads it. -/
inductive Use (s : St W) : Cursor → W.Env → Out × W.Inner → Prop
  | done (c env) (h : W.done (s.slots c.slot).inner = true) : Use s c env (⟨0, 0, 0⟩, (s.slots c.slot).inner)
  | noSnapshot (c env) (hd : W.done (s.slots c.slot).inner = false) (hp : (s.slots c.slot).snapshot = none) :
      Use s c env (⟨-1, 0, 0⟩, (s.slots c.slot).inner)
  | step (c env p) (v : Nat × W.Snap) (r) (hd : W.done (s.slots c.slot).inner = false)
      (hp : (s.slots c.slot).snapshot = some p) (h : s.heap p = some v)
      (hr : W.step v.2 env (s.slots c.slot).inner = some r) : Use s c env r

/-- An access to the pool, to the writers' state or to CURRENT. -/
inductive Share (s : St W) (t : Nat) : Pc W → Pc W → St W → Prop
  -- with_writer
  | wLock (h : s.writerLock = none) : Share s t .wLock .wLoad { s with writerLock := some t }
  | wBuild (cur : Option Ptr) (p : Ptr) (snap : W.Snap) (hc : ∀ q, cur = some q → s.heap q ≠ none)
      (hp : s.heap p = none) :
      Share s t (.wBuild cur) (.wSwap ⟨p, s.nextId, snap⟩)
        { s with heap := Function.update s.heap p (some (s.nextId, snap)), nextId := s.nextId + 1 }
  | wPanic (cur) : Share s t (.wBuild cur) (.ret .panicked) { s with writerLock := none }
  | wSwap (new) : Share s t (.wSwap new) (.wPush s.current) { s with current := some new.ptr, hist := s.hist ++ [new] }
  | wPush (old : Option Ptr) : Share s t (.wPush old) (.scanChunk 0 0) { s with retired := s.retired ++ old.toList }
  | wFree (n p) (v : Nat × W.Snap) (hn : s.retired[n]? = some p) (h : s.heap p = some v) :
      Share s t (.wFree n) (.scanChunk n 0)
        { s with retired := s.retired.eraseIdx n, heap := Function.update s.heap p none, frees := s.frees ++ [v.1] }
  | wUnlock : Share s t .wUnlock (.ret .wrote) { s with writerLock := none }
  -- ensure_slots
  | gLock (n) (h : s.poolLock = none) : Share s t (.gLock n) (.grow n) { s with poolLock := some t }
  | grow (n) (hn : s.allocated < n) (h : s.allocated < slotChunkLen * maxSlotChunks) :
      Share s t (.grow n) (.grow n)
        { s with chunks := Function.update s.chunks (s.allocated / slotChunkLen) true,
                 slots := fun i => if i / slotChunkLen = s.allocated / slotChunkLen then Slot.new W else s.slots i,
                 allocated := s.allocated + slotChunkLen }
  | grown (n) (h : ¬ (s.allocated < n ∧ s.allocated < slotChunkLen * maxSlotChunks)) :
      Share s t (.grow n) (.ret .grown) { s with poolLock := none }

/-- One access by actor `t`. -/
inductive Step (t : Nat) (s : St W) : St W → Prop
  | move {q : Pc W} (h : Move s (s.pc t) q) : Step t s (s.goto t q)
  | touch {q : Pc W} {i : Nat} {x : Slot W} (h : Touch s t (s.pc t) q i x) : Step t s ((s.setSlot i x).goto t q)
  | use {c : Cursor} {env : W.Env} {r : Out × W.Inner} (hq : s.pc t = .use .step c) (h : Use s c env r) :
      Step t s ((s.setSlot c.slot ((s.slots c.slot).record env r)).goto t (.ret (.stepped r.1)))
  | share {q : Pc W} {s' : St W} (h : Share s t (s.pc t) q s') : Step t s (s'.goto t q)

end FramehopUnwind.State
