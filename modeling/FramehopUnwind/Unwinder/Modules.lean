/-
  FramehopUnwind.Unwinder.Modules — the chunked module list
  (vendor/framehop/src/unwinder.rs, `UnwinderInternal`).

  Modules are kept sorted by the start of their address range, in chunks shared between
  clones; a change copies the one chunk it touches. Values here are immutable, so sharing
  is invisible. `D` is a module's unwind data; its name is kept for debugging only and is
  left out. An address is a `Nat`; the code's are 64-bit.

  A change takes a fresh generation from the global counter, which panics when exhausted:
  `none`. The list is edited before the generation is taken, so a panicking call leaves
  its unwinder edited under the old generation; the panic unwinds out of the caller's
  closure, which drops that unwinder, or aborts.

  Proved:
  - `insertModule_flat` / `deleteModule_flat`: on the concatenation of the chunks, an edit
    inserts, or deletes, one module at one place.
  - `insertModule_wf` / `deleteModule_wf`: an edit keeps `WF`, so an `UnwinderInternal`
    carries it.
  - `findModuleForAddress_spec`: a lookup takes a module with the greatest start at or
    below the address.
-/

import FramehopUnwind.Lib.Search

namespace FramehopUnwind.Unwinder

open Lib.Search

structure Range where
  start : Nat
  stop : Nat
  deriving DecidableEq, Repr

structure Module (D : Type) where
  avmaRange : Range
  baseAvma : Nat
  baseSvma : Nat
  unwindData : D
  deriving DecidableEq, Repr

variable {D : Type}

def Module.start (m : Module D) : Nat := m.avmaRange.start

abbrev Chunks (D : Type) := List (List (Module D))

/-- The most modules a chunk holds after a split. -/
def moduleChunk : Nat := 64

/-- `chunk[0].avma_range.start`; indexing an empty chunk would panic, and there is none (`WF`). -/
def headStart (chunk : List (Module D)) : Nat := (chunk.head?.map Module.start).getD 0

/-- The chunk that holds the module with the highest start at or below `address`, or the
    first chunk if there is none. -/
def chunkIndexFor (chunks : Chunks D) (address : Nat) : Nat :=
  match binarySearchByKey chunks address headStart with
  | .ok i => i
  | .error 0 => 0
  | .error (i + 1) => i

/-- `add_module`'s edit of the list. -/
def insertModule (chunks : Chunks D) (m : Module D) : Chunks D :=
  if chunks.isEmpty then [[m]]
  else
    let chunkIndex := chunkIndexFor chunks m.start
    let chunk := chunks.getD chunkIndex []
    let chunk := chunk.insertIdx (insertionIndex chunk m.start Module.start) m
    if 2 * moduleChunk < chunk.length then
      (chunks.set chunkIndex (chunk.take moduleChunk)).insertIdx (chunkIndex + 1) (chunk.drop moduleChunk)
    else chunks.set chunkIndex chunk

/-- `remove_module`'s edit of the list, or `none` when no module starts there. -/
def deleteModule (chunks : Chunks D) (start : Nat) : Option (Chunks D) :=
  if chunks.isEmpty then none
  else
    let chunkIndex := chunkIndexFor chunks start
    let chunk := chunks.getD chunkIndex []
    match binarySearchByKey chunk start Module.start with
    | .error _ => none
    | .ok index =>
      let chunk := chunk.eraseIdx index
      some (if chunk.isEmpty then chunks.eraseIdx chunkIndex else chunks.set chunkIndex chunk)

def maxKnownCodeAddress (chunks : Chunks D) : Nat :=
  match chunks.getLast?.bind List.getLast? with
  | none => 0
  | some m => m.avmaRange.stop

/-- The module a lookup takes, before its address is made relative. -/
def takenModule (chunks : Chunks D) (address : Nat) : Option (Module D) :=
  if chunks.isEmpty then none
  else
    let chunk := chunks.getD (chunkIndexFor chunks address) []
    match binarySearchByKey chunk address Module.start with
    | .ok i => chunk[i]?
    | .error 0 => none
    | .error (i + 1) =>
      match chunk[i]? with
      | none => none
      | some m => if m.avmaRange.stop ≤ address then none else some m

def findModuleForAddress (chunks : Chunks D) (address : Nat) : Option (Module D × Nat) :=
  match takenModule chunks address with
  | none => none
  | some m =>
    if address < m.baseAvma then none
    else if address - m.baseAvma < 2 ^ 32 then some (m, address - m.baseAvma)
    else none

/-! ## Well-formed lists -/

/-- Chunks are non-empty, hold at most `2 * moduleChunk` modules, and are sorted as one list. -/
structure WF (chunks : Chunks D) : Prop where
  nonempty : ∀ c ∈ chunks, c ≠ []
  bounded : ∀ c ∈ chunks, c.length ≤ 2 * moduleChunk
  sorted : SortedBy Module.start chunks.flatten

theorem wf_nil : WF ([] : Chunks D) := ⟨by simp, by simp, List.Pairwise.nil⟩

theorem headStart_mem {c : List (Module D)} (h : c ≠ []) : ∃ m ∈ c, m.start = headStart c := by
  obtain ⟨m, r, rfl⟩ := List.exists_cons_of_ne_nil h
  exact ⟨m, by simp, rfl⟩

theorem headStart_le {c : List (Module D)} (hs : SortedBy Module.start c) :
    ∀ m ∈ c, headStart c ≤ m.start := by
  intro m hm
  cases c with
  | nil => cases hm
  | cons x r =>
    show x.start ≤ m.start
    rcases List.mem_cons.mp hm with rfl | hm
    · exact Nat.le_refl _
    · exact List.rel_of_pairwise_cons hs hm

theorem sorted_append {l r : List (Module D)} : SortedBy Module.start (l ++ r) ↔
    SortedBy Module.start l ∧ SortedBy Module.start r ∧ ∀ a ∈ l, ∀ b ∈ r, a.start ≤ b.start :=
  List.pairwise_append

/-- The parts of a well-formed list around one of its chunks. -/
theorem WF.split {pre post : Chunks D} {c : List (Module D)} (h : WF (pre ++ c :: post)) :
    c ≠ [] ∧ SortedBy Module.start pre.flatten ∧ SortedBy Module.start c ∧ SortedBy Module.start post.flatten ∧
      (∀ a ∈ pre.flatten, a.start ≤ headStart c) ∧ (∀ a ∈ c, ∀ b ∈ post.flatten, a.start ≤ b.start) ∧
      (∀ a ∈ pre.flatten, ∀ b ∈ post.flatten, a.start ≤ b.start) := by
  have hne : c ≠ [] := h.nonempty c (by simp)
  have hs := h.sorted
  rw [List.flatten_append, List.flatten_cons, sorted_append, sorted_append] at hs
  obtain ⟨h1, ⟨h2, h3, h4⟩, h5⟩ := hs
  refine ⟨hne, h1, h2, h3, ?_, h4, fun a ha b hb => h5 a ha b (List.mem_append_right _ hb)⟩
  intro a ha
  obtain ⟨m, hm, e⟩ := headStart_mem hne
  rw [← e]
  exact h5 a ha m (List.mem_append_left _ hm)

theorem WF.heads_sorted {chunks : Chunks D} (h : WF chunks) : SortedBy headStart chunks := by
  induction chunks with
  | nil => exact List.Pairwise.nil
  | cons c r ih =>
    have hr : WF r := ⟨fun x hx => h.nonempty x (List.mem_cons_of_mem _ hx),
      fun x hx => h.bounded x (List.mem_cons_of_mem _ hx), (sorted_append.mp h.sorted).2.1⟩
    refine List.Pairwise.cons ?_ (ih hr)
    intro d hd
    obtain ⟨m, hm, e⟩ := headStart_mem (h.nonempty c (by simp))
    obtain ⟨n, hn, e'⟩ := headStart_mem (hr.nonempty d hd)
    rw [← e, ← e']
    exact (sorted_append.mp h.sorted).2.2 m hm n (List.mem_flatten.mpr ⟨d, hd, hn⟩)

/-! ## The chunk an address falls in -/

/-- `c` is the chunk `chunkIndexFor` gives for `a`: its head is `a`, or nothing outside it
    has start `a` and it is the last chunk whose head is at or below `a`. -/
structure Located (chunks : Chunks D) (a : Nat) (pre : Chunks D) (c : List (Module D)) (post : Chunks D) : Prop where
  eq : chunks = pre ++ c :: post
  index : chunkIndexFor chunks a = pre.length
  head : pre = [] ∨ headStart c ≤ a
  hit : headStart c = a ∨ (∀ m ∈ pre.flatten, m.start < a) ∧ ∀ m ∈ post.flatten, a < m.start

theorem located {chunks : Chunks D} (wf : WF chunks) (hne : chunks ≠ []) (a : Nat) :
    ∃ pre c post, Located chunks a pre c post := by
  have hpos : 0 < chunks.length := List.length_pos_of_ne_nil hne
  cases hs : binarySearchByKey chunks a headStart with
  | ok i =>
    obtain ⟨c0, hc0, hk⟩ := search_ok wf.heads_sorted hs
    obtain ⟨pre, post, e, el⟩ := split_at hc0
    exact ⟨pre, c0, post, e, by simp [chunkIndexFor, hs, el], Or.inr hk.le, Or.inl hk⟩
  | error i =>
    have g := search_error wf.heads_sorted hs
    cases i with
    | zero =>
      -- every head is above `a`, so is everything
      obtain ⟨pre, post, e, el⟩ := split_at (List.getElem?_eq_getElem hpos)
      have hp : pre = [] := List.eq_nil_of_length_eq_zero el.symm
      subst hp
      generalize chunks[0] = c at e
      refine ⟨[], c, post, e, by simp [chunkIndexFor, hs], Or.inl rfl, Or.inr ⟨by simp, ?_⟩⟩
      intro m hm
      subst e
      have hgt := g.after c (by simp)
      obtain ⟨n, hn, en⟩ := headStart_mem wf.split.1
      exact Nat.lt_of_lt_of_le (en ▸ hgt) (wf.split.2.2.2.2.2.1 n hn m hm)
    | succ i =>
      have hi : i < chunks.length := g.le_length
      obtain ⟨pre, post, e, el⟩ := split_at (List.getElem?_eq_getElem hi)
      generalize chunks[i] = c at e
      subst e; subst el
      have hc : headStart c < a := g.before c (by rw [List.take_append]; simp)
      have hpost : ∀ d ∈ post, a < headStart d := fun d hd => g.after d (by rw [List.drop_append]; simp [hd])
      refine ⟨pre, c, post, rfl, by simp [chunkIndexFor, hs], Or.inr hc.le, Or.inr ⟨?_, ?_⟩⟩
      · intro m hm
        exact Nat.lt_of_le_of_lt (wf.split.2.2.2.2.1 m hm) hc
      · intro m hm
        obtain ⟨d, hd, hmd⟩ := List.mem_flatten.mp hm
        have hsd : SortedBy Module.start d :=
          List.Pairwise.sublist (List.sublist_flatten_of_mem hd) wf.split.2.2.2.1
        exact Nat.lt_of_lt_of_le (hpost d hd) (headStart_le hsd m hmd)

namespace Located

variable {chunks : Chunks D} {a : Nat} {pre : Chunks D} {c : List (Module D)} {post : Chunks D}

theorem getD (h : Located chunks a pre c post) : chunks.getD (chunkIndexFor chunks a) [] = c := by
  rw [h.index, h.eq]; simp

theorem flat (h : Located chunks a pre c post) : chunks.flatten = pre.flatten ++ (c ++ post.flatten) := by
  rw [h.eq]; simp

theorem set (h : Located chunks a pre c post) (d : List (Module D)) :
    chunks.set (chunkIndexFor chunks a) d = pre ++ d :: post := by
  rw [h.index, h.eq]; simp

/-- Everything before the chunk is at or below `a`, everything after it at or above. -/
theorem bounds (h : Located chunks a pre c post) (wf : WF chunks) :
    (∀ m ∈ pre.flatten, m.start ≤ a) ∧ ∀ m ∈ post.flatten, a ≤ m.start := by
  rcases h.hit with hh | ⟨hb, ha⟩
  · subst hh
    have hs := (h.eq ▸ wf).split
    obtain ⟨n, hn, e⟩ := headStart_mem hs.1
    exact ⟨hs.2.2.2.2.1, fun m hm => e ▸ hs.2.2.2.2.2.1 n hn m hm⟩
  · exact ⟨fun m hm => (hb m hm).le, fun m hm => (ha m hm).le⟩

/-- A module with start `a` is in the chunk, if there is one at all. -/
theorem mem_chunk (h : Located chunks a pre c post) (wf : WF chunks) (hm : ∃ m ∈ chunks.flatten, m.start = a) :
    ∃ m ∈ c, m.start = a := by
  rcases h.hit with hh | ⟨hb, ha⟩
  · obtain ⟨n, hn, e⟩ := headStart_mem (h.eq ▸ wf).split.1
    exact ⟨n, hn, e.trans hh⟩
  · obtain ⟨m, hm, e⟩ := hm
    rw [h.flat] at hm
    simp only [List.mem_append] at hm
    rcases hm with hm | hm | hm
    · exact absurd e (hb m hm).ne
    · exact ⟨m, hm, e⟩
    · exact absurd e (ha m hm).ne'

end Located

/-! ## Edits -/

/-- What `add_module` does to the chunk it lands in: replace it, or split it in two. -/
theorem insertModule_eq {chunks : Chunks D} {m : Module D} {pre post : Chunks D} {c : List (Module D)}
    (h : Located chunks m.start pre c post) (hne : chunks ≠ []) :
    let c' := c.insertIdx (insertionIndex c m.start Module.start) m
    insertModule chunks m =
      if 2 * moduleChunk < c'.length then pre ++ c'.take moduleChunk :: c'.drop moduleChunk :: post
      else pre ++ c' :: post := by
  intro c'
  simp only [insertModule, List.isEmpty_iff, hne, if_false, h.getD]
  split
  · rw [h.set, h.index]
    have := insertIdx_append (pre ++ [c'.take moduleChunk]) post (c'.drop moduleChunk)
    simpa using this
  · exact h.set c'

/-- Adding a module inserts it at one place of the concatenation, between the modules
    starting at or below it and those starting at or above it. -/
theorem insertModule_flat {chunks : Chunks D} (wf : WF chunks) (m : Module D) :
    ∃ l r, chunks.flatten = l ++ r ∧ (insertModule chunks m).flatten = l ++ m :: r ∧
      (∀ x ∈ l, x.start ≤ m.start) ∧ ∀ x ∈ r, m.start ≤ x.start := by
  by_cases hne : chunks = []
  · subst hne
    exact ⟨[], [], rfl, rfl, by simp, by simp⟩
  obtain ⟨pre, c, post, h⟩ := located wf hne m.start
  obtain ⟨hb, ha⟩ := h.bounds wf
  obtain ⟨l, r, hc, hi, hl, hr⟩ := insert_at (h.eq ▸ wf).split.2.2.1 m
  refine ⟨pre.flatten ++ l, r ++ post.flatten, by rw [h.flat, hc]; simp, ?_, ?_, ?_⟩
  · rw [insertModule_eq h hne, hi]
    split
    · have : ∀ t : List (Module D), t.take moduleChunk ++ (t.drop moduleChunk ++ post.flatten) = t ++ post.flatten := by
        intro t; rw [← List.append_assoc, List.take_append_drop]
      simp only [List.flatten_append, List.flatten_cons, this]
      simp
    · simp
  · intro x hx
    rcases List.mem_append.mp hx with hx | hx
    · exact hb x hx
    · exact hl x hx
  · intro x hx
    rcases List.mem_append.mp hx with hx | hx
    · exact hr x hx
    · exact ha x hx

theorem sorted_insert {l r : List (Module D)} {m : Module D} (h : SortedBy Module.start (l ++ r))
    (hl : ∀ x ∈ l, x.start ≤ m.start) (hr : ∀ x ∈ r, m.start ≤ x.start) :
    SortedBy Module.start (l ++ m :: r) := by
  obtain ⟨h1, h2, h3⟩ := sorted_append.mp h
  refine sorted_append.mpr ⟨h1, List.Pairwise.cons hr h2, ?_⟩
  intro a ha b hb
  rcases List.mem_cons.mp hb with rfl | hb
  · exact hl a ha
  · exact h3 a ha b hb

theorem insertModule_wf {chunks : Chunks D} (wf : WF chunks) (m : Module D) : WF (insertModule chunks m) := by
  have hsorted : SortedBy Module.start (insertModule chunks m).flatten := by
    obtain ⟨l, r, e, e', hl, hr⟩ := insertModule_flat wf m
    rw [e']
    exact sorted_insert (e ▸ wf.sorted) hl hr
  by_cases hne : chunks = []
  · subst hne
    exact ⟨by simp [insertModule], by simp [insertModule, moduleChunk], hsorted⟩
  obtain ⟨pre, c, post, h⟩ := located wf hne m.start
  obtain ⟨l, r, hc, hi, -, -⟩ := insert_at (h.eq ▸ wf).split.2.2.1 m
  have hlen : c.length ≤ 2 * moduleChunk := wf.bounded c (by rw [h.eq]; simp)
  have hlen' : (l ++ m :: r).length = c.length + 1 := by rw [hc]; simp; omega
  have old : ∀ d, d ∈ pre ∨ d ∈ post → d ≠ [] ∧ d.length ≤ 2 * moduleChunk := fun d hd => by
    have hm : d ∈ chunks := by rw [h.eq]; rcases hd with hd | hd <;> simp [hd]
    exact ⟨wf.nonempty d hm, wf.bounded d hm⟩
  have new : ∀ d ∈ insertModule chunks m, d ≠ [] ∧ d.length ≤ 2 * moduleChunk := by
    rw [insertModule_eq h hne, hi]
    intro d hd
    split at hd
    · rename_i hsplit
      simp only [List.mem_append, List.mem_cons] at hd
      rcases hd with hd | rfl | rfl | hd
      · exact old d (Or.inl hd)
      · refine ⟨?_, by simp [moduleChunk]⟩
        intro e
        have := congrArg List.length e
        simp [moduleChunk] at this hsplit
      · refine ⟨?_, by simp [moduleChunk] at hlen hlen' ⊢; omega⟩
        intro e
        have := congrArg List.length e
        simp [moduleChunk] at this hsplit
        omega
      · exact old d (Or.inr hd)
    · rename_i hsplit
      simp only [List.mem_append, List.mem_cons] at hd
      rcases hd with hd | rfl | hd
      · exact old d (Or.inl hd)
      · exact ⟨by simp, by omega⟩
      · exact old d (Or.inr hd)
  exact ⟨fun d hd => (new d hd).1, fun d hd => (new d hd).2, hsorted⟩

/-- What `remove_module` does: nothing when no module has that start, else one module with
    that start leaves its chunk, and an emptied chunk leaves the list. -/
theorem deleteModule_cases {chunks : Chunks D} (wf : WF chunks) (start : Nat) :
    (deleteModule chunks start = none ∧ ∀ x ∈ chunks.flatten, x.start ≠ start) ∨
    ∃ pre l m r post, chunks = pre ++ (l ++ m :: r) :: post ∧ m.start = start ∧
      deleteModule chunks start = some (if l ++ r = [] then pre ++ post else pre ++ (l ++ r) :: post) := by
  by_cases hne : chunks = []
  · subst hne
    exact Or.inl ⟨rfl, by simp⟩
  obtain ⟨pre, c, post, h⟩ := located wf hne start
  have hsc := (h.eq ▸ wf).split.2.2.1
  simp only [deleteModule, List.isEmpty_iff, hne, if_false, h.getD]
  cases hs : binarySearchByKey c start Module.start with
  | error i =>
    refine Or.inl ⟨rfl, ?_⟩
    intro x hx e
    obtain ⟨y, hy, ey⟩ := h.mem_chunk wf ⟨x, hx, e⟩
    exact (search_error hsc hs).not_mem y hy ey
  | ok i =>
    obtain ⟨m, hm, hk⟩ := search_ok hsc hs
    obtain ⟨l, r, rfl, rfl⟩ := split_at hm
    refine Or.inr ⟨pre, l, m, r, post, h.eq, hk, ?_⟩
    simp only [eraseIdx_append, h.set]
    rw [h.index, h.eq, eraseIdx_append]

theorem deleteModule_none {chunks : Chunks D} (wf : WF chunks) {start : Nat} :
    deleteModule chunks start = none ↔ ∀ x ∈ chunks.flatten, x.start ≠ start := by
  rcases deleteModule_cases wf start with ⟨e, h⟩ | ⟨pre, l, m, r, post, e, hm, hd⟩
  · exact ⟨fun _ => h, fun _ => e⟩
  · constructor
    · intro hn; rw [hd] at hn; cases hn
    · intro hn; exact absurd hm (hn m (by rw [e]; simp))

/-- Removing a module deletes one with that start from the concatenation. -/
theorem deleteModule_flat {chunks chunks' : Chunks D} (wf : WF chunks) {start : Nat}
    (h : deleteModule chunks start = some chunks') :
    ∃ l m r, chunks.flatten = l ++ m :: r ∧ m.start = start ∧ chunks'.flatten = l ++ r := by
  rcases deleteModule_cases wf start with ⟨e, -⟩ | ⟨pre, l, m, r, post, e, hm, hd⟩
  · rw [e] at h; cases h
  · rw [hd] at h
    injection h with h
    refine ⟨pre.flatten ++ l, m, r ++ post.flatten, by rw [e]; simp, hm, ?_⟩
    subst h
    split
    · rename_i hlr
      obtain ⟨rfl, rfl⟩ := List.append_eq_nil_iff.mp hlr
      simp
    · simp

theorem deleteModule_wf {chunks chunks' : Chunks D} (wf : WF chunks) {start : Nat}
    (h : deleteModule chunks start = some chunks') : WF chunks' := by
  have hsorted : SortedBy Module.start chunks'.flatten := by
    obtain ⟨l, m, r, e, -, e'⟩ := deleteModule_flat wf h
    rw [e']
    refine List.Pairwise.sublist ?_ (e ▸ wf.sorted)
    exact List.Sublist.append_left (List.sublist_cons_self m r) l
  rcases deleteModule_cases wf start with ⟨e, -⟩ | ⟨pre, l, m, r, post, e, hm, hd⟩
  · rw [e] at h; cases h
  rw [hd] at h
  injection h with h
  have hc := wf.bounded (l ++ m :: r) (by rw [e]; simp)
  have old : ∀ d, d ∈ pre ∨ d ∈ post → d ≠ [] ∧ d.length ≤ 2 * moduleChunk := fun d hd => by
    have hm : d ∈ chunks := by rw [e]; rcases hd with hd | hd <;> simp [hd]
    exact ⟨wf.nonempty d hm, wf.bounded d hm⟩
  have new : ∀ d ∈ chunks', d ≠ [] ∧ d.length ≤ 2 * moduleChunk := by
    intro d hd
    subst h
    split at hd
    · exact old d (List.mem_append.mp hd)
    · rename_i hlr
      simp only [List.mem_append, List.mem_cons] at hd
      rcases hd with hd | rfl | hd
      · exact old d (Or.inl hd)
      · exact ⟨hlr, by simp at hc ⊢; omega⟩
      · exact old d (Or.inr hd)
  exact ⟨fun d hd => (new d hd).1, fun d hd => (new d hd).2, hsorted⟩

/-! ## Lookups -/

/-- `m` has the greatest start at or below `a` among `l`; with distinct starts there is at
    most one such module. -/
structure Pred (l : List (Module D)) (a : Nat) (m : Module D) : Prop where
  mem : m ∈ l
  le : m.start ≤ a
  greatest : ∀ x ∈ l, x.start ≤ a → x.start ≤ m.start

theorem Pred.unique {l : List (Module D)} {a : Nat} {m n : Module D} (hd : (l.map Module.start).Nodup)
    (hm : Pred l a m) (hn : Pred l a n) : m = n :=
  List.inj_on_of_nodup_map hd hm.mem hn.mem
    (Nat.le_antisymm (hn.greatest m hm.mem hm.le) (hm.greatest n hn.mem hn.le))

/-- The module a lookup considers; `takenModule` also drops it when the address is past
    its end. -/
theorem takenModule_spec {chunks : Chunks D} (wf : WF chunks) (a : Nat) :
    (takenModule chunks a = none ∧ ∀ x ∈ chunks.flatten, a < x.start) ∨
    ∃ m, Pred chunks.flatten a m ∧
      takenModule chunks a = if a = m.start ∨ a < m.avmaRange.stop then some m else none := by
  by_cases hne : chunks = []
  · subst hne
    exact Or.inl ⟨rfl, by simp⟩
  obtain ⟨pre, ch, post, h⟩ := located wf hne a
  obtain ⟨hcne, -, hsc, -, hpre, -, -⟩ := (h.eq ▸ wf).split
  simp only [takenModule, List.isEmpty_iff, hne, if_false, h.getD, h.flat]
  cases hs : binarySearchByKey ch a Module.start with
  | ok i =>
    obtain ⟨m, hm, hk⟩ := search_ok hsc hs
    refine Or.inr ⟨m, ⟨?_, hk.le, fun x _ hx => hk ▸ hx⟩, by simp [hm, hk]⟩
    have := List.mem_of_getElem? hm
    simp [this]
  | error i =>
    have g := search_error hsc hs
    -- no module of the chunk starts at `a`, so the head does not either
    have hout := h.hit.resolve_left fun e => by
      obtain ⟨n, hn, en⟩ := headStart_mem hcne
      exact g.not_mem n hn (en.trans e)
    cases i with
    | zero =>
      have hc : ∀ x ∈ ch, a < x.start := g.after
      have hp : pre = [] := h.head.resolve_right fun hle => by
        obtain ⟨n, hn, en⟩ := headStart_mem hcne
        have := hc n hn
        omega
      subst hp
      refine Or.inl ⟨rfl, ?_⟩
      intro x hx
      simp only [List.flatten_nil, List.nil_append, List.mem_append] at hx
      exact hx.elim (hc x) (hout.2 x)
    | succ i =>
      obtain ⟨m, hx, hlt, hgreatest⟩ := g.last hsc
      have hmem := List.mem_of_getElem? hx
      refine Or.inr ⟨m, ⟨by simp [hmem], hlt.le, ?_⟩, ?_⟩
      · intro x hx hxa
        simp only [List.mem_append] at hx
        rcases hx with hx | hx | hx
        · exact Nat.le_trans (hpre x hx) (headStart_le hsc m hmem)
        · exact hgreatest x hx hxa
        · have := hout.2 x hx
          omega
      · have hne : a ≠ m.start := hlt.ne'
        simp only [hx, hne, false_or]
        by_cases hstop : m.avmaRange.stop ≤ a
        · rw [if_pos hstop, if_neg (Nat.not_lt.mpr hstop)]
        · rw [if_neg hstop, if_pos (Nat.lt_of_not_le hstop)]

/-- Whether a lookup that considers `m` for `a` returns it. -/
def Covers (m : Module D) (a : Nat) : Prop :=
  (a = m.start ∨ a < m.avmaRange.stop) ∧ m.baseAvma ≤ a ∧ a - m.baseAvma < 2 ^ 32

instance (m : Module D) (a : Nat) : Decidable (Covers m a) := inferInstanceAs (Decidable (_ ∧ _ ∧ _))

/-- A lookup considers a module with the greatest start at or below the address, if there
    is one, and returns it when it covers the address. -/
theorem findModuleForAddress_spec {chunks : Chunks D} (wf : WF chunks) (a : Nat) :
    (findModuleForAddress chunks a = none ∧ ∀ x ∈ chunks.flatten, a < x.start) ∨
    ∃ m, Pred chunks.flatten a m ∧
      findModuleForAddress chunks a = if Covers m a then some (m, a - m.baseAvma) else none := by
  rcases takenModule_spec wf a with ⟨e, h⟩ | ⟨m, hp, e⟩
  · exact Or.inl ⟨by simp [findModuleForAddress, e], h⟩
  · refine Or.inr ⟨m, hp, ?_⟩
    unfold findModuleForAddress
    rw [e]
    by_cases h1 : a = m.start ∨ a < m.avmaRange.stop
    · by_cases h2 : a < m.baseAvma
      · have : ¬ Covers m a := fun hc => Nat.not_le.mpr h2 hc.2.1
        simp only [h1, h2, this, if_true, if_false]
      · by_cases h3 : a - m.baseAvma < 2 ^ 32
        · have : Covers m a := ⟨h1, Nat.not_lt.mp h2, h3⟩
          simp only [h1, h2, h3, this, if_true, if_false]
        · have : ¬ Covers m a := fun hc => h3 hc.2.2
          simp only [h1, h2, h3, this, if_true, if_false]
    · have : ¬ Covers m a := fun hc => h1 hc.1
      simp only [h1, this, if_false]

/-- The module a lookup returns has its base at or below the address. -/
theorem findModuleForAddress_base {chunks : Chunks D} {a rel : Nat} {m : Module D}
    (h : findModuleForAddress chunks a = some (m, rel)) : m.baseAvma ≤ a := by
  unfold findModuleForAddress at h
  repeat' split at h
  all_goals cases h
  rename_i h _
  exact not_lt.mp h

/-- With distinct starts, a lookup returns `m` exactly when `m` has the greatest start at
    or below the address and covers it. -/
theorem findModuleForAddress_iff {chunks : Chunks D} (wf : WF chunks)
    (hd : (chunks.flatten.map Module.start).Nodup) (a : Nat) (m : Module D) (rel : Nat) :
    findModuleForAddress chunks a = some (m, rel) ↔
      Pred chunks.flatten a m ∧ Covers m a ∧ rel = a - m.baseAvma := by
  rcases findModuleForAddress_spec wf a with ⟨e, h⟩ | ⟨n, hn, e⟩
  · rw [e]
    refine ⟨fun h => (by cases h), fun ⟨hp, _⟩ => absurd hp.le (Nat.not_le.mpr (h m hp.mem))⟩
  · rw [e]
    constructor
    · intro h
      split at h
      · cases h; exact ⟨hn, ‹_›, rfl⟩
      · cases h
    · intro h₀
      obtain ⟨hp, hc, rfl⟩ := h₀
      have := Pred.unique hd hp hn
      subst this
      rw [if_pos hc]

end FramehopUnwind.Unwinder
