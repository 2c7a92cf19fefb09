/-
  FramehopUnwind.Modules.Jit — registering JIT code by its `.eh_frame` (src/modules/jit.rs).

  A buffer's code range is the hull of its FDEs, from the lowest start to the highest end.
  The module published for it claims the whole hull, and looks an address up in an index of
  its FDEs. The count of failed registrations is for diagnosis and left out.

  `live` is history: the buffers whose registration succeeded and whose key is still
  registered for them.

  Proved:
  - `fdePcRange_spec`: the range is the hull, and every entry of the buffer parsed.
  - `fdeOffset_of_rows`: the index maps an address to the FDE with the greatest start.
  - `jit_function_found_iff`: with disjoint functions, every function of every live buffer
    is found iff the hulls are disjoint too, every FDE's offset fits the index and no
    function ends at the very top of the address space.
  - `interleaved_hulls_hide_function`: two buffers whose functions alternate.
-/

import FramehopUnwind.Modules.Registry
import FramehopUnwind.Unwinder.Dwarf

namespace FramehopUnwind.Modules

open Unwinder Lib.Search Lib.Word

/-- A live `.eh_frame`, at its runtime address. -/
structure Buffer where
  ptr : Nat
  bytes : Bytes
  deriving DecidableEq, Repr

variable (G : Gimli)

/-! ## Registration -/

/-- The loop of `fde_pc_range`. -/
def pcRangeLoop : List (Option Entry) → Nat → Nat → Bool → Option (Nat × Nat)
  | [], lo, hi, found => if found ∧ lo < hi then some (lo, hi) else none
  | none :: _, _, _, _ => none
  | some .cie :: es, lo, hi, found => pcRangeLoop es lo hi found
  | some (.fde none) :: _, _, _, _ => none
  | some (.fde (some fde)) :: es, lo, hi, _ =>
    let start := fde.initialAddress
    let stop := wrappingAdd start fde.len
    pcRangeLoop es (if start < lo then start else lo) (if hi < stop then stop else hi) true

/-- The buffer's entries, with its runtime address as the only base. -/
def Buffer.entries (b : Buffer) : List (Option Entry) := G.entries .ehFrame b.bytes ⟨none, none, none, some b.ptr⟩

def fdePcRange (b : Buffer) : Option (Nat × Nat) := pcRangeLoop (b.entries G) u64Max 0 false

def jitModule (b : Buffer) (textLo textHi : Nat) : UnwindModule :=
  Module.new G ⟨textLo, textHi⟩ textLo
    { baseSvma := textLo
      textSvma := none
      ehFrameSvma := some ⟨b.ptr, wrappingAdd b.ptr b.bytes.length⟩
      ehFrame := some b.bytes
      ehFrameHdrSvma := none
      ehFrameHdr := none
      debugFrame := none }

abbrev JitWorld := World ModuleUnwindDataInternal

/-- `register_jit_eh_frame`: the world after it and its return code. -/
def registerJitEhFrame (w : JitWorld) (b : Buffer) (textLo textHi : Nat) : Option (JitWorld × Int) :=
  if b.ptr = 0 ∨ b.bytes = [] ∨ textHi ≤ textLo then some (w, -1)
  else if 2 ^ 32 - 1 < textHi - textLo then some (w, -2)
  else if fdePcRange G b = none then some (w, -3)
  else (addJitModule w textLo b.ptr (jitModule G b textLo textHi)).map fun w => (w, 0)

def registerJitEhFrameAuto (w : JitWorld) (b : Buffer) : Option (JitWorld × Int) :=
  if b.ptr = 0 ∨ b.bytes = [] then some (w, -1)
  else
    match fdePcRange G b with
    | none => some (w, -3)
    | some (textLo, textHi) => registerJitEhFrame G w b textLo textHi

def deregisterJit (w : JitWorld) (textLo : Nat) : Option JitWorld := removeJitModule w textLo

def deregisterJitEhFrame (w : JitWorld) (ptr : Nat) : Option JitWorld := removeJitModuleByEhFrame w ptr

/-! ## The hull -/

def fdesOf (es : List (Option Entry)) : List Fde :=
  es.filterMap fun
    | some (.fde fde) => fde
    | _ => none

/-- The FDEs of a buffer. -/
def Buffer.fdes (b : Buffer) : List Fde := fdesOf (b.entries G)

/-- Every entry was read, and every FDE parsed. -/
def Parses (es : List (Option Entry)) : Prop := ∀ e ∈ es, e ≠ none ∧ e ≠ some (.fde none)

def fdeStop (f : Fde) : Nat := wrappingAdd f.initialAddress f.len

structure Hull (fdes : List Fde) (lo hi : Nat) : Prop where
  lt : lo < hi
  start : ∀ f ∈ fdes, lo ≤ f.initialAddress
  stop : ∀ f ∈ fdes, fdeStop f ≤ hi
  lowest : ∃ f ∈ fdes, f.initialAddress = lo
  highest : ∃ f ∈ fdes, fdeStop f = hi

theorem pcRangeLoop_spec {es : List (Option Entry)} {lo hi : Nat} {found : Bool} {lo' hi' : Nat}
    (h : pcRangeLoop es lo hi found = some (lo', hi')) :
    Parses es ∧ lo' < hi' ∧ lo' ≤ lo ∧ hi ≤ hi' ∧ (∀ f ∈ fdesOf es, lo' ≤ f.initialAddress ∧ fdeStop f ≤ hi') ∧
      (lo' = lo ∨ ∃ f ∈ fdesOf es, f.initialAddress = lo') ∧ (hi' = hi ∨ ∃ f ∈ fdesOf es, fdeStop f = hi') ∧
      (found = true ∨ fdesOf es ≠ []) := by
  induction es generalizing lo hi found with
  | nil =>
    simp only [pcRangeLoop] at h
    split at h
    · rename_i hf
      cases h
      exact ⟨by simp [Parses], hf.2, Nat.le_refl _, Nat.le_refl _, by simp [fdesOf], Or.inl rfl,
        Or.inl rfl, Or.inl hf.1⟩
    · cases h
  | cons e es ih =>
    cases e with
    | none => cases h
    | some e =>
      cases e with
      | cie =>
        obtain ⟨hp, rest⟩ := ih (show pcRangeLoop es lo hi found = some (lo', hi') from h)
        refine ⟨?_, rest⟩
        intro e he
        rcases List.mem_cons.mp he with rfl | he
        · exact ⟨by simp, by simp⟩
        · exact hp e he
      | fde parsed =>
        cases parsed with
        | none => cases h
        | some fde =>
          obtain ⟨hp, hlt, hlo, hhi, hall, hlow, hhigh, -⟩ := ih h
          have hcons : fdesOf (some (.fde (some fde)) :: es) = fde :: fdesOf es := rfl
          have hs : lo' ≤ fde.initialAddress ∧ lo' ≤ lo := by split at hlo <;> omega
          have ht : fdeStop fde ≤ hi' ∧ hi ≤ hi' := by
            unfold fdeStop
            split at hhi <;> omega
          refine ⟨?_, hlt, hs.2, ht.2, ?_, ?_, ?_, Or.inr (by simp [hcons])⟩
          · intro e he
            rcases List.mem_cons.mp he with rfl | he
            · exact ⟨by simp, by simp⟩
            · exact hp e he
          · intro f hf
            rw [hcons] at hf
            rcases List.mem_cons.mp hf with rfl | hf
            · exact ⟨hs.1, ht.1⟩
            · exact hall f hf
          · rcases hlow with e | ⟨f, hf, e⟩
            · split at e
              · exact Or.inr ⟨fde, by simp [hcons], e.symm⟩
              · exact Or.inl e
            · exact Or.inr ⟨f, by simp [hcons, hf], e⟩
          · rcases hhigh with e | ⟨f, hf, e⟩
            · split at e
              · exact Or.inr ⟨fde, by simp [hcons], e.symm⟩
              · exact Or.inl e
            · exact Or.inr ⟨f, by simp [hcons, hf], e⟩

variable {G}

theorem fdePcRange_spec {b : Buffer} {lo hi : Nat} (h : fdePcRange G b = some (lo, hi)) :
    Parses (b.entries G) ∧ Hull (b.fdes G) lo hi := by
  obtain ⟨hp, hlt, hlo, -, hall, hlow, hhigh, hne⟩ := pcRangeLoop_spec h
  refine ⟨hp, hlt, fun f hf => (hall f hf).1, fun f hf => (hall f hf).2, ?_, ?_⟩
  · rcases hlow with e | hlow
    · -- no start was below the initial maximum: they are all at it
      obtain ⟨f, hf⟩ := List.exists_mem_of_ne_nil _ (hne.resolve_left (by simp))
      refine ⟨f, hf, ?_⟩
      have := (hall f hf).1
      have := f.initialAddress_lt
      unfold u64Max at e
      omega
    · exact hlow
  · exact hhigh.resolve_left (by omega)

/-! ## The index -/

/-- What the index holds for an FDE. -/
def rowOf (base : Nat) (f : Fde) : Nat × Nat := (f.initialAddress - base, f.offset)

/-- The FDE has a row: its start is at or above the base and near it, and its offset fits. -/
structure Indexable (base : Nat) (f : Fde) : Prop where
  above : base ≤ f.initialAddress
  near : f.initialAddress - base < 2 ^ 32
  offset : f.offset < 2 ^ 32

theorem indexRow_iff {base : Nat} {f : Fde} {row : Nat × Nat} :
    indexRow base f = .ok row ↔ Indexable base f ∧ row = rowOf base f := by
  constructor
  · intro h
    unfold indexRow at h
    split at h
    · cases h
    split at h
    · cases h
    split at h
    · cases h
    · cases h
      exact ⟨⟨by omega, by omega, by omega⟩, rfl⟩
  · intro h₀
    obtain ⟨⟨h1, h2, h3⟩, rfl⟩ := h₀
    unfold indexRow rowOf
    rw [if_neg (by omega), if_neg (by omega), if_neg (by omega)]

/-- The loop gives a row for each FDE, and one FDE without a row leaves no index at all. -/
theorem indexRows_iff {base : Nat} {es : List (Option Entry)} {rows : List (Nat × Nat)} :
    indexRows base es = .ok rows ↔
      Parses es ∧ (∀ f ∈ fdesOf es, Indexable base f) ∧ rows = (fdesOf es).map (rowOf base) := by
  induction es generalizing rows with
  | nil => simp [indexRows, Parses, fdesOf, eq_comm]
  | cons e es ih =>
    cases e with
    | none => simp [indexRows, Parses]
    | some e =>
      cases e with
      | cie =>
        have hp : Parses (some .cie :: es) ↔ Parses es := by simp [Parses]
        rw [hp]
        exact ih
      | fde parsed =>
        cases parsed with
        | none => simp [indexRows, Parses]
        | some f =>
          have hcons : fdesOf (some (.fde (some f)) :: es) = f :: fdesOf es := rfl
          have hp : Parses (some (.fde (some f)) :: es) ↔ Parses es := by simp [Parses]
          rw [hcons, hp, List.forall_mem_cons, List.map_cons]
          simp only [indexRows]
          constructor
          · intro h
            split at h
            · cases h
            rename_i row hrow
            split at h
            · cases h
            rename_i rows' hrows
            cases h
            obtain ⟨hf, rfl⟩ := indexRow_iff.mp hrow
            obtain ⟨hp, hall, rfl⟩ := ih.mp hrows
            exact ⟨hp, ⟨hf, hall⟩, rfl⟩
          · intro h₀
            obtain ⟨hp, ⟨hf, hall⟩, rfl⟩ := h₀
            simp only [indexRow_iff.mpr ⟨hf, rfl⟩, ih.mpr ⟨hp, hall, rfl⟩]

/-- The index of `rows` gives the offset of the row with the greatest start. -/
theorem fdeOffset_of_rows {rows : List (Nat × Nat)} {rel : Nat} {row : Nat × Nat} (hmem : row ∈ rows)
    (hle : row.1 ≤ rel) (hmax : ∀ r ∈ rows, r.1 ≤ rel → row.1 ≤ r.1 → r = row) :
    (let sorted := rows.mergeSort fun a b => a.1 ≤ b.1
     (⟨sorted.map (·.1), sorted.map (·.2)⟩ : DwarfCfiIndex)).fdeOffsetForRelativeAddress rel = some row.2 := by
  simp only
  generalize hsort : rows.mergeSort (fun a b => a.1 ≤ b.1) = sorted
  have hperm : ∀ r, r ∈ sorted ↔ r ∈ rows := by
    intro r
    rw [← hsort]
    exact (List.mergeSort_perm rows _).mem_iff
  have hs : sorted.Pairwise fun a b => a.1 ≤ b.1 := by
    rw [← hsort]
    have := @List.pairwise_mergeSort _ (fun a b : Nat × Nat => decide (a.1 ≤ b.1))
      (fun a b c h1 h2 => by simp only [decide_eq_true_eq] at *; omega)
      (fun a b => by simp only [Bool.or_eq_true, decide_eq_true_eq]; omega) rows
    exact this.imp fun h => by simpa using h
  have hkeys : SortedBy id (sorted.map Prod.fst) := List.pairwise_map.mpr hs
  unfold DwarfCfiIndex.fdeOffsetForRelativeAddress
  simp only
  cases hb : binarySearchByKey (sorted.map Prod.fst) rel id with
  | ok i =>
    obtain ⟨x, hx, hk⟩ := search_ok hkeys hb
    rw [List.getElem?_map] at hx
    obtain ⟨r, hr, rfl⟩ := Option.map_eq_some_iff.mp hx
    have hrm := (hperm r).mp (List.mem_of_getElem? hr)
    have hrel : r.1 = rel := hk
    simp only
    rw [List.getElem?_map, hr, hmax r hrm (by omega) (by omega)]
    rfl
  | error i =>
    have g := search_error hkeys hb
    have hrow : row.1 ∈ sorted.map Prod.fst := List.mem_map_of_mem ((hperm row).mpr hmem)
    cases i with
    | zero =>
      have : rel < row.1 := g.after row.1 hrow
      omega
    | succ i =>
      obtain ⟨x, hx, hlt, hgreatest⟩ := g.last hkeys
      rw [List.getElem?_map] at hx
      obtain ⟨r, hr, rfl⟩ := Option.map_eq_some_iff.mp hx
      have hrm := (hperm r).mp (List.mem_of_getElem? hr)
      simp only
      rw [List.getElem?_map, hr, hmax r hrm (Nat.le_of_lt hlt) (hgreatest row.1 hrow hle)]
      rfl

/-! ## The module of a buffer -/

variable (G)

def Buffer.textLo (b : Buffer) : Nat := ((fdePcRange G b).map Prod.fst).getD 0

def Buffer.textHi (b : Buffer) : Nat := ((fdePcRange G b).map Prod.snd).getD 0

/-- The module registered for a buffer. -/
def Buffer.module (b : Buffer) : UnwindModule := jitModule G b (b.textLo G) (b.textHi G)

/-- The FDE offset a module's index gives for a relative address. -/
def indexOffset (m : UnwindModule) (rel : Nat) : Option Nat :=
  match m.unwindData with
  | .dwarfCfiIndexAndEhFrame index _ _ => index.fdeOffsetForRelativeAddress rel
  | _ => none

/-- `find_module_for_address` gives the buffer's module, and its index the FDE. -/
def Found (chunks : Chunks ModuleUnwindDataInternal) (b : Buffer) (f : Fde) (a : Nat) : Prop :=
  ∃ rel, findModuleForAddress chunks a = some (b.module G, rel) ∧ indexOffset (b.module G) rel = some f.offset

variable {G}

theorem module_start (b : Buffer) : (b.module G).start = b.textLo G := rfl

/-- The module is built from the entries that the range was: further bases change none. -/
theorem module_entries {b : Buffer} (h : Parses (b.entries G)) (base : Nat) :
    G.entries .ehFrame b.bytes (baseAddressesForSections
      { baseSvma := base, textSvma := none, ehFrameSvma := some ⟨b.ptr, wrappingAdd b.ptr b.bytes.length⟩,
        ehFrame := some b.bytes, ehFrameHdrSvma := none, ehFrameHdr := none, debugFrame := none }) = b.entries G := by
  apply G.entries_wider _ _ _ _ ?_ h
  exact ⟨by simp, by simp, by simp, by simp [baseAddressesForSections, startAddr]⟩

theorem textLo_eq {b : Buffer} {lo hi : Nat} (h : fdePcRange G b = some (lo, hi)) : b.textLo G = lo := by
  simp [Buffer.textLo, h]

theorem textHi_eq {b : Buffer} {lo hi : Nat} (h : fdePcRange G b = some (lo, hi)) : b.textHi G = hi := by
  simp [Buffer.textHi, h]

/-- An FDE whose offset does not fit leaves the module without unwind data. -/
theorem indexOffset_none {b : Buffer} {lo hi : Nat} (h : fdePcRange G b = some (lo, hi)) {f : Fde} (hf : f ∈ b.fdes G)
    (ho : 2 ^ 32 ≤ f.offset) (rel : Nat) : indexOffset (b.module G) rel = none := by
  unfold indexOffset Buffer.module jitModule Module.new ModuleUnwindDataInternal.new
  rw [textLo_eq h]
  simp only [module_entries (fdePcRange_spec h).1, DwarfCfiIndex.tryNew]
  cases hrows : indexRows lo (b.entries G) with
  | error e => rfl
  | ok rows =>
    have := ((indexRows_iff.mp hrows).2.1 f hf).offset
    omega

/-- The index answers with the FDE that has the greatest start at or below the address. -/
theorem indexOffset_some {b : Buffer} {lo hi : Nat} (h : fdePcRange G b = some (lo, hi)) (hsize : hi - lo ≤ 2 ^ 32 - 1)
    (hfit : ∀ f ∈ b.fdes G, f.initialAddress < hi ∧ f.offset < 2 ^ 32) {f : Fde} (hf : f ∈ b.fdes G) {a : Nat}
    (ha : f.initialAddress ≤ a)
    (hmax : ∀ g ∈ b.fdes G, g.initialAddress ≤ a → f.initialAddress ≤ g.initialAddress → g = f) :
    indexOffset (b.module G) (a - lo) = some f.offset := by
  obtain ⟨hp, hull⟩ := fdePcRange_spec h
  have hrows : indexRows lo (b.entries G) = .ok ((b.fdes G).map (rowOf lo)) := by
    refine indexRows_iff.mpr ⟨hp, fun g hg => ⟨hull.start g hg, ?_, (hfit g hg).2⟩, rfl⟩
    have := (hfit g hg).1
    have := hull.start g hg
    omega
  have hrow : (rowOf lo f).1 ≤ a - lo := by
    show f.initialAddress - lo ≤ a - lo
    omega
  have hindex := fdeOffset_of_rows (List.mem_map.mpr ⟨f, hf, rfl⟩ : rowOf lo f ∈ (b.fdes G).map (rowOf lo)) hrow
    (fun r hr hle hge => by
      obtain ⟨g, hg, rfl⟩ := List.mem_map.mp hr
      have h1 := hull.start g hg
      have h2 := hull.start f hf
      simp only [rowOf] at hle hge
      rw [hmax g hg (by omega) (by omega)])
  unfold indexOffset Buffer.module jitModule Module.new ModuleUnwindDataInternal.new
  rw [textLo_eq h]
  simp only [module_entries hp, DwarfCfiIndex.tryNew, hrows]
  exact hindex

/-! ## Runs -/

/-- A world reached by registrations and deregistrations, with the live buffers. -/
structure Live where
  w : JitWorld
  live : List Buffer

inductive JitCall where
  | registerAuto (b : Buffer)
  | deregister (textLo : Nat)
  | deregisterEhFrame (ptr : Nat)

variable (G)

/-- A registration that succeeds makes its buffer live, in place of one with its key; a
    deregistration ends those whose key is no longer registered. -/
def JitCall.run (s : Live) : JitCall → Option Live
  | .registerAuto b =>
    match registerJitEhFrameAuto G s.w b with
    | none => none
    | some (w, rc) => some ⟨w, if rc = 0 then s.live.filter (fun b' => b'.textLo G ≠ b.textLo G) ++ [b] else s.live⟩
  | .deregister textLo =>
    (deregisterJit s.w textLo).map fun w => ⟨w, s.live.filter fun b => b.textLo G ∈ w.reg.jitKeys⟩
  | .deregisterEhFrame ptr =>
    (deregisterJitEhFrame s.w ptr).map fun w => ⟨w, s.live.filter fun b => b.textLo G ∈ w.reg.jitKeys⟩

def runCalls (calls : List JitCall) (s : Live) : Option Live := calls.foldlM (JitCall.run G) s

variable {G}

structure LiveInv (s : Live) : Prop where
  ranged : ∀ b ∈ s.live, ∃ lo hi, fdePcRange G b = some (lo, hi) ∧ hi - lo ≤ 2 ^ 32 - 1
  modules : ∀ k, atStart s.w.chunks k =
    (((s.live.filter fun b => b.textLo G = k).map (Buffer.module G) : List UnwindModule) : Multiset UnwindModule)
  distinct : (s.live.map (Buffer.textLo G)).Nodup
  keys : ∀ k, k ∈ s.w.reg.jitKeys ↔ ∃ b ∈ s.live, b.textLo G = k

/-- The live buffers with a key: one, or none. -/
theorem LiveInv.at_key {s : Live} (hi : LiveInv (G := G) s) (k : Nat) :
    (k ∉ s.w.reg.jitKeys ∧ atStart s.w.chunks k = 0) ∨
    ∃ b ∈ s.live, b.textLo G = k ∧ atStart s.w.chunks k = {b.module G} := by
  rw [hi.modules k]
  have hd := List.pairwise_map.mp hi.distinct
  by_cases hk : ∃ b ∈ s.live, b.textLo G = k
  · right
    obtain ⟨b, hb, hbk⟩ := hk
    obtain ⟨l₁, l₂, he⟩ := List.append_of_mem hb
    refine ⟨b, hb, hbk, ?_⟩
    rw [he] at hd ⊢
    obtain ⟨-, h2, h12⟩ := List.pairwise_append.mp hd
    have hnone : ∀ l : List Buffer, (∀ b' ∈ l, b'.textLo G ≠ k) → l.filter (fun b => b.textLo G = k) = [] :=
      fun l hl => List.filter_eq_nil_iff.mpr fun b' hb' => by simpa using hl b' hb'
    rw [List.filter_append, List.filter_cons_of_pos (by simpa using hbk), hnone l₁ fun b' hb' => ?_,
      hnone l₂ fun b' hb' => ?_]
    · rfl
    · exact hbk ▸ (List.rel_of_pairwise_cons h2 hb').symm
    · exact hbk ▸ h12 b' hb' b (by simp)
  · left
    refine ⟨fun hm => hk ((hi.keys k).mp hm), ?_⟩
    have : s.live.filter (fun b => b.textLo G = k) = [] := by
      refine List.filter_eq_nil_iff.mpr ?_
      intro b hb
      simpa using fun e => hk ⟨b, hb, e⟩
    rw [this]
    rfl

/-- The live buffers at a key, after `b` has taken the place of those at its own. -/
theorem filter_replaced (live : List Buffer) (b : Buffer) (k : Nat) :
    (live.filter (fun b' => b'.textLo G ≠ b.textLo G) ++ [b]).filter (fun b' => b'.textLo G = k) =
      if k = b.textLo G then [b] else live.filter fun b' => b'.textLo G = k := by
  rw [List.filter_append, List.filter_filter]
  split
  case isTrue hk =>
    have hnone : (live.filter fun b' => decide (b'.textLo G = k) && decide (b'.textLo G ≠ b.textLo G)) = [] := by
      refine List.filter_eq_nil_iff.mpr ?_
      intro b' _
      simp [hk]
    rw [hnone, List.filter_cons_of_pos (by simpa using hk.symm)]
    rfl
  case isFalse hk =>
    rw [List.filter_cons_of_neg (by simpa using Ne.symm hk), List.filter_nil, List.append_nil]
    refine List.filter_congr ?_
    intro b' _
    by_cases hb : b'.textLo G = k
    · simp [hb, hk]
    · simp [hb]

theorem LiveInv.register {s : Live} (hi : LiveInv (G := G) s) {b : Buffer} {lo hi' : Nat}
    (hr : fdePcRange G b = some (lo, hi')) (hsize : hi' - lo ≤ 2 ^ 32 - 1) {w : JitWorld}
    (h : addJitModule s.w lo b.ptr (jitModule G b lo hi') = some w) :
    LiveInv (G := G) ⟨w, s.live.filter (fun b' => b'.textLo G ≠ b.textLo G) ++ [b]⟩ := by
  have hlo := textLo_eq hr
  have hmod : b.module G = jitModule G b lo hi' := by rw [Buffer.module, hlo, textHi_eq hr]
  rw [← hmod] at h
  have hreg := (addJitModule_spec h).1
  have hother : ∀ k, k ≠ lo → atStart w.chunks k = atStart s.w.chunks k := fun k hk => addJitModule_at_ne h hlo hk
  have hself : atStart w.chunks lo = {b.module G} := by
    refine addJitModule_at_key h hlo ?_ ?_
    · intro hk
      rcases hi.at_key lo with ⟨hn, -⟩ | ⟨b', -, -, h1⟩
      · exact absurd hk hn
      · exact ⟨_, h1⟩
    · intro hk
      rcases hi.at_key lo with ⟨-, h0⟩ | ⟨b', hb', hbk, -⟩
      · exact h0
      · exact absurd ((hi.keys lo).mpr ⟨b', hb', hbk⟩) hk
  refine ⟨?_, ?_, ?_, ?_⟩
  · intro b' hb'
    rcases List.mem_append.mp hb' with hb' | hb'
    · exact hi.ranged b' (List.mem_filter.mp hb').1
    · rw [List.mem_singleton.mp hb']
      exact ⟨lo, hi', hr, hsize⟩
  · intro k
    dsimp only
    rw [filter_replaced, hlo]
    by_cases hk : k = lo
    · subst hk
      rw [if_pos rfl]
      exact hself
    · rw [if_neg hk, hother k hk]
      exact hi.modules k
  · rw [List.map_append, List.nodup_append]
    refine ⟨hi.distinct.sublist (List.Sublist.map _ List.filter_sublist), by simp, ?_⟩
    intro x hx y hy
    obtain ⟨b', hb', rfl⟩ := List.mem_map.mp hx
    rw [List.map_cons, List.map_nil, List.mem_singleton] at hy
    rw [hy]
    simpa using (List.mem_filter.mp hb').2
  · intro k
    rw [show w.reg = recordJit s.w.reg lo b.ptr from hreg, recordJit_keys, Finset.mem_insert, hi.keys k]
    simp only [List.mem_append, List.mem_filter, List.mem_singleton, decide_eq_true_eq]
    constructor
    · intro h₀
      rcases h₀ with rfl | ⟨b', hb', hbk⟩
      · exact ⟨b, Or.inr rfl, hlo⟩
      · by_cases e : b'.textLo G = b.textLo G
        · exact ⟨b, Or.inr rfl, e.symm.trans hbk⟩
        · exact ⟨b', Or.inl ⟨hb', e⟩, hbk⟩
    · intro h₀
      obtain ⟨b', ⟨hb', -⟩ | rfl, hbk⟩ := h₀
      · exact Or.inr ⟨b', hb', hbk⟩
      · exact Or.inl (hbk.symm.trans hlo)

theorem LiveInv.deregister {s : Live} (hi : LiveInv (G := G) s) {key : Nat} {w : JitWorld}
    (h : removeJitLocked s.w key = some w) :
    LiveInv (G := G) ⟨w, s.live.filter fun b => b.textLo G ∈ w.reg.jitKeys⟩ := by
  rcases removeJitLocked_cases h with ⟨-, rfl⟩ | ⟨hk, hreg, hc⟩
  · have hall : (s.live.filter fun b => b.textLo G ∈ s.w.reg.jitKeys) = s.live := by
      refine List.filter_eq_self.mpr ?_
      intro b hb
      simpa using (hi.keys _).mpr ⟨b, hb, rfl⟩
    rw [hall]
    exact hi
  have hkeys : w.reg.jitKeys = s.w.reg.jitKeys.erase key := by rw [hreg, eraseJit_keys]
  have hfilter : (s.live.filter fun b => b.textLo G ∈ w.reg.jitKeys) = s.live.filter fun b => b.textLo G ≠ key := by
    refine List.filter_congr ?_
    intro b hb
    have hmem := (hi.keys _).mpr ⟨b, hb, rfl⟩
    simp [hkeys, hmem]
  rw [hfilter]
  refine ⟨fun b hb => hi.ranged b (List.mem_filter.mp hb).1, ?_,
    hi.distinct.sublist (List.Sublist.map _ List.filter_sublist), ?_⟩
  · intro k
    simp only [hc, List.filter_filter]
    by_cases hkk : k = key
    · subst hkk
      rcases hi.at_key k with ⟨hn, -⟩ | ⟨b, -, -, h1⟩
      · exact absurd hk hn
      · rw [atStart_remove_single s.w.chunks_wf h1, show (s.live.filter fun a =>
          decide (a.textLo G = k) && decide (a.textLo G ≠ k)) = [] from ?_]
        · rfl
        · exact List.filter_eq_nil_iff.mpr fun b _ => by simp
    · rw [atStart_ne s.w.chunks_wf (e := .remove key) (Ne.symm hkk), hi.modules k]
      congr 2
      refine List.filter_congr ?_
      intro b _
      by_cases e : b.textLo G = k
      · simp [e, hkk]
      · simp [e]
  · intro k
    rw [hkeys, Finset.mem_erase, hi.keys k]
    simp only [List.mem_filter, decide_eq_true_eq]
    constructor
    · intro h₀
      obtain ⟨hne, b, hb, rfl⟩ := h₀
      exact ⟨b, ⟨hb, hne⟩, rfl⟩
    · intro h₀
      obtain ⟨b, ⟨hb, hne⟩, rfl⟩ := h₀
      exact ⟨hne, b, hb, rfl⟩

theorem call_inv {s t : Live} {call : JitCall} (hi : LiveInv (G := G) s) (h : call.run G s = some t) :
    LiveInv (G := G) t := by
  cases call with
  | registerAuto b =>
    simp only [JitCall.run, registerJitEhFrameAuto] at h
    by_cases hargs : b.ptr = 0 ∨ b.bytes = []
    · simp only [hargs, if_true] at h
      cases h
      exact hi
    simp only [hargs, if_false] at h
    cases hr : fdePcRange G b with
    | none =>
      simp only [hr] at h
      cases h
      exact hi
    | some range =>
      obtain ⟨lo, hi'⟩ := range
      obtain ⟨-, hull⟩ := fdePcRange_spec hr
      have hle : ¬ hi' ≤ lo := by have := hull.lt; omega
      have hargs' : ¬ (b.ptr = 0 ∨ b.bytes = [] ∨ hi' ≤ lo) := by tauto
      by_cases hsize : 2 ^ 32 - 1 < hi' - lo
      · simp only [hr, registerJitEhFrame, hargs', hsize, if_true, if_false] at h
        cases h
        exact hi
      · simp only [hr, registerJitEhFrame, hargs', hsize, if_false, reduceCtorEq] at h
        cases hadd : addJitModule s.w lo b.ptr (jitModule G b lo hi') with
        | none => simp [hadd] at h
        | some w =>
          simp only [hadd, Option.map_some, if_true] at h
          cases h
          exact hi.register hr (by omega) hadd
  | deregister key =>
    obtain ⟨w, hw, rfl⟩ := Option.map_eq_some_iff.mp h
    exact hi.deregister hw
  | deregisterEhFrame ptr =>
    obtain ⟨w, hw, rfl⟩ := Option.map_eq_some_iff.mp h
    simp only [deregisterJitEhFrame, removeJitModuleByEhFrame] at hw
    split at hw
    · cases hw
      have hall : (s.live.filter fun b => b.textLo G ∈ s.w.reg.jitKeys) = s.live := by
        refine List.filter_eq_self.mpr ?_
        intro b hb
        simpa using (hi.keys _).mpr ⟨b, hb, rfl⟩
      simp only [hall]
      exact hi
    · exact hi.deregister hw

theorem run_liveInv {calls : List JitCall} {counter : Nat} {s : Live}
    (h : runCalls G calls ⟨World.new counter, []⟩ = some s) : LiveInv (G := G) s := by
  have hrun : ∀ (calls : List JitCall) (s₀ : Live), LiveInv (G := G) s₀ → runCalls G calls s₀ = some s →
      LiveInv (G := G) s := by
    intro calls
    induction calls with
    | nil => intro s₀ hi h; cases h; exact hi
    | cons call calls ih =>
      intro s₀ hi h
      simp only [runCalls, List.foldlM_cons] at h
      obtain ⟨s₁, h1, h2⟩ := Option.bind_eq_some_iff.mp h
      exact ih s₁ (call_inv hi h1) h2
  refine hrun calls _ ⟨by simp, fun k => rfl, by simp, ?_⟩ h
  intro k
  simp [World.new, Registry.new]

/-! ## Finding every function -/

/-- Two functions share no address. -/
def CodeDisjoint (f g : Fde) : Prop :=
  f.initialAddress + f.len ≤ g.initialAddress ∨ g.initialAddress + g.len ≤ f.initialAddress

variable (G)

/-- The code ranges the two modules claim share no address. -/
def HullsDisjoint (b b' : Buffer) : Prop := b.textHi G ≤ b'.textLo G ∨ b'.textHi G ≤ b.textLo G

variable {G}

theorem LiveInv.mem_published {s : Live} (hi : LiveInv (G := G) s) {m : UnwindModule} :
    m ∈ s.w.chunks.flatten ↔ ∃ b ∈ s.live, m = b.module G := by
  have hat : m ∈ s.w.chunks.flatten ↔ m ∈ atStart s.w.chunks m.start := by simp [mem_atStart]
  rw [hat, hi.modules]
  simp only [Multiset.mem_coe, List.mem_map, List.mem_filter, decide_eq_true_eq]
  constructor
  · intro h₀
    obtain ⟨b, ⟨hb, -⟩, rfl⟩ := h₀
    exact ⟨b, hb, rfl⟩
  · intro h₀
    obtain ⟨b, hb, rfl⟩ := h₀
    exact ⟨b, ⟨hb, rfl⟩, rfl⟩

theorem LiveInv.starts_nodup {s : Live} (hi : LiveInv (G := G) s) : (s.w.chunks.flatten.map Module.start).Nodup := by
  rw [List.nodup_iff_count_le_one]
  intro k
  have hcount : (s.w.chunks.flatten.map Module.start).count k = Multiset.card (atStart s.w.chunks k) := by
    unfold atStart
    rw [Multiset.filter_coe, Multiset.coe_card, List.count, List.countP_map, List.countP_eq_length_filter]
    rfl
  rw [hcount]
  rcases hi.at_key k with ⟨-, h0⟩ | ⟨b, -, -, h1⟩
  · simp [h0]
  · simp [h1]

/-- What every live buffer's range says, with its words not wrapping. -/
theorem LiveInv.hull {s : Live} (hi : LiveInv (G := G) s) {b : Buffer} (hb : b ∈ s.live) :
    fdePcRange G b = some (b.textLo G, b.textHi G) ∧ b.textHi G - b.textLo G ≤ 2 ^ 32 - 1 ∧
      Hull (b.fdes G) (b.textLo G) (b.textHi G) := by
  obtain ⟨lo, hi', hr, hsize⟩ := hi.ranged b hb
  rw [textLo_eq hr, textHi_eq hr]
  exact ⟨hr, hsize, (fdePcRange_spec hr).2⟩

theorem fdeStop_eq {f : Fde} (h : f.initialAddress + f.len < 2 ^ 64) : fdeStop f = f.initialAddress + f.len :=
  wrappingAdd_of_lt h

theorem fdeStop_lt (f : Fde) : fdeStop f < 2 ^ 64 := Nat.mod_lt _ (by decide)

/-- The functions of one buffer are disjoint, and so are those of two. -/
theorem disjoint_fdes {s : Live} (hdis : (s.live.flatMap (Buffer.fdes G)).Pairwise CodeDisjoint) :
    (∀ b ∈ s.live, (b.fdes G).Pairwise CodeDisjoint) ∧
      s.live.Pairwise fun b b' => ∀ f ∈ b.fdes G, ∀ g ∈ b'.fdes G, CodeDisjoint f g :=
  List.pairwise_flatMap.mp hdis

instance : Std.Symm CodeDisjoint := ⟨fun _ _ => Or.symm⟩

instance : Std.Symm (HullsDisjoint G) := ⟨fun _ _ => Or.symm⟩

/-- Among disjoint functions, one that starts at or below an address of `f` and not before
    `f` is `f`. -/
theorem fde_unique {fdes : List Fde} (hd : fdes.Pairwise CodeDisjoint) (hne : ∀ f ∈ fdes, 0 < f.len) {f g : Fde}
    (hf : f ∈ fdes) (hg : g ∈ fdes) {a : Nat} (ha : a < f.initialAddress + f.len) (hga : g.initialAddress ≤ a)
    (hfg : f.initialAddress ≤ g.initialAddress) : g = f := by
  by_contra hgf
  rcases hd.forall hf hg (Ne.symm hgf) with h | h
  · omega
  · have := hne g hg
    omega

/-- A function of a live buffer is found when the hulls are disjoint, the offsets fit and
    no function ends at the top. -/
theorem found_of_disjoint {s : Live} (hi : LiveInv (G := G) s)
    (hne : ∀ b ∈ s.live, ∀ f ∈ b.fdes G, 0 < f.len ∧ f.initialAddress + f.len ≤ 2 ^ 64)
    (hdis : (s.live.flatMap (Buffer.fdes G)).Pairwise CodeDisjoint) (hhulls : s.live.Pairwise (HullsDisjoint G))
    (hfit : ∀ b ∈ s.live, ∀ f ∈ b.fdes G, f.offset < 2 ^ 32 ∧ f.initialAddress + f.len < 2 ^ 64)
    {b : Buffer} (hb : b ∈ s.live) {f : Fde} (hf : f ∈ b.fdes G) {a : Nat} (ha : f.initialAddress ≤ a)
    (ha' : a < f.initialAddress + f.len) : Found G s.w.chunks b f a := by
  obtain ⟨hr, hsize, hull⟩ := hi.hull hb
  have hstop : ∀ g ∈ b.fdes G, g.initialAddress + g.len ≤ b.textHi G := by
    intro g hg
    rw [← fdeStop_eq (hfit b hb g hg).2]
    exact hull.stop g hg
  have hlo := hull.start f hf
  have hhi := hstop f hf
  refine ⟨a - b.textLo G, ?_, indexOffset_some hr hsize ?_ hf ha ?_⟩
  · rw [findModuleForAddress_iff s.w.chunks_wf hi.starts_nodup]
    refine ⟨⟨hi.mem_published.mpr ⟨b, hb, rfl⟩, hlo.trans ha, ?_⟩, ⟨Or.inr ?_, hlo.trans ha, ?_⟩, rfl⟩
    · intro x hx hxa
      -- another module that starts at or below the address ends before this hull starts
      obtain ⟨b', hb', rfl⟩ := hi.mem_published.mp hx
      by_cases hbb : b = b'
      · rw [hbb]
      · have hlt := (hi.hull hb').2.2.lt
        rcases hhulls.forall hb hb' hbb with h | h
        · have : b'.textLo G ≤ a := hxa
          omega
        · show b'.textLo G ≤ b.textLo G
          omega
    · show a < b.textHi G
      omega
    · show a - b.textLo G < 2 ^ 32
      omega
  · intro g hg
    have := hstop g hg
    have := (hne b hb g hg).1
    exact ⟨by omega, (hfit b hb g hg).1⟩
  · intro g hg hga hfg
    exact fde_unique ((disjoint_fdes hdis).1 b hb) (fun g hg => (hne b hb g hg).1) hf hg ha' hga hfg

theorem offset_lt_of_found {s : Live} (hi : LiveInv (G := G) s) {b : Buffer} (hb : b ∈ s.live) {f : Fde}
    (hf : f ∈ b.fdes G) {a : Nat} (hfound : Found G s.w.chunks b f a) : f.offset < 2 ^ 32 := by
  by_contra ho
  obtain ⟨rel, -, hindex⟩ := hfound
  rw [indexOffset_none (hi.hull hb).1 hf (by omega)] at hindex
  cases hindex

/-- No module reaches the last address: the hull's end is a 64-bit value that it excludes. -/
theorem not_found_at_top {s : Live} (hi : LiveInv (G := G) s) {b : Buffer} (hb : b ∈ s.live) {f : Fde} :
    ¬ Found G s.w.chunks b f (2 ^ 64 - 1) := by
  intro hfound
  obtain ⟨rel, hfind, -⟩ := hfound
  obtain ⟨-, -, hull⟩ := hi.hull hb
  obtain ⟨g, -, hg⟩ := hull.highest
  have hhi : b.textHi G < 2 ^ 64 := hg ▸ fdeStop_lt g
  obtain ⟨-, ⟨hcover, -⟩, -⟩ := (findModuleForAddress_iff s.w.chunks_wf hi.starts_nodup _ _ _).mp hfind
  have hlt := hull.lt
  rcases hcover with hcover | hcover
  · have : 2 ^ 64 - 1 = b.textLo G := hcover
    omega
  · have : 2 ^ 64 - 1 < b.textHi G := hcover
    omega

/-- If the buffers' functions are all found, their hulls are disjoint. -/
theorem disjoint_of_found {s : Live} (hi : LiveInv (G := G) s)
    (hne : ∀ b ∈ s.live, ∀ f ∈ b.fdes G, 0 < f.len ∧ f.initialAddress + f.len ≤ 2 ^ 64)
    (hfound : ∀ b ∈ s.live, ∀ f ∈ b.fdes G, ∀ a, f.initialAddress ≤ a → a < f.initialAddress + f.len →
      Found G s.w.chunks b f a)
    (htop : ∀ b ∈ s.live, ∀ f ∈ b.fdes G, f.initialAddress + f.len < 2 ^ 64) {b b' : Buffer} (hb : b ∈ s.live)
    (hb' : b' ∈ s.live) (hlt : b.textLo G < b'.textLo G) : b.textHi G ≤ b'.textLo G := by
  by_contra hover
  obtain ⟨-, -, hull⟩ := hi.hull hb
  obtain ⟨f, hf, hstop⟩ := hull.highest
  rw [fdeStop_eq (htop b hb f hf)] at hstop
  have hlen := (hne b hb f hf).1
  -- the last address of the hull is looked up in the other module
  obtain ⟨rel, hfind, -⟩ := hfound b hb f hf (b.textHi G - 1) (by omega) (by omega)
  obtain ⟨hpred, -, -⟩ := (findModuleForAddress_iff s.w.chunks_wf hi.starts_nodup _ _ _).mp hfind
  have hle : b'.textLo G ≤ b.textLo G :=
    hpred.greatest _ (hi.mem_published.mpr ⟨b', hb', rfl⟩) (show b'.textLo G ≤ b.textHi G - 1 by omega)
  omega

/-- After any registrations and deregistrations, for live buffers whose functions are not
    empty, do not pass the top of the address space and are disjoint: every function of
    every live buffer is found by each of its addresses iff the buffers' hulls are disjoint,
    every FDE's offset fits in 32 bits and no function ends at the top. -/
theorem jit_function_found_iff (calls : List JitCall) (counter : Nat) (s : Live)
    (h : runCalls G calls ⟨World.new counter, []⟩ = some s)
    (hne : ∀ b ∈ s.live, ∀ f ∈ b.fdes G, 0 < f.len ∧ f.initialAddress + f.len ≤ 2 ^ 64)
    (hdis : (s.live.flatMap (Buffer.fdes G)).Pairwise CodeDisjoint) :
    (∀ b ∈ s.live, ∀ f ∈ b.fdes G, ∀ a, f.initialAddress ≤ a → a < f.initialAddress + f.len →
      Found G s.w.chunks b f a) ↔
    s.live.Pairwise (HullsDisjoint G) ∧
      ∀ b ∈ s.live, ∀ f ∈ b.fdes G, f.offset < 2 ^ 32 ∧ f.initialAddress + f.len < 2 ^ 64 := by
  have hi := run_liveInv h
  constructor
  · intro hfound
    have hoffset : ∀ b ∈ s.live, ∀ f ∈ b.fdes G, f.offset < 2 ^ 32 := by
      intro b hb f hf
      have hlen := (hne b hb f hf).1
      exact offset_lt_of_found hi hb hf (hfound b hb f hf f.initialAddress (Nat.le_refl _) (by omega))
    have htop : ∀ b ∈ s.live, ∀ f ∈ b.fdes G, f.initialAddress + f.len < 2 ^ 64 := by
      intro b hb f hf
      obtain ⟨hlen, hle⟩ := hne b hb f hf
      by_contra htop
      exact not_found_at_top hi hb (hfound b hb f hf (2 ^ 64 - 1) (by omega) (by omega))
    refine ⟨?_, fun b hb f hf => ⟨hoffset b hb f hf, htop b hb f hf⟩⟩
    refine (List.pairwise_map.mp hi.distinct).imp_of_mem fun {b b'} hb hb' hlo => ?_
    rcases Nat.lt_or_gt_of_ne hlo with hlt | hlt
    · exact Or.inl (disjoint_of_found hi hne hfound htop hb hb' hlt)
    · exact Or.inr (disjoint_of_found hi hne hfound htop hb' hb hlt)
  · intro h₀ b hb f hf a ha ha'
    obtain ⟨hhulls, hfit⟩ := h₀
    exact found_of_disjoint hi hne hdis hhulls hfit hb hf ha ha'

/-! ## Interleaved buffers -/

/-- gimli over two buffers: one describes functions at `0x1000` and `0x1020`, the other the
    function between them. -/
def twoBuffers : Gimli where
  entries _ bytes _ :=
    if bytes = [1] then
      [some .cie, some (.fde (some ⟨0x1000, 16, 24, by decide, by decide⟩)),
        some (.fde (some ⟨0x1020, 16, 48, by decide, by decide⟩))]
    else if bytes = [2] then [some .cie, some (.fde (some ⟨0x1010, 16, 24, by decide, by decide⟩))]
    else []
  entries_wider _ _ _ _ _ _ := rfl
  fdeFromOffset _ _ _ _ := some false
  unwindInfoForAddress _ _ _ _ _ := none
  hdrTableLookup _ _ _ := none

/-- The inner buffer alone: its function is found. -/
theorem jit_function_found_iff_inner :
    ∃ s : Live, runCalls twoBuffers [.registerAuto ⟨0x6000, [2]⟩] ⟨World.new 0, []⟩ = some s ∧
      Found twoBuffers s.w.chunks ⟨0x6000, [2]⟩ ⟨0x1010, 16, 24, by decide, by decide⟩ 0x1014 := by
  obtain ⟨s, h, hlive⟩ : ∃ s : Live, runCalls twoBuffers [.registerAuto ⟨0x6000, [2]⟩] ⟨World.new 0, []⟩ = some s ∧
      s.live = [⟨0x6000, [2]⟩] := ⟨_, rfl, rfl⟩
  refine ⟨s, h, (jit_function_found_iff _ 0 s h ?_ ?_).mpr ⟨?_, ?_⟩ _ ?_ _ ?_ 0x1014 (by decide) (by decide)⟩
  · rw [hlive]
    decide
  · rw [hlive]
    unfold CodeDisjoint
    decide
  · rw [hlive]
    exact List.pairwise_singleton _ _
  · rw [hlive]
    decide
  · simp [hlive]
  · decide

/-- The second function of the outer buffer is not found: the lookup takes the inner
    module, which starts closer below it and does not reach it. -/
theorem interleaved_hulls_hide_function :
    ∃ s : Live,
      runCalls twoBuffers [.registerAuto ⟨0x5000, [1]⟩, .registerAuto ⟨0x6000, [2]⟩] ⟨World.new 0, []⟩ = some s ∧
      s.live = [⟨0x5000, [1]⟩, ⟨0x6000, [2]⟩] ∧
      (∀ b ∈ s.live, ∀ f ∈ b.fdes twoBuffers, 0 < f.len ∧ f.initialAddress + f.len ≤ 2 ^ 64) ∧
      (s.live.flatMap (Buffer.fdes twoBuffers)).Pairwise CodeDisjoint ∧
      ⟨0x1020, 16, 48, by decide, by decide⟩ ∈ Buffer.fdes twoBuffers ⟨0x5000, [1]⟩ ∧
      ¬ Found twoBuffers s.w.chunks ⟨0x5000, [1]⟩ ⟨0x1020, 16, 48, by decide, by decide⟩ 0x1024 := by
  refine ⟨_, rfl, rfl, ?_, ?_, ?_, ?_⟩
  · decide
  · unfold CodeDisjoint
    decide
  · decide
  · intro h₀
    obtain ⟨rel, hfind, -⟩ := h₀
    cases hfind

end FramehopUnwind.Modules
