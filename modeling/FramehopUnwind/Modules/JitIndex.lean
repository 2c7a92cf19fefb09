/-
  FramehopUnwind.Modules.JitIndex — what a successful JIT registration publishes
  (src/modules/jit.rs, and `DwarfCfiIndex::try_new` of vendor/framehop/src/dwarf.rs).

  Registration parses the buffer twice: `fde_pc_range` checks that every entry parses, and the
  module's index is built from the same entries relative to `text_lo`. The second pass has
  failures of its own and no way to report them.

  Proved:
  - `jitModule_data`: the module's data is the index of the buffer's FDEs, or none at all.
  - `jit_index_iff`: a registered module carries the index iff every FDE starts less than
    2^32 bytes above `text_lo` and every offset fits in 32 bits.
  - `registered_without_data`: a registration that succeeds with no unwind data.
-/

import FramehopUnwind.Modules.Jit

namespace FramehopUnwind.Modules

open Unwinder Lib.Word

variable {G : Gimli}

/-- The bases a JIT module's sections give. -/
def Buffer.bases (b : Buffer) : BaseAddresses := ⟨some 0, some 0, some 0, some b.ptr⟩

/-- The index of some rows, in the order of their starts. -/
def indexOf (rows : List (Nat × Nat)) : DwarfCfiIndex :=
  let sorted := rows.mergeSort fun a b => a.1 ≤ b.1
  ⟨sorted.map (·.1), sorted.map (·.2)⟩

/-- The module's data is the index of the buffer's FDEs, or none at all. -/
theorem jitModule_data {b : Buffer} (hp : Parses (b.entries G)) (textLo textHi : Nat) :
    ((∀ f ∈ b.fdes G, Indexable textLo f) ∧ (jitModule G b textLo textHi).unwindData =
      .dwarfCfiIndexAndEhFrame (indexOf ((b.fdes G).map (rowOf textLo))) b.bytes b.bases) ∨
    ((¬ ∀ f ∈ b.fdes G, Indexable textLo f) ∧ (jitModule G b textLo textHi).unwindData = .none) := by
  unfold jitModule Module.new ModuleUnwindDataInternal.new
  simp only [module_entries hp, DwarfCfiIndex.tryNew]
  cases hrows : indexRows textLo (b.entries G) with
  | ok rows =>
    obtain ⟨-, hfit, rfl⟩ := indexRows_iff.mp hrows
    exact Or.inl ⟨hfit, rfl⟩
  | error e =>
    refine Or.inr ⟨fun hfit => ?_, rfl⟩
    rw [indexRows_iff.mpr ⟨hp, hfit, rfl⟩] at hrows
    cases hrows

variable (G)

/-- The module carries an index with exactly one entry for each FDE of the buffer: its start,
    relative to `textLo`, and its offset. -/
def CarriesIndex (b : Buffer) (textLo : Nat) (m : UnwindModule) : Prop :=
  ∃ index bases, m.unwindData = .dwarfCfiIndexAndEhFrame index b.bytes bases ∧
    index.sortedFdePcStarts.length = index.fdeOffsets.length ∧
    ((index.sortedFdePcStarts.map (textLo + ·)).zip index.fdeOffsets).Perm
      ((b.fdes G).map fun f => (f.initialAddress, f.offset))

variable {G}

theorem indexOf_rows {fdes : List Fde} {textLo : Nat} (h : ∀ f ∈ fdes, Indexable textLo f) :
    (((indexOf (fdes.map (rowOf textLo))).sortedFdePcStarts.map (textLo + ·)).zip
      (indexOf (fdes.map (rowOf textLo))).fdeOffsets).Perm (fdes.map fun f => (f.initialAddress, f.offset)) := by
  unfold indexOf
  simp only [List.map_map]
  rw [List.zip_map']
  have hperm := (List.mergeSort_perm (fdes.map (rowOf textLo)) fun a b => a.1 ≤ b.1).map
    (fun r => (textLo + r.1, r.2))
  refine hperm.trans (List.Perm.of_eq ?_)
  rw [List.map_map]
  refine List.map_congr_left ?_
  intro f hf
  have := (h f hf).above
  simp only [Function.comp, rowOf]
  rw [Nat.add_sub_cancel' this]

/-- What a registration that returns 0 checked and published. -/
theorem registerJitEhFrame_zero {w w' : JitWorld} {b : Buffer} {textLo textHi : Nat}
    (h : registerJitEhFrame G w b textLo textHi = some (w', 0)) :
    Parses (b.entries G) ∧ jitModule G b textLo textHi ∈ w'.published := by
  unfold registerJitEhFrame at h
  split at h
  · cases h
  split at h
  · cases h
  split at h
  · cases h
  · rename_i hrange
    obtain ⟨⟨lo, hi⟩, hr⟩ := Option.ne_none_iff_exists'.mp hrange
    obtain ⟨w₁, hadd, he⟩ := Option.map_eq_some_iff.mp h
    cases he
    refine ⟨(fdePcRange_spec hr).1, mem_published.mpr ?_⟩
    rw [(addJitModule_spec hadd).2]
    split
    · rw [List.foldl_cons, List.foldl_cons, List.foldl_nil, atStart_add (editChunks_wf w.chunks_wf _)]
      exact Multiset.mem_cons_self _ _
    · rw [List.foldl_cons, List.foldl_nil, atStart_add w.chunks_wf]
      exact Multiset.mem_cons_self _ _

/-- The automatic registration is one with the range of the buffer's FDEs. -/
theorem registerJitEhFrameAuto_zero {w w' : JitWorld} {b : Buffer} {textLo textHi : Nat}
    (h : registerJitEhFrameAuto G w b = some (w', 0)) (hr : fdePcRange G b = some (textLo, textHi)) :
    registerJitEhFrame G w b textLo textHi = some (w', 0) := by
  unfold registerJitEhFrameAuto at h
  split at h
  · cases h
  · rw [hr] at h
    exact h

/-- A registration that returns 0 has published its module. The module carries its index iff
    every FDE of the buffer starts at or above `textLo`, less than 2^32 bytes from it, and every
    FDE's offset fits in 32 bits. -/
theorem jit_index_iff (w w' : JitWorld) (b : Buffer) (textLo textHi : Nat)
    (h : registerJitEhFrame G w b textLo textHi = some (w', 0) ∨
      registerJitEhFrameAuto G w b = some (w', 0) ∧ fdePcRange G b = some (textLo, textHi)) :
    jitModule G b textLo textHi ∈ w'.published ∧
      (CarriesIndex G b textLo (jitModule G b textLo textHi) ↔
        ∀ f ∈ b.fdes G, textLo ≤ f.initialAddress ∧ f.initialAddress - textLo < 2 ^ 32 ∧ f.offset < 2 ^ 32) := by
  have hreg : registerJitEhFrame G w b textLo textHi = some (w', 0) := by
    rcases h with h | ⟨h, hr⟩
    · exact h
    · exact registerJitEhFrameAuto_zero h hr
  obtain ⟨hp, hmem⟩ := registerJitEhFrame_zero hreg
  refine ⟨hmem, ?_⟩
  rcases jitModule_data hp textLo textHi with ⟨hfit, hdata⟩ | ⟨hfit, hdata⟩
  · constructor
    · intro _ f hf
      exact ⟨(hfit f hf).above, (hfit f hf).near, (hfit f hf).offset⟩
    · intro _
      exact ⟨_, _, hdata, by simp [indexOf], indexOf_rows hfit⟩
  · constructor
    · intro hcarries
      obtain ⟨index, bases, he, -⟩ := hcarries
      rw [hdata] at he
      cases he
    · intro h₀
      exact absurd (fun f hf => ⟨(h₀ f hf).1, (h₀ f hf).2.1, (h₀ f hf).2.2⟩) hfit

/-- The inner buffer, registered for the page its function is in. -/
theorem jit_index_iff_page :
    ∃ w', registerJitEhFrame twoBuffers (World.new 0) ⟨0x6000, [2]⟩ 0x1000 0x2000 = some (w', 0) ∧
    CarriesIndex twoBuffers ⟨0x6000, [2]⟩ 0x1000 (jitModule twoBuffers ⟨0x6000, [2]⟩ 0x1000 0x2000) := by
  refine ⟨_, rfl, (jit_index_iff (World.new 0) _ _ _ _ (Or.inl rfl)).2.mpr ?_⟩
  decide

/-- Registered for a page above its function, the buffer's module claims that page and has no
    unwind data. -/
theorem registered_without_data :
    ∃ w', registerJitEhFrame twoBuffers (World.new 0) ⟨0x6000, [2]⟩ 0x2000 0x3000 = some (w', 0) ∧
      jitModule twoBuffers ⟨0x6000, [2]⟩ 0x2000 0x3000 ∈ w'.published ∧
      (jitModule twoBuffers ⟨0x6000, [2]⟩ 0x2000 0x3000).unwindData = .none ∧
      ¬ CarriesIndex twoBuffers ⟨0x6000, [2]⟩ 0x2000 (jitModule twoBuffers ⟨0x6000, [2]⟩ 0x2000 0x3000) := by
  refine ⟨_, rfl, List.mem_singleton.mpr rfl, rfl, ?_⟩
  intro hcarries
  obtain ⟨index, bases, he, -⟩ := hcarries
  cases he

end FramehopUnwind.Modules
