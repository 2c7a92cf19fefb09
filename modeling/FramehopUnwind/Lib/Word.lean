/-
  FramehopUnwind.Lib.Word — 64-bit unsigned arithmetic on `Nat`.

  A word is a `Nat`; each operation states what it does at `2^64`, as Rust's operations of
  the same names do on `u64`. `addOffset` is `u64::try_from(i64::try_from(v)?.checked_add(o)?)`.
-/

import Mathlib

namespace FramehopUnwind.Lib.Word

def u64Max : Nat := 2 ^ 64 - 1

def wrappingAdd (a b : Nat) : Nat := (a + b) % 2 ^ 64

def wrappingSub (a b : Nat) : Nat := (a + (2 ^ 64 - b % 2 ^ 64)) % 2 ^ 64

/-- `u32` subtraction of a release build. -/
def subU32 (a b : Nat) : Nat := (a + 2 ^ 32 - b) % 2 ^ 32

def checkedAdd (a b : Nat) : Option Nat := if a + b < 2 ^ 64 then some (a + b) else none

def saturatingAdd (a b : Nat) : Nat := min (a + b) u64Max

/-- `checked_add_signed`: the sum, if it is a word. -/
def checkedAddSigned (a : Nat) (b : Int) : Option Nat :=
  if 0 ≤ a + b ∧ a + b < 2 ^ 64 then some (a + b).toNat else none

def addOffset (v : Nat) (offset : Int) : Option Nat :=
  if v < 2 ^ 63 ∧ 0 ≤ v + offset ∧ v + offset < 2 ^ 63 then some (v + offset).toNat else none

/-- `i64` addition of a release build. -/
def wrappingAddSigned (a b : Int) : Int := (a + b).bmod (2 ^ 64)

/-- `u64::leading_zeros`. -/
def leadingZeros (a : Nat) : Nat := 64 - a.size

def toU16 (x : Int) : Option Nat := if 0 ≤ x ∧ x < 2 ^ 16 then some x.toNat else none

def toI16 (x : Int) : Option Int := if -(2 ^ 15) ≤ x ∧ x < 2 ^ 15 then some x else none

theorem checkedAdd_eq_some {a b c : Nat} : checkedAdd a b = some c ↔ a + b < 2 ^ 64 ∧ a + b = c := by
  unfold checkedAdd
  split
  · rename_i h
    exact ⟨fun heq => ⟨h, Option.some.inj heq⟩, fun heq => congrArg some heq.2⟩
  · rename_i h
    exact ⟨nofun, fun heq => absurd heq.1 h⟩

theorem subU32_of_le {a b : Nat} (h : b ≤ a) (ha : a < 2 ^ 32) : subU32 a b = a - b := by
  unfold subU32
  omega

theorem le_of_checkedAdd {a b c : Nat} (h : checkedAdd a b = some c) : a ≤ c := by
  rw [← (checkedAdd_eq_some.mp h).2]
  exact Nat.le_add_right a b

theorem checkedAddSigned_eq_some {a c : Nat} {b : Int} : checkedAddSigned a b = some c ↔ a + b = c ∧ c < 2 ^ 64 := by
  unfold checkedAddSigned
  split
  · rename_i h
    rw [Option.some.injEq]
    omega
  · rename_i h
    refine ⟨nofun, ?_⟩
    intro heq
    omega

theorem wrappingAdd_of_lt {a b : Nat} (h : a + b < 2 ^ 64) : wrappingAdd a b = a + b := Nat.mod_eq_of_lt h

/-- Truncating division, up to a remainder of either sign. -/
theorem tdiv_near (a : Int) {b : Int} (hb : 0 < b) : a - b < b * a.tdiv b ∧ b * a.tdiv b < a + b := by
  have hsum := Int.tmod_add_mul_tdiv a b
  have hlt := Int.tmod_lt_of_pos a hb
  have hgt := Int.lt_tmod_of_pos a hb
  omega

theorem toU16_eq_some {x : Int} {n : Nat} : toU16 x = some n ↔ (n : Int) = x ∧ n < 2 ^ 16 := by
  unfold toU16
  split
  case isTrue h =>
    rw [Option.some.injEq]
    omega
  case isFalse h =>
    refine ⟨by simp, ?_⟩
    intro heq
    omega

theorem toI16_eq_some {x k : Int} : toI16 x = some k ↔ k = x ∧ -2 ^ 15 ≤ k ∧ k < 2 ^ 15 := by
  unfold toI16
  split
  case isTrue h =>
    rw [Option.some.injEq]
    omega
  case isFalse h =>
    refine ⟨by simp, ?_⟩
    intro heq
    omega

/-- A sum that comes out small has not wrapped. -/
theorem wrappingAddSigned_of_small {a b : Int} (ha0 : -2 ^ 20 < a) (ha1 : a < 2 ^ 20) (hb0 : -2 ^ 63 ≤ b)
    (hb1 : b < 2 ^ 63)
    (h0 : -2 ^ 20 < wrappingAddSigned a b) (h1 : wrappingAddSigned a b < 2 ^ 20) : wrappingAddSigned a b = a + b := by
  unfold wrappingAddSigned at *
  simp only [Int.bmod] at *
  split at h0 <;> omega

theorem addOffset_of_range (v : Nat) (offset : Int) (hv : v < 2 ^ 63) (h0 : 0 ≤ v + offset) (h1 : v + offset < 2 ^ 63) :
    addOffset v offset = some (v + offset).toNat := if_pos ⟨hv, h0, h1⟩

/-- An offset that fits 16 bits when counted in units of `b`. -/
theorem toU16_tdiv {offset b : Int} {n : Nat} (hb : 0 < b) (h : toU16 (offset.tdiv b) = some n) :
    offset - b < b * n ∧ b * n < offset + b ∧ n < 2 ^ 16 := by
  obtain ⟨hn, hlt⟩ := toU16_eq_some.mp h
  obtain ⟨h0, h1⟩ := tdiv_near offset hb
  rw [← hn] at h0 h1
  exact ⟨h0, h1, hlt⟩

/-- A sum of offsets that fits 16 bits when counted in words. -/
theorem toI16_tdiv {a b k : Int} (ha0 : -2 ^ 20 < a) (ha1 : a < 2 ^ 20) (hb : -2 ^ 63 ≤ b ∧ b < 2 ^ 63)
    (h : toI16 ((wrappingAddSigned a b).tdiv 8) = some k) :
    k = (a + b).tdiv 8 ∧ -2 ^ 15 ≤ k ∧ k < 2 ^ 15 ∧ a + b - 8 < 8 * k ∧ 8 * k < a + b + 8 := by
  obtain ⟨hk, hlo, hhi⟩ := toI16_eq_some.mp h
  obtain ⟨h0, h1⟩ := tdiv_near (wrappingAddSigned a b) (b := 8) (by decide)
  have hsum : wrappingAddSigned a b = a + b :=
    wrappingAddSigned_of_small ha0 ha1 hb.1 hb.2 (by omega) (by omega)
  rw [hsum] at hk h0 h1
  omega

end FramehopUnwind.Lib.Word
