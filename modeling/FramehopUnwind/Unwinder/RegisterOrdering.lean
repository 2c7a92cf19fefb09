/-
  FramehopUnwind.Unwinder.RegisterOrdering — the encoding of popped registers in a rule
  (vendor/framehop/src/x86_64/register_ordering.rs).

  A rule names the registers it pops, and in which order, by a count and a `u16`. `encode`
  puts each register to the front of those left and adds its index there, scaled; `decode`
  (see `Unwinder.X86`) undoes the swaps. Both are `Lib.Arrangement` over the eight
  callee-saved registers.

  Proved:
  - `register_ordering_roundtrip`: a list of registers has an encoding if and only if it holds
    distinct callee-saved registers; its encoding decodes to it and is below 8!, so `decode`
    never runs out of registers; decoding a number and encoding again gives its digits in use.
-/

import FramehopUnwind.Unwinder.X86
import FramehopUnwind.Lib.Arrangement

namespace FramehopUnwind.Unwinder.X86

open Lib.Arrangement

/-- The loop of `encode` from the register `i` on. -/
def encodeLoop : List Reg → Nat → List Reg → Nat → Nat → Option Nat
  | [], _, _, r, _ => some r
  | reg :: rest, i, regOrder, r, scale =>
    match (regOrder.drop i).idxOf? reg with
    | none => none
    | some index =>
      let regOrder := if index ≠ 0 then swapAt regOrder (i + index) i else regOrder
      encodeLoop rest (i + 1) regOrder (r + index * scale) (scale * (8 - i))

/-- The count and the number of a list of registers; the number and the scale of the loop stay
    in a `u16`. -/
def encode (registers : List Reg) : Option (Nat × Nat) :=
  if registers.length > encodeRegisters.length then none
  else (encodeLoop registers 0 encodeRegisters 0 1).map (registers.length, ·)

/-! ## The loops on the registers left -/

theorem swapAt_append {pre l : List Reg} {a : Reg} {k : Nat} (hk : k < l.length + 1) :
    swapAt (pre ++ a :: l) (pre.length + k) pre.length = pre ++ (pull a l k).1 :: (pull a l k).2 := by
  unfold swapAt
  cases k with
  | zero => simp [pull]
  | succ k =>
    have hk' : k < l.length := Nat.lt_of_succ_lt_succ hk
    have hget : (pre ++ a :: l)[pre.length + (k + 1)]? = some (l.get ⟨k, hk'⟩) := by
      rw [List.getElem?_append_right (Nat.le_add_right _ _), Nat.add_sub_cancel_left]
      simp [List.getElem?_eq_getElem hk']
    have hhead : (pre ++ a :: l)[pre.length]? = some a := by simp
    rw [hget, hhead]
    simp only [pull, List.getElem?_eq_getElem hk', Option.getD_some, List.get_eq_getElem]
    rw [List.set_append_right _ _ (Nat.le_add_right _ _), Nat.add_sub_cancel_left, List.set_cons_succ,
      List.set_append_right _ _ le_rfl, Nat.sub_self, List.set_cons_zero]

/-- Swapping the register at `k` to the front of those left, as both loops do. -/
theorem swapAt_if {pre l : List Reg} {a : Reg} {k : Nat} (hk : k < l.length + 1) :
    (if k ≠ 0 then swapAt (pre ++ a :: l) (pre.length + k) pre.length else pre ++ a :: l) =
      pre ++ (pull a l k).1 :: (pull a l k).2 := by
  split
  case isTrue h => exact swapAt_append hk
  case isFalse h =>
    have h0 : k = 0 := not_not.mp h
    subst h0
    rfl

theorem decodeLoop_eq {n : Nat} (r : Nat) (pre left : List Reg) (hpre : pre.length + n = 8) (hleft : left.length = n) :
    decodeLoop n r (pre ++ left) = pre ++ arrange n r left := by
  induction n generalizing r pre left with
  | zero => rfl
  | succ n ih =>
    unfold decodeLoop
    split
    case isTrue h =>
      subst h
      rw [arrange_zero _ hleft]
    case isFalse h =>
      cases left with
      | nil => cases hleft
      | cons a l =>
        have hl : l.length = n := Nat.succ.inj hleft
        have hat : 8 - (n + 1) = pre.length := by omega
        have hk : r % (n + 1) < l.length + 1 := by
          rw [hl]
          exact Nat.mod_lt _ (Nat.succ_pos n)
        have hih := ih (r / (n + 1)) (pre ++ [(pull a l (r % (n + 1))).1]) (pull a l (r % (n + 1))).2
          (by simp; omega) (by simp [hl])
        simp only [List.append_assoc, List.singleton_append] at hih
        simp only [hat, swapAt_if hk, hih, arrange]

theorem encodeLoop_eq (registers pre left : List Reg) (r scale : Nat) (hpre : pre.length + left.length = 8) :
    encodeLoop registers pre.length (pre ++ left) r scale = (rank left registers).map (r + scale * ·) := by
  induction registers generalizing pre left r scale with
  | nil => simp [encodeLoop, rank]
  | cons reg rest ih =>
    unfold encodeLoop
    rw [List.drop_left]
    cases left with
    | nil => simp [rank]
    | cons a l =>
      unfold rank
      cases hk : (a :: l).idxOf? reg with
      | none => rfl
      | some k =>
        obtain ⟨hlt, -⟩ := idxOf?_eq_some hk
        have hih := ih (pre ++ [(pull a l k).1]) (pull a l k).2 (r + k * scale) (scale * (8 - pre.length))
          (by simpa [Nat.add_right_comm, Nat.add_assoc] using hpre)
        simp only [List.append_assoc, List.singleton_append, List.length_append, List.length_cons, List.length_nil,
          Nat.zero_add] at hih
        have hbase : 8 - pre.length = l.length + 1 := by
          simp only [List.length_cons] at hpre
          omega
        simp only [swapAt_if hlt, Option.map_map]
        rw [hih, hbase]
        congr 1
        funext r'
        simp only [Function.comp_apply]
        ring

theorem decode_eq (count r : Nat) : decode count r = (arrange 8 r encodeRegisters).take count := by
  have := decodeLoop_eq (n := 8) r [] encodeRegisters rfl rfl
  rw [List.nil_append, List.nil_append] at this
  rw [decode, this]

theorem encode_eq (registers : List Reg) :
    encode registers = (rank encodeRegisters registers).map (registers.length, ·) := by
  have hloop := encodeLoop_eq registers [] encodeRegisters 0 1 rfl
  simp only [List.length_nil, List.nil_append, Nat.zero_add, Nat.one_mul, Option.map_id'] at hloop
  unfold encode
  split
  case isTrue h =>
    -- more registers than the pool has cannot be distinct ones of it
    have hnone : rank encodeRegisters registers = none := by
      rw [← Option.not_isSome_iff_eq_none, rank_isSome_iff (by decide)]
      intro hr
      have := (hr.1.subperm hr.2).length_le
      omega
    rw [hnone]
    rfl
  case isFalse h => rw [hloop]

/-! ## Round trips -/

theorem encodeRegisters_nodup : encodeRegisters.Nodup := by decide

theorem encode_isSome_iff (registers : List Reg) :
    (encode registers).isSome ↔ registers.Nodup ∧ ∀ reg ∈ registers, reg ∈ encodeRegisters := by
  rw [encode_eq, Option.isSome_map, rank_isSome_iff encodeRegisters_nodup]
  rfl

theorem encode_some {registers : List Reg} {count r : Nat} (h : encode registers = some (count, r)) :
    count = registers.length ∧ decode count r = registers ∧ r < Nat.factorial 8 := by
  rw [encode_eq] at h
  obtain ⟨r', hr', heq⟩ := Option.map_eq_some_iff.mp h
  cases heq
  refine ⟨rfl, ?_, ?_⟩
  · rw [decode_eq]
    exact take_arrange_rank hr'
  · have hle : registers.length ≤ 8 := by
      have hs := (rank_isSome_iff encodeRegisters_nodup registers).mp (Option.isSome_of_mem hr')
      exact (hs.1.subperm hs.2).length_le
    calc r < Nat.descFactorial 8 registers.length := rank_lt hr'
      _ ≤ Nat.factorial 8 := by
        rw [← Nat.factorial_mul_descFactorial hle]
        exact Nat.le_mul_of_pos_left _ (Nat.factorial_pos _)

theorem encode_decode {count : Nat} (h : count ≤ 8) (r : Nat) :
    encode (decode count r) = some (count, r % Nat.descFactorial 8 count) := by
  have hlen : (decode count r).length = count := by
    rw [decode_eq, List.length_take, arrange_length]
    exact min_eq_left h
  have hrank : rank encodeRegisters ((arrange 8 r encodeRegisters).take count) = some (r % Nat.descFactorial 8 count) :=
    rank_take_arrange encodeRegisters_nodup h r
  rw [encode_eq, hlen, decode_eq, hrank]
  rfl

/-- An encoding exists exactly for distinct callee-saved registers, in any order, and decodes
    to them; a decoded number encodes back to its digits in use. -/
theorem register_ordering_roundtrip :
    (∀ registers, (encode registers).isSome ↔ registers.Nodup ∧ ∀ reg ∈ registers, reg ∈ encodeRegisters) ∧
      (∀ registers count r, encode registers = some (count, r) →
        count = registers.length ∧ decode count r = registers ∧ r < Nat.factorial 8) ∧
      ∀ count ≤ 8, ∀ r < Nat.factorial 8, encode (decode count r) = some (count, r % Nat.descFactorial 8 count) := by
  refine ⟨encode_isSome_iff, ?_, ?_⟩
  · intro registers count r h
    exact encode_some h
  · intro count hc r _
    exact encode_decode hc r

end FramehopUnwind.Unwinder.X86
