import Mathlib
import DeviceRegisters.Word

/-!
# DeviceRegisters.Proofs.Word

Field values bit by bit: what shifts make of them, which of them fit and are read back, and what
they are as signed numbers.
-/

namespace DeviceRegisters.Word

/-! ## shifts -/

theorem testBit_eq_false_of_le (value : UInt64) {k : Nat} (h : 64 ≤ k) :
    value.toNat.testBit k = false :=
  Nat.testBit_lt_two_pow (value.toNat_lt.trans_le (Nat.pow_le_pow_right (by decide) h))

/-- Moving a value down, by any distance, lets its bits move down. -/
theorem testBit_shiftDown (value : UInt64) (n k : Nat) :
    (shiftDown value n).toNat.testBit k = value.toNat.testBit (n + k) := by
  rw [shiftDown]
  split
  · have hlt : value.toNat >>> n < 2 ^ 64 :=
      (Nat.shiftRight_le value.toNat n).trans_lt value.toNat_lt
    rw [UInt64.toNat_ofNat', Nat.mod_eq_of_lt hlt, Nat.testBit_shiftRight]
  · rw [testBit_eq_false_of_le value (by omega)]
    simp

/-- Moving a value up lets its bits move up, as far as there is room. -/
theorem testBit_shiftUp (value : UInt64) (n k : Nat) :
    (shiftUp value n).toNat.testBit k =
      (decide (n ≤ k ∧ k < 64) && value.toNat.testBit (k - n)) := by
  rw [shiftUp]
  split
  · rw [UInt64.toNat_ofNat', Nat.testBit_mod_two_pow, Nat.testBit_shiftLeft]
    by_cases hn : n ≤ k <;> by_cases hk : k < 64 <;> simp [hn, hk]
  · have hnot : ¬ (n ≤ k ∧ k < 64) := by omega
    simp [hnot]

/-- Moving down twice is moving down once. -/
theorem shiftDown_shiftDown (value : UInt64) (m n : Nat) :
    shiftDown (shiftDown value m) n = shiftDown value (m + n) := by
  refine UInt64.toNat_inj.mp (Nat.eq_of_testBit_eq fun k => ?_)
  simp only [testBit_shiftDown, Nat.add_assoc]

@[simp] theorem shiftDown_zero (value : UInt64) : shiftDown value 0 = value := by
  refine UInt64.toNat_inj.mp (Nat.eq_of_testBit_eq fun k => ?_)
  rw [testBit_shiftDown, Nat.zero_add]

/-! ## values in slices -/

/-- Whatever its width, a slice has room for the values below its power of two. -/
theorem fits_iff {value : UInt64} {width : Nat} :
    fits value width = true ↔ value.toNat < 2 ^ width := by
  rw [fits, decide_eq_true_eq, mask, Nat.one_shiftLeft]
  rcases Nat.le_total width 64 with h | h
  · have hpos := Nat.two_pow_pos width
    rw [min_eq_left h]
    omega
  · have hlt := value.toNat_lt
    have hpow : 2 ^ 64 ≤ 2 ^ width := Nat.pow_le_pow_right (by decide) h
    rw [min_eq_right h]
    omega

/-- What is read back from a slice is what it has room for. -/
theorem toNat_extract_insert_mod {word : UInt32} {offset width : Nat} {value : UInt64}
    (hstop : offset + width ≤ 32) :
    (extract (insert word offset width value) offset width).toNat = value.toNat % 2 ^ width := by
  have hmin : min width 64 = width := by omega
  refine Nat.eq_of_testBit_eq fun i => ?_
  rw [testBit_extract, testBit_insert, hmin, Nat.testBit_mod_two_pow]
  by_cases hi : i < width
  · rw [if_pos ⟨by omega, by omega, by omega⟩, Nat.add_sub_cancel_left]
  · simp [hi]

/-- A value that fits is read back from its slice. -/
theorem toNat_extract_insert {word : UInt32} {offset width : Nat} {value : UInt64}
    (hstop : offset + width ≤ 32) (hfits : fits value width = true) :
    (extract (insert word offset width value) offset width).toNat = value.toNat := by
  rw [toNat_extract_insert_mod hstop, Nat.mod_eq_of_lt (fits_iff.mp hfits)]

/-! ## signed values -/

/-- Setting a bit above a number adds it. -/
theorem xor_two_pow_of_lt {n k : Nat} (h : n < 2 ^ k) : n ^^^ 2 ^ k = 2 ^ k + n := by
  refine Nat.eq_of_testBit_eq fun j => ?_
  have hadd := Nat.testBit_two_pow_mul_add (2 ^ 0) h j
  rw [Nat.pow_zero, Nat.mul_one, ← Nat.pow_zero 2, Nat.testBit_two_pow] at hadd
  rw [Nat.testBit_xor, Nat.testBit_two_pow, hadd]
  by_cases hj : j < k
  · simp [hj, Nat.ne_of_gt hj]
  · have hbit : n.testBit j = false := Nat.testBit_lt_two_pow
      (h.trans_le (Nat.pow_le_pow_right (by decide) (Nat.le_of_not_lt hj)))
    rw [hbit, if_neg hj, Bool.false_xor]
    exact decide_eq_decide.mpr (by omega)

/-- Flipping the top bit moves numbers up by half of their range, around its end. -/
theorem xor_two_pow {n k : Nat} (h : n < 2 ^ (k + 1)) : n ^^^ 2 ^ k = (n + 2 ^ k) % 2 ^ (k + 1) := by
  rw [Nat.pow_succ] at h ⊢
  rcases Nat.lt_or_ge n (2 ^ k) with hn | hn
  · rw [xor_two_pow_of_lt hn, Nat.mod_eq_of_lt (by omega), Nat.add_comm]
  · obtain ⟨l, rfl⟩ := Nat.exists_eq_add_of_le hn
    have hl : l < 2 ^ k := by omega
    rw [← xor_two_pow_of_lt hl, Nat.xor_xor_cancel_right, xor_two_pow_of_lt hl, Nat.add_right_comm,
      ← Nat.mul_two, Nat.add_mod_left, Nat.mod_eq_of_lt (by omega)]

/-- Two's complement is reached by moving numbers up by half of their range, around its end, and
down again. -/
theorem bmod_mul_two {n half : Nat} (h : n < half * 2) :
    (n : Int).bmod (half * 2 : Nat) = ((n + half) % (half * 2) : Nat) - half := by
  have hn : (n : Int) % (half * 2 : Nat) = n := Int.emod_eq_of_lt (by omega) (by omega)
  rw [Int.bmod_def, hn]
  split
  · rw [Nat.mod_eq_of_lt (by omega)]
    omega
  · rw [Nat.mod_eq_sub_mod (by omega), Nat.mod_eq_of_lt (by omega)]
    omega

theorem toNat_signBit {k : Nat} (h : k < 64) : (signBit (k + 1)).toNat = 2 ^ k := by
  rw [signBit, Nat.add_sub_cancel, Nat.one_shiftLeft, UInt64.toNat_ofNat',
    Nat.mod_eq_of_lt (Nat.pow_lt_pow_right (by decide) h)]

theorem toNat_offsetBinary (value : UInt64) {k : Nat} (h : k < 63) :
    (offsetBinary value (k + 1)).toNat = (value.toNat % 2 ^ (k + 1) + 2 ^ k) % 2 ^ (k + 1) := by
  have hk : 2 ^ (k + 1) < 2 ^ 64 := Nat.pow_lt_pow_right (by decide) (by omega)
  have hlt : value.toNat % 2 ^ (k + 1) < 2 ^ (k + 1) := Nat.mod_lt _ (Nat.two_pow_pos _)
  rw [offsetBinary, UInt64.toNat_xor, toNat_signBit (by omega), mask, min_eq_left (by omega),
    Nat.one_shiftLeft, Nat.and_two_pow_sub_one_eq_mod, UInt64.toNat_ofNat',
    Nat.mod_eq_of_lt (hlt.trans hk), xor_two_pow hlt]

theorem toInt_toInt64 (value : UInt64) : value.toInt64.toInt = (value.toNat : Int).bmod (2 ^ 64) := by
  rw [Int64.toInt, UInt64.toBitVec_toInt64, BitVec.toInt_eq_toNat_bmod, UInt64.toNat_toBitVec]

/-- A slice is read as the two's complement of its width. -/
theorem toInt_toSigned (value : UInt64) {width : Nat} (hpos : 0 < width) (h : width ≤ 64) :
    (toSigned value width).toInt = (BitVec.ofNat width value.toNat).toInt := by
  rw [BitVec.toInt_eq_toNat_bmod, BitVec.toNat_ofNat, toSigned, if_neg (by omega)]
  split
  · next hwide =>
    obtain rfl : width = 64 := by omega
    rw [toInt_toInt64, Nat.mod_eq_of_lt value.toNat_lt]
  · next hnarrow =>
    obtain ⟨k, rfl⟩ := Nat.exists_eq_add_of_le' hpos
    have hk : 2 ^ (k + 1) ≤ 2 ^ 63 := Nat.pow_le_pow_right (by decide) (by omega)
    have hlt : value.toNat % 2 ^ (k + 1) < 2 ^ (k + 1) := Nat.mod_lt _ (Nat.two_pow_pos _)
    rw [Int64.toInt_sub, toInt_toInt64, toInt_toInt64, toNat_offsetBinary value (by omega),
      toNat_signBit (by omega)]
    rw [Nat.pow_succ] at hk hlt ⊢
    rw [bmod_mul_two hlt]
    -- none of the three numbers leaves the range of 64 bits
    have hmoved : (value.toNat % (2 ^ k * 2) + 2 ^ k) % (2 ^ k * 2) < 2 ^ k * 2 :=
      Nat.mod_lt _ (by omega)
    generalize (value.toNat % (2 ^ k * 2) + 2 ^ k) % (2 ^ k * 2) = moved at hmoved ⊢
    generalize 2 ^ k = half at hk hmoved ⊢
    have hself : ∀ n : Int, -(2 ^ 63) ≤ n → n < 2 ^ 63 → n.bmod (2 ^ 64) = n := fun n hlow hhigh =>
      Int.bmod_eq_of_le (by omega) (by omega)
    rw [hself moved (by omega) (by omega), hself half (by omega) (by omega),
      hself (moved - half) (by omega) (by omega)]

end DeviceRegisters.Word
