import DeviceRegisters.Proofs.Word

/-!
# DeviceRegisters.Proofs.Word.Slices

Slices as places for numbers, and numbers with a sign.

A slice inside a word keeps what it has room for and touches nothing else
(`SliceLaws`); read as two's complement, a value keeps its residue and gets a sign, without
an overflow on the way (`SignLaws`).  Both hold at every offset and width
(`slice_and_sign_laws`).
-/

namespace DeviceRegisters.Word

variable {word : UInt32} {value : UInt64} {offset width : Nat}

/-! ## slices -/

/-- Bits outside the slice stay. -/
theorem testBit_insert_outside (word : UInt32) (value : UInt64) {i : Nat}
    (h : i < offset ∨ offset + width ≤ i) :
    (insert word offset width value).toNat.testBit i = word.toNat.testBit i := by
  rw [testBit_insert, if_neg (by omega)]

/-- What becomes of a bit does not depend on the other bits of the word. -/
theorem testBit_insert_congr {v w : UInt32} {i : Nat} (value : UInt64)
    (h : v.toNat.testBit i = w.toNat.testBit i) :
    (insert v offset width value).toNat.testBit i = (insert w offset width value).toNat.testBit i := by
  rw [testBit_insert, testBit_insert, h]

/-- Slices that share no bit are filled in any order. -/
theorem insert_insert_comm (word : UInt32) (value new : UInt64) {other size : Nat}
    (hapart : offset + width ≤ other ∨ other + size ≤ offset) :
    insert (insert word offset width value) other size new =
      insert (insert word other size new) offset width value := by
  refine UInt32.toNat_inj.mp (Nat.eq_of_testBit_eq fun i => ?_)
  -- one of the two slices leaves the bit alone, whenever it is filled
  by_cases hfirst : i < offset ∨ offset + width ≤ i
  · rw [testBit_insert_outside (insert word other size new) value hfirst]
    exact testBit_insert_congr new (testBit_insert_outside word value hfirst)
  · have hsecond : i < other ∨ other + size ≤ i := by omega
    rw [testBit_insert_outside (insert word offset width value) new hsecond]
    exact testBit_insert_congr value (testBit_insert_outside word new hsecond).symm

/-- A slice is filled with what is in it already. -/
theorem insert_extract (word : UInt32) (offset width : Nat) :
    insert word offset width (extract word offset width).toUInt64 = word := by
  refine UInt32.toNat_inj.mp (Nat.eq_of_testBit_eq fun i => ?_)
  rw [testBit_insert]
  split
  · next hslice =>
    have hinside : i - offset < min width 64 := by omega
    rw [UInt32.toNat_toUInt64, testBit_extract, decide_eq_true hinside, Bool.true_and,
      Nat.add_sub_cancel' hslice.1]
  · rfl

/-- What a slice inside a word does with a value. -/
structure SliceLaws (word : UInt32) (offset width : Nat) (value : UInt64) : Prop where
  /-- The lowest bits of the value are read back. -/
  kept : (extract (insert word offset width value) offset width).toNat = value.toNat % 2 ^ width
  outside : ∀ i, i < offset ∨ offset + width ≤ i →
    (insert word offset width value).toNat.testBit i = word.toNat.testBit i
  /-- Another slice that shares no bit with this one can be filled before it or after it. -/
  commutes : ∀ (other size : Nat) (new : UInt64),
    offset + width ≤ other ∨ other + size ≤ offset →
    insert (insert word offset width value) other size new =
      insert (insert word other size new) offset width value
  same : insert word offset width (extract word offset width).toUInt64 = word

/-- A slice inside the word obeys the laws of slices. -/
theorem sliceLaws (word : UInt32) (value : UInt64) (h : offset + width ≤ 32) :
    SliceLaws word offset width value where
  kept := toNat_extract_insert_mod h
  outside _ hi := testBit_insert_outside word value hi
  commutes _ _ new hapart := insert_insert_comm word value new hapart
  same := insert_extract word offset width

/-! ## signs -/

/-- A number that leaves the top bit free has no sign. -/
theorem toInt_toInt64_of_lt (h : value.toNat < 2 ^ 63) : value.toInt64.toInt = value.toNat := by
  rw [toInt_toInt64, Int.bmod_eq_of_le (by omega) (by omega)]

/-- Neither number of the subtraction reaches the top bit. -/
theorem lt_of_toSigned (value : UInt64) (hpos : 1 ≤ width) (h : width < 64) :
    (offsetBinary value width).toNat < 2 ^ 63 ∧ (signBit width).toNat < 2 ^ 63 := by
  obtain ⟨k, rfl⟩ := Nat.exists_eq_add_of_le' hpos
  have hk : 2 ^ (k + 1) ≤ 2 ^ 63 := Nat.pow_le_pow_right (by decide) (by omega)
  constructor
  · rw [toNat_offsetBinary value (by omega)]
    exact (Nat.mod_lt _ (Nat.two_pow_pos _)).trans_le hk
  · rw [toNat_signBit (by omega)]
    exact (Nat.pow_lt_pow_succ (by decide)).trans_le hk

/-- With a sign, a value is at most half its range away from zero, -/
theorem toInt_toSigned_mem (value : UInt64) (hpos : 1 ≤ width) (h : width ≤ 64) :
    -2 ^ (width - 1) ≤ (toSigned value width).toInt ∧
      (toSigned value width).toInt < 2 ^ (width - 1) := by
  rw [toInt_toSigned value hpos h]
  exact ⟨BitVec.le_toInt _, BitVec.toInt_lt⟩

/-- and it is what it was but for a multiple of the range. -/
theorem toInt_toSigned_modEq (value : UInt64) (hpos : 1 ≤ width) (h : width ≤ 64) :
    (toSigned value width).toInt ≡ value.toNat [ZMOD (2 ^ width : Nat)] := by
  rw [toInt_toSigned value hpos h, BitVec.toInt_eq_toNat_bmod, BitVec.toNat_ofNat, Int.ModEq,
    Int.bmod_emod, Int.natCast_mod, Int.emod_emod]

/-- What a value of `width` bits is with a sign. -/
structure SignLaws (value : UInt64) (width : Nat) : Prop where
  least : -2 ^ (width - 1) ≤ (toSigned value width).toInt
  most : (toSigned value width).toInt < 2 ^ (width - 1)
  residue : (toSigned value width).toInt ≡ value.toNat [ZMOD (2 ^ width : Nat)]
  /-- Below 64 bits, where something is subtracted, the difference is a number of 64 bits. -/
  exact : width < 64 →
    -2 ^ 63 ≤ (offsetBinary value width).toInt64.toInt - (signBit width).toInt64.toInt ∧
      (offsetBinary value width).toInt64.toInt - (signBit width).toInt64.toInt < 2 ^ 63

/-- A width of 1 to 64 obeys the laws of signed values. -/
theorem signLaws (value : UInt64) (hpos : 1 ≤ width) (h : width ≤ 64) : SignLaws value width where
  least := (toInt_toSigned_mem value hpos h).1
  most := (toInt_toSigned_mem value hpos h).2
  residue := toInt_toSigned_modEq value hpos h
  exact hnarrow := by
    obtain ⟨hmoved, hhalf⟩ := lt_of_toSigned value hpos hnarrow
    rw [toInt_toInt64_of_lt hmoved, toInt_toInt64_of_lt hhalf]
    omega

/-- Every slice inside a word and every width of a value obey the laws. -/
theorem slice_and_sign_laws :
    (∀ (word : UInt32) (offset width : Nat) (value : UInt64), offset + width ≤ 32 →
      SliceLaws word offset width value) ∧
    ∀ (value : UInt64) (width : Nat), 1 ≤ width → width ≤ 64 → SignLaws value width :=
  ⟨fun word _ _ value h => sliceLaws word value h, fun value _ hpos h => signLaws value hpos h⟩

/-- A slice at the upper end of a word is given more than it has room for, and a value of 63 bits
has its sign only. -/
theorem laws_at_upper_ends :
    20 + 12 ≤ 32 ∧ (extract (insert 0x12345678 20 12 0xFABC) 20 12).toNat = 0xABC ∧
      1 ≤ 63 ∧ 63 ≤ 64 ∧ (toSigned 0x4000000000000000 63).toInt = -0x4000000000000000 := by
  obtain ⟨hslices, hsigns⟩ := slice_and_sign_laws
  have hslice := hslices 0x12345678 20 12 0xFABC (by decide)
  have hsign := hsigns 0x4000000000000000 63 (by decide) (by decide)
  refine ⟨by decide, hslice.kept.trans (by decide), by decide, by decide, ?_⟩
  -- the bounds leave room for one number of the residue
  have hleast := hsign.least
  have hmost := hsign.most
  have hresidue : (toSigned 0x4000000000000000 63).toInt % 2 ^ 63 = 2 ^ 62 := hsign.residue
  omega

end DeviceRegisters.Word
