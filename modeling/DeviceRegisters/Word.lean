/-!
# DeviceRegisters.Word

Slices of 32-bit words, and field values of up to 64 bits.

A slice is given by the offset of its lowest bit and its width.  The definitions
work on bits as natural numbers, where nothing wraps; the results are cut to the
width of their type.

`testBit_extract` and `testBit_insert` say what becomes of every single bit.
-/

namespace DeviceRegisters.Word

/-! ## slices -/

/-- The number whose lowest `width` bits are set, of 64 at most. -/
def mask (width : Nat) : Nat := (1 <<< min width 64) - 1

theorem testBit_mask (width i : Nat) : (mask width).testBit i = decide (i < min width 64) := by
  rw [mask, Nat.one_shiftLeft, Nat.testBit_two_pow_sub_one]

/-- The bits of the slice, moved to the bottom. -/
def extract (word : UInt32) (offset width : Nat) : UInt32 :=
  UInt32.ofNat ((word.toNat >>> offset) &&& mask width)

/-- The word with the bits of the slice replaced by the lowest bits of `value`.
A slice that starts past the word leaves it as it is. -/
def insert (word : UInt32) (offset width : Nat) (value : UInt64) : UInt32 :=
  if offset < 32 then
    let old := word.toNat
    UInt32.ofNat (old ^^^ ((old ^^^ (value.toNat <<< offset)) &&& (mask width <<< offset)))
  else word

/-- Whether the value has no bit at or above `width`. -/
def fits (value : UInt64) (width : Nat) : Bool := value.toNat ≤ mask width

/-! ## bit by bit -/

theorem testBit_toNat_of_le (word : UInt32) {i : Nat} (h : 32 ≤ i) : word.toNat.testBit i = false :=
  Nat.testBit_lt_two_pow (Nat.lt_of_lt_of_le word.toNat_lt (Nat.pow_le_pow_right (by decide) h))

theorem testBit_toNat_ofNat (n i : Nat) :
    (UInt32.ofNat n).toNat.testBit i = (decide (i < 32) && n.testBit i) := by
  rw [UInt32.toNat_ofNat', Nat.testBit_mod_two_pow]

/-- A slice's bits are the word's, from `offset` on. -/
theorem testBit_extract (word : UInt32) (offset width i : Nat) :
    (extract word offset width).toNat.testBit i =
      (decide (i < min width 64) && word.toNat.testBit (offset + i)) := by
  rw [extract, testBit_toNat_ofNat, Nat.testBit_and, Nat.testBit_shiftRight, testBit_mask]
  by_cases h : i < 32
  · simp [h, Bool.and_comm]
  · simp [h, testBit_toNat_of_le word (Nat.le_trans (Nat.le_of_not_lt h) (Nat.le_add_left i offset))]

/-- Inserting replaces the bits of the slice that are in the word, and no
other. -/
theorem testBit_insert (word : UInt32) (offset width : Nat) (value : UInt64) (i : Nat) :
    (insert word offset width value).toNat.testBit i =
      if offset ≤ i ∧ i < offset + min width 64 ∧ i < 32 then value.toNat.testBit (i - offset)
      else word.toNat.testBit i := by
  by_cases h : i < 32
  · by_cases ho : offset < 32
    · simp only [insert, ho, if_true, testBit_toNat_ofNat, Nat.testBit_xor, Nat.testBit_and,
        Nat.testBit_shiftLeft, testBit_mask, h, decide_true, Bool.true_and]
      by_cases hi : offset ≤ i
      · by_cases hw : i < offset + min width 64
        · have hs : i - offset < min width 64 := by omega
          simp [hi, hw, hs]
        · have hs : ¬ i - offset < min width 64 := by omega
          simp [hi, hw, hs]
      · simp [hi]
    · have hi : ¬ offset ≤ i := by omega
      simp [insert, ho, hi]
  · simp [h, testBit_toNat_of_le _ (Nat.le_of_not_lt h)]

/-! ## signed values -/

/-- The top bit of a slice of `width` bits, for widths of 1 to 64. -/
def signBit (width : Nat) : UInt64 := UInt64.ofNat (1 <<< (width - 1))

/-- The lowest `width` bits with their top bit flipped: the slice's value in
two's complement, moved up by `signBit width`. -/
def offsetBinary (value : UInt64) (width : Nat) : UInt64 :=
  UInt64.ofNat (value.toNat &&& mask width) ^^^ signBit width

/-- The lowest `width` bits read as two's complement. -/
def toSigned (value : UInt64) (width : Nat) : Int64 :=
  if width = 0 then 0
  else if 64 ≤ width then value.toInt64
  else (offsetBinary value width).toInt64 - (signBit width).toInt64

/-! ## shifts that leave the word -/

/-- Moves the value up; bits that leave at the top are lost, all of them from
64 on. -/
def shiftUp (value : UInt64) (n : Nat) : UInt64 :=
  if n < 64 then UInt64.ofNat (value.toNat <<< n) else 0

/-- Moves the value down; bits that leave at the bottom are lost. -/
def shiftDown (value : UInt64) (n : Nat) : UInt64 :=
  if n < 64 then UInt64.ofNat (value.toNat >>> n) else 0

end DeviceRegisters.Word
