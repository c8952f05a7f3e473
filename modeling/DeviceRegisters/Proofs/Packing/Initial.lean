import Mathlib
import DeviceRegisters.Proofs.Packing.Bits
import DeviceRegisters.Proofs.Packing.Registers

/-!
# DeviceRegisters.Proofs.Packing.Initial

What a field list says about the bits that registers start out with.

A field starts out with the values of its slices one after the other (`joined`); put together
as a value of 64 bits it is the same number as long as the slices are no wider together
(`initial_ofSlices`), and then it fits the field (`joined_lt`).  An entry gives a bit to each
bit of a register that it covers (`Item.bit?`), and of several entries the last one counts
(`lastBit`).
-/

namespace DeviceRegisters.Packing

variable {slices : List Slice} {items : List Item} {item : Item} {register bit : Nat}

/-! ## the value of a field -/

/-- The values that slices start out with, one after the other: the first one stands above all
the others. -/
def joined : List Slice → Nat
  | [] => 0
  | s :: below => 2 ^ slicesWidth below * s.initial.toNat + joined below

/-- Values that fit their slices fit together. -/
theorem joined_lt (hfits : ∀ s ∈ slices, s.initial.toNat < 2 ^ s.width) :
    joined slices < 2 ^ slicesWidth slices := by
  induction slices with
  | nil => exact Nat.one_pos
  | cons s below ih =>
      obtain ⟨hs, hbelow⟩ := List.forall_mem_cons.mp hfits
      calc joined (s :: below)
          < 2 ^ slicesWidth below * s.initial.toNat + 2 ^ slicesWidth below :=
            Nat.add_lt_add_left (ih hbelow) _
        _ = 2 ^ slicesWidth below * (s.initial.toNat + 1) := by rw [Nat.mul_add_one]
        _ ≤ 2 ^ slicesWidth below * 2 ^ s.width := Nat.mul_le_mul_left _ hs
        _ = 2 ^ slicesWidth (s :: below) := by rw [slicesWidth_cons, Nat.pow_add, Nat.mul_comm]

/-- Moving a value up makes room for another one below it, as far as there are 64 bits. -/
theorem toNat_shiftUp_or {value low : UInt64} {width : Nat} (h : low.toNat < 2 ^ width) :
    (Word.shiftUp value width ||| low).toNat = (2 ^ width * value.toNat + low.toNat) % 2 ^ 64 := by
  refine Nat.eq_of_testBit_eq fun k => ?_
  rw [UInt64.toNat_or, Nat.testBit_or, Word.testBit_shiftUp, Nat.testBit_mod_two_pow,
    Nat.testBit_two_pow_mul_add _ h]
  by_cases hk : k < width
  · have hnot : ¬ width ≤ k := Nat.not_le.mpr hk
    by_cases hroom : k < 64
    · simp [hk, hnot, hroom]
    · simp [hnot, hroom, Word.testBit_eq_false_of_le low (Nat.le_of_not_lt hroom)]
  · have hlow : low.toNat.testBit k = false := Nat.testBit_lt_two_pow
      (h.trans_le (Nat.pow_le_pow_right (by decide) (Nat.le_of_not_lt hk)))
    simp [hk, Nat.le_of_not_lt hk, hlow]

/-- Initial values that fit their slices are joined, the later ones below, and cut to 64 bits. -/
theorem toNat_foldl_shiftUp (hfits : ∀ s ∈ slices, s.initial.toNat < 2 ^ s.width)
    (before : UInt64) :
    (slices.foldl (fun value s => Word.shiftUp value s.width ||| s.initial) before).toNat =
      (2 ^ slicesWidth slices * before.toNat + joined slices) % 2 ^ 64 := by
  induction slices generalizing before with
  | nil => simp [joined]
  | cons s below ih =>
      obtain ⟨hs, hbelow⟩ := List.forall_mem_cons.mp hfits
      rw [List.foldl_cons, ih hbelow, toNat_shiftUp_or hs, Nat.add_mod, Nat.mul_mod, Nat.mod_mod,
        ← Nat.mul_mod, ← Nat.add_mod, slicesWidth_cons, joined, Nat.pow_add]
      ring_nf

/-- A field that is not too wide starts out with the values of its slices one after the other. -/
theorem initial_ofSlices (hfits : ∀ s ∈ slices, s.initial.toNat < 2 ^ s.width)
    (hwidth : slicesWidth slices ≤ 64) :
    (Assembly.ofSlices slices).initial.toNat = joined slices := by
  have hlt : joined slices < 2 ^ 64 :=
    (joined_lt hfits).trans_le (Nat.pow_le_pow_right (by decide) hwidth)
  rw [Assembly.ofSlices, toNat_foldl_shiftUp hfits, UInt64.toNat_zero, Nat.mul_zero, Nat.zero_add,
    Nat.mod_eq_of_lt hlt]

/-- The slices of a field that can be written hold the values that they start out with. -/
theorem initial_lt_of_writable (h : ∀ s ∈ slices, s.Writable) :
    ∀ s ∈ slices, s.initial.toNat < 2 ^ s.width := fun s hs => Word.fits_iff.mp (h s hs).initial

/-! ## the bits of registers -/

/-- A field of more than 64 bits. -/
def Item.tooWide (item : Item) : Bool :=
  match item.meaning with
  | .field slices => 64 < slicesWidth slices
  | .constant _ _ => false

/-- An entry that registers start out with: a constant, or a field none of whose slices is read
only. -/
def Item.seeds (item : Item) : Bool :=
  match item.meaning with
  | .field slices => !slices.any (·.readOnly)
  | .constant _ _ => true

/-- What an entry says a bit of a register is, if it covers that bit; a constant covers the
whole register. -/
def Item.bit? (item : Item) (register bit : Nat) : Option Bool :=
  match item.meaning with
  | .field slices => (fieldBit? register bit slices).map (joined slices).testBit
  | .constant other value =>
    if register = other ∧ bit < 32 then some (value.toNat.testBit bit) else none

/-- What the last entry that covers a bit of a register says it is; zero if none does. -/
def lastBit (items : List Item) (register bit : Nat) : Bool :=
  (items.reverse.findSome? (·.bit? register bit)).getD false

@[simp] theorem lastBit_nil : lastBit [] register bit = false := rfl

/-- The last item decides on a bit, if it says anything of it. -/
theorem lastBit_concat :
    lastBit (items ++ [item]) register bit =
      (item.bit? register bit).getD (lastBit items register bit) := by
  rw [lastBit, List.reverse_append, List.reverse_singleton, List.singleton_append,
    List.findSome?_cons]
  cases item.bit? register bit <;> rfl

end DeviceRegisters.Packing
