import Mathlib
import DeviceRegisters.Packing.Basic
import DeviceRegisters.Proofs.Word

/-!
# DeviceRegisters.Proofs.Packing.Bits

A value in the bits of slices, whatever the words are that the slices lie in.

`insertAll` puts a value into slices, the last slice first, and `extractAll` takes one out
of them, from the first slice on.  `fieldBit?` says which bit of the value belongs to a bit
of a register: the slices take the bits of the value in turn, the last slice the lowest,
and where slices overlap the first one counts.  `testBit_insertAll` is that about words,
`extractAll_insertAll` what follows for slices that do not overlap: the value comes out
again.  Neither asks how wide the slices are together.
-/

namespace DeviceRegisters.Packing

variable {s t : Slice} {slices below : List Slice} {words : Nat → UInt32} {value : UInt64}
  {register bit k : Nat}

/-! ## which bit is where -/

/-- A bit of a register lies in the slice. -/
def Slice.Covers (s : Slice) (register bit : Nat) : Prop :=
  register = s.register ∧ s.offset ≤ bit ∧ bit < s.offset + s.width

instance (s : Slice) (register bit : Nat) : Decidable (s.Covers register bit) :=
  inferInstanceAs (Decidable (_ ∧ _ ∧ _))

/-- No bit lies in both slices. -/
def Slice.Disjoint (s t : Slice) : Prop :=
  ∀ register bit, s.Covers register bit → ¬ t.Covers register bit

/-- The number of bits that slices have together. -/
def slicesWidth (slices : List Slice) : Nat := (slices.map (·.width)).sum

@[simp] theorem slicesWidth_nil : slicesWidth [] = 0 := rfl

@[simp] theorem slicesWidth_cons (s : Slice) (below : List Slice) :
    slicesWidth (s :: below) = s.width + slicesWidth below := by simp [slicesWidth]

/-- The bit of a field's value that belongs to a bit of a register, if that lies in the field.
The first slice that covers it counts, and holds the bits above those of all slices after it. -/
def fieldBit? (register bit : Nat) : List Slice → Option Nat
  | [] => none
  | s :: below =>
    if s.Covers register bit then some (slicesWidth below + (bit - s.offset))
    else fieldBit? register bit below

/-- The bits of a field lie in its slices. -/
theorem exists_covers_of_fieldBit? (h : fieldBit? register bit slices = some k) :
    ∃ s ∈ slices, s.Covers register bit := by
  induction slices with
  | nil => contradiction
  | cons s below ih =>
      rw [fieldBit?] at h
      split at h
      · next hcovers => exact ⟨s, List.mem_cons_self, hcovers⟩
      · obtain ⟨t, ht, hcovers⟩ := ih h
        exact ⟨t, List.mem_cons_of_mem _ ht, hcovers⟩

/-! ## parts -/

/-- The first slice holds the highest bits, so that its part comes last. -/
theorem parts_ofSlices_cons (s : Slice) (below : List Slice) :
    (Assembly.ofSlices (s :: below)).parts =
      (Assembly.ofSlices below).parts ++ [⟨s.register, s.offset, s.width⟩] := by
  simp [Assembly.ofSlices]

/-- The widths of parts add up. -/
theorem partsWidth_append (first later : List Part) :
    Assembly.partsWidth (first ++ later) =
      Assembly.partsWidth first + Assembly.partsWidth later := by
  induction first with
  | nil => simp [Assembly.partsWidth]
  | cons part first ih => simp [Assembly.partsWidth, ih, Nat.add_assoc]

/-- A field is as wide as its slices are together. -/
theorem width_ofSlices (slices : List Slice) :
    (Assembly.ofSlices slices).width = slicesWidth slices := by
  rw [Assembly.width]
  induction slices with
  | nil => rfl
  | cons s below ih =>
      rw [parts_ofSlices_cons, partsWidth_append, ih, slicesWidth_cons, Nat.add_comm]
      rfl

/-- A field can be read only as soon as one of its slices can. -/
theorem readOnly_ofSlices :
    (Assembly.ofSlices slices).readOnly = true ↔ ∃ s ∈ slices, s.readOnly = true :=
  List.any_eq_true

/-! ## putting in -/

/-- The words after a value was put into slices, the last slice first. -/
def insertAll (value : UInt64) (words : Nat → UInt32) : List Slice → Nat → UInt32
  | [] => words
  | s :: below =>
    let words := insertAll value words below
    Function.update words s.register
      (Word.insert (words s.register) s.offset s.width (Word.shiftDown value (slicesWidth below)))

/-- Each bit of a register is the bit of the value that belongs to it, if there is one, and as it
was if not. -/
theorem testBit_insertAll (value : UInt64) (words : Nat → UInt32)
    (hinside : ∀ s ∈ slices, s.offset + s.width ≤ 32) (register bit : Nat) :
    (insertAll value words slices register).toNat.testBit bit =
      match fieldBit? register bit slices with
      | some k => value.toNat.testBit k
      | none => (words register).toNat.testBit bit := by
  induction slices with
  | nil => rfl
  | cons s below ih =>
      obtain ⟨hstop, hinside⟩ := List.forall_mem_cons.mp hinside
      have hmin : min s.width 64 = s.width := by omega
      rw [insertAll, fieldBit?]
      by_cases hregister : register = s.register
      · subst hregister
        rw [Function.update_self, Word.testBit_insert, hmin]
        by_cases hbit : s.offset ≤ bit ∧ bit < s.offset + s.width
        · rw [if_pos ⟨hbit.1, hbit.2, by omega⟩, Word.testBit_shiftDown, if_pos ⟨rfl, hbit⟩]
        · rw [if_neg fun h => hbit ⟨h.1, h.2.1⟩, if_neg fun h => hbit h.2, ih hinside]
      · rw [Function.update_of_ne hregister, if_neg fun h => hregister h.1, ih hinside]

/-! ## taking out -/

/-- The value that slices hold, below one that was read before. -/
def extractAll (words : Nat → UInt32) (value : UInt64) : List Slice → UInt64
  | [] => value
  | s :: below =>
    let bits := Word.extract (words s.register) s.offset s.width
    extractAll words (Word.shiftUp value s.width ||| bits.toUInt64) below

/-- Words hold a value in slices: each slice the bits that stand above those after it. -/
def Holds (words : Nat → UInt32) (value : UInt64) : List Slice → Prop
  | [] => True
  | s :: below =>
    (∀ j < s.width, (words s.register).toNat.testBit (s.offset + j) =
      value.toNat.testBit (slicesWidth below + j)) ∧ Holds words value below

/-- If no slice gets in the way of another, words hold a value as soon as each bit that belongs to
the field is right. -/
theorem holds_of_fieldBit? (hdisjoint : slices.Pairwise Slice.Disjoint)
    (h : ∀ register bit k, fieldBit? register bit slices = some k →
      (words register).toNat.testBit bit = value.toNat.testBit k) : Holds words value slices := by
  induction slices with
  | nil => trivial
  | cons s below ih =>
      obtain ⟨hfirst, hbelow⟩ := List.pairwise_cons.mp hdisjoint
      refine ⟨fun j hj => ?_, ih hbelow fun register bit k hk => h register bit k ?_⟩
      · have hcovers : s.Covers s.register (s.offset + j) := ⟨rfl, by omega, by omega⟩
        exact h _ _ _ (by rw [fieldBit?, if_pos hcovers, Nat.add_sub_cancel_left])
      · obtain ⟨t, ht, hcovers⟩ := exists_covers_of_fieldBit? hk
        rw [fieldBit?, if_neg fun hs => hfirst t ht register bit hs hcovers, hk]

/-- What words hold is taken out of them, below what was read before. -/
theorem testBit_extractAll (hinside : ∀ s ∈ slices, s.offset + s.width ≤ 32)
    (h : Holds words value slices) (before : UInt64) (k : Nat) :
    (extractAll words before slices).toNat.testBit k =
      if k < slicesWidth slices then value.toNat.testBit k
      else decide (k < 64) && before.toNat.testBit (k - slicesWidth slices) := by
  induction slices generalizing before with
  | nil =>
      by_cases hk : k < 64
      · simp [extractAll, hk]
      · simp [extractAll, Word.testBit_eq_false_of_le before (Nat.le_of_not_lt hk)]
  | cons s below ih =>
      obtain ⟨hstop, hinside⟩ := List.forall_mem_cons.mp hinside
      obtain ⟨hbits, hbelow⟩ := h
      have hmin : min s.width 64 = s.width := by omega
      rw [extractAll, ih hinside hbelow, slicesWidth_cons]
      simp only [UInt64.toNat_or, Nat.testBit_or, Word.testBit_shiftUp, UInt32.toNat_toUInt64,
        Word.testBit_extract, hmin]
      by_cases hlow : k < slicesWidth below
      · rw [if_pos hlow, if_pos (by omega)]
      · obtain ⟨j, rfl⟩ := Nat.exists_eq_add_of_le (Nat.le_of_not_lt hlow)
        rw [if_neg hlow, Nat.add_sub_cancel_left]
        by_cases hj : j < s.width
        · -- a bit of this slice, to which nothing is added that was read before
          have hnot : ¬ (s.width ≤ j ∧ j < 64) := by omega
          rw [if_pos (by omega), hbits j hj]
          by_cases hk : slicesWidth below + j < 64
          · simp [hk, hnot, hj]
          · simp [hk, Word.testBit_eq_false_of_le value (Nat.le_of_not_lt hk)]
        · -- a bit above this slice, that was read before
          have hrest : slicesWidth below + j - (s.width + slicesWidth below) = j - s.width := by
            omega
          rw [if_neg (by omega), hrest]
          by_cases hk : slicesWidth below + j < 64
          · have hroom : s.width ≤ j ∧ j < 64 := by omega
            simp [hk, hroom, hj]
          · simp [hk]

/-- A value that slices without a common bit have room for is taken out of them after it was put
into them. -/
theorem extractAll_insertAll (words : Nat → UInt32)
    (hinside : ∀ s ∈ slices, s.offset + s.width ≤ 32) (hdisjoint : slices.Pairwise Slice.Disjoint)
    (hvalue : value.toNat < 2 ^ slicesWidth slices) :
    extractAll (insertAll value words slices) 0 slices = value := by
  have hholds : Holds (insertAll value words slices) value slices :=
    holds_of_fieldBit? hdisjoint fun register bit k hk => by
      rw [testBit_insertAll value words hinside, hk]
  refine UInt64.toNat_inj.mp (Nat.eq_of_testBit_eq fun k => ?_)
  rw [testBit_extractAll hinside hholds]
  split
  · rfl
  · next hk =>
    have hhigh : value.toNat.testBit k = false := Nat.testBit_lt_two_pow
      (hvalue.trans_le (Nat.pow_le_pow_right (by decide) (Nat.le_of_not_lt hk)))
    rw [hhigh]
    simp

end DeviceRegisters.Packing
