import DeviceRegisters.Word

/-!
# DeviceRegisters.Packing

Field lists: named fields that are packed into registers, one field into one or
several slices, and constants that whole registers are set to.

A field's slices stand most significant first.  Its `Assembly` turns them
around: a value is taken apart from its low end.
-/

namespace DeviceRegisters.Packing

/-- A stretch of one register's bits, with the value it starts out with. -/
structure Slice where
  register : Nat
  offset : Nat
  width : Nat
  initial : UInt64
  readOnly : Bool
  deriving DecidableEq, Repr

/-- What a name of a field list stands for. -/
inductive Meaning where
  /-- A field, its slices most significant first. -/
  | field (slices : List Slice)
  | constant (register : Nat) (value : UInt32)
  deriving DecidableEq, Repr

/-- An entry of a field list, with the line it stands on. -/
structure Item where
  name : String
  meaning : Meaning
  line : Nat
  deriving DecidableEq, Repr

/-- The entry without its line. -/
def Item.content (item : Item) : String × Meaning := (item.name, item.meaning)

/-! ## fields in one piece -/

/-- Where some bits of a field are. -/
structure Part where
  register : Nat
  offset : Nat
  width : Nat
  deriving DecidableEq, Repr

/-- A field taken together: its parts least significant first, its initial
value, and whether it refuses to be written. -/
structure Assembly where
  parts : List Part
  initial : UInt64
  readOnly : Bool
  deriving DecidableEq, Repr

namespace Assembly

/-- Puts slices together: the initial value is that of the slices one after the
other, and one slice that cannot be written makes the whole field so. -/
def ofSlices (slices : List Slice) : Assembly where
  parts := (slices.map fun s => ⟨s.register, s.offset, s.width⟩).reverse
  initial := slices.foldl (fun value s => Word.shiftUp value s.width ||| s.initial) 0
  readOnly := slices.any (·.readOnly)

/-- The number of bits that parts have together. -/
def partsWidth : List Part → Nat
  | [] => 0
  | part :: parts => part.width + partsWidth parts

/-- The number of bits of the field. -/
def width (a : Assembly) : Nat := partsWidth a.parts

end Assembly
end DeviceRegisters.Packing
