import DeviceRegisters.Packing.Basic
import DeviceRegisters.Text.Digits

/-!
# DeviceRegisters.Packing.Printer

Field lists as text, in columns: the name in 35, a space, then the entry.
-/

namespace DeviceRegisters.Packing

/-- The columns that a name takes; the entry follows after one more. -/
def nameColumns : Nat := 35

/-- A number in upper-case hexadecimal after `0x`, of at least `width` digits. -/
def hexNumeral (width n : Nat) : List Char := '0' :: 'x' :: Text.hexUpperPadded width n

namespace Slice

/-- The bits of a slice: `bit` for one, `high:low` for more. -/
def rangeText (s : Slice) : List Char :=
  if 1 < s.width then Text.decimal (s.offset + s.width - 1) ++ ':' :: Text.decimal s.offset
  else Text.decimal s.offset

/-- A slice as it is written. -/
def text (s : Slice) : List Char :=
  hexNumeral 2 s.register ++ ' ' :: s.rangeText ++ ' ' :: hexNumeral 1 s.initial.toNat ++
    if s.readOnly then [' ', 'R'] else []

end Slice

namespace Item

/-- What stands in front of a field's slices after the first. -/
def continuation : List Char := List.replicate (nameColumns + 1) ' '

/-- The slices after the first, each on a line of its own. -/
def moreText (slices : List Slice) : List Char :=
  slices.flatMap fun s => continuation ++ s.text ++ ['\n']

/-- An entry with its line feeds.  A field without slices has none. -/
def text (item : Item) : List Char :=
  Text.padEnd ' ' nameColumns item.name.toList ++ ' ' ::
    match item.meaning with
    | .constant register value => hexNumeral 2 register ++ ' ' :: hexNumeral 8 value.toNat ++ ['\n']
    | .field [] => []
    | .field (s :: more) => s.text ++ '\n' :: moreText more

end Item

/-- The text of a field list. -/
def render (items : List Item) : String := String.ofList (items.flatMap Item.text)

end DeviceRegisters.Packing
