import DeviceRegisters.Directory.Basic
import DeviceRegisters.Word

/-!
# DeviceRegisters.Peripheral.Snapshot

A register's word apart from the device, to be looked at and changed field by
field.
-/

namespace DeviceRegisters

/-- A word with the register it belongs to. -/
structure Snapshot where
  view : Directory.RegisterView
  word : UInt32
  deriving DecidableEq, Repr

namespace Snapshot

/-- The error of a name that is no field. -/
def unknownField (s : Snapshot) (name : String) : Error := .noSuchField s.view.name name

/-- The name of a field with its register's. -/
def fullName (s : Snapshot) (name : String) : String := s.view.name ++ "." ++ name

/-- The bits of a field. -/
def bits (s : Snapshot) (f : Directory.FieldView) : UInt32 := Word.extract s.word f.offset f.width

/-- The value of a field. -/
def get (s : Snapshot) (name : String) : Except Error UInt32 :=
  match s.view.field? name with
  | none => .error (s.unknownField name)
  | some f => .ok (s.bits f)

/-- The snapshot with another value in a field. -/
def set (s : Snapshot) (name : String) (value : UInt64) : Except Error Snapshot :=
  match s.view.field? name with
  | none => .error (s.unknownField name)
  | some f =>
    if f.access.isWritable then
      if Word.fits value f.width then .ok { s with word := Word.insert s.word f.offset f.width value }
      else .error (.valueTooWide (s.fullName name) value f.width)
    else .error (.readOnly (s.fullName name))

/-- Sets fields in order, up to the first that is refused. -/
def setAll (s : Snapshot) : List (String × UInt64) → Except Error Snapshot
  | [] => .ok s
  | (name, value) :: more => do
    let s ← s.set name value
    setAll s more

/-- All fields with their values, in order. -/
def toList (s : Snapshot) : List (String × UInt32) := s.view.fields.map fun f => (f.name, s.bits f)

end Snapshot
end DeviceRegisters
