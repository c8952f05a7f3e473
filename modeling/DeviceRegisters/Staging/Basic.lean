import DeviceRegisters.Address
import DeviceRegisters.Device.Backend
import DeviceRegisters.Error
import DeviceRegisters.Packing.Basic
import DeviceRegisters.WordTable

/-!
# DeviceRegisters.Staging

Writing packed fields to a device, at once or later.

A staging area knows the last value of every register that went through it.  In
live mode reads and writes go to the device.  In cached mode nothing does:
writes are remembered as pending, reads are answered from what is known, and a
register that nothing is known of counts as zero.  `flush` writes pending
registers out in ascending order.

Every operation gives its answer together with the area as it is afterwards,
also when it fails.
-/

namespace DeviceRegisters

/-- Fields on their way to a device.  `dirty` holds the registers whose cached
value was not written yet; of two fields of one name the first counts. -/
structure Staging (β : Type) where
  device : β
  live : Bool
  cache : WordTable
  dirty : AddressSet
  fields : List (String × Packing.Assembly)
  names : List String

namespace Staging

variable {β : Type} [Device.Backend β]

/-- A staging area for a device, in cached mode, that knows no field. -/
def ofDevice (device : β) : Staging β := ⟨device, false, .empty, .empty, [], []⟩

/-- Chooses live or cached mode.  Nothing is flushed. -/
def setLive (s : Staging β) (live : Bool) : Staging β := { s with live }

/-- The last known value of a register; the device is not asked. -/
def cached (s : Staging β) (register : Nat) : Option UInt32 := s.cache.get? register

/-- The field of a name. -/
def field? (s : Staging β) (name : String) : Option Packing.Assembly := s.fields.lookup name

/-! ## registers -/

/-- The log line of a write that is held back. -/
def stageLine (register : Nat) (word : UInt32) : LogLine :=
  ⟨.trace, "cache[0x" ++ String.ofList (Text.padStart '0' 2 (Text.hexLower register)) ++ "] <= 0x" ++
    String.ofList (Text.hexLower word.toNat)⟩

/-- Writes a register.  The value is remembered first, so it stays known even
if the device refuses it. -/
def writeRegister (s : Staging β) (register : Nat) (word : UInt32) : Except Error Unit × Staging β :=
  let s := { s with cache := s.cache.insert register word }
  if s.live then
    match Device.Backend.write s.device register word with
    | (.ok (), device) => (.ok (), { s with device, dirty := s.dirty.erase register })
    | (.error fault, device) => (.error (.device fault), { s with device })
  else
    (.ok (), { s with
      device := Device.Backend.note s.device (stageLine register word)
      dirty := s.dirty.insert register })

/-- Reads a register: from the device in live mode, which makes it known and
no longer pending, else from what is known. -/
def readRegister (s : Staging β) (register : Nat) : Except Error UInt32 × Staging β :=
  if s.live then
    match Device.Backend.read s.device register with
    | (.ok word, device) =>
      (.ok word, { s with
        device
        cache := s.cache.insert register word
        dirty := s.dirty.erase register })
    | (.error fault, device) => (.error (.device fault), { s with device })
  else
    match s.cache.get? register with
    | some word => (.ok word, s)
    | none => (.ok 0, { s with cache := s.cache.insert register 0 })

/-! ## fields -/

/-- Writes a value to parts, its lowest bits to the first.  The other bits of
every register are read back and kept. -/
def writeParts (s : Staging β) (value : UInt64) : List Packing.Part → Except Error Unit × Staging β
  | [] => (.ok (), s)
  | part :: parts =>
    match s.readRegister part.register with
    | (.error e, s) => (.error e, s)
    | (.ok word, s) =>
      match s.writeRegister part.register (Word.insert word part.offset part.width value) with
      | (.error e, s) => (.error e, s)
      | (.ok (), s) => writeParts s (Word.shiftDown value part.width) parts

/-- Reads parts, the highest bits from the first, and puts them below the value
read so far. -/
def readParts (s : Staging β) (value : UInt64) : List Packing.Part → Except Error UInt64 × Staging β
  | [] => (.ok value, s)
  | part :: parts =>
    match s.readRegister part.register with
    | (.error e, s) => (.error e, s)
    | (.ok word, s) =>
      let bits := Word.extract word part.offset part.width
      readParts s (Word.shiftUp value part.width ||| bits.toUInt64) parts

/-- The error of a name that is no field. -/
def unknownField (name : String) : Error := .noSuchField "field writer" name

/-- Writes a field.  A value that is refused changes nothing. -/
def write (s : Staging β) (name : String) (value : UInt64) : Except Error Unit × Staging β :=
  match s.field? name with
  | none => (.error (unknownField name), s)
  | some field =>
    if field.readOnly then (.error (.readOnly name), s)
    else if Word.fits value field.width then s.writeParts value field.parts
    else (.error (.valueTooWide name value field.width), s)

/-- Reads a field. -/
def read (s : Staging β) (name : String) : Except Error UInt64 × Staging β :=
  match s.field? name with
  | none => (.error (unknownField name), s)
  | some field => s.readParts 0 field.parts.reverse

/-! ## flushing -/

/-- Writes registers with their known values, in order, up to the first
failure. -/
def writeOut (s : Staging β) : List Nat → Except Error Unit × Staging β
  | [] => (.ok (), s)
  | register :: registers =>
    match s.writeRegister register (s.cache.getOrZero register) with
    | (.error e, s) => (.error e, s)
    | (.ok (), s) => writeOut s registers

/-- Writes the pending registers from `first` to `last` out, in ascending
order.  Only live mode permits it. -/
def flush (s : Staging β) (first last : Nat) : Except Error Unit × Staging β :=
  if s.live then s.writeOut (s.dirty.between first last) else (.error .notLive, s)

/-- Writes all pending registers out. -/
def flushAll (s : Staging β) : Except Error Unit × Staging β := s.flush 0 Address.last

/-! ## from a field list -/

/-- Takes an entry in: a field's initial value and a constant are written. -/
def define (s : Staging β) (item : Packing.Item) : Except Error Unit × Staging β :=
  match item.meaning with
  | .field slices =>
    let field := Packing.Assembly.ofSlices slices
    if 64 < field.width then
      (.error (.refused (.packing (.fieldTooWide item.name)) item.line), s)
    else
      let s := { s with fields := (item.name, field) :: s.fields, names := s.names ++ [item.name] }
      if field.readOnly then (.ok (), s) else s.write item.name field.initial
  | .constant register value => s.writeRegister register value

/-- Takes entries in, in order, up to the first failure. -/
def defineAll (s : Staging β) : List Packing.Item → Except Error Unit × Staging β
  | [] => (.ok (), s)
  | item :: items =>
    match s.define item with
    | (.error e, s) => (.error e, s)
    | (.ok (), s) => defineAll s items

end Staging
end DeviceRegisters
