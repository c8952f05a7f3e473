import DeviceRegisters.Device.Backend
import DeviceRegisters.Device.Memory
import DeviceRegisters.Directory.Build
import DeviceRegisters.Directory.Place
import DeviceRegisters.Peripheral.Snapshot
import DeviceRegisters.WordTable

/-!
# DeviceRegisters.Peripheral

A group of registers on a device.

Registers that can only be written are remembered, by their addresses: reading
one gives what was last written there, or zero, and asks nobody.  Reading a
register that is written in pulses always gives zero.

Every operation gives its answer together with the peripheral as it is
afterwards, also when it fails.
-/

namespace DeviceRegisters

/-- A group's directory bound to a device.  `shadow` holds the words last
written to registers that can only be written. -/
structure Peripheral (β : Type) where
  directory : Directory
  device : β
  shadow : WordTable

/-- What a snapshot starts from. -/
inductive Seed where
  | zero
  /-- What reading the register gives. -/
  | current
  deriving DecidableEq, Repr

namespace Peripheral

open Directory (Handle)

variable {β : Type}

/-! ## binding -/

/-- A directory bound to a device. -/
def ofDirectory (directory : Directory) (device : β) : Peripheral β := ⟨directory, device, .empty⟩

/-- A group bound to a device. -/
def ofGroup (g : Definition.Group) (device : β) : Except Error (Peripheral β) := do
  let directory ← Directory.ofGroup g
  .ok (ofDirectory directory device)

/-- Groups bound each to a device of its own, in order. -/
def bindAll (deviceFor : Definition.Group → β) : List Definition.Group → Except Error (List (Peripheral β))
  | [] => .ok []
  | g :: gs => do
    let p ← ofGroup g (deviceFor g)
    let ps ← bindAll deviceFor gs
    .ok (p :: ps)

/-- The group's name. -/
def name (p : Peripheral β) : String := p.directory.top.name

variable [Device.Backend β]

/-! ## registers -/

/-- The log line of an access. -/
def line (r : Handle) (action : Device.Action) (word : UInt32) : LogLine :=
  Device.traceLine r.view.name r.address action word

/-- Reads a register. -/
def read (p : Peripheral β) (r : Handle) : Except Error UInt32 × Peripheral β :=
  match r.view.access with
  | .readOnly | .readWrite =>
    match Device.Backend.read p.device r.address with
    | (.ok word, device) => (.ok word, { p with device := Device.Backend.note device (line r .read word) })
    | (.error fault, device) => (.error (.device fault), { p with device })
  | .writeOnly => (.ok (p.shadow.getOrZero r.address), p)
  | .writePulse => (.ok 0, p)

/-- Writes a register.  The log line comes before the access. -/
def write (p : Peripheral β) (r : Handle) (word : UInt32) : Except Error Unit × Peripheral β :=
  if r.view.access.isWritable then
    match Device.Backend.write (Device.Backend.note p.device (line r .write word)) r.address word with
    | (.ok (), device) =>
      let shadow := if r.view.access = .writeOnly then p.shadow.insert r.address word else p.shadow
      (.ok (), { p with device, shadow })
    | (.error fault, device) => (.error (.device fault), { p with device })
  else (.error (.readOnly r.view.name), p)

/-! ## fields -/

/-- Reads a field. -/
def readField (p : Peripheral β) (r : Handle) (name : String) : Except Error UInt32 × Peripheral β :=
  match r.view.field? name with
  | none => (.error (.noSuchField r.view.name name), p)
  | some f =>
    match p.read r with
    | (.error e, p) => (.error e, p)
    | (.ok word, p) => (.ok (Word.extract word f.offset f.width), p)

/-- Reads a field as two's complement of its width. -/
def readSigned (p : Peripheral β) (r : Handle) (name : String) : Except Error Int64 × Peripheral β :=
  match r.view.field? name with
  | none => (.error (.noSuchField r.view.name name), p)
  | some f =>
    match p.readField r name with
    | (.error e, p) => (.error e, p)
    | (.ok bits, p) => (.ok (Word.toSigned bits.toUInt64 f.width), p)

/-- Takes a snapshot of a register. -/
def snapshot (p : Peripheral β) (r : Handle) : Seed → Except Error Snapshot × Peripheral β
  | .zero => (.ok ⟨r.view, 0⟩, p)
  | .current =>
    match p.read r with
    | (.error e, p) => (.error e, p)
    | (.ok word, p) => (.ok ⟨r.view, word⟩, p)

/-- Writes a snapshot's word to a register. -/
def commit (p : Peripheral β) (r : Handle) (s : Snapshot) : Except Error Unit × Peripheral β :=
  p.write r s.word

/-- Writes fields in order with a single write of their register, or none if one
of them is refused. -/
def writeFields (p : Peripheral β) (r : Handle) (seed : Seed) (updates : List (String × UInt64)) :
    Except Error Unit × Peripheral β :=
  match p.snapshot r seed with
  | (.error e, p) => (.error e, p)
  | (.ok s, p) =>
    match s.setAll updates with
    | .error e => (.error e, p)
    | .ok s => p.commit r s

/-- Writes a field; the register's other bits are read and kept. -/
def writeField (p : Peripheral β) (r : Handle) (name : String) (value : UInt64) :
    Except Error Unit × Peripheral β :=
  match p.snapshot r .current with
  | (.error e, p) => (.error e, p)
  | (.ok s, p) =>
    match s.set name value with
    | .error e => (.error e, p)
    | .ok s => p.commit r s

/-! ## text -/

/-- A number in base ten. -/
private def numberText (n : Nat) : String := String.ofList (Text.decimal n)

/-- The fields of a snapshot with their values; without fields, its word. -/
def contentText (s : Snapshot) : String :=
  if s.view.fields.isEmpty then numberText s.word.toNat
  else ", ".intercalate (s.toList.map fun (name, value) => name ++ " = " ++ numberText value.toNat)

/-- Reads a register and describes it. -/
def describe (p : Peripheral β) (r : Handle) : Except Error String × Peripheral β :=
  match p.snapshot r .current with
  | (.error e, p) => (.error e, p)
  | (.ok s, p) =>
    (.ok ("<Reg " ++ r.view.name ++ " @" ++ numberText r.address ++ " " ++ contentText s ++ ">"), p)

end Peripheral
end DeviceRegisters
