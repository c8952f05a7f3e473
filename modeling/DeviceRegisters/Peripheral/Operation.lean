import DeviceRegisters.Peripheral.Basic

/-!
# DeviceRegisters.Peripheral.Operation

The operations on a peripheral's registers as data, so that runs of them can be
spoken about.
-/

namespace DeviceRegisters.Peripheral

open Directory (Handle)

/-- What can be done with a register. -/
inductive Operation where
  | read (register : Handle)
  | write (register : Handle) (word : UInt32)
  | readField (register : Handle) (name : String)
  | readSigned (register : Handle) (name : String)
  | writeField (register : Handle) (name : String) (value : UInt64)
  | writeFields (register : Handle) (seed : Seed) (updates : List (String × UInt64))
  | snapshot (register : Handle) (seed : Seed)
  | commit (register : Handle) (snapshot : Snapshot)
  | describe (register : Handle)
  deriving DecidableEq, Repr

/-- What an operation that succeeds answers. -/
inductive Answer where
  | done
  | word (word : UInt32)
  | signed (value : Int64)
  | snapshot (snapshot : Snapshot)
  | text (text : String)
  deriving DecidableEq, Repr

variable {β : Type} [Device.Backend β]

/-- Performs an operation. -/
def perform (p : Peripheral β) : Operation → Except Error Answer × Peripheral β
  | .read r =>
    let (answer, p) := p.read r
    (answer.map .word, p)
  | .write r word =>
    let (answer, p) := p.write r word
    (answer.map fun _ => .done, p)
  | .readField r name =>
    let (answer, p) := p.readField r name
    (answer.map .word, p)
  | .readSigned r name =>
    let (answer, p) := p.readSigned r name
    (answer.map .signed, p)
  | .writeField r name value =>
    let (answer, p) := p.writeField r name value
    (answer.map fun _ => .done, p)
  | .writeFields r seed updates =>
    let (answer, p) := p.writeFields r seed updates
    (answer.map fun _ => .done, p)
  | .snapshot r seed =>
    let (answer, p) := p.snapshot r seed
    (answer.map .snapshot, p)
  | .commit r s =>
    let (answer, p) := p.commit r s
    (answer.map fun _ => .done, p)
  | .describe r =>
    let (answer, p) := p.describe r
    (answer.map .text, p)

/-- Performs operations in order, going on after failures. -/
def performEach (p : Peripheral β) : List Operation → List (Except Error Answer) × Peripheral β
  | [] => ([], p)
  | operation :: operations =>
    let (answer, p) := p.perform operation
    let (answers, p) := performEach p operations
    (answer :: answers, p)

end DeviceRegisters.Peripheral
