import DeviceRegisters.Staging.Batch

/-!
# DeviceRegisters.Staging.Operation

The operations on a staging area as data, so that runs of them can be spoken
about.  A batch is a run between `beginBatch` and the `commit` or `drop` that ends
it.
-/

namespace DeviceRegisters.Staging

/-- What can be done with a staging area. -/
inductive Operation where
  | write (name : String) (value : UInt64)
  | read (name : String)
  | writeRegister (register : Nat) (word : UInt32)
  | readRegister (register : Nat)
  | setLive (live : Bool)
  | flush (first last : Nat)
  | beginBatch
  | commit
  | drop
  deriving DecidableEq, Repr

/-- What an operation that succeeds answers. -/
inductive Answer where
  | done
  | value (value : UInt64)
  | word (word : UInt32)
  deriving DecidableEq, Repr

variable {β : Type} [Device.Backend β]

/-- Performs an operation. -/
def perform (s : Staging β) : Operation → Except Error Answer × Staging β
  | .write name value =>
    let (answer, s) := s.write name value
    (answer.map fun _ => .done, s)
  | .read name =>
    let (answer, s) := s.read name
    (answer.map .value, s)
  | .writeRegister register word =>
    let (answer, s) := s.writeRegister register word
    (answer.map fun _ => .done, s)
  | .readRegister register =>
    let (answer, s) := s.readRegister register
    (answer.map .word, s)
  | .setLive live => (.ok .done, s.setLive live)
  | .flush first last =>
    let (answer, s) := s.flush first last
    (answer.map fun _ => .done, s)
  | .beginBatch => (.ok .done, s.beginBatch)
  | .commit =>
    let (answer, s) := s.commit
    (answer.map fun _ => .done, s)
  | .drop => (.ok .done, s.drop)

/-- Performs operations in order, going on after failures. -/
def performEach (s : Staging β) : List Operation → List (Except Error Answer) × Staging β
  | [] => ([], s)
  | operation :: operations =>
    let (answer, s) := s.perform operation
    let (answers, s) := performEach s operations
    (answer :: answers, s)

/-- Performs operations in order, up to the first failure. -/
def performAll (s : Staging β) : List Operation → Except Error (List Answer) × Staging β
  | [] => (.ok [], s)
  | operation :: operations =>
    match s.perform operation with
    | (.error e, s) => (.error e, s)
    | (.ok answer, s) =>
      let (answers, s) := performAll s operations
      (answers.map (answer :: ·), s)

end DeviceRegisters.Staging
