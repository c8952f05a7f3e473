import DeviceRegisters.Device.Backend

/-!
# DeviceRegisters.Device.Probe

A device under observation: every access that reaches it is recorded, before it
succeeds or fails, and chosen accesses are made to fail without reaching the
device inside.
-/

namespace DeviceRegisters.Device

/-- An access as an observer records it. -/
inductive Transfer where
  | read (address : Nat)
  | write (address : Nat) (word : UInt32)
  deriving DecidableEq, Repr

/-- Which accesses fail, and how.  A plan sees the accesses recorded before the
one at hand, its action and its address. -/
abbrev FaultPlan := List Transfer → Action → Nat → Option Fault

/-- The plan by which nothing fails. -/
def FaultPlan.none : FaultPlan := fun _ _ _ => Option.none

/-- The plan by which the listed reads and writes fail, whenever they come. -/
def FaultPlan.ofLists (reads writes : List Nat) (fault : Action → Fault) : FaultPlan
  | _, .read, address => if address ∈ reads then some (fault .read) else Option.none
  | _, .write, address => if address ∈ writes then some (fault .write) else Option.none

/-- A device with the record of its accesses and the plan of its failures. -/
structure Probe (β : Type) where
  inner : β
  plan : FaultPlan
  transfers : List Transfer

namespace Probe

variable {β : Type} [Backend β]

/-- A device with nothing recorded. -/
def ofDevice (inner : β) (plan : FaultPlan) : Probe β := ⟨inner, plan, []⟩

/-- Records a read, then fails it as planned or performs it. -/
def read (p : Probe β) (address : Nat) : Except Fault UInt32 × Probe β :=
  let transfers := p.transfers ++ [.read address]
  match p.plan p.transfers .read address with
  | some fault => (.error fault, { p with transfers })
  | none =>
    let (answer, inner) := Backend.read p.inner address
    (answer, { p with inner, transfers })

/-- Records a write, then fails it as planned or performs it. -/
def write (p : Probe β) (address : Nat) (word : UInt32) : Except Fault Unit × Probe β :=
  let transfers := p.transfers ++ [.write address word]
  match p.plan p.transfers .write address with
  | some fault => (.error fault, { p with transfers })
  | none =>
    let (answer, inner) := Backend.write p.inner address word
    (answer, { p with inner, transfers })

instance : Backend (Probe β) where
  read := read
  write := write
  note p line := { p with inner := Backend.note p.inner line }

end Probe
end DeviceRegisters.Device
