import DeviceRegisters.Device.Memory
import DeviceRegisters.Device.Probe
import DeviceRegisters.Device.Window

/-!
# DeviceRegisters.Device

The device at hand: a memory under observation, behind windows.  Beside the
accesses through the windows, an observer can reach the memory itself.
-/

namespace DeviceRegisters

/-- A memory under observation, behind windows. -/
abbrev Device := Device.Windowed (Device.Probe Device.Memory)

namespace Device

/-- A device of `size` words that are zero but for the given contents. -/
def assemble (name : String) (size : Nat) (contents : List (Nat × UInt32))
    (windows : List Window) (plan : FaultPlan) : Device :=
  ⟨windows, Probe.ofDevice ((Memory.zeroed name size).fill contents) plan⟩

/-- The memory inside. -/
def memory (d : Device) : Memory := d.inner.inner

/-- The device around another memory. -/
def withMemory (d : Device) (m : Memory) : Device :=
  { d with inner := { d.inner with inner := m } }

/-- The device with another plan of failures. -/
def withPlan (d : Device) (plan : FaultPlan) : Device := { d with inner := { d.inner with plan } }

/-- Writes a word of the memory itself: no window, no planned failure, no
record. -/
def poke (d : Device) (address : Nat) (word : UInt32) : Except Fault Unit × Device :=
  let (answer, m) := d.memory.write address word
  (answer, d.withMemory m)

/-- A word of the memory itself, seen without an access. -/
def peek (d : Device) (address : Nat) : Option UInt32 := d.memory.peek address

/-- Takes out the accesses recorded since the last time. -/
def takeTransfers (d : Device) : List Transfer × Device :=
  (d.inner.transfers, { d with inner := { d.inner with transfers := [] } })

/-- Takes out the lines logged since the last time. -/
def takeLog (d : Device) : List LogLine × Device :=
  (d.memory.log, d.withMemory { d.memory with log := [] })

end Device
end DeviceRegisters
