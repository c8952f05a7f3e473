import DeviceRegisters.Device.Fault
import DeviceRegisters.Log

/-!
# DeviceRegisters.Device.Backend

What a device offers to the layers above it: reading and writing one 32-bit
word at an address, either of which may fail, and taking a log line.  A failed
access may still change the device's state.
-/

namespace DeviceRegisters.Device

/-- A device that is read and written one word at a time. -/
class Backend (β : Type) where
  /-- Reads the word at an address. -/
  read : β → Nat → Except Fault UInt32 × β
  /-- Writes the word at an address. -/
  write : β → Nat → UInt32 → Except Fault Unit × β
  /-- Takes a log line. -/
  note : β → LogLine → β

end DeviceRegisters.Device
