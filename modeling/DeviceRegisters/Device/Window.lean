import DeviceRegisters.Device.Backend

/-!
# DeviceRegisters.Device.Window

Windows: a stretch of a device's addresses seen from 0 on.  Windows stack; an
address passes them from the outermost inwards, and the first one that it lies
outside of refuses it.
-/

namespace DeviceRegisters.Device

/-- A stretch of addresses. -/
structure Window where
  start : Nat
  length : Nat
  deriving DecidableEq, Repr

namespace Window

/-- The window from `start` up to but not including `stop`; empty when they are
inverted. -/
def ofRange (start stop : Nat) : Window := ⟨start, stop - start⟩

/-- Where an address leads through windows, the outermost first. -/
def locate : List Window → Nat → Except Fault Nat
  | [], address => .ok address
  | w :: inner, address =>
    if address < w.length then locate inner (w.start + address)
    else .error (.outOfRange address w.length)

end Window

/-- A device behind windows, the outermost first. -/
structure Windowed (β : Type) where
  windows : List Window
  inner : β

namespace Windowed

variable {β : Type} [Backend β]

/-- Reads through the windows. -/
def read (w : Windowed β) (address : Nat) : Except Fault UInt32 × Windowed β :=
  match Window.locate w.windows address with
  | .error fault => (.error fault, w)
  | .ok address =>
    let (answer, inner) := Backend.read w.inner address
    (answer, { w with inner })

/-- Writes through the windows. -/
def write (w : Windowed β) (address : Nat) (word : UInt32) : Except Fault Unit × Windowed β :=
  match Window.locate w.windows address with
  | .error fault => (.error fault, w)
  | .ok address =>
    let (answer, inner) := Backend.write w.inner address word
    (answer, { w with inner })

instance : Backend (Windowed β) where
  read := read
  write := write
  note w line := { w with inner := Backend.note w.inner line }

end Windowed
end DeviceRegisters.Device
