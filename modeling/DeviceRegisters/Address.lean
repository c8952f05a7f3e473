/-!
# DeviceRegisters.Address

Addresses of registers.  They are natural numbers up to `last`; every step that
could lead past it is checked where it is taken.
-/

namespace DeviceRegisters.Address

/-- The greatest address, of 32 bits that are all set. -/
def last : Nat := 0xFFFFFFFF

end DeviceRegisters.Address
