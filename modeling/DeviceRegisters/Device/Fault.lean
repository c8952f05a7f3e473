import DeviceRegisters.Text.Digits

/-!
# DeviceRegisters.Device.Fault

The ways an access to a device fails.  Nothing above the device interprets
them; they travel to the caller as they are.
-/

namespace DeviceRegisters.Device

/-- The two ways to access a word. -/
inductive Action where
  | read
  | write
  deriving DecidableEq, Repr

/-- The action's name. -/
def Action.text : Action → String
  | .read => "read"
  | .write => "write"

/-- Why an access failed. -/
inductive Fault where
  /-- The address is not below the capacity of the part that refused it. -/
  | outOfRange (address capacity : Nat)
  /-- The device cannot perform such accesses at all. -/
  | unsupported (action : Action)
  /-- The system's input or output failed. -/
  | io (text : String)
  /-- The device reports a failure of its own. -/
  | reported (text : String)
  deriving DecidableEq, Repr

/-- The fault in words. -/
def Fault.message : Fault → String
  | .outOfRange address capacity =>
    "register 0x" ++ String.ofList (Text.hexUpper address) ++ " outside backend of " ++
      String.ofList (Text.decimal capacity) ++ " words"
  | .unsupported action => "backend does not support " ++ action.text
  | .io text => "I/O error: " ++ text
  | .reported text => "device fault: " ++ text

/-- The failure underneath, where there is one. -/
def Fault.cause? : Fault → Option String
  | .io text => some text
  | _ => none

end DeviceRegisters.Device
