import DeviceRegisters.Definition.Problem
import DeviceRegisters.Device.Fault
import DeviceRegisters.Outline.Reading
import DeviceRegisters.Packing.Problem

/-!
# DeviceRegisters.Error

The failures of the library, each as its cause; `message` puts them in words.
-/

namespace DeviceRegisters

/-- Why a line of a description is refused. -/
inductive Problem where
  | outline (problem : Outline.Problem)
  | definition (problem : Definition.Problem)
  | packing (problem : Packing.Problem)
  deriving DecidableEq, Repr

/-- The problem in words. -/
def Problem.message : Problem → String
  | .outline problem => problem.message
  | .definition problem => problem.message
  | .packing problem => problem.message

/-- The kinds of things that have a name. -/
inductive Kind where
  | register
  | bank
  | group
  | overlay
  | union
  deriving DecidableEq, Repr

/-- The kind with its article. -/
def Kind.text : Kind → String
  | .register => "a register"
  | .bank => "a register array"
  | .group => "a group"
  | .overlay => "an overlay"
  | .union => "a union"

/-- Why an operation failed. -/
inductive Error where
  /-- A source could not be read. -/
  | io (text : String)
  /-- A line of a description is refused. -/
  | refused (problem : Problem) (line : Nat)
  | noSuchField (register field : String)
  | noSuchMember (scope name : String)
  | wrongKind (name : String) (expected : Kind)
  | duplicateName (scope name : String)
  | readOnly (name : String)
  | valueTooWide (name : String) (value : UInt64) (width : Nat)
  | indexOutOfRange (name : String) (index count : Nat)
  | addressOverflow (name : String)
  /-- A flush was asked for while writes are held back. -/
  | notLive
  | badPath (path : String)
  | device (fault : Device.Fault)
  deriving DecidableEq, Repr

namespace Error

/-- The error in words. -/
def message : Error → String
  | .io text => "I/O error: " ++ text
  | .refused problem line =>
    "parse error: " ++ problem.message ++ " at line " ++ String.ofList (Text.decimal line)
  | .noSuchField register field => "register " ++ register ++ " has no field " ++ field
  | .noSuchMember scope name => scope ++ " has no member " ++ name
  | .wrongKind name expected => name ++ " is not " ++ expected.text
  | .duplicateName scope name => "name " ++ name ++ " defined twice in " ++ scope
  | .readOnly name => "cannot write to read only " ++ name
  | .valueTooWide name value width =>
    "value 0x" ++ String.ofList (Text.hexUpper value.toNat) ++ " does not fit " ++
      String.ofList (Text.decimal width) ++ "-bit field " ++ name
  | .indexOutOfRange name index count =>
    "index " ++ String.ofList (Text.decimal index) ++ " out of range for " ++ name ++ "[" ++
      String.ofList (Text.decimal count) ++ "]"
  | .addressOverflow name => "address of " ++ name ++ " overflows the address space"
  | .notLive => "flush requested while writes are not live"
  | .badPath path => "malformed register path \"" ++ path ++ "\""
  | .device fault => "backend error: " ++ fault.message

/-- The failure underneath, where there is one. -/
def cause? : Error → Option String
  | .io text => some text
  | .device fault => some fault.message
  | _ => none

end Error
end DeviceRegisters
