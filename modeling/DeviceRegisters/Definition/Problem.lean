import DeviceRegisters.Access
import DeviceRegisters.Numeral
import DeviceRegisters.Text.Digits

/-!
# DeviceRegisters.Definition.Problem

Why a line of a register description is refused.
-/

namespace DeviceRegisters.Definition

/-- Why a line of a register description is refused. -/
inductive Problem where
  | emptyLine
  | tooFewWords
  | tooManyWords
  | invalidName (name : String)
  | linesBeneath
  | notANumber (problem : Numeral.Problem) (token : String)
  | numberTooLarge (token : String)
  | invalidAccess (token : String)
  /-- A constant's value is no numeral. -/
  | invalidValue (problem : Numeral.Problem)
  | repeatedConstant (name : String)
  | repeatedGroup (name : String)
  | repeatedTemplate (name : String)
  | ungroupedRegister
  | missingAccess
  /-- A register at this place has to have one of these modes. -/
  | unexpectedAccess (wanted : List Access)
  | notARegister (name : String)
  | notAPair
  | bankInOverlay
  | bankInUnion
  | unknownDirective
  | unknownTemplate (name : String)
  | accessOfGroup
  | fieldOutsideRegister
  | addressOverflow
  | overlap (field other : String)
  | skipTooFar
  | notAField
  | emptyField
  | fieldTooFar (offset width : Nat)
  deriving DecidableEq, Repr

/-- The problem in words. -/
def Problem.message : Problem → String
  | .emptyLine => "empty definition"
  | .tooFewWords => "expected more arguments"
  | .tooManyWords => "unexpected extra arguments"
  | .invalidName name => "invalid name \"" ++ name ++ "\""
  | .linesBeneath => "no sub-definitions allowed here"
  | .notANumber problem token => "expected integer, " ++ problem.message ++ ": " ++ token
  | .numberTooLarge token => "integer " ++ token ++ " too large"
  | .invalidAccess token => "invalid R/W specification " ++ token
  | .invalidValue problem => "expected integer, " ++ problem.message
  | .repeatedConstant name => "repeated constant \"" ++ name ++ "\""
  | .repeatedGroup name => "repeated group \"" ++ name ++ "\""
  | .repeatedTemplate name => "repeated definition for \"" ++ name ++ "\""
  | .ungroupedRegister => "ungrouped register definition not expected here"
  | .missingAccess => "missing R/W specification"
  | .unexpectedAccess wanted => "expected " ++ " or ".intercalate (wanted.map Access.text) ++ " register"
  | .notARegister name => "name " ++ name ++ " is not a register"
  | .notAPair => "must have two registers"
  | .bankInOverlay => "register arrays are not supported in an overlay"
  | .bankInUnion => "register arrays are not supported in a union"
  | .unknownDirective => "unexpected special directive"
  | .unknownTemplate name => "unknown shared name " ++ name
  | .accessOfGroup => "cannot specify rw for group"
  | .fieldOutsideRegister => "field definition not allowed here"
  | .addressOverflow => "address space overflow"
  | .overlap field other => "field " ++ field ++ " overlaps field " ++ other
  | .skipTooFar => "skip falls outside of register"
  | .notAField => "expected field definition"
  | .emptyField => "invalid field width 0"
  | .fieldTooFar offset width =>
    "field (" ++ String.ofList (Text.decimal offset) ++ "," ++ String.ofList (Text.decimal width) ++
      ") falls outside of register"

end DeviceRegisters.Definition
