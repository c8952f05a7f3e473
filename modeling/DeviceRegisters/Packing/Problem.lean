import DeviceRegisters.Numeral
import DeviceRegisters.Text.Digits

/-!
# DeviceRegisters.Packing.Problem

Why a line of a field list is refused.
-/

namespace DeviceRegisters.Packing

/-- Why a line of a field list is refused. -/
inductive Problem where
  /-- The last line lacks its line feed. -/
  | unendedLine
  | nothingToContinue
  | notANumber (problem : Numeral.Problem) (token : String)
  | numberTooLarge (token : String)
  | malformedLine
  | invalidMarker (token : String)
  | tooManyWords
  | invertedRange (token : String)
  | rangeTooFar (token : String)
  | initialTooWide (value : UInt64) (width : Nat)
  | repeatedName (name : String)
  /-- The slices of a field are wider together than a field value. -/
  | fieldTooWide (name : String)
  deriving DecidableEq, Repr

/-- The problem in words. -/
def Problem.message : Problem → String
  | .unendedLine => "missing newline"
  | .nothingToContinue => "no line to continue"
  | .notANumber problem token => problem.message ++ ": " ++ token
  | .numberTooLarge token => token ++ " does not fit in 32 bits"
  | .malformedLine => "malformed register definition"
  | .invalidMarker token => "invalid register marker " ++ token
  | .tooManyWords => "unexpected extra arguments"
  | .invertedRange token => "invalid register width in " ++ token
  | .rangeTooFar token => "bit range " ++ token ++ " outside register"
  | .initialTooWide value width =>
    "default 0x" ++ String.ofList (Text.hexLower value.toNat) ++ " too wide for " ++
      String.ofList (Text.decimal width) ++ " bits"
  | .repeatedName name => "duplicate name " ++ name
  | .fieldTooWide name => "field " ++ name ++ " wider than 64 bits"

end DeviceRegisters.Packing
