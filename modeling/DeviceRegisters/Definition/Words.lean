import DeviceRegisters.Error

/-!
# DeviceRegisters.Definition.Words

The words of a line: names, numbers, access modes, and how many there may be.
-/

namespace DeviceRegisters.Definition

open Outline (Node)

/-- Refuses a line. -/
def refuse {α : Type} (problem : Problem) (line : Nat) : Except Error α :=
  .error (.refused (.definition problem) line)

/-- The words of a line: the first and the others. -/
def readTokens (text : String) (line : Nat) : Except Error (String × List String) :=
  match Text.wordsOf text with
  | [] => refuse .emptyLine line
  | token :: tokens => .ok (token, tokens)

/-- Insists on a number of words. -/
def checkCount (tokens : List String) (least most line : Nat) : Except Error Unit :=
  if tokens.length < least then refuse .tooFewWords line
  else if most < tokens.length then refuse .tooManyWords line
  else .ok ()

/-- Insists on a name. -/
def checkName (name : String) (line : Nat) : Except Error Unit :=
  if Name.isValid name then .ok () else refuse (.invalidName name) line

/-- Insists that nothing stands beneath a line. -/
def checkLeaf (children : List Node) (line : Nat) : Except Error Unit :=
  if children.isEmpty then .ok () else refuse .linesBeneath line

/-- Reads a numeral of 32 bits. -/
def readNumber (token : String) (line : Nat) : Except Error Nat :=
  match Numeral.parse token.toList with
  | .error problem => refuse (.notANumber problem token) line
  | .ok value => if value.toNat < UInt32.size then .ok value.toNat else refuse (.numberTooLarge token) line

/-- Reads an access mode. -/
def readAccess (token : String) (line : Nat) : Except Error Access :=
  match Access.ofText? token with
  | some mode => .ok mode
  | none => refuse (.invalidAccess token) line

/-- Insists on one of some modes; none means that every mode will do. -/
def checkAccess (mode : Access) (wanted : List Access) (line : Nat) : Except Error Unit :=
  if wanted.isEmpty || wanted.contains mode then .ok () else refuse (.unexpectedAccess wanted) line

end DeviceRegisters.Definition
