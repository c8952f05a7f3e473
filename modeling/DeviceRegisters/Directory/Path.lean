import DeviceRegisters.Error
import DeviceRegisters.Text.Blank
import DeviceRegisters.Text.Pieces

/-!
# DeviceRegisters.Directory.Path

Paths such as `SYS.TABLE[3]`: names joined by dots, each followed by any number
of indices in brackets.

`parse` reads a path and `text` writes it; white space and a plus sign around
an index are tolerated, so a path has several spellings and one written form.
-/

namespace DeviceRegisters

/-- A step of a path. -/
inductive Segment where
  | member (name : String)
  | index (n : Nat)
  deriving DecidableEq, Repr

/-- A path through named things. -/
abbrev Path := List Segment

namespace Path

/-! ## reading -/

/-- Reads an index between its brackets. -/
def readIndex (cs : List Char) : Option Nat :=
  (Text.readUnsigned64 10 (Text.trim cs)).map UInt64.toNat

/-- Where the reading of a part stands: after its name or a closing bracket, or
inside brackets with the characters since the opening one, newest first. -/
inductive IndexState where
  | outside
  | inside (seen : List Char)

/-- Reads indices in brackets, to the end of the part. -/
def readIndices : IndexState → List Char → Option Path
  | .outside, [] => some []
  | .inside _, [] => none
  | .outside, c :: cs => if c = '[' then readIndices (.inside []) cs else none
  | .inside seen, c :: cs =>
    if c = ']' then
      match readIndex seen.reverse with
      | some n => (readIndices .outside cs).map (.index n :: ·)
      | none => none
    else readIndices (.inside (c :: seen)) cs

/-- Reads what stands between two dots. -/
def readPart (cs : List Char) : Option Path :=
  let name := cs.takeWhile (· ≠ '[')
  if name.isEmpty then none
  else (readIndices .outside (cs.dropWhile (· ≠ '['))).map (.member (String.ofList name) :: ·)

/-- Reads parts in order. -/
def readParts : List (List Char) → Option Path
  | [] => some []
  | part :: parts =>
    match readPart part with
    | none => none
    | some segments => (readParts parts).map (segments ++ ·)

/-- Reads a path. -/
def parse (text : String) : Except Error Path :=
  match readParts (Text.pieces (· = '.') text.toList) with
  | some path => .ok path
  | none => .error (.badPath text)

/-! ## writing -/

/-- The text of a segment that is not the first. -/
def segmentText : Segment → List Char
  | .member name => '.' :: name.toList
  | .index n => '[' :: Text.decimal n ++ [']']

/-- The text of a path: a dot in front of every name but one that comes first. -/
def text : Path → String
  | [] => ""
  | .member name :: rest => String.ofList (name.toList ++ rest.flatMap segmentText)
  | path => String.ofList (path.flatMap segmentText)

end Path
end DeviceRegisters
