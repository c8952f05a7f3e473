/-!
# DeviceRegisters.Outline.Line

The lines of an outline by what they are for.  Indentation is a number of
leading U+0020; a tab or another blank belongs to the text.
-/

namespace DeviceRegisters.Outline

/-- A line of text as an outline sees it. -/
inductive Line where
  /-- Nothing but spaces. -/
  | blank
  /-- A line of two or more `#`, which is passed over wherever it stands. -/
  | remark
  /-- A documentation line: its indentation and what follows the `#`. -/
  | doc (indent : Nat) (text : String)
  /-- Any other line: its indentation and what follows it. -/
  | body (indent : Nat) (text : String)
  deriving DecidableEq, Repr

/-- What a line of text is for. -/
def Line.ofText (cs : List Char) : Line :=
  let content := cs.dropWhile (· = ' ')
  let indent := cs.length - content.length
  match content with
  | [] => .blank
  | '#' :: '#' :: _ => .remark
  | '#' :: text => .doc indent (String.ofList text)
  | _ => .body indent (String.ofList content)

end DeviceRegisters.Outline
