import DeviceRegisters.Outline.Basic
import DeviceRegisters.Outline.Line
import DeviceRegisters.Text.Lines

/-!
# DeviceRegisters.Outline.Reading

Reading an outline, line by line.

Three states follow one another.  Before the first line nothing is settled; the
first documentation or body line settles the level of the outline.  After a
body line the next line may go deeper, stay, or return to the level of an
enclosing line; a return to less than the outline's level ends the reading.
After a documentation line the level is settled until a body line comes, and a
blank line only drops the documentation gathered so far.

`parse` gives the tree, or where and why the reading failed, and the warnings
either way.
-/

namespace DeviceRegisters.Outline

/-- Why a text is no outline. -/
inductive Problem where
  /-- The last line lacks its line feed. -/
  | unendedLine
  /-- A documentation line is not at the level of the one before it. -/
  | strayDoc
  /-- A line is at no level that is possible there. -/
  | strayLine
  deriving DecidableEq, Repr

/-- The problem in words. -/
def Problem.message : Problem → String
  | .unendedLine => "missing newline at end of line"
  | .strayDoc => "bad comment indentation"
  | .strayLine => "invalid indentation"

/-- What ended documentation that belongs to no line. -/
inductive Loss where
  | blankLine
  | endOfText
  deriving DecidableEq, Repr

/-- Documentation was dropped. -/
structure Warning where
  loss : Loss
  number : Nat
  deriving DecidableEq, Repr

/-- The warning in words. -/
def Warning.message (w : Warning) : String :=
  let what := match w.loss with
    | .blankLine => "discarding documentation lines"
    | .endOfText => "discarding documentation at end of file"
  what ++ " on line " ++ toString w.number

/-! ## one line -/

/-- How far the reading has come.  `level` is the current level, `outer` those
of the enclosing lines, innermost first. -/
inductive State where
  | start
  | after (level : Nat) (outer : List Nat)
  | gathering (level : Nat) (outer : List Nat) (doc : List String)
  deriving DecidableEq, Repr

/-- Where an indentation leads that is not deeper than the current level. -/
inductive Return where
  | to (level : Nat) (outer : List Nat)
  | below
  | between
  deriving DecidableEq, Repr

/-- Looks for an indentation among levels, innermost first. -/
def climb (indent : Nat) : List Nat → Return
  | [] => .below
  | level :: outer =>
    if indent = level then .to level outer
    else if level < indent then .between
    else climb indent outer

/-- Where an indentation leads after a body line. -/
def settle (indent level : Nat) (outer : List Nat) : Return :=
  if level < indent then .to indent (level :: outer) else climb indent (level :: outer)

/-- What one line does. -/
inductive Step where
  /-- The reading goes on. -/
  | on (state : State)
  /-- A body line was read, at the current level of the new state. -/
  | item (level : Nat) (outer : List Nat) (text : String) (doc : List String)
  /-- Documentation was dropped. -/
  | drop (state : State)
  /-- The outline has ended. -/
  | ended
  | refused (problem : Problem)
  deriving DecidableEq, Repr

/-- What a line does in a state. -/
def step : State → Line → Step
  | state, .remark => .on state
  | .start, .blank => .on .start
  | .start, .doc indent text => .on (.gathering indent [] [text])
  | .start, .body indent text => .item indent [] text []
  | .after level outer, .blank => .on (.after level outer)
  | .after level outer, .doc indent text =>
    match settle indent level outer with
    | .to level outer => .on (.gathering level outer [text])
    | .below => .ended
    | .between => .refused .strayLine
  | .after level outer, .body indent text =>
    match settle indent level outer with
    | .to level outer => .item level outer text []
    | .below => .ended
    | .between => .refused .strayLine
  | .gathering level outer doc, .blank =>
    if doc.isEmpty then .on (.gathering level outer doc) else .drop (.gathering level outer [])
  | .gathering level outer doc, .doc indent text =>
    if indent = level then .on (.gathering level outer (doc ++ [text])) else .refused .strayDoc
  | .gathering level outer doc, .body indent text =>
    if indent = level then .item level outer text doc else .refused .strayLine

/-! ## all lines -/

/-- What reading a text gives: its items, the warnings, and the failure, if
there is one, with its line. -/
structure Reading where
  items : List Item
  warnings : List Warning
  failure : Option (Problem × Nat)
  deriving DecidableEq, Repr

namespace Reading

/-- Nothing is left to read. -/
def done : Reading := ⟨[], [], none⟩

/-- The reading fails. -/
def failed (problem : Problem) (number : Nat) : Reading := ⟨[], [], some (problem, number)⟩

/-- What the end of the text does in a state, after `number` lines. -/
def finish (number : Nat) : State → Reading
  | .gathering _ _ (_ :: _) => { done with warnings := [⟨.endOfText, number⟩] }
  | _ => done

/-- Reads on in a state, `seen` lines having been read before. -/
def ofLines (seen : Nat) (state : State) (rest : List Char) : List (List Char) → Reading
  | [] => if rest.isEmpty then finish seen state else failed .unendedLine (seen + 1)
  | line :: lines =>
    match step state (Line.ofText line) with
    | .on state => ofLines (seen + 1) state rest lines
    | .item level outer text doc =>
      let later := ofLines (seen + 1) (.after level outer) rest lines
      { later with items := ⟨level, seen + 1, text, doc⟩ :: later.items }
    | .drop state =>
      let later := ofLines (seen + 1) state rest lines
      { later with warnings := ⟨.blankLine, seen + 1⟩ :: later.warnings }
    | .ended => done
    | .refused problem => failed problem (seen + 1)

/-- Reads a text. -/
def ofText (text : String) : Reading :=
  let lines := Text.Lines.ofText text.toList
  ofLines 0 .start lines.rest lines.ended

end Reading

/-! ## trees -/

/-- The tree of a text, or the failure with its line; the warnings in both
cases. -/
structure Parse where
  warnings : List Warning
  result : Except (Problem × Nat) (List Node)

/-- Parses an outline. -/
def parse (text : String) : Parse :=
  let reading := Reading.ofText text
  { warnings := reading.warnings
    result := match reading.failure with
      | none => .ok (Node.forest reading.items)
      | some failure => .error failure }

end DeviceRegisters.Outline
