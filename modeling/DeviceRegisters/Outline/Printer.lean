import DeviceRegisters.Outline.Basic
import DeviceRegisters.Text.Digits
import DeviceRegisters.Text.Lines

/-!
# DeviceRegisters.Outline.Printer

Outlines as text: `render` writes what `parse` reads, four columns a level;
`listing` shows a node with its line numbers.
-/

namespace DeviceRegisters.Outline.Node

/-- The columns that a level adds. -/
def columns : Nat := 4

mutual
/-- The lines of a node and of those beneath it. -/
def lines (depth : Nat) : Node → List (List Char)
  | ⟨_, text, doc, children⟩ =>
    let indent := List.replicate (depth * columns) ' '
    doc.map (indent ++ '#' :: ·.toList) ++ (indent ++ text.toList) :: linesBelow (depth + 1) children

/-- The lines of a list of nodes. -/
def linesBelow (depth : Nat) : List Node → List (List Char)
  | [] => []
  | node :: nodes => lines depth node ++ linesBelow depth nodes
end

/-- The text of a forest. -/
def render (nodes : List Node) : String :=
  String.ofList (Text.Lines.toText ⟨linesBelow 0 nodes, []⟩)

mutual
/-- The numbered lines of a node and of those beneath it, after a margin that
grows with the depth. -/
def numberedLines (margin : List Char) : Node → List (List Char)
  | ⟨number, text, doc, children⟩ =>
    doc.map (List.replicate 5 ' ' ++ margin ++ '#' :: ·.toList) ++
      (Text.padStart ' ' 4 (Text.decimal number) ++ ' ' :: margin ++ text.toList) ::
        numberedLinesBelow (margin ++ List.replicate columns ' ') children

/-- The numbered lines of a list of nodes. -/
def numberedLinesBelow (margin : List Char) : List Node → List (List Char)
  | [] => []
  | node :: nodes => numberedLines margin node ++ numberedLinesBelow margin nodes
end

/-- A node and those beneath it with their line numbers. -/
def listing (node : Node) : String :=
  String.ofList (Text.Lines.toText ⟨numberedLines [] node, []⟩)

end DeviceRegisters.Outline.Node
