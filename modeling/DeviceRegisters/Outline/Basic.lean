import DeviceRegisters.Text.Blank

/-!
# DeviceRegisters.Outline

Outlines: text whose lines form a tree by their indentation.

```
a
    # doc
    b
        c
    d
```

is one node `a` with the children `b`, documented by ` doc` and with the child
`c`, and `d`.
-/

namespace DeviceRegisters.Outline

/-- A line of an outline with the lines beneath it.  `text` has no indentation,
and `doc` holds the documentation lines directly above, each after its `#`. -/
structure Node where
  number : Nat
  text : String
  doc : List String
  children : List Node
  deriving Repr

/-- A line of an outline without the tree: how far it is indented, where it
stands, what it says and how it is documented. -/
structure Item where
  level : Nat
  number : Nat
  text : String
  doc : List String
  deriving DecidableEq, Repr

namespace Node

/-- The words of the line. -/
def tokens (node : Node) : List String := Text.wordsOf node.text

/-! ## from items to trees and back -/

/-- Puts an item in front of a forest whose roots carry their levels: the roots
that are indented further become its children. -/
def attach (item : Item) (roots : List (Nat × Node)) : List (Nat × Node) :=
  let deeper := fun (root : Nat × Node) => item.level < root.1
  (item.level, ⟨item.number, item.text, item.doc, (roots.takeWhile deeper).map (·.2)⟩) ::
    roots.dropWhile deeper

/-- The forest of items in text order: each item belongs to the nearest one
before it that is indented less. -/
def forest (items : List Item) : List Node := (items.foldr attach []).map (·.2)

mutual
/-- A node and the nodes beneath it in text order, the depth as their level. -/
def itemsFrom (depth : Nat) : Node → List Item
  | ⟨number, text, doc, children⟩ => ⟨depth, number, text, doc⟩ :: itemsBelow (depth + 1) children

/-- The nodes of a list and those beneath them, in text order. -/
def itemsBelow (depth : Nat) : List Node → List Item
  | [] => []
  | node :: nodes => itemsFrom depth node ++ itemsBelow depth nodes
end

/-- All nodes of a forest in text order, the depth as their level. -/
def toItems (nodes : List Node) : List Item := itemsBelow 0 nodes

end Node
end DeviceRegisters.Outline
