import DeviceRegisters.Definition.Basic
import DeviceRegisters.Error

/-!
# DeviceRegisters.Directory

The directory of a group: everything in it that has a name, or that things with
names are in.

Its nodes refer to each other by number.  They are numbered from the inside out,
so a node refers to smaller numbers only, and the group itself comes last.  A
thing can have a name in several scopes: the names in hidden groups, pairs and
unions count in the scope around them as well.
-/

namespace DeviceRegisters

namespace Directory

/-- A field with its mode settled. -/
structure FieldView where
  name : String
  offset : Nat
  width : Nat
  isBit : Bool
  access : Access
  doc : List String
  deriving DecidableEq, Repr

/-- How a register is read and written, wherever it is. -/
structure RegisterView where
  name : String
  access : Access
  fields : List FieldView
  deriving DecidableEq, Repr

/-- The field of a name. -/
def RegisterView.field? (v : RegisterView) (name : String) : Option FieldView :=
  v.fields.find? (·.name = name)

/-- The names of a scope in their order, with the numbers of the nodes. -/
abbrev Members := List (String × Nat)

/-- A thing in a directory. -/
inductive Node where
  | register (view : RegisterView) (address : Nat) (doc : List String)
  | bank (view : RegisterView) (base count : Nat)
  | group (name : String) (base span : Nat) (members : Members)
  /-- `selection` lists the members' numbers by index. -/
  | overlay (name : String) (address : Nat) (access : Access) (members : Members) (selection : List Nat)
  | union (head : Definition.UnionHead) (members : Members)
  deriving DecidableEq, Repr

namespace Node

/-- How a node is spoken of. -/
def name : Node → String
  | .register view _ _ => view.name
  | .bank view _ _ => view.name
  | .group name _ _ _ => name
  | .overlay name _ _ _ _ => name
  | .union head _ => head.label

/-- What a node is. -/
def kind : Node → Kind
  | .register .. => .register
  | .bank .. => .bank
  | .group .. => .group
  | .overlay .. => .overlay
  | .union .. => .union

/-- The names inside a node, if it is a scope. -/
def members? : Node → Option Members
  | .register .. => none
  | .bank .. => none
  | .group _ _ _ members => some members
  | .overlay _ _ _ members _ => some members
  | .union _ members => some members

end Node
end Directory

/-- The things of a group.  `root` is the number of the group itself. -/
structure Directory where
  nodes : Array Directory.Node
  root : Fin nodes.size

namespace Directory

/-- The node of a number. -/
def node? (d : Directory) (number : Nat) : Option Node := d.nodes[number]?

/-- The node of the group itself. -/
def rootNode (d : Directory) : Node := d.nodes[d.root]

end Directory
end DeviceRegisters
