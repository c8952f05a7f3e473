import DeviceRegisters.Address
import DeviceRegisters.Directory.Basic
import DeviceRegisters.Directory.Path

/-!
# DeviceRegisters.Directory.Place

Finding one's way in a directory: from a scope to a member, from a bank or an
overlay to the register of an index, along a path from the root.
-/

namespace DeviceRegisters.Directory

/-- One register: a node that is a register, or one register of a bank. -/
structure Handle where
  number : Nat
  address : Nat
  view : RegisterView
  deriving DecidableEq, Repr

/-- Where one can be in a directory. -/
inductive Place where
  | register (handle : Handle)
  /-- A node that is no register by itself. -/
  | node (number : Nat) (thing : Node)
  deriving DecidableEq, Repr

namespace Place

/-- How a place is spoken of: a register of a bank has the bank's name. -/
def name : Place → String
  | .register handle => handle.view.name
  | .node _ thing => thing.name

/-- A node as a place. -/
def ofNode (number : Nat) : Node → Place
  | .register view address _ => .register ⟨number, address, view⟩
  | thing => .node number thing

/-- The error at a place that is not of the kind asked for. -/
def wrongKind (place : Place) (expected : Kind) : Error := .wrongKind place.name expected

end Place

variable (d : Directory)

/-- The place of the group itself. -/
def top : Place := .ofNode d.root d.rootNode

/-- The place of a number. -/
def place? (number : Nat) : Option Place := (d.node? number).map (.ofNode number)

/-- The member of a name in a scope. -/
def member (place : Place) (name : String) : Except Error Place :=
  match place with
  | .register _ => .error (place.wrongKind .group)
  | .node _ thing =>
    match thing.members? with
    | none => .error (place.wrongKind .group)
    | some members =>
      match (members.lookup name).bind d.place? with
      | some found => .ok found
      | none => .error (.noSuchMember thing.name name)

/-- The register of an index in a bank. -/
def index (place : Place) (n : Nat) : Except Error Place :=
  match place with
  | .node number (.bank view base count) =>
    if count ≤ n then .error (.indexOutOfRange view.name n count)
    else if Address.last < base + n then
      .error (.addressOverflow (view.name ++ "[" ++ String.ofList (Text.decimal n) ++ "]"))
    else .ok (.register ⟨number, base + n, view⟩)
  | place => .error (place.wrongKind .bank)

/-- The register of an index in an overlay. -/
def select (place : Place) (n : Nat) : Except Error Place :=
  match place with
  | .node _ (.overlay name _ _ _ selection) =>
    match selection[n]?.bind d.place? with
    | some found => .ok found
    | none => .error (.indexOutOfRange name n selection.length)
  | place => .error (place.wrongKind .overlay)

/-- One step of a path: an index selects in an overlay and counts in a bank. -/
def follow (place : Place) : Segment → Except Error Place
  | .member name => d.member place name
  | .index n =>
    match place with
    | .node _ (.overlay ..) => d.select place n
    | place => index place n

/-- The steps of a path, in order. -/
def followAll (place : Place) : Path → Except Error Place
  | [] => .ok place
  | segment :: path => do
    let place ← d.follow place segment
    followAll place path

/-- The place that a path leads to. -/
def resolve (path : String) : Except Error Place := do
  let path ← Path.parse path
  d.followAll d.top path

/-- The register that a path leads to. -/
def register (path : String) : Except Error Handle := do
  match ← d.resolve path with
  | .register handle => .ok handle
  | place => .error (place.wrongKind .register)

end DeviceRegisters.Directory
