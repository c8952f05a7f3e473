import DeviceRegisters.Directory.Basic

/-!
# DeviceRegisters.Directory.Build

The directory of a group without templates.

Within a scope, and among the fields of a register, a name may stand once only.
A scope takes the names of its entries in order: instead of a hidden group those
of its entries, instead of a pair those of its registers, and for a union those
in it followed by its own.
-/

namespace DeviceRegisters.Directory

open Definition (Entry Field Group Pair Register)

/-! ## registers -/

/-- A field with its mode settled: its own, or else the register's. -/
def FieldView.ofField (access : Access) (f : Field) : FieldView :=
  ⟨f.name, f.offset, f.width, f.isBit, f.access.getD access, f.doc⟩

/-- Settles fields in order, after fields of the given names. -/
def settleFields (register : String) (access : Access) (seen : List String) :
    List Field → Except Error (List FieldView)
  | [] => .ok []
  | f :: fs =>
    if f.name ∈ seen then .error (.duplicateName register f.name)
    else do
      let views ← settleFields register access (f.name :: seen) fs
      .ok (.ofField access f :: views)

/-- The view of a register of that mode. -/
def RegisterView.make (name : String) (access : Access) (fields : List Field) :
    Except Error RegisterView := do
  let fields ← settleFields name access [] fields
  .ok ⟨name, access, fields⟩

/-! ## scopes -/

/-- Gives a node a name in a scope. -/
def addMember (scope : String) (members : Members) (name : String) (number : Nat) :
    Except Error Members :=
  if members.any (·.1 = name) then .error (.duplicateName scope name)
  else .ok (members ++ [(name, number)])

/-- Gives nodes names in a scope, in order. -/
def addMembers (scope : String) (members : Members) : Members → Except Error Members
  | [] => .ok members
  | (name, number) :: more => do
    let members ← addMember scope members name number
    addMembers scope members more

/-- A directory in the making: the nodes so far, and the names of the scope at
hand. -/
structure Draft where
  nodes : Array Node
  members : Members

namespace Draft

/-- Adds a node that has a name in the scope. -/
def addNamed (d : Draft) (scope name : String) (node : Node) : Except Error Draft := do
  let members ← addMember scope d.members name d.nodes.size
  .ok ⟨d.nodes.push node, members⟩

/-- Adds a register at an address, of that mode. -/
def addRegister (d : Draft) (scope : String) (address : Nat) (access : Access) (r : Register) :
    Except Error Draft := do
  let view ← RegisterView.make r.name access r.fields
  d.addNamed scope r.name (.register view address r.doc)

/-- Adds registers at one address, of that mode. -/
def addRegisters (scope : String) (address : Nat) (access : Access) (d : Draft) :
    List Register → Except Error Draft
  | [] => .ok d
  | r :: rs => do
    let d ← d.addRegister scope address access r
    addRegisters scope address access d rs

mutual
/-- Adds an entry to the scope at hand. -/
def addEntry (scope : String) (d : Draft) : Entry → Except Error Draft
  | .register r => d.addRegister scope r.offset r.access r
  | .bank b => do
    let view ← RegisterView.make b.name b.access b.fields
    d.addNamed scope b.name (.bank view b.base b.count)
  | .pair p => do
    let d ← d.addRegister scope p.read.offset p.read.access p.read
    d.addRegister scope p.write.offset p.write.access p.write
  | .overlay o => do
    let inner ← addRegisters o.name o.offset o.access ⟨d.nodes, []⟩ o.registers
    let node := .overlay o.name o.offset o.access inner.members (inner.members.map (·.2))
    Draft.addNamed ⟨inner.nodes, d.members⟩ scope o.name node
  | .group head content =>
    if head.hidden then addEntries scope d content
    else do
      let inner ← addEntries head.name ⟨d.nodes, []⟩ content
      let node := .group head.name head.base head.span inner.members
      Draft.addNamed ⟨inner.nodes, d.members⟩ scope head.name node
  | .union head content => do
    let inner ← addEntries head.label ⟨d.nodes, []⟩ content
    let number := inner.nodes.size
    let members ← addMembers scope d.members inner.members
    let members ← match head.name with
      | some name => addMember scope members name number
      | none => .ok members
    .ok ⟨inner.nodes.push (.union head inner.members), members⟩

/-- Adds entries to the scope at hand, in order. -/
def addEntries (scope : String) (d : Draft) : List Entry → Except Error Draft
  | [] => .ok d
  | entry :: entries => do
    let d ← addEntry scope d entry
    addEntries scope d entries
end

end Draft

/-- The directory of a group. -/
def ofGroup (g : Group) : Except Error Directory := do
  let d ← Draft.addEntries g.name ⟨#[], []⟩ g.content
  let node := .group g.name g.head.base g.head.span d.members
  .ok ⟨d.nodes.push node, ⟨d.nodes.size, by simp⟩⟩

end DeviceRegisters.Directory
