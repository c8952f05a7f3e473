import DeviceRegisters.Definition.EntryLines

/-!
# DeviceRegisters.Proofs.Definition.Parts

What an entry is made of: the registers, the groups and the field lists in it,
the entry at a position, and the registers it ends in with their addresses.

A position lists, from the outside in, the indices of entries in the contents of
groups and unions.  A position of a leaf may have one index more: of a register
in a bank, a pair or an overlay.
-/

namespace DeviceRegisters.Definition

/-! ## all registers and all groups -/

mutual
/-- The registers that are described in an entry, those of pairs and overlays
included. -/
def Entry.registers : Entry → List Register
  | .register r => [r]
  | .bank _ => []
  | .pair p => [p.read, p.write]
  | .overlay o => o.registers
  | .group _ content | .union _ content => registersIn content

/-- The registers that are described in entries. -/
def registersIn : List Entry → List Register
  | [] => []
  | entry :: entries => entry.registers ++ registersIn entries
end

mutual
/-- The heads of the groups in an entry, its own included. -/
def Entry.heads : Entry → List GroupHead
  | .register _ | .bank _ | .pair _ | .overlay _ => []
  | .group head content => head :: headsIn content
  | .union _ content => headsIn content

/-- The heads of the groups in entries. -/
def headsIn : List Entry → List GroupHead
  | [] => []
  | entry :: entries => entry.heads ++ headsIn entries
end

/-- The registers that are described in a template. -/
def Template.registers : Template → List Register
  | .group g => g.entry.registers
  | .register r => [r]

/-- The heads of the groups in a template. -/
def Template.heads : Template → List GroupHead
  | .group g => g.entry.heads
  | .register _ => []

/-! ## all fields -/

mutual
/-- The registers that an entry declares, wherever they are in it, by their names and fields. -/
def Entry.declared : Entry → List (String × List Field)
  | .register r => [(r.name, r.fields)]
  | .bank b => [(b.name, b.fields)]
  | .pair p => [(p.read.name, p.read.fields), (p.write.name, p.write.fields)]
  | .overlay o => o.registers.map fun r => (r.name, r.fields)
  | .group _ content => declaredIn content
  | .union _ content => declaredIn content

/-- The registers that some entries declare. -/
def declaredIn : List Entry → List (String × List Field)
  | [] => []
  | entry :: entries => entry.declared ++ declaredIn entries
end

/-- What an entry of some content declares the content declares. -/
theorem mem_declaredIn {entry : Entry} {entries : List Entry} {layout : String × List Field}
    (hentry : entry ∈ entries) (h : layout ∈ entry.declared) : layout ∈ declaredIn entries := by
  induction entries with
  | nil => exact absurd hentry List.not_mem_nil
  | cons first entries ih =>
      rw [declaredIn, List.mem_append]
      rcases List.mem_cons.mp hentry with rfl | hentry
      · exact .inl h
      · exact .inr (ih hentry)

/-! ## positions -/

namespace Entry

@[simp] theorem span_group (head : GroupHead) (content : List Entry) :
    (group head content).span = head.span := rfl

@[simp] theorem span_union (head : UnionHead) (content : List Entry) :
    (union head content).span = head.size := rfl

/-- The address an entry starts at. -/
def start : Entry → Nat
  | .register r => r.offset
  | .bank b => b.base
  | .pair p => p.read.offset
  | .overlay o => o.offset
  | .group head _ => head.base
  | .union head _ => head.base

/-- The entries a group or a union consists of. -/
def content : Entry → List Entry
  | .group _ content | .union _ content => content
  | .register _ | .bank _ | .pair _ | .overlay _ => []

/-- The entry at a position. -/
def at? (entry : Entry) : List Nat → Option Entry
  | [] => some entry
  | k :: position => entry.content[k]?.bind (at? · position)

/-- The address of the leaf at a position: of a register, of a register of a
bank, of one half of a pair, or of an overlay for each of its registers. -/
def leaf? : Entry → List Nat → Option Nat
  | .register r, [] => some r.offset
  | .bank b, [i] => if i < b.count then some (b.base + i) else none
  | .pair p, [i] => [p.read.offset, p.write.offset][i]?
  | .overlay o, [i] => if i < o.registers.length then some o.offset else none
  | .group _ content, k :: position => content[k]?.bind (leaf? · position)
  | .union _ content, k :: position => content[k]?.bind (leaf? · position)
  | _, _ => none

/-- Whether an entry puts several things at one address. -/
def SharesAddress : Entry → Prop
  | .pair _ | .overlay _ | .union _ _ => True
  | .register _ | .bank _ | .group _ _ => False

end Entry
end DeviceRegisters.Definition
