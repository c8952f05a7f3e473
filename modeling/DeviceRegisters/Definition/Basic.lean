import DeviceRegisters.Access
import DeviceRegisters.Address

/-!
# DeviceRegisters.Definition

Register descriptions: what a device's registers are called, where they are,
what their fields are and how they may be accessed.

A description may use a template instead of spelling out a group or a register;
it then names the template by its number, the count of the templates that are
older.
-/

namespace DeviceRegisters.Definition

/-- The width of a register in bits. -/
def registerBits : Nat := 32

/-! ## registers -/

/-- A stretch of a register's bits.  Without a mode of its own it has the
register's; `isBit` says that no width was written. -/
structure Field where
  name : String
  offset : Nat
  width : Nat
  isBit : Bool
  access : Option Access
  doc : List String
  line : Nat
  deriving DecidableEq, Repr

namespace Field

/-- The first bit after the field. -/
def stop (f : Field) : Nat := f.offset + f.width

/-- Whether two fields share a bit. -/
def overlaps (f g : Field) : Bool := f.offset < g.stop && g.offset < f.stop

end Field

/-- A register.  As a member of an overlay it has its index for an offset. -/
structure Register where
  name : String
  offset : Nat
  access : Access
  fields : List Field
  template : Option Nat
  doc : List String
  line : Nat
  deriving DecidableEq, Repr

/-- Registers of one layout at consecutive addresses. -/
structure Bank where
  name : String
  base : Nat
  count : Nat
  access : Access
  fields : List Field
  doc : List String
  deriving DecidableEq, Repr

/-- Two registers at one address: one is read there, the other written. -/
structure Pair where
  read : Register
  write : Register
  deriving DecidableEq, Repr

/-- Registers at one address, told apart by their index. -/
structure Overlay where
  name : String
  offset : Nat
  access : Access
  registers : List Register
  doc : List String
  deriving DecidableEq, Repr

/-! ## groups -/

/-- What is said of a group beside its content.  The names in a hidden group
belong to the scope around it. -/
structure GroupHead where
  name : String
  base : Nat
  span : Nat
  hidden : Bool
  template : Option Nat
  doc : List String
  deriving DecidableEq, Repr

/-- What is said of a union beside its content. -/
structure UnionHead where
  name : Option String
  base : Nat
  size : Nat
  doc : List String
  deriving DecidableEq, Repr

/-- How a union is spoken of: an unnamed one has a name that no other thing can
have. -/
def UnionHead.label (head : UnionHead) : String := head.name.getD "<union>"

/-- What a group consists of. -/
inductive Entry where
  | register (register : Register)
  | bank (bank : Bank)
  | pair (pair : Pair)
  | overlay (overlay : Overlay)
  | group (head : GroupHead) (content : List Entry)
  /-- Entries that start at one address. -/
  | union (head : UnionHead) (content : List Entry)
  deriving Repr

/-- The number of addresses an entry takes. -/
def Entry.span : Entry → Nat
  | .register _ | .pair _ | .overlay _ => 1
  | .bank b => b.count
  | .group head _ => head.span
  | .union head _ => head.size

/-- A group that stands by itself. -/
structure Group where
  head : GroupHead
  content : List Entry
  deriving Repr

namespace Group

/-- The name of a group. -/
def name (g : Group) : String := g.head.name

/-- The group as an entry of another. -/
def entry (g : Group) : Entry := .group g.head g.content

end Group

/-- A named number. -/
structure Constant where
  name : String
  value : UInt64
  doc : List String
  deriving DecidableEq, Repr

end DeviceRegisters.Definition
