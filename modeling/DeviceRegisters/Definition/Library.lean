import DeviceRegisters.Definition.Basic

/-!
# DeviceRegisters.Definition.Library

Templates: groups and registers that are described once and used by name.

A library lists its templates from the newest on.  The number of a template is
the count of the older ones, so it never changes, and the tail of the list is
the library as it was before.
-/

namespace DeviceRegisters.Definition

/-- A group or a register to be used by name. -/
inductive Template where
  | group (group : Group)
  | register (register : Register)
  deriving Repr

/-- The name of a template. -/
def Template.name : Template → String
  | .group g => g.name
  | .register r => r.name

/-- Templates, the newest first. -/
abbrev Library := List Template

namespace Library

/-- The number of the template of a name. -/
def numberOf? (name : String) : Library → Option Nat
  | [] => none
  | t :: older => if t.name = name then some older.length else numberOf? name older

/-- The template of a number. -/
def get? (number : Nat) : Library → Option Template
  | [] => none
  | t :: older => if number = older.length then some t else get? number older

/-- Whether a template has the name. -/
def hasName (library : Library) (name : String) : Bool := (library.numberOf? name).isSome

/-- The library with one more template, unless the name is taken. -/
def add? (library : Library) (t : Template) : Option Library :=
  if library.hasName t.name then none else some (t :: library)

/-- The templates in the order of their numbers. -/
def inOrder (library : Library) : List Template := library.reverse

end Library
end DeviceRegisters.Definition
