import DeviceRegisters.Definition.EntryLines

/-!
# DeviceRegisters.Definition.Catalog

Whole descriptions:

```
NAME = VALUE       a constant
:NAME MODE         a register as a template; fields beneath
:!NAME             a group as a template; its entries beneath
!NAME              a group; its entries beneath
```

Sources add up.  Before a source is read, the groups of the source before it
become templates, so of the groups only those of the last source remain.
-/

namespace DeviceRegisters.Definition

open Outline (Node)

/-- What sources describe: templates, the groups of the last source, and
constants. -/
structure Catalog where
  library : Library
  groups : List Group
  constants : List Constant
  deriving Repr

namespace Catalog

/-- The catalog of no source. -/
def empty : Catalog := ⟨[], [], []⟩

/-- The group of a name. -/
def group? (c : Catalog) (name : String) : Option Group := c.groups.find? (·.name = name)

/-- The value of a named constant. -/
def constant? (c : Catalog) (name : String) : Option UInt64 :=
  (c.constants.find? (·.name = name)).map (·.value)

/-! ## lines at the top -/

/-- Reads a template; the colon in front is already taken off. -/
def readTemplate (library : Library) (node : Node) : Except Error Template :=
  if node.text.toList.head? = some '!' then do
    let group ← readGroup library node
    .ok (.group group)
  else do
    let register ← readRegister 0 [] none node
    .ok (.register register)

/-- Adds the template of a line that starts with a colon. -/
def addTemplate (c : Catalog) (node : Node) : Except Error Catalog := do
  let template ← readTemplate c.library { node with text := String.ofList (node.text.toList.drop 1) }
  match c.library.add? template with
  | some library => .ok { c with library }
  | none => refuse (.repeatedTemplate template.name) node.number

/-- Adds the group of a line that starts with an exclamation mark. -/
def addGroup (c : Catalog) (node : Node) : Except Error Catalog := do
  let group ← readGroup c.library node
  if (c.group? group.name).isSome || c.library.hasName group.name then
    refuse (.repeatedGroup group.name) node.number
  else .ok { c with groups := c.groups ++ [group] }

/-- Adds the constant of a line with an equals sign. -/
def addConstant (c : Catalog) (node : Node) : Except Error Catalog := do
  let line := node.number
  checkLeaf node.children line
  let cs := node.text.toList
  let name := String.ofList (Text.trim (cs.takeWhile (· ≠ '=')))
  checkName name line
  match Numeral.parse (Text.trim ((cs.dropWhile (· ≠ '=')).drop 1)) with
  | .error problem => refuse (.invalidValue problem) line
  | .ok value =>
    if (c.constant? name).isSome then refuse (.repeatedConstant name) line
    else .ok { c with constants := c.constants ++ [⟨name, value, node.doc⟩] }

/-- Adds what a line at the top describes. -/
def addLine (c : Catalog) (node : Node) : Except Error Catalog :=
  match node.text.toList with
  | ':' :: _ => c.addTemplate node
  | '!' :: _ => c.addGroup node
  | cs => if '=' ∈ cs then c.addConstant node else refuse .ungroupedRegister node.number

/-- Adds what lines at the top describe, in order. -/
def addLines (c : Catalog) : List Node → Except Error Catalog
  | [] => .ok c
  | node :: nodes => do
    let c ← c.addLine node
    addLines c nodes

/-! ## sources -/

/-- The scope in which templates have their names. -/
def templateScope : String := "shared definitions"

/-- Makes groups templates, in order. -/
def shelve (library : Library) : List Group → Except Error Library
  | [] => .ok library
  | group :: groups =>
    match library.add? (.group group) with
    | some library => shelve library groups
    | none => .error (.duplicateName templateScope group.name)

/-- Adds a source. -/
def addSource (c : Catalog) (nodes : List Node) : Except Error Catalog := do
  let library ← shelve c.library c.groups
  addLines ⟨library, [], c.constants⟩ nodes

end Catalog
end DeviceRegisters.Definition
