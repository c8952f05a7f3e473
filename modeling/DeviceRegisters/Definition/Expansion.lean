import DeviceRegisters.Definition.Catalog

/-!
# DeviceRegisters.Definition.Expansion

Templates filled in and addresses made absolute.

An entry that is spelled out moves by the shift of its scope; what a use of a
group stands for moves by the address of the use.  The registers of an overlay
keep their indices.  A template can use only older ones, so filling in follows
the library from the newest template down.
-/

namespace DeviceRegisters.Definition

/-- A template as seen by its uses: a register, or a group's documentation and
its content when put at an address. -/
inductive Instance where
  | register (register : Register)
  | group (doc : List String) (contentAt : Nat → Except Error (List Entry))

/-- The address moved by the shift, if there is such an address. -/
def rebase (shift address : Nat) (name : String) : Except Error Nat :=
  if Address.last < shift + address then .error (.addressOverflow name) else .ok (shift + address)

/-- A use's own documentation, or the template's if it has none. -/
def preferred (own shared : List String) : List String := if own.isEmpty then shared else own

section
variable (find : Nat → Option Instance)

/-- Expands a register: the fields of its template come first. -/
def expandRegister (shift : Nat) (r : Register) : Except Error Register := do
  let offset ← rebase shift r.offset r.name
  match r.template with
  | none => .ok { r with offset }
  | some number =>
    match find number with
    | some (.register template) => do
      let fields ← addFields template.fields r.fields
      .ok ⟨r.name, offset, r.access, fields, none, preferred r.doc template.doc, r.line⟩
    | _ => .error (.wrongKind r.name .register)

/-- Expands registers in order. -/
def expandRegisters (shift : Nat) : List Register → Except Error (List Register)
  | [] => .ok []
  | r :: rs => do
    let r ← expandRegister find shift r
    let rs ← expandRegisters shift rs
    .ok (r :: rs)

mutual
/-- Expands an entry. -/
def expandEntry (shift : Nat) : Entry → Except Error Entry
  | .register r => do
    let r ← expandRegister find shift r
    .ok (.register r)
  | .bank b => do
    let base ← rebase shift b.base b.name
    .ok (.bank { b with base })
  | .pair p => do
    let read ← expandRegister find shift p.read
    let write ← expandRegister find shift p.write
    .ok (.pair ⟨read, write⟩)
  | .overlay o => do
    let offset ← rebase shift o.offset o.name
    let registers ← expandRegisters find 0 o.registers
    .ok (.overlay { o with offset, registers })
  | .group head content => do
    let base ← rebase shift head.base head.name
    match head.template with
    | none => do
      let content ← expandEntries shift content
      .ok (.group { head with base } content)
    | some number =>
      match find number with
      | some (.group doc contentAt) => do
        let content ← contentAt base
        .ok (.group ⟨head.name, base, head.span, false, none, preferred head.doc doc⟩ content)
      | _ => .error (.wrongKind head.name .group)
  | .union head content => do
    let base ← rebase shift head.base head.label
    let content ← expandEntries shift content
    .ok (.union { head with base } content)

/-- Expands entries in order. -/
def expandEntries (shift : Nat) : List Entry → Except Error (List Entry)
  | [] => .ok []
  | entry :: entries => do
    let entry ← expandEntry shift entry
    let entries ← expandEntries shift entries
    .ok (entry :: entries)
end

end

/-- A template as its uses see it, when `find` gives the ones it may use. -/
def Template.toInstance (find : Nat → Option Instance) : Template → Instance
  | .register r => .register r
  | .group g => .group g.head.doc fun base => expandEntries find base g.content

/-- The template of a number, as its uses see it. -/
def Library.instance? : Library → Nat → Option Instance
  | [], _ => none
  | t :: older, number =>
    if number = older.length then some (t.toInstance (Library.instance? older))
    else Library.instance? older number

/-- Expands a group as if the scope around it started at `shift`. -/
def Group.expand (library : Library) (g : Group) (shift : Nat) : Except Error Group := do
  match ← expandEntry library.instance? shift g.entry with
  | .group head content => .ok ⟨head, content⟩
  | _ => .error (.wrongKind g.name .group)

/-- Expands groups at address 0, in order. -/
def expandGroups (library : Library) : List Group → Except Error (List Group)
  | [] => .ok []
  | g :: gs => do
    let g ← g.expand library 0
    let gs ← expandGroups library gs
    .ok (g :: gs)

/-- A description without templates, every address absolute. -/
structure FlatCatalog where
  groups : List Group
  constants : List Constant
  deriving Repr

namespace FlatCatalog

/-- The group of a name. -/
def group? (c : FlatCatalog) (name : String) : Option Group := c.groups.find? (·.name = name)

/-- The value of a named constant. -/
def constant? (c : FlatCatalog) (name : String) : Option UInt64 :=
  (c.constants.find? (·.name = name)).map (·.value)

end FlatCatalog

/-- Expands a description. -/
def Catalog.flatten (c : Catalog) : Except Error FlatCatalog := do
  let groups ← expandGroups c.library c.groups
  .ok ⟨groups, c.constants⟩

end DeviceRegisters.Definition
