import DeviceRegisters.Proofs.Directory.Scopes

/-!
# DeviceRegisters.Proofs.Directory.Routes

The routes through a tree of entries (`Entry.Leads`): from scope to scope by the
names of groups that are not hidden and, where one likes, of the unions that have
one, down to a register.  The registers of a bank are told apart by an index,
those of an overlay by a name or an index.
-/

namespace DeviceRegisters

/-! ## routes -/

/-- The view of a register of a mode; a field without a mode of its own has that
one. -/
def Directory.RegisterView.of (name : String) (access : Access) (fields : List Definition.Field) :
    RegisterView :=
  ⟨name, access, fields.map (.ofField access)⟩

/-- A register at an address, of a mode. -/
def Directory.Leaf.of (address : Nat) (access : Access) (r : Definition.Register) : Leaf :=
  ⟨address, .of r.name access r.fields⟩

namespace Definition

open Directory (Leaf)

/-- A route to a register of an entry, from the scope that the entry is in. -/
inductive Entry.Leads : Entry → Path → Leaf → Prop where
  | register {r : Register} : Leads (.register r) [.member r.name] (.of r.offset r.access r)
  | element {b : Bank} {i : Nat} : i < b.count →
      Leads (.bank b) [.member b.name, .index i] ⟨b.base + i, .of b.name b.access b.fields⟩
  | read {p : Pair} : Leads (.pair p) [.member p.read.name] (.of p.read.offset p.read.access p.read)
  | write {p : Pair} :
      Leads (.pair p) [.member p.write.name] (.of p.write.offset p.write.access p.write)
  /-- A register of an overlay has the address and the mode of the overlay. -/
  | named {o : Overlay} {r : Register} : r ∈ o.registers →
      Leads (.overlay o) [.member o.name, .member r.name] (.of o.offset o.access r)
  | selected {o : Overlay} {i : Nat} {r : Register} : o.registers[i]? = some r →
      Leads (.overlay o) [.member o.name, .index i] (.of o.offset o.access r)
  | visible {head : GroupHead} {content : List Entry} {entry : Entry} {path : Path} {leaf : Leaf} :
      head.hidden = false → entry ∈ content → Leads entry path leaf →
      Leads (.group head content) (.member head.name :: path) leaf
  | hidden {head : GroupHead} {content : List Entry} {entry : Entry} {path : Path} {leaf : Leaf} :
      head.hidden = true → entry ∈ content → Leads entry path leaf →
      Leads (.group head content) path leaf
  /-- The name of a union can be left out, -/
  | past {head : UnionHead} {content : List Entry} {entry : Entry} {path : Path} {leaf : Leaf} :
      entry ∈ content → Leads entry path leaf → Leads (.union head content) path leaf
  /-- or put in. -/
  | through {head : UnionHead} {content : List Entry} {entry : Entry} {path : Path} {leaf : Leaf}
      {name : String} : head.name = some name → entry ∈ content → Leads entry path leaf →
      Leads (.union head content) (.member name :: path) leaf

/-- A route to a register of some entries, from the scope that they are in. -/
def AnyLeads (entries : List Entry) (path : Path) (leaf : Leaf) : Prop :=
  ∃ entry ∈ entries, entry.Leads path leaf

variable {path : Path} {leaf : Leaf}

/-- A route goes through the first entry or through one of the others. -/
theorem anyLeads_cons {entry : Entry} {entries : List Entry} :
    AnyLeads (entry :: entries) path leaf ↔ entry.Leads path leaf ∨ AnyLeads entries path leaf := by
  simp [AnyLeads]

/-- A register is reached by its name. -/
theorem leads_register_iff {r : Register} :
    (Entry.register r).Leads path leaf ↔
      path = [.member r.name] ∧ leaf = .of r.offset r.access r := by
  constructor
  · rintro ⟨⟩
    exact ⟨rfl, rfl⟩
  · rintro ⟨rfl, rfl⟩
    exact .register

/-- The registers of an array are reached by its name and an index that is inside it. -/
theorem leads_bank_iff {b : Bank} :
    (Entry.bank b).Leads path leaf ↔
      ∃ rest, path = .member b.name :: rest ∧
        ∃ i < b.count, rest = [.index i] ∧ leaf = ⟨b.base + i, .of b.name b.access b.fields⟩ := by
  constructor
  · rintro ⟨⟩
    next i hi => exact ⟨_, rfl, i, hi, rfl, rfl⟩
  · rintro ⟨rest, rfl, i, hi, rfl, rfl⟩
    exact .element hi

/-- Each register of a pair is reached by its own name. -/
theorem leads_pair_iff {p : Pair} :
    (Entry.pair p).Leads path leaf ↔
      (path = [.member p.read.name] ∧ leaf = .of p.read.offset p.read.access p.read) ∨
        (path = [.member p.write.name] ∧ leaf = .of p.write.offset p.write.access p.write) := by
  constructor
  · rintro (_ | _ | _)
    · exact .inl ⟨rfl, rfl⟩
    · exact .inr ⟨rfl, rfl⟩
  · rintro (⟨rfl, rfl⟩ | ⟨rfl, rfl⟩)
    · exact .read
    · exact .write

/-- The registers of an overlay are reached by its name and theirs, or an index among them, in the
mode of the overlay. -/
theorem leads_overlay_iff {o : Overlay} :
    (Entry.overlay o).Leads path leaf ↔
      ∃ rest, path = .member o.name :: rest ∧
        ((∃ r ∈ o.registers, rest = [.member r.name] ∧ leaf = .of o.offset o.access r) ∨
          ∃ i r, o.registers[i]? = some r ∧ rest = [.index i] ∧ leaf = .of o.offset o.access r) := by
  constructor
  · intro h
    cases h with
    | named hr => exact ⟨_, rfl, .inl ⟨_, hr, rfl, rfl⟩⟩
    | selected hr => exact ⟨_, rfl, .inr ⟨_, _, hr, rfl, rfl⟩⟩
  · rintro ⟨rest, rfl, ⟨r, hr, rfl, rfl⟩ | ⟨i, r, hr, rfl, rfl⟩⟩
    · exact .named hr
    · exact .selected hr

/-- The name of a group begins its routes, unless the group is hidden. -/
theorem leads_group_iff {head : GroupHead} {content : List Entry} :
    (Entry.group head content).Leads path leaf ↔
      if head.hidden then AnyLeads content path leaf
      else ∃ rest, path = .member head.name :: rest ∧ AnyLeads content rest leaf := by
  constructor
  · intro h
    cases h with
    | visible hhidden hentry hleads =>
        rw [hhidden]
        exact ⟨_, rfl, _, hentry, hleads⟩
    | hidden hhidden hentry hleads =>
        rw [hhidden]
        exact ⟨_, hentry, hleads⟩
  · split
    · next hhidden =>
        rintro ⟨entry, hentry, hleads⟩
        exact .hidden hhidden hentry hleads
    · next hhidden =>
        rintro ⟨rest, rfl, entry, hentry, hleads⟩
        exact .visible (by simpa using hhidden) hentry hleads

/-- Routes go through a union as if it were not there, or begin with its name. -/
theorem leads_union_iff {head : UnionHead} {content : List Entry} :
    (Entry.union head content).Leads path leaf ↔
      AnyLeads content path leaf ∨
        ∃ name, head.name = some name ∧
          ∃ rest, path = .member name :: rest ∧ AnyLeads content rest leaf := by
  constructor
  · intro h
    cases h with
    | past hentry hleads => exact .inl ⟨_, hentry, hleads⟩
    | through hname hentry hleads => exact .inr ⟨_, hname, _, rfl, _, hentry, hleads⟩
  · rintro (⟨entry, hentry, hleads⟩ | ⟨name, hname, rest, rfl, entry, hentry, hleads⟩)
    · exact .past hentry hleads
    · exact .through hname hentry hleads

end Definition

end DeviceRegisters
