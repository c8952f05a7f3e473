import DeviceRegisters.Proofs.Directory.Bounds

/-!
# DeviceRegisters.Proofs.Directory.Scopes

Which paths end at a register, node by node: at a register nothing is left
(`from_register`), in a bank an index is (`from_bank`), in a scope a name and what
is left at the member (`from_group`, `from_union`), in an overlay a name or an
index (`from_overlay`).
-/

namespace DeviceRegisters.Directory

/-! ## paths that end at a register -/

/-- A register as a path leads to it, wherever it is in the directory. -/
structure Leaf where
  address : Nat
  view : RegisterView
  deriving DecidableEq, Repr

/-- The register of a handle. -/
def Handle.leaf (handle : Handle) : Leaf := ⟨handle.address, handle.view⟩

variable (d : Directory)

/-- A path ends at a register, from a place. -/
def Ends (place : Place) (path : Path) (leaf : Leaf) : Prop :=
  ∃ handle, d.followAll place path = .ok (.register handle) ∧ handle.leaf = leaf

/-- A path ends at a register, from the place of a number. -/
def From (number : Nat) (path : Path) (leaf : Leaf) : Prop :=
  ∃ place, d.place? number = some place ∧ d.Ends place path leaf

/-- A path begins with one of the names and ends at a register. -/
def Reaches (members : Members) (path : Path) (leaf : Leaf) : Prop :=
  ∃ name number, (name, number) ∈ members ∧
    ∃ rest, path = .member name :: rest ∧ d.From number rest leaf

variable {d : Directory} {number : Nat} {path : Path} {leaf : Leaf} {members : Members}

/-- A path ends where its rest ends after the first step. -/
theorem ends_cons {place : Place} {segment : Segment} :
    d.Ends place (segment :: path) leaf ↔
      ∃ next, d.follow place segment = .ok next ∧ d.Ends next path leaf := by
  simp only [Ends, followAll, bind_eq_ok_iff]
  grind

/-- Nothing can follow a register. -/
theorem ends_register {handle : Handle} :
    d.Ends (.register handle) path leaf ↔ path = [] ∧ leaf = handle.leaf := by
  cases path with
  | nil =>
      simp only [Ends, followAll]
      grind
  | cons segment path =>
      have hnext : ∀ next, d.follow (.register handle) segment ≠ .ok next := by
        intro next
        cases segment with
        | member name => exact nofun
        | index n => exact nofun
      simp [ends_cons, hnext]

/-- A place that is no register is left by a segment. -/
theorem ends_node {thing : Node} :
    d.Ends (.node number thing) path leaf ↔
      ∃ segment rest, path = segment :: rest ∧
        ∃ next, d.follow (.node number thing) segment = .ok next ∧ d.Ends next rest leaf := by
  cases path with
  | nil => simp [Ends, followAll]
  | cons segment rest =>
      rw [ends_cons]
      grind

/-! ## names -/

theorem reaches_nil : ¬ d.Reaches [] path leaf := by simp [Reaches]

/-- A path begins with one of two lists of names. -/
theorem reaches_append {more : Members} :
    d.Reaches (members ++ more) path leaf ↔ d.Reaches members path leaf ∨ d.Reaches more path leaf := by
  simp only [Reaches, List.mem_append]
  grind

/-- A path begins with the first name or with one of the others. -/
theorem reaches_cons {name : String} :
    d.Reaches ((name, number) :: members) path leaf ↔
      (∃ rest, path = .member name :: rest ∧ d.From number rest leaf) ∨ d.Reaches members path leaf := by
  simp only [Reaches, List.mem_cons, Prod.mk.injEq]
  grind

/-- With a single name all paths begin. -/
theorem reaches_singleton {name : String} :
    d.Reaches [(name, number)] path leaf ↔
      ∃ rest, path = .member name :: rest ∧ d.From number rest leaf := by
  rw [reaches_cons, or_iff_left reaches_nil]

/-- A name that stands once only is found. -/
theorem lookup_eq_some_iff (h : (members.map Prod.fst).Nodup) {name : String} :
    members.lookup name = some number ↔ (name, number) ∈ members := by
  induction members with
  | nil => simp
  | cons m members ih =>
      rw [List.map_cons, List.nodup_cons] at h
      by_cases hname : name = m.1
      · have hnot : (name, number) ∉ members := fun hmem =>
          h.1 (hname ▸ List.mem_map_of_mem hmem)
        subst hname
        rw [List.lookup_cons, beq_self_eq_true, List.mem_cons, or_iff_left hnot]
        grind
      · rw [List.lookup_cons, beq_false_of_ne hname, List.mem_cons]
        grind

/-- In a scope without a repeated name, a member is found exactly under the number that it has
there. -/
theorem follow_member {thing : Node} (hthing : thing.members? = some members)
    (h : (members.map Prod.fst).Nodup) {name : String} {next : Place} {place : Nat} :
    d.follow (.node place thing) (.member name) = .ok next ↔
      ∃ number, (name, number) ∈ members ∧ d.place? number = some next := by
  simp only [follow, member, hthing, ← lookup_eq_some_iff h, ← Option.bind_eq_some_iff]
  cases (members.lookup name).bind d.place? with
  | none => simp
  | some found => simp

/-! ## nodes -/

/-- A path that starts from a number starts from the place of its node. -/
theorem from_iff {thing : Node} (h : d.node? number = some thing) :
    d.From number path leaf ↔ d.Ends (.ofNode number thing) path leaf := by
  simp [From, place?, h]

/-- A register is where its path ends. -/
theorem from_register {view : RegisterView} {address : Nat} {doc : List String}
    (h : d.node? number = some (.register view address doc)) :
    d.From number path leaf ↔ path = [] ∧ leaf = ⟨address, view⟩ := by
  rw [from_iff h]
  exact ends_register

/-- An index leads into a bank. -/
theorem from_bank {bound : Nat} (hbelow : d.Below bound) (hlast : bound ≤ Address.last)
    {view : RegisterView} {base count : Nat} (h : d.node? number = some (.bank view base count)) :
    d.From number path leaf ↔ ∃ i < count, path = [.index i] ∧ leaf = ⟨base + i, view⟩ := by
  have hplace : Place.ofNode number (.bank view base count) = .node number (.bank view base count) := rfl
  rw [from_iff h, hplace, ends_node]
  constructor
  · rintro ⟨segment, rest, rfl, next, hnext, hends⟩
    cases segment with
    | member name => exact absurd hnext nofun
    | index i =>
        have hindex := index_bank hbelow hlast h i
        simp only [follow, hindex] at hnext
        split at hnext
        · contradiction
        · next hi =>
            obtain rfl := Except.ok.inj hnext
            obtain ⟨rfl, rfl⟩ := ends_register.mp hends
            exact ⟨i, Nat.lt_of_not_le hi, rfl, rfl⟩
  · rintro ⟨i, hi, rfl, rfl⟩
    have hindex := index_bank hbelow hlast h i
    rw [if_neg (Nat.not_le_of_lt hi)] at hindex
    exact ⟨.index i, [], rfl, _, hindex, ends_register.mpr ⟨rfl, rfl⟩⟩

/-- A scope is left by its names, -/
theorem ends_scope {thing : Node} (hthing : thing.members? = some members)
    (hnodup : (members.map Prod.fst).Nodup) :
    d.Ends (.node number thing) path leaf ↔
      d.Reaches members path leaf ∨
        ∃ i rest, path = .index i :: rest ∧
          ∃ next, d.follow (.node number thing) (.index i) = .ok next ∧ d.Ends next rest leaf := by
  rw [ends_node]
  constructor
  · rintro ⟨segment, rest, rfl, next, hnext, hends⟩
    cases segment with
    | member name =>
        obtain ⟨inner, hmem, hplace⟩ := (follow_member hthing hnodup).mp hnext
        exact .inl ⟨name, inner, hmem, rest, rfl, next, hplace, hends⟩
    | index i => exact .inr ⟨i, rest, rfl, next, hnext, hends⟩
  · rintro (⟨name, inner, hmem, rest, rfl, next, hplace, hends⟩ | ⟨i, rest, rfl, next, hnext, hends⟩)
    · exact ⟨.member name, rest, rfl, next, (follow_member hthing hnodup).mpr ⟨inner, hmem, hplace⟩, hends⟩
    · exact ⟨.index i, rest, rfl, next, hnext, hends⟩

/-- and a group by nothing else, -/
theorem from_group {name : String} {base span : Nat} (hnodup : (members.map Prod.fst).Nodup)
    (h : d.node? number = some (.group name base span members)) :
    d.From number path leaf ↔ d.Reaches members path leaf := by
  rw [from_iff h]
  refine (ends_scope rfl hnodup).trans (or_iff_left ?_)
  rintro ⟨i, rest, -, next, hnext, -⟩
  exact absurd hnext nofun

/-- nor a union, -/
theorem from_union {head : Definition.UnionHead} (hnodup : (members.map Prod.fst).Nodup)
    (h : d.node? number = some (.union head members)) :
    d.From number path leaf ↔ d.Reaches members path leaf := by
  rw [from_iff h]
  refine (ends_scope rfl hnodup).trans (or_iff_left ?_)
  rintro ⟨i, rest, -, next, hnext, -⟩
  exact absurd hnext nofun

/-- but an overlay by an index as well. -/
theorem from_overlay {name : String} {address : Nat} {access : Access} {selection : List Nat}
    (hnodup : (members.map Prod.fst).Nodup)
    (h : d.node? number = some (.overlay name address access members selection)) :
    d.From number path leaf ↔
      d.Reaches members path leaf ∨
        ∃ i rest, path = .index i :: rest ∧
          ∃ inner, selection[i]? = some inner ∧ d.From inner rest leaf := by
  have hselect : ∀ i next,
      d.follow (.node number (.overlay name address access members selection)) (.index i) = .ok next ↔
        ∃ inner, selection[i]? = some inner ∧ d.place? inner = some next := by
    intro i next
    simp only [follow, select, ← Option.bind_eq_some_iff]
    cases selection[i]?.bind d.place? with
    | none => simp
    | some found => simp
  rw [from_iff h]
  refine (ends_scope rfl hnodup).trans (or_congr_right ?_)
  simp only [hselect, From]
  grind

end DeviceRegisters.Directory
