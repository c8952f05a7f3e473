import DeviceRegisters.Directory.Build
import DeviceRegisters.Directory.Place
import DeviceRegisters.Proofs.Definition.Layout
import DeviceRegisters.Proofs.Outcome

/-!
# DeviceRegisters.Proofs.Directory.Bounds

Addresses in the directory of a group.

The directory of a group that is laid out has no register at or beyond the
group's span (`below_of_ofGroup`); a path stays in the directory
(`outcome_followAll`), so that the registers it leads to are below the span as well
(`address_lt_of_has`).
-/

namespace DeviceRegisters.Directory

open Definition (Entry Group Library Register)

/-! ## nodes below a bound -/

/-- The registers of a node are below an address. -/
def Node.Below (bound : Nat) : Node → Prop
  | .register _ address _ => address < bound
  | .bank _ base count => base + count ≤ bound
  | .group .. | .overlay .. | .union .. => True

/-- The registers of the nodes so far are below an address. -/
def Draft.Below (bound : Nat) (d : Draft) : Prop := ∀ node ∈ d.nodes, node.Below bound

/-- The registers of a directory are below an address. -/
def Below (bound : Nat) (d : Directory) : Prop :=
  ∀ number node, d.node? number = some node → node.Below bound

variable {bound : Nat} {scope : String} {d d' : Draft}

theorem Draft.Below.inScope (h : d.Below bound) (members : Members) :
    Draft.Below bound ⟨d.nodes, members⟩ := h

/-- A node below the bound may be added. -/
theorem Draft.Below.push {node : Node} (h : d.Below bound) (hnode : node.Below bound)
    (members : Members) : Draft.Below bound ⟨d.nodes.push node, members⟩ := by
  intro other hother
  rcases Array.mem_push.mp hother with hother | rfl
  · exact h other hother
  · exact hnode

/-- It may be added with a name. -/
theorem Draft.Below.addNamed {name : String} {node : Node} (h : d.Below bound)
    (hadd : d.addNamed scope name node = .ok d') (hnode : node.Below bound) : d'.Below bound := by
  obtain ⟨members, -, hd'⟩ := bind_eq_ok_iff.mp hadd
  obtain rfl := Except.ok.inj hd'
  exact h.push hnode members

/-- A register at an address below the bound may be added. -/
theorem Draft.Below.addRegister {address : Nat} {access : Access} {r : Register}
    (h : d.Below bound) (haddress : address < bound)
    (hadd : d.addRegister scope address access r = .ok d') : d'.Below bound := by
  obtain ⟨view, -, hadd⟩ := bind_eq_ok_iff.mp hadd
  exact h.addNamed hadd haddress

/-- So may registers at one such address. -/
theorem Draft.Below.addRegisters {address : Nat} {access : Access} {rs : List Register}
    (h : d.Below bound) (haddress : address < bound)
    (hadd : addRegisters scope address access d rs = .ok d') : d'.Below bound := by
  induction rs generalizing d with
  | nil =>
      obtain rfl := Except.ok.inj hadd
      exact h
  | cons r rs ih =>
      obtain ⟨next, hnext, hadd⟩ := bind_eq_ok_iff.mp hadd
      exact ih (h.addRegister haddress hnext) hadd

/-! ## entries -/

/-- An entry is laid out below an address. -/
def Inside (library : Library) (bound : Nat) (entry : Entry) : Prop :=
  ∃ base, entry.LaidAt library base ∧ base + entry.span ≤ bound

variable {library : Library}

/-- What is in an entry is below what the entry is below. -/
theorem Inside.content {entry : Entry} (h : Inside library bound entry) :
    ∀ child ∈ entry.content, Inside library bound child := by
  intro child hchild
  obtain ⟨base, hlaid, hfits⟩ := h
  obtain ⟨k, hk⟩ := List.mem_iff_getElem?.mp hchild
  obtain ⟨hchild, -, hend⟩ := Definition.laidAt_of_content hlaid hk
  exact ⟨child.start, hchild, by omega⟩

mutual
/-- An entry below an address adds nodes below the address. -/
theorem Draft.Below.addEntry : {scope : String} → {d d' : Draft} → (entry : Entry) →
    d.Below bound → Inside library bound entry → addEntry scope d entry = .ok d' → d'.Below bound
  | _, _, _, .register r, h, ⟨base, hlaid, hfits⟩, hadd => by
      have hoffset : r.offset = base := hlaid.1
      simp only [Draft.addEntry] at hadd
      exact h.addRegister (by rw [hoffset]; exact hfits) hadd
  | _, _, _, .bank b, h, ⟨base, hlaid, hfits⟩, hadd => by
      have hbase : b.base = base := hlaid
      simp only [Draft.addEntry] at hadd
      obtain ⟨view, -, hadd⟩ := bind_eq_ok_iff.mp hadd
      rw [← hbase] at hfits
      exact h.addNamed hadd hfits
  | _, _, _, .pair p, h, ⟨base, hlaid, hfits⟩, hadd => by
      obtain ⟨⟨hread, -⟩, hwrite, -⟩ := hlaid
      have hbase : base < bound := hfits
      simp only [Draft.addEntry] at hadd
      obtain ⟨next, hnext, hadd⟩ := bind_eq_ok_iff.mp hadd
      rw [hread] at hnext
      rw [hwrite] at hadd
      exact (h.addRegister hbase hnext).addRegister hbase hadd
  | _, _, _, .overlay o, h, ⟨base, hlaid, hfits⟩, hadd => by
      have hoffset : o.offset = base := hlaid.1
      have hbase : base < bound := hfits
      simp only [Draft.addEntry] at hadd
      obtain ⟨inner, hinner, hadd⟩ := bind_eq_ok_iff.mp hadd
      rw [hoffset] at hinner
      have hbelow := (h.inScope []).addRegisters hbase hinner
      exact (hbelow.inScope _).addNamed hadd trivial
  | _, _, _, .group head content, h, hinside, hadd => by
      simp only [Draft.addEntry] at hadd
      split at hadd
      · exact h.addEntries content hinside.content hadd
      · obtain ⟨inner, hinner, hadd⟩ := bind_eq_ok_iff.mp hadd
        have hbelow := (h.inScope []).addEntries content hinside.content hinner
        exact (hbelow.inScope _).addNamed hadd trivial
  | _, _, _, .union head content, h, hinside, hadd => by
      simp only [Draft.addEntry, bind_eq_ok_iff] at hadd
      obtain ⟨inner, hinner, _, _, hadd⟩ := hadd
      have hbelow := (h.inScope []).addEntries content hinside.content hinner
      -- the union's own name makes no difference to its node
      split at hadd
      all_goals
        obtain ⟨members, -, hadd⟩ := bind_eq_ok_iff.mp hadd
        obtain rfl := Except.ok.inj hadd
        refine hbelow.push ?_ members
        trivial

/-- Entries below an address add nodes below the address. -/
theorem Draft.Below.addEntries : {scope : String} → {d d' : Draft} → (entries : List Entry) →
    d.Below bound → (∀ entry ∈ entries, Inside library bound entry) →
    addEntries scope d entries = .ok d' → d'.Below bound
  | _, _, _, [], h, _, hadd => by
      simp only [Draft.addEntries] at hadd
      obtain rfl := Except.ok.inj hadd
      exact h
  | _, _, _, entry :: entries, h, hinside, hadd => by
      simp only [Draft.addEntries] at hadd
      obtain ⟨next, hnext, hadd⟩ := bind_eq_ok_iff.mp hadd
      obtain ⟨hentry, hentries⟩ := List.forall_mem_cons.mp hinside
      exact (h.addEntry entry hentry hnext).addEntries entries hentries hadd
end

/-- The entries of a group that is laid out are below its span. -/
theorem inside_of_laidOut {g : Group} (h : g.LaidOut library) :
    ∀ entry ∈ g.content, Inside library g.head.span entry := by
  have hinside : Inside library g.head.span g.entry := by
    refine ⟨0, h.laid, Nat.le_of_eq ?_⟩
    rw [Group.entry, Entry.span_group, Nat.zero_add]
  exact hinside.content

/-! ## groups -/

/-- The directory of a group has the group itself for its root, -/
theorem rootNode_of_ofGroup {g : Group} {d : Directory} (h : ofGroup g = .ok d) :
    ∃ members, d.rootNode = .group g.name g.head.base g.head.span members := by
  obtain ⟨draft, -, hd⟩ := bind_eq_ok_iff.mp h
  obtain rfl := Except.ok.inj hd
  exact ⟨draft.members, by simp [rootNode]⟩

/-- and its registers are below the group's span. -/
theorem below_of_ofGroup {g : Group} {d : Directory} (hg : g.LaidOut library)
    (h : ofGroup g = .ok d) : d.Below g.head.span := by
  obtain ⟨draft, hdraft, hd⟩ := bind_eq_ok_iff.mp h
  obtain rfl := Except.ok.inj hd
  have hempty : Draft.Below g.head.span ⟨#[], []⟩ := by simp [Draft.Below]
  have hbelow := hempty.addEntries g.content (inside_of_laidOut hg) hdraft
  have hroot : Node.Below g.head.span
      (.group g.name g.head.base g.head.span draft.members) := trivial
  intro number node hnode
  exact hbelow.push hroot draft.members node (Array.mem_of_getElem? hnode)

/-! ## places -/

/-- A place is one of the directory: a node under its number, or a register of a
bank. -/
inductive Has (d : Directory) : Place → Prop where
  | node {number : Nat} {thing : Node} :
      d.node? number = some thing → Has d (.node number thing)
  | register {number address : Nat} {view : RegisterView} {doc : List String} :
      d.node? number = some (.register view address doc) → Has d (.register ⟨number, address, view⟩)
  | element {number base count n : Nat} {view : RegisterView} :
      d.node? number = some (.bank view base count) → n < count →
        Has d (.register ⟨number, base + n, view⟩)

variable {d : Directory}

/-- The place of a node of the directory is one of the directory. -/
theorem has_ofNode {number : Nat} {thing : Node} (h : d.node? number = some thing) :
    d.Has (.ofNode number thing) := by
  cases thing with
  | register view address doc => exact .register h
  | bank | group | overlay | union => exact .node h

/-- The place where paths start is one of the directory. -/
theorem has_top : d.Has d.top :=
  has_ofNode (Array.getElem?_eq_getElem d.root.isLt)

/-- The place of a number is one of the directory. -/
theorem has_of_place? {number : Nat} {place : Place} (h : d.place? number = some place) :
    d.Has place := by
  obtain ⟨thing, hthing, rfl⟩ := Option.map_eq_some_iff.mp h
  exact has_ofNode hthing

/-- The registers of a directory are below the bound of its nodes. -/
theorem address_lt_of_has (hbelow : d.Below bound) {handle : Handle}
    (h : d.Has (.register handle)) : handle.address < bound := by
  cases h with
  | register hnode => exact hbelow _ _ hnode
  | element hnode hn => exact Nat.lt_of_lt_of_le (Nat.add_lt_add_left hn _) (hbelow _ _ hnode)

/-! ## steps -/

/-- The errors of looking something up. -/
def IsLookup : Error → Prop
  | .badPath _ | .wrongKind _ _ | .noSuchMember _ _ | .indexOutOfRange _ _ _ => True
  | _ => False

/-- A member is in the directory. -/
theorem outcome_member (place : Place) (name : String) :
    Outcome d.Has IsLookup (d.member place name) := by
  simp only [member]
  split
  · trivial
  · split
    · trivial
    · split
      · next found hfound =>
        obtain ⟨number, -, hplace⟩ := Option.bind_eq_some_iff.mp hfound
        exact has_of_place? hplace
      · trivial

/-- The register of an index in an overlay is in the directory. -/
theorem outcome_select (place : Place) (n : Nat) :
    Outcome d.Has IsLookup (d.select place n) := by
  simp only [select]
  split
  · split
    · next found hfound =>
      obtain ⟨number, -, hplace⟩ := Option.bind_eq_some_iff.mp hfound
      exact has_of_place? hplace
    · trivial
  · trivial

/-- An index in a bank is refused if it is not below the count, and only then. -/
theorem index_bank (hbelow : d.Below bound) (hlast : bound ≤ Address.last)
    {number base count : Nat} {view : RegisterView}
    (h : d.node? number = some (.bank view base count)) (n : Nat) :
    index (.node number (.bank view base count)) n =
      if count ≤ n then .error (.indexOutOfRange view.name n count)
      else .ok (.register ⟨number, base + n, view⟩) := by
  have hend : base + count ≤ bound := hbelow _ _ h
  simp only [index]
  split
  · rfl
  · rw [if_neg (by omega)]

/-- The register of an index in a bank is in the directory. -/
theorem outcome_index (hbelow : d.Below bound) (hlast : bound ≤ Address.last) {place : Place}
    (h : d.Has place) (n : Nat) : Outcome d.Has IsLookup (index place n) := by
  cases h with
  | register _ => trivial
  | element _ _ => trivial
  | @node number thing hnode =>
      cases thing with
      | register | group | overlay | union => trivial
      | bank view base count =>
          rw [index_bank hbelow hlast hnode]
          split
          · trivial
          · next hn => exact .element hnode (Nat.lt_of_not_le hn)

/-- A step of a path stays in the directory. -/
theorem outcome_follow (hbelow : d.Below bound) (hlast : bound ≤ Address.last) {place : Place}
    (h : d.Has place) (segment : Segment) : Outcome d.Has IsLookup (d.follow place segment) := by
  cases segment with
  | member name => exact outcome_member place name
  | index n =>
      simp only [follow]
      split
      · exact outcome_select _ n
      · exact outcome_index hbelow hlast h n

/-- So do the steps of a path. -/
theorem outcome_followAll (hbelow : d.Below bound) (hlast : bound ≤ Address.last) {place : Place}
    (h : d.Has place) (path : Path) : Outcome d.Has IsLookup (d.followAll place path) := by
  induction path generalizing place with
  | nil => exact h
  | cons segment path ih => exact (outcome_follow hbelow hlast h segment).bind fun _ hnext => ih hnext

/-- A path through the directory of a group that is laid out leads to a place in it. -/
theorem has_of_followAll {g : Group} (hg : g.LaidOut library) (h : ofGroup g = .ok d) {path : Path}
    {place : Place} (hfollow : d.followAll d.top path = .ok place) : d.Has place :=
  (outcome_followAll (below_of_ofGroup hg h) hg.span_le has_top path).of_ok hfollow

/-- A path leads to a place in the directory. -/
theorem outcome_resolve (hbelow : d.Below bound) (hlast : bound ≤ Address.last) (path : String) :
    Outcome d.Has IsLookup (d.resolve path) := by
  have hparse : Outcome (fun _ => True) IsLookup (Path.parse path) := by
    simp only [Path.parse]
    split <;> trivial
  exact hparse.bind fun _ _ => outcome_followAll hbelow hlast has_top _

end DeviceRegisters.Directory
