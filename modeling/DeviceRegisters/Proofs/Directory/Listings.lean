import Mathlib.Data.List.Duplicate
import DeviceRegisters.Proofs.Definition.Parts
import DeviceRegisters.Proofs.Directory.Scopes
import DeviceRegisters.Proofs.Directory.Views

/-!
# DeviceRegisters.Proofs.Directory.Listings

Which groups have a directory.

A listing is what lists names: a scope lists its members, a register its fields.  The listings of a
group are read off its entries, one for each node of the directory to be (`Group.listings`).  There
is a directory if no listing has a name twice, and then its nodes list these names; otherwise the
error tells a listing and a name that it has twice (`ofGroup_listings`).

Every step of the construction decides about the listings that it completes and about a part of
the listing of the scope at hand (`Builds`).
-/

namespace DeviceRegisters

open Directory (Members)

/-! ## listings -/

/-- What lists names, with the name it goes by itself. -/
structure Listing where
  kind : Kind
  label : String
  names : List String
  deriving DecidableEq, Repr

/-- A listing with more names behind its own. -/
def Listing.extend (l : Listing) (more : List String) : Listing := ⟨l.kind, l.label, l.names ++ more⟩

@[simp] theorem Listing.extend_nil (l : Listing) : l.extend [] = l := by simp [extend]

@[simp] theorem Listing.label_extend (l : Listing) (more : List String) :
    (l.extend more).label = l.label := rfl

/-- Names are added to a listing in one or in two parts. -/
@[simp] theorem Listing.extend_extend (l : Listing) (names more : List String) :
    (l.extend names).extend more = l.extend (names ++ more) := by simp [extend]

namespace Definition

/-- A register lists its fields. -/
def Register.listing (r : Register) : Listing := ⟨.register, r.name, r.fields.map (·.name)⟩

mutual
/-- The names that an entry has in the scope around it. -/
def Entry.names : Entry → List String
  | .register r => [r.name]
  | .bank b => [b.name]
  | .pair p => [p.read.name, p.write.name]
  | .overlay o => [o.name]
  | .group head content => if head.hidden then namesIn content else [head.name]
  | .union head content => namesIn content ++ head.name.toList

/-- The names that entries have in the scope around them, in order. -/
def namesIn : List Entry → List String
  | [] => []
  | entry :: entries => entry.names ++ namesIn entries
end

mutual
/-- The listings in an entry, from the inside out. -/
def Entry.listings : Entry → List Listing
  | .register r => [r.listing]
  | .bank b => [⟨.bank, b.name, b.fields.map (·.name)⟩]
  | .pair p => [p.read.listing, p.write.listing]
  | .overlay o => o.registers.map (·.listing) ++ [⟨.overlay, o.name, o.registers.map (·.name)⟩]
  | .group head content =>
    listingsIn content ++ if head.hidden then [] else [⟨.group, head.name, namesIn content⟩]
  | .union head content => listingsIn content ++ [⟨.union, head.label, namesIn content⟩]

/-- The listings in entries. -/
def listingsIn : List Entry → List Listing
  | [] => []
  | entry :: entries => entry.listings ++ listingsIn entries
end

/-- The listings in a group, its own as the last. -/
def Group.listings (g : Group) : List Listing :=
  listingsIn g.content ++ [⟨.group, g.name, namesIn g.content⟩]

end Definition

/-- The names that a node lists. -/
def Directory.Node.listing : Directory.Node → Listing
  | .register view _ _ => ⟨.register, view.name, view.fields.map (·.name)⟩
  | .bank view _ _ => ⟨.bank, view.name, view.fields.map (·.name)⟩
  | .group name _ _ members => ⟨.group, name, members.map (·.1)⟩
  | .overlay name _ _ members _ => ⟨.overlay, name, members.map (·.1)⟩
  | .union head members => ⟨.union, head.label, members.map (·.1)⟩

/-! ## decisions -/

/-- The computation succeeds, with `P`, if no listing has a name twice, and otherwise tells a listing
and a name that it has twice. -/
def Decides {α : Type} (listings : List Listing) (P : α → Prop) : Except Error α → Prop
  | .ok a => (∀ l ∈ listings, l.names.Nodup) ∧ P a
  | .error e => ∃ l ∈ listings, ∃ name, List.Duplicate name l.names ∧ e = .duplicateName l.label name

namespace Decides

variable {α β : Type} {L M : List Listing} {P : α → Prop} {Q : β → Prop} {x : Except Error α}
  {f : α → Except Error β} {scope : Listing} {names more : List String}

/-- Only the listings matter, not their order. -/
theorem perm (h : Decides L P x) (hperm : L.Perm M) : Decides M P x := by
  cases x with
  | ok a => exact ⟨fun l hl => h.1 l (hperm.mem_iff.mpr hl), h.2⟩
  | error e =>
      obtain ⟨l, hl, name, hname, he⟩ := h
      exact ⟨l, hperm.mem_iff.mp hl, name, hname, he⟩

/-- The second step decides about more listings. -/
theorem bind (hx : Decides L P x) (hf : ∀ a, P a → Decides M Q (f a)) :
    Decides (L ++ M) Q (x >>= f) := by
  cases x with
  | error e =>
      obtain ⟨l, hl, hrepeats⟩ := hx
      exact ⟨l, List.mem_append_left M hl, hrepeats⟩
  | ok a =>
      have ha := hf a hx.2
      show Decides (L ++ M) Q (f a)
      cases hb : f a with
      | ok b =>
          rw [hb] at ha
          exact ⟨List.forall_mem_append.mpr ⟨hx.1, ha.1⟩, ha.2⟩
      | error e =>
          rw [hb] at ha
          obtain ⟨l, hl, hrepeats⟩ := ha
          exact ⟨l, List.mem_append_right L hl, hrepeats⟩

/-- A listing of which a part was decided is decided with more names behind that part. -/
theorem extend (h : Decides (scope.extend names :: scope.extend (names ++ more) :: L) P x) :
    Decides (scope.extend (names ++ more) :: L) P x := by
  cases x with
  | ok a => exact ⟨(List.forall_mem_cons.mp h.1).2, h.2⟩
  | error e =>
      obtain ⟨l, hl, name, hname, rfl⟩ := h
      rcases List.mem_cons.mp hl with rfl | hl
      · have hsublist : (scope.extend names).names.Sublist (scope.extend (names ++ more)).names := by
          simp [Listing.extend, ← List.append_assoc]
        exact ⟨_, List.mem_cons_self, name, hname.mono_sublist hsublist, rfl⟩
      · exact ⟨l, hl, name, hname, rfl⟩

/-- Both steps decide about the scope at hand, the second about more names. -/
theorem bind_scope (hx : Decides (scope.extend names :: L) P x)
    (hf : ∀ a, P a → Decides (scope.extend (names ++ more) :: M) Q (f a)) :
    Decides (scope.extend (names ++ more) :: (L ++ M)) Q (x >>= f) := by
  refine ((hx.bind hf).perm ?_).extend
  simp only [List.cons_append, List.perm_cons]
  exact List.perm_middle

/-- What holds of a success may be replaced by what follows from it. -/
theorem imp {P' : α → Prop} (h : Decides L P x) (himp : ∀ a, P a → P' a) : Decides L P' x := by
  cases x with
  | error e => exact h
  | ok a => exact ⟨h.1, himp a h.2⟩

/-- A success may be turned into another one. -/
theorem map (h : Decides L P x) {g : α → β} (hg : ∀ a, P a → Q (g a)) :
    Decides L Q (x >>= fun a => .ok (g a)) := by
  cases x with
  | error e => exact h
  | ok a => exact ⟨h.1, hg a h.2⟩

/-- After a success no listing has a name twice. -/
theorem of_ok {a : α} (h : Decides L P x) (hx : x = .ok a) :
    (∀ l ∈ L, l.names.Nodup) ∧ P a := by
  subst hx
  exact h

/-- After a failure one of them has the name twice that the error tells. -/
theorem of_error {e : Error} (h : Decides L P x) (hx : x = .error e) :
    ∃ l ∈ L, ∃ name, List.Duplicate name l.names ∧ e = .duplicateName l.label name := by
  subst hx
  exact h

/-- Names that are distinct lead to success. -/
theorem exists_ok_iff (h : Decides L P x) : (∃ a, x = .ok a) ↔ ∀ l ∈ L, l.names.Nodup := by
  cases x with
  | ok a => exact iff_of_true ⟨a, rfl⟩ h.1
  | error e =>
      obtain ⟨l, hl, name, hname, -⟩ := h
      refine iff_of_false nofun fun hnodup => ?_
      exact List.nodup_iff_forall_not_duplicate.mp (hnodup l hl) name hname

end Decides

/-- A name stands twice if it stands in front and behind. -/
theorem duplicate_append_cons {names more : List String} {name : String} (h : name ∈ names) :
    List.Duplicate name (names ++ name :: more) := by
  rw [List.duplicate_iff_sublist]
  have hfront : [name].Sublist names := List.singleton_sublist.mpr h
  have hback : [name].Sublist (name :: more) := List.singleton_sublist.mpr List.mem_cons_self
  exact hfront.append hback

namespace Directory

open Definition

/-! ## fields -/

/-- The fields of a register are settled if their names are distinct. -/
theorem decides_settleFields (kind : Kind) {register : String} {access : Access}
    {seen before : List String} {fields : List Field} (hseen : ∀ name, name ∈ seen ↔ name ∈ before)
    (hbefore : before.Nodup) :
    Decides [⟨kind, register, before ++ fields.map (·.name)⟩]
      (fun views => views.map (·.name) = fields.map (·.name))
      (settleFields register access seen fields) := by
  induction fields generalizing seen before with
  | nil => exact ⟨by simpa using hbefore, rfl⟩
  | cons f fields ih =>
      rw [settleFields]
      split
      · next hf =>
        have hduplicate : List.Duplicate f.name (before ++ f.name :: fields.map (·.name)) :=
          duplicate_append_cons ((hseen _).mp hf)
        exact ⟨_, List.mem_singleton_self _, f.name, hduplicate, rfl⟩
      · next hf =>
        have hnew : f.name ∉ before := fun hmem => hf ((hseen _).mpr hmem)
        have hnext : ∀ name, name ∈ f.name :: seen ↔ name ∈ before ++ [f.name] := by
          simp [hseen, or_comm]
        have hnodup := hbefore.append (List.nodup_singleton f.name) (List.disjoint_singleton.mpr hnew)
        have hfields := ih hnext hnodup
        rw [List.append_assoc] at hfields
        exact hfields.map fun views hviews => by simp [hviews, FieldView.ofField]

/-- A register is made if no two of its fields have one name. -/
theorem decides_make (kind : Kind) (name : String) (access : Access) (fields : List Field) :
    Decides [⟨kind, name, fields.map (·.name)⟩]
      (fun view => view.name = name ∧ view.fields.map (·.name) = fields.map (·.name))
      (RegisterView.make name access fields) :=
  (decides_settleFields kind (by simp) List.nodup_nil).map fun _ hviews => ⟨rfl, hviews⟩

/-! ## members -/

variable {scope : Listing} {d : Draft} {members more : Members}

/-- The members are those of the scope, in its order, and have distinct names. -/
structure Lists (scope : Listing) (members : Members) : Prop where
  names : members.map (·.1) = scope.names
  nodup : scope.names.Nodup

/-- A member is added if its name is new in the scope. -/
theorem decides_addMember (h : Lists scope members) (name : String) (number : Nat) :
    Decides [scope.extend [name]] (Lists (scope.extend [name]))
      (addMember scope.label members name number) := by
  have hany : members.any (·.1 = name) = true ↔ name ∈ scope.names := by
    rw [← h.names]
    simp
  rw [addMember]
  split
  · next htaken =>
    exact ⟨_, List.mem_singleton_self _, name, duplicate_append_cons (hany.mp htaken), rfl⟩
  · next hfree =>
    have hnew : name ∉ scope.names := fun hmem => hfree (hany.mpr hmem)
    have hnodup : (scope.extend [name]).names.Nodup :=
      h.nodup.append (List.nodup_singleton name) (List.disjoint_singleton.mpr hnew)
    exact ⟨List.forall_mem_singleton.mpr hnodup, by simp [Listing.extend, h.names], hnodup⟩

/-- Members are added if all names stay distinct. -/
theorem decides_addMembers (h : Lists scope members) :
    Decides [scope.extend (more.map (·.1))] (Lists (scope.extend (more.map (·.1))))
      (addMembers scope.label members more) := by
  induction more generalizing scope members with
  | nil => simpa [Decides, addMembers] using ⟨h.nodup, h⟩
  | cons m more ih =>
      have hmore := fun next (hnext : Lists (scope.extend [m.1]) next) => ih hnext
      simp only [Listing.extend_extend] at hmore
      exact (decides_addMember h m.1 m.2).bind_scope hmore

/-! ## entries -/

/-- What the nodes so far list. -/
def Draft.listings (d : Draft) : List Listing := d.nodes.toList.map Node.listing

/-- A step that gives names in the scope at hand and adds nodes with the listings. -/
def Builds (scope : Listing) (d : Draft) (names : List String) (listings : List Listing) :
    Except Error Draft → Prop :=
  Decides (scope.extend names :: listings) fun next =>
    Lists (scope.extend names) next.members ∧ next.listings = d.listings ++ listings

variable {α : Type} {L M : List Listing} {names others : List String}

theorem builds_nil (h : Lists scope d.members) : Builds scope d [] [] (.ok d) := by
  refine ⟨List.forall_mem_singleton.mpr ?_, ?_, (List.append_nil _).symm⟩
  · simpa using h.nodup
  · simpa using h

/-- What two steps build one after the other they build together. -/
theorem Builds.bind {x : Except Error Draft} {f : Draft → Except Error Draft}
    (hx : Builds scope d names L x)
    (hf : ∀ next, Lists (scope.extend names) next.members →
      Builds (scope.extend names) next others M (f next)) :
    Builds scope d (names ++ others) (L ++ M) (x >>= f) := by
  refine Decides.bind_scope hx fun next hnext => ?_
  have hlater := hf next hnext.1
  simp only [Builds, Listing.extend_extend, hnext.2, List.append_assoc] at hlater
  exact hlater

/-- A node that is added behind others, in any scope at hand. -/
theorem builds_close {x : Except Error α} {y : α → Except Error Members} {P : α → Prop}
    {nodes : α → Array Node} {node : α → Node} {l : Listing} (hx : Decides (L ++ [l]) P x)
    (hnodes : ∀ a, P a →
      (nodes a).toList.map Node.listing = d.listings ++ L ∧ (node a).listing = l)
    (hy : ∀ a, P a → Decides [scope.extend names] (Lists (scope.extend names)) (y a)) :
    Builds scope d names (L ++ [l])
      (x >>= fun a => y a >>= fun members => .ok ⟨(nodes a).push (node a), members⟩) := by
  refine Decides.perm (hx.bind fun a ha => (hy a ha).map fun members hmembers => ?_)
    (List.perm_append_singleton _ _)
  obtain ⟨hlistings, hnode⟩ := hnodes a ha
  refine ⟨hmembers, ?_⟩
  simp [Draft.listings, hlistings, hnode]

/-- The scope inside an entry is decided with what is in it. -/
theorem Builds.enclosed {kind : Kind} {label : String} {x : Except Error Draft}
    (h : Builds ⟨kind, label, []⟩ ⟨d.nodes, []⟩ names L x) :
    Decides (L ++ [⟨kind, label, names⟩])
      (fun inner => inner.members.map (·.1) = names ∧ inner.listings = d.listings ++ L) x :=
  (Decides.imp h fun _ hinner => ⟨hinner.1.names, hinner.2⟩).perm
    (List.perm_append_singleton _ _).symm

theorem lists_nil (kind : Kind) (label : String) : Lists ⟨kind, label, []⟩ [] :=
  ⟨rfl, List.nodup_nil⟩

/-- A register gives its own name to the scope and lists its fields. -/
theorem builds_addRegister (h : Lists scope d.members) (address : Nat) (access : Access)
    (r : Register) :
    Builds scope d [r.name] [r.listing] (d.addRegister scope.label address access r) :=
  builds_close (L := []) (decides_make .register r.name access r.fields)
    (fun view hview => ⟨(List.append_nil _).symm, by
      simp [Node.listing, Register.listing, hview.1, hview.2]⟩)
    fun _ _ => decides_addMember h r.name d.nodes.size

/-- Registers give their names to the scope in order. -/
theorem builds_addRegisters (h : Lists scope d.members) (address : Nat) (access : Access)
    (rs : List Register) :
    Builds scope d (rs.map (·.name)) (rs.map (·.listing))
      (Draft.addRegisters scope.label address access d rs) := by
  induction rs generalizing scope d with
  | nil => exact builds_nil h
  | cons r rs ih => exact (builds_addRegister h address access r).bind fun _ hnext => ih hnext

/-- Gives the names in a union once more in the scope around it, and then its own name. -/
def splice (scope : String) (members inner : Members) (name : Option String) (number : Nat) :
    Except Error Members := do
  let members ← addMembers scope members inner
  match name with
  | some name => addMember scope members name number
  | none => .ok members

/-- A union is built in a scope of its own, whose members then go to the scope around it. -/
theorem addEntry_union (scope : String) (d : Draft) (head : UnionHead) (content : List Entry) :
    Draft.addEntry scope d (.union head content) = (do
      let inner ← Draft.addEntries head.label ⟨d.nodes, []⟩ content
      let members ← splice scope d.members inner.members head.name inner.nodes.size
      .ok ⟨inner.nodes.push (.union head inner.members), members⟩) := by
  obtain ⟨name, base, size, doc⟩ := head
  cases name <;> simp only [Draft.addEntry, splice, bind_assoc]

/-- The members of an inner scope and its name, if it has one, are added if all names stay
distinct. -/
theorem decides_splice (h : Lists scope d.members) (inner : Members) (name : Option String)
    (number : Nat) :
    Decides [scope.extend (inner.map (·.1) ++ name.toList)]
      (Lists (scope.extend (inner.map (·.1) ++ name.toList)))
      (splice scope.label d.members inner name number) := by
  refine (decides_addMembers h).bind_scope (M := []) fun members hmembers => ?_
  cases name with
  | none => exact ⟨by simpa using hmembers.nodup, by simpa using hmembers⟩
  | some name =>
      have hown := decides_addMember hmembers name number
      simp only [Listing.extend_extend, Listing.label_extend] at hown
      exact hown

mutual
/-- An entry gives its names in the scope at hand and adds nodes for its listings. -/
theorem builds_addEntry : {scope : Listing} → {d : Draft} → Lists scope d.members →
    (entry : Entry) →
    Builds scope d entry.names entry.listings (Draft.addEntry scope.label d entry)
  | _, _, h, .register r => by
      simp only [Draft.addEntry]
      exact builds_addRegister h r.offset r.access r
  | _, d, h, .bank b => by
      simp only [Draft.addEntry]
      exact builds_close (L := []) (decides_make .bank b.name b.access b.fields)
        (fun view hview => ⟨(List.append_nil _).symm, by simp [Node.listing, hview.1, hview.2]⟩)
        fun _ _ => decides_addMember h b.name d.nodes.size
  | _, _, h, .pair p => by
      simp only [Draft.addEntry]
      exact (builds_addRegister h p.read.offset p.read.access p.read).bind fun _ hnext =>
        builds_addRegister hnext p.write.offset p.write.access p.write
  | _, d, h, .overlay o => by
      simp only [Draft.addEntry]
      have hinner : Builds ⟨.overlay, o.name, []⟩ ⟨d.nodes, []⟩ _ _ _ :=
        builds_addRegisters (lists_nil .overlay o.name) o.offset o.access o.registers
      exact builds_close hinner.enclosed
        (fun inner h => ⟨h.2, by simp [Node.listing, h.1]⟩)
        fun inner _ => decides_addMember h o.name inner.nodes.size
  | _, d, h, .group head content => by
      simp only [Draft.addEntry, Entry.names, Entry.listings]
      split
      · simpa using builds_addEntries h content
      · have hinner : Builds ⟨.group, head.name, []⟩ ⟨d.nodes, []⟩ _ _ _ :=
          builds_addEntries (lists_nil .group head.name) content
        exact builds_close hinner.enclosed
          (fun inner h => ⟨h.2, by simp [Node.listing, h.1]⟩)
          fun inner _ => decides_addMember h head.name inner.nodes.size
  | scope, d, h, .union head content => by
      have hinner : Builds ⟨.union, head.label, []⟩ ⟨d.nodes, []⟩ _ _ _ :=
        builds_addEntries (lists_nil .union head.label) content
      simp only [addEntry_union, Entry.names, Entry.listings]
      exact builds_close hinner.enclosed
        (fun inner h => ⟨h.2, by simp [Node.listing, h.1]⟩)
        fun inner hnames => hnames.1 ▸ decides_splice h inner.members head.name inner.nodes.size

/-- Entries give their names to the scope in order and build their listings from the inside out. -/
theorem builds_addEntries : {scope : Listing} → {d : Draft} → Lists scope d.members →
    (entries : List Entry) →
    Builds scope d (namesIn entries) (listingsIn entries) (Draft.addEntries scope.label d entries)
  | _, _, h, [] => by
      simp only [Draft.addEntries]
      exact builds_nil h
  | _, _, h, entry :: entries => by
      simp only [Draft.addEntries]
      exact (builds_addEntry h entry).bind fun _ hnext => builds_addEntries hnext entries
end

/-! ## groups -/

/-- The listings of a group decide whether it has a directory. -/
theorem decides_ofGroup (g : Group) :
    Decides g.listings
      (fun d => d.nodes.toList.map Node.listing = g.listings ∧
        d.rootNode.listing = ⟨.group, g.name, namesIn g.content⟩)
      (ofGroup g) := by
  have hcontent : Builds ⟨.group, g.name, []⟩ ⟨#[], []⟩ _ _ _ :=
    builds_addEntries (lists_nil .group g.name) g.content
  refine (hcontent.enclosed (d := ⟨#[], []⟩)).map fun d hd => ?_
  obtain ⟨hnames, hlistings⟩ := hd
  have hnode : (Node.group g.name g.head.base g.head.span d.members).listing =
      ⟨.group, g.name, namesIn g.content⟩ := by simp [Node.listing, hnames]
  refine ⟨?_, ?_⟩
  · simp only [Array.toList_push, List.map_append, List.map_singleton, hnode]
    exact congrArg (· ++ _) hlistings
  · simp [rootNode, hnode]

/-- A group has a directory if in none of its scopes and registers a name stands twice; otherwise the
error tells such a name and where it stands.  The nodes of the directory list the names of the group
in their order, and a scope finds what it lists. -/
theorem ofGroup_listings (g : Group) :
    ((∃ d, ofGroup g = .ok d) ↔ ∀ l ∈ g.listings, l.names.Nodup) ∧
    (∀ e, ofGroup g = .error e → ∃ l ∈ g.listings, ∃ name, List.Duplicate name l.names ∧
      e = .duplicateName l.label name) ∧
    ∀ d, ofGroup g = .ok d →
      d.nodes.toList.map Node.listing = g.listings ∧
      d.rootNode.listing = ⟨.group, g.name, namesIn g.content⟩ ∧
      ∀ node ∈ d.nodes, ∀ members, node.members? = some members →
        members.map (·.1) = node.listing.names ∧
        ∀ name number, members.lookup name = some number ↔ (name, number) ∈ members := by
  have hdecides := decides_ofGroup g
  refine ⟨hdecides.exists_ok_iff, fun e he => hdecides.of_error he, fun d hd => ?_⟩
  obtain ⟨hnodup, hlistings, hroot⟩ := hdecides.of_ok hd
  refine ⟨hlistings, hroot, fun node hnode members hmembers => ?_⟩
  have hlisting : node.listing ∈ g.listings :=
    hlistings ▸ List.mem_map_of_mem (Array.mem_toList_iff.mpr hnode)
  have hnames : members.map (·.1) = node.listing.names := by
    cases node <;> cases hmembers <;> rfl
  exact ⟨hnames, fun name number => lookup_eq_some_iff (hnames ▸ hnodup _ hlisting)⟩

/-- A union around a hidden group, and a register of the given name. -/
def unionAndRegister (name : String) : Group :=
  ⟨⟨"G", 0, 2, false, none, []⟩,
    [.union ⟨some "U", 0, 1, []⟩
      [.group ⟨"H", 0, 1, true, none, []⟩ [.register ⟨"A", 0, .readWrite, [], none, [], 2⟩]],
      .register ⟨name, 1, .readWrite, [], none, [], 3⟩]⟩

/-- The name that is hidden two levels down cannot be given again. -/
theorem listings_unionAndRegister :
    (∃ d, ofGroup (unionAndRegister "B") = .ok d ∧ d.rootNode.listing.names = ["A", "U", "B"]) ∧
      ∃ name, ofGroup (unionAndRegister "A") = .error (.duplicateName "G" name) := by
  constructor
  · obtain ⟨hexists, -, hnames⟩ := ofGroup_listings (unionAndRegister "B")
    obtain ⟨d, hd⟩ := hexists.mpr (by decide)
    exact ⟨d, hd, by rw [(hnames d hd).2.1]; rfl⟩
  · obtain ⟨hexists, herror, -⟩ := ofGroup_listings (unionAndRegister "A")
    cases hd : ofGroup (unionAndRegister "A") with
    | ok d => exact absurd (hexists.mp ⟨d, hd⟩) (by decide)
    | error e =>
        obtain ⟨l, hl, name, hname, rfl⟩ := herror e hd
        have hlabels : ∀ l ∈ (unionAndRegister "A").listings, l.names.Nodup ∨ l.label = "G" := by
          decide
        have hrepeats : ¬ l.names.Nodup :=
          fun h => List.nodup_iff_forall_not_duplicate.mp h name hname
        exact ⟨name, by rw [(hlabels l hl).resolve_left hrepeats]⟩

end Directory
end DeviceRegisters
