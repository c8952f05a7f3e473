import Mathlib
import DeviceRegisters.Proofs.Directory.Routes
import DeviceRegisters.Proofs.Directory.Views
import DeviceRegisters.Proofs.Session

/-!
# DeviceRegisters.Proofs.Directory.Resolution

The paths through the directory of a group are the routes through the group, and no
others.

* `adds_addEntry` — the names that an entry adds to a scope are where its routes
  begin;
* `register_eq_ok_iff` — a path finds a register exactly if it is a route to it.
-/

namespace DeviceRegisters.Directory

open Definition (AnyLeads Entry Field Group Library Register)

variable {scope : String} {d d' : Draft} {D : Directory}

/-! ## views -/

/-- A register that is made has the view of its name, mode and fields. -/
theorem eq_of_make {name : String} {access : Access} {fields : List Field} {view : RegisterView}
    (h : RegisterView.make name access fields = .ok view) : view = .of name access fields := by
  obtain ⟨views, hviews, h⟩ := bind_eq_ok_iff.mp h
  obtain rfl := Except.ok.inj h
  rw [RegisterView.of, eq_map_of_settleFields hviews]

/-! ## names in scopes -/

/-- The nodes so far are those of a directory under the same numbers. -/
def Within (D : Directory) (nodes : Array Node) : Prop :=
  ∀ number node, nodes[number]? = some node → D.node? number = some node

/-- Of the nodes of a directory the last one has the number of those before it. -/
theorem Within.of_push {nodes : Array Node} {node : Node} (h : D.Within (nodes.push node)) :
    D.Within nodes ∧ D.node? nodes.size = some node := by
  refine ⟨fun number found hfound => h number found ?_, h _ _ (by simp)⟩
  have hlt : number < nodes.size := (Array.getElem?_eq_some_iff.mp hfound).1
  rw [Array.getElem?_push_lt hlt, ← hfound, Array.getElem?_eq_getElem hlt]

/-- Names that stand once only. -/
def Members.Distinct (members : Members) : Prop := (members.map Prod.fst).Nodup

/-- A member that is added comes last and leaves the names distinct. -/
theorem eq_of_addMember {members members' : Members} {name : String} {number : Nat}
    (h : addMember scope members name number = .ok members') :
    members' = members ++ [(name, number)] ∧ (members.Distinct → members'.Distinct) := by
  unfold addMember at h
  split at h
  · contradiction
  · next hnew =>
      obtain rfl := Except.ok.inj h
      have hnot : name ∉ members.map Prod.fst := by simpa using hnew
      refine ⟨rfl, fun hdistinct => ?_⟩
      rw [Members.Distinct, List.map_append, List.map_singleton]
      exact hdistinct.append (List.nodup_singleton name) (by simpa using hnot)

/-- So do members that are added in order. -/
theorem eq_of_addMembers {members members' more : Members}
    (h : addMembers scope members more = .ok members') :
    members' = members ++ more ∧ (members.Distinct → members'.Distinct) := by
  induction more generalizing members with
  | nil =>
      obtain rfl := Except.ok.inj h
      exact ⟨(List.append_nil _).symm, id⟩
  | cons m more ih =>
      obtain ⟨next, hnext, h⟩ := bind_eq_ok_iff.mp h
      obtain ⟨rfl, hdistinct⟩ := eq_of_addMember hnext
      obtain ⟨rfl, hmore⟩ := ih h
      exact ⟨by simp, fun hmembers => hmore (hdistinct hmembers)⟩

/-! ## what is added to a scope -/

/-- A draft goes on with names for certain routes. -/
structure Adds (D : Directory) (leads : Path → Leaf → Prop) (d d' : Draft) : Prop where
  within : D.Within d.nodes
  distinct : d.members.Distinct → d'.members.Distinct
  reaches : ∃ added, d'.members = d.members ++ added ∧
    ∀ path leaf, D.Reaches added path leaf ↔ leads path leaf

/-- A draft goes on with one name, from which certain routes go on. -/
structure Names (D : Directory) (name : String) (leads : Path → Leaf → Prop) (d d' : Draft) :
    Prop where
  within : D.Within d.nodes
  distinct : d.members.Distinct → d'.members.Distinct
  reaches : ∃ number, d'.members = d.members ++ [(name, number)] ∧
    ∀ path leaf, D.From number path leaf ↔ leads path leaf

namespace Adds

variable {leads more : Path → Leaf → Prop}

/-- Routes may be told in another way. -/
theorem congr (h : Adds D leads d d') (hleads : ∀ path leaf, leads path leaf ↔ more path leaf) :
    Adds D more d d' := by
  obtain ⟨added, hmembers, hreaches⟩ := h.reaches
  exact ⟨h.within, h.distinct, added, hmembers,
    fun path leaf => (hreaches path leaf).trans (hleads path leaf)⟩

/-- Nothing is added. -/
theorem refl (h : D.Within d.nodes) : Adds D (AnyLeads []) d d :=
  ⟨h, id, [], (List.append_nil _).symm, fun _ _ => iff_of_false reaches_nil (by simp [AnyLeads])⟩

/-- One thing is added after another. -/
theorem trans {mid : Draft} (h : Adds D leads d mid) (hmore : Adds D more mid d') :
    Adds D (fun path leaf => leads path leaf ∨ more path leaf) d d' := by
  obtain ⟨added, hmembers, hreaches⟩ := h.reaches
  obtain ⟨others, hothers, hreachesOthers⟩ := hmore.reaches
  refine ⟨h.within, fun hdistinct => hmore.distinct (h.distinct hdistinct), added ++ others, ?_, ?_⟩
  · rw [hothers, hmembers, List.append_assoc]
  · intro path leaf
    rw [reaches_append, hreaches, hreachesOthers]

/-- What is added to no names is all there is. -/
theorem alone {nodes : Array Node} (h : Adds D leads ⟨nodes, []⟩ d') :
    d'.members.Distinct ∧ ∀ path leaf, D.Reaches d'.members path leaf ↔ leads path leaf := by
  obtain ⟨added, hmembers, hreaches⟩ := h.reaches
  rw [List.nil_append] at hmembers
  exact ⟨h.distinct List.nodup_nil, hmembers ▸ hreaches⟩

end Adds

/-- A name is added to a scope with the routes that go on from it. -/
theorem Names.adds {name : String} {leads : Path → Leaf → Prop} (h : Names D name leads d d') :
    Adds D (fun path leaf => ∃ rest, path = .member name :: rest ∧ leads rest leaf) d d' := by
  obtain ⟨number, hmembers, hfrom⟩ := h.reaches
  refine ⟨h.within, h.distinct, [(name, number)], hmembers, fun path leaf => ?_⟩
  simp only [reaches_singleton, hfrom]

/-- The nodes inside a thing stand in front of the thing itself. -/
theorem Names.addsAfter {name : String} {leads : Path → Leaf → Prop} {nodes : Array Node}
    (h : Names D name leads ⟨nodes, d.members⟩ d') (hd : D.Within d.nodes) :
    Adds D (fun path leaf => ∃ rest, path = .member name :: rest ∧ leads rest leaf) d d' :=
  ⟨hd, h.distinct, h.adds.reaches⟩

/-- The nodes before one that was added are those of the directory as well. -/
theorem within_of_addNamed {nodes : Array Node} {members : Members} {name : String} {node : Node}
    (hd' : D.Within d'.nodes) (h : Draft.addNamed ⟨nodes, members⟩ scope name node = .ok d') :
    D.Within nodes := by
  obtain ⟨members, -, h⟩ := bind_eq_ok_iff.mp h
  obtain rfl := Except.ok.inj h
  exact (Within.of_push hd').1

/-- A node that is added with a name has the routes that lead on from it. -/
theorem names_addNamed {name : String} {node : Node} {leads : Path → Leaf → Prop}
    (hd' : D.Within d'.nodes) (h : d.addNamed scope name node = .ok d')
    (hleads : ∀ number, D.node? number = some node →
      ∀ path leaf, D.From number path leaf ↔ leads path leaf) :
    Names D name leads d d' := by
  obtain ⟨members, hmembers, h⟩ := bind_eq_ok_iff.mp h
  obtain rfl := Except.ok.inj h
  obtain ⟨rfl, hdistinct⟩ := eq_of_addMember hmembers
  obtain ⟨hwithin, hnode⟩ := Within.of_push hd'
  exact ⟨hwithin, hdistinct, d.nodes.size, rfl, hleads _ hnode⟩

/-! ## registers -/

/-- From the name of a register that is added a path ends at once. -/
theorem names_addRegister {address : Nat} {access : Access} {r : Register} (hd' : D.Within d'.nodes)
    (h : d.addRegister scope address access r = .ok d') :
    Names D r.name (fun path leaf => path = [] ∧ leaf = .of address access r) d d' := by
  obtain ⟨view, hview, h⟩ := bind_eq_ok_iff.mp h
  obtain rfl := eq_of_make hview
  exact names_addNamed hd' h fun number hnode path leaf => from_register hnode

/-- A register adds its name. -/
theorem adds_addRegister {address : Nat} {access : Access} {r : Register} (hd' : D.Within d'.nodes)
    (h : d.addRegister scope address access r = .ok d') :
    Adds D (fun path leaf => path = [.member r.name] ∧ leaf = .of address access r) d d' := by
  refine (names_addRegister hd' h).adds.congr fun path leaf => ?_
  grind

/-- A name from which a path ends at once, at the register. -/
def Stands (D : Directory) (address : Nat) (access : Access) (r : Register) (m : String × Nat) : Prop :=
  m.1 = r.name ∧ ∀ path leaf, D.From m.2 path leaf ↔ path = [] ∧ leaf = .of address access r

/-- Registers that are added stand under their names in order. -/
theorem stands_addRegisters {address : Nat} {access : Access} {rs : List Register}
    (hd' : D.Within d'.nodes) (h : Draft.addRegisters scope address access d rs = .ok d') :
    D.Within d.nodes ∧ (d.members.Distinct → d'.members.Distinct) ∧
      ∃ added, d'.members = d.members ++ added ∧ List.Forall₂ (D.Stands address access) rs added := by
  induction rs generalizing d with
  | nil =>
      obtain rfl := Except.ok.inj h
      exact ⟨hd', id, [], (List.append_nil _).symm, .nil⟩
  | cons r rs ih =>
      obtain ⟨next, hnext, h⟩ := bind_eq_ok_iff.mp h
      obtain ⟨hwithin, hdistinct, added, hadded, hstands⟩ := ih h
      obtain ⟨hfirst, hdistinctFirst, number, hnumber, hfrom⟩ := names_addRegister hwithin hnext
      refine ⟨hfirst, fun hd => hdistinct (hdistinctFirst hd), (r.name, number) :: added, ?_, ?_⟩
      · rw [hadded, hnumber, List.append_assoc, List.singleton_append]
      · exact .cons ⟨rfl, hfrom⟩ hstands

section Stands

variable {address : Nat} {access : Access} {rs : List Register} {added : Members} {path : Path}
  {leaf : Leaf}

/-- The paths to such registers are their names alone. -/
theorem reaches_of_stands (h : List.Forall₂ (D.Stands address access) rs added) :
    D.Reaches added path leaf ↔
      ∃ r ∈ rs, path = [.member r.name] ∧ leaf = .of address access r := by
  induction h with
  | nil => simp [reaches_nil]
  | @cons r m rs added hm _ ih =>
      obtain ⟨name, number⟩ := m
      obtain ⟨rfl, hfrom⟩ := hm
      rw [reaches_cons, ih]
      simp only [hfrom, List.mem_cons]
      grind

/-- The names stand in the order of the registers. -/
theorem selected_of_stands (h : List.Forall₂ (D.Stands address access) rs added) (i : Nat) :
    (∃ number, (added.map (·.2))[i]? = some number ∧ D.From number path leaf) ↔
      ∃ r, rs[i]? = some r ∧ path = [] ∧ leaf = .of address access r := by
  induction h generalizing i with
  | nil => simp
  | cons hm _ ih =>
      cases i with
      | zero => simp [hm.2]
      | succ i => simpa using ih i

end Stands

/-! ## entries -/

variable {bound : Nat}

mutual
/-- The names that an entry adds to a scope are where its routes begin. -/
theorem adds_addEntry (hbelow : D.Below bound) (hlast : bound ≤ Address.last) :
    {scope : String} → {d d' : Draft} → (entry : Entry) → D.Within d'.nodes →
    Draft.addEntry scope d entry = .ok d' → Adds D entry.Leads d d'
  | _, _, _, .register r, hd', h => by
      simp only [Draft.addEntry] at h
      exact (adds_addRegister hd' h).congr fun _ _ => Definition.leads_register_iff.symm
  | _, _, _, .bank b, hd', h => by
      simp only [Draft.addEntry] at h
      obtain ⟨view, hview, h⟩ := bind_eq_ok_iff.mp h
      obtain rfl := eq_of_make hview
      have hnames := names_addNamed hd' h fun number hnode path leaf => from_bank hbelow hlast hnode
      exact hnames.adds.congr fun _ _ => Definition.leads_bank_iff.symm
  | _, _, _, .pair p, hd', h => by
      simp only [Draft.addEntry] at h
      obtain ⟨next, hnext, h⟩ := bind_eq_ok_iff.mp h
      have hwrite := adds_addRegister hd' h
      have hread := adds_addRegister hwrite.within hnext
      exact (hread.trans hwrite).congr fun _ _ => Definition.leads_pair_iff.symm
  | _, _, _, .overlay o, hd', h => by
      simp only [Draft.addEntry] at h
      obtain ⟨inner, hinner, h⟩ := bind_eq_ok_iff.mp h
      have hnodes : D.Within inner.nodes := within_of_addNamed hd' h
      obtain ⟨hwithin, hdistinct, added, hadded, hstands⟩ := stands_addRegisters hnodes hinner
      -- the scope of the overlay was empty before its registers
      rw [List.nil_append] at hadded
      subst hadded
      have hnames := names_addNamed hd' h fun number hnode path leaf =>
        from_overlay (hdistinct List.nodup_nil) hnode
      refine (hnames.addsAfter hwithin).congr fun path leaf => ?_
      simp only [Definition.leads_overlay_iff, reaches_of_stands hstands, selected_of_stands hstands]
      grind
  | _, _, _, .group head content, hd', h => by
      simp only [Draft.addEntry] at h
      split at h
      · next hhidden =>
          refine (adds_addEntries hbelow hlast content hd' h).congr fun _ _ => ?_
          rw [Definition.leads_group_iff, if_pos hhidden]
      · next hhidden =>
          obtain ⟨inner, hinner, h⟩ := bind_eq_ok_iff.mp h
          have hnodes : D.Within inner.nodes := within_of_addNamed hd' h
          have hcontent := adds_addEntries hbelow hlast content hnodes hinner
          obtain ⟨hdistinct, hreaches⟩ := hcontent.alone
          have hnames := names_addNamed hd' h fun number hnode path leaf => from_group hdistinct hnode
          refine (hnames.addsAfter hcontent.within).congr fun _ _ => ?_
          rw [Definition.leads_group_iff, if_neg hhidden]
          simp only [hreaches]
  | _, _, _, .union head content, hd', h => by
      simp only [Draft.addEntry, bind_eq_ok_iff] at h
      obtain ⟨inner, hinner, members, hmembers, h⟩ := h
      obtain ⟨rfl, hmore⟩ := eq_of_addMembers hmembers
      -- the names in the union stand in the scope around it too, in front of its own
      split at h
      · next name hname =>
          obtain ⟨all, hall, h⟩ := bind_eq_ok_iff.mp h
          obtain rfl := Except.ok.inj h
          obtain ⟨rfl, hlabel⟩ := eq_of_addMember hall
          obtain ⟨hwithin, hnode⟩ := Within.of_push hd'
          have hcontent := adds_addEntries hbelow hlast content hwithin hinner
          obtain ⟨hdistinct, hreaches⟩ := hcontent.alone
          refine ⟨hcontent.within, fun hd => hlabel (hmore hd),
            inner.members ++ [(name, inner.nodes.size)], List.append_assoc .., fun path leaf => ?_⟩
          rw [reaches_append, reaches_singleton, hreaches, Definition.leads_union_iff, hname]
          simp only [from_union hdistinct hnode, hreaches, Option.some.injEq, exists_eq_left']
      · next hname =>
          obtain ⟨all, hall, h⟩ := bind_eq_ok_iff.mp h
          obtain rfl := Except.ok.inj h
          obtain rfl := Except.ok.inj hall
          obtain ⟨hwithin, -⟩ := Within.of_push hd'
          have hcontent := adds_addEntries hbelow hlast content hwithin hinner
          obtain ⟨-, hreaches⟩ := hcontent.alone
          refine ⟨hcontent.within, hmore, inner.members, rfl, fun path leaf => ?_⟩
          rw [hreaches, Definition.leads_union_iff, hname]
          simp

/-- The names that entries add to a scope are where their routes begin. -/
theorem adds_addEntries (hbelow : D.Below bound) (hlast : bound ≤ Address.last) :
    {scope : String} → {d d' : Draft} → (entries : List Entry) → D.Within d'.nodes →
    Draft.addEntries scope d entries = .ok d' → Adds D (AnyLeads entries) d d'
  | _, _, _, [], hd', h => by
      simp only [Draft.addEntries] at h
      obtain rfl := Except.ok.inj h
      exact .refl hd'
  | _, _, _, entry :: entries, hd', h => by
      simp only [Draft.addEntries] at h
      obtain ⟨next, hnext, h⟩ := bind_eq_ok_iff.mp h
      have hentries := adds_addEntries hbelow hlast entries hd' h
      have hentry := adds_addEntry hbelow hlast entry hentries.within hnext
      exact (hentry.trans hentries).congr fun _ _ => Definition.anyLeads_cons.symm
end

/-! ## groups -/

/-- The paths through the directory of a group are the routes through the group. -/
theorem ends_top_iff {library : Library} {g : Group} (hg : g.LaidOut library) (h : ofGroup g = .ok D)
    {path : Path} {leaf : Leaf} : D.Ends D.top path leaf ↔ AnyLeads g.content path leaf := by
  have hbelow := below_of_ofGroup hg h
  have htop : D.node? D.root = some D.rootNode := Array.getElem?_eq_getElem D.root.isLt
  obtain ⟨draft, hdraft, h⟩ := bind_eq_ok_iff.mp h
  cases h
  have hnodes : Within ⟨draft.nodes.push (.group g.name g.head.base g.head.span draft.members),
      ⟨draft.nodes.size, by simp⟩⟩ (draft.nodes.push _) := fun _ _ hnode => hnode
  obtain ⟨hwithin, hroot⟩ := hnodes.of_push
  obtain ⟨hdistinct, hreaches⟩ := (adds_addEntries hbelow hg.span_le g.content hwithin hdraft).alone
  rw [← hreaches, ← from_group hdistinct hroot]
  exact (from_iff htop).symm

/-- A text names a register if it spells a path and the path leads to one. -/
theorem register_eq_ok {text : String} {handle : Handle} :
    D.register text = .ok handle ↔
      ∃ path, Path.parse text = .ok path ∧ D.followAll D.top path = .ok (.register handle) := by
  simp only [register, resolve, bind_eq_ok_iff]
  constructor
  · rintro ⟨place, ⟨path, hpath, hfollow⟩, h⟩
    cases place with
    | register found =>
        obtain rfl := Except.ok.inj h
        exact ⟨path, hpath, hfollow⟩
    | node number thing => contradiction
  · rintro ⟨path, hpath, hfollow⟩
    exact ⟨.register handle, ⟨path, hpath, hfollow⟩, rfl⟩

/-- In the directory of a group that sources are expanded to, a path finds a register
exactly if it is a route to that register. -/
theorem register_eq_ok_iff {warn : Bool} {sources : List Session.Source}
    {flat : Definition.FlatCatalog} {g : Group}
    (hflat : ((Session.start warn).loadEach sources).2.flatten = .ok flat) (hg : g ∈ flat.groups)
    (h : ofGroup g = .ok D) (text : String) (leaf : Leaf) :
    (∃ handle, D.register text = .ok handle ∧ handle.leaf = leaf) ↔
      ∃ path, Path.parse text = .ok path ∧ AnyLeads g.content path leaf := by
  have hlaid := Session.laidOut_of_flatten hflat g hg
  simp only [← ends_top_iff hlaid h, Ends, register_eq_ok]
  grind

/-- A source with a union that has a name, in it a bank in a hidden group and an
overlay. -/
def sample : List Session.Source :=
  [.text "!SYS\n  ID R\n  *UNION LINK\n    !!RX\n      TABLE R 3\n    *OVERLAY MUX RW\n      LOW\n      HIGH\n"]

/-- Through the union an index leads to the second register of the overlay, with the
overlay's address and mode. -/
theorem leads_sample :
    ∃ flat g d, ((Session.start false).loadEach sample).2.flatten = .ok flat ∧ g ∈ flat.groups ∧
      ofGroup g = .ok d ∧ (∃ handle, d.register "LINK.MUX[1]" = .ok handle ∧
        handle.leaf = ⟨1, ⟨"HIGH", .readWrite, []⟩⟩) ∧
      AnyLeads g.content [.member "LINK", .member "MUX", .index 1] ⟨1, ⟨"HIGH", .readWrite, []⟩⟩ := by
  have hfound : (((Session.start false).loadEach sample).2.flatten.toOption.bind
      (·.groups[0]?)).bind (fun g => (ofGroup g).toOption.bind fun d =>
        (d.register "LINK.MUX[1]").toOption.map (·.leaf)) =
      some ⟨1, ⟨"HIGH", .readWrite, []⟩⟩ := by cbv
  have hpath : Path.parse "LINK.MUX[1]" = .ok [.member "LINK", .member "MUX", .index 1] := by cbv
  obtain ⟨g, hgroup, hfound⟩ := Option.bind_eq_some_iff.mp hfound
  obtain ⟨flat, hflat, hg⟩ := Option.bind_eq_some_iff.mp hgroup
  obtain ⟨d, hd, hfound⟩ := Option.bind_eq_some_iff.mp hfound
  obtain ⟨handle, hhandle, hleaf⟩ := Option.map_eq_some_iff.mp hfound
  have hflatten := eq_ok_of_toOption hflat
  have hmem := List.mem_of_getElem? hg
  have hdirectory := eq_ok_of_toOption hd
  have hregister := eq_ok_of_toOption hhandle
  obtain ⟨path, hparse, hleads⟩ :=
    (register_eq_ok_iff hflatten hmem hdirectory "LINK.MUX[1]" _).mp ⟨handle, hregister, hleaf⟩
  obtain rfl := Except.ok.inj (hpath.symm.trans hparse)
  exact ⟨flat, g, d, hflatten, hmem, hdirectory, ⟨handle, hregister, hleaf⟩, hleads⟩

end DeviceRegisters.Directory
