import DeviceRegisters.Proofs.Directory.Listings
import DeviceRegisters.Proofs.Directory.Resolution
import Mathlib

/-!
# DeviceRegisters.Proofs.Directory.Numbers

How the nodes of a directory refer to each other.

A node refers to smaller numbers only, and whatever has a name is a member of a scope
(`WellFormed`).  So one finds what a node refers to, comes back nowhere, and every register that
one comes to is a register or one of a bank (`ofGroup_navigable`).

While the directory is built, some scopes are open: their members have nodes, and they themselves
have none yet.  `Formed` speaks of the numbers that these scopes have taken so far, and
`Formed.push` of what becomes of them when a node is added.
-/

namespace DeviceRegisters.Directory

open Definition (Entry Group Register)

/-! ## references -/

/-- The numbers of members. -/
def Members.numbers (members : Members) : List Nat := members.map (·.2)

@[simp] theorem numbers_nil : Members.numbers [] = [] := rfl

@[simp] theorem numbers_singleton (name : String) (number : Nat) :
    Members.numbers [(name, number)] = [number] := rfl

@[simp] theorem numbers_append (members more : Members) :
    Members.numbers (members ++ more) = members.numbers ++ more.numbers := List.map_append

namespace Node

/-- The numbers of what is in a node, if it is a scope. -/
def inside : Node → List Nat
  | .register .. | .bank .. => []
  | .group _ _ _ members | .overlay _ _ _ members _ | .union _ members => members.numbers

/-- The numbers that an index selects in a node, if it is an overlay. -/
def selected : Node → List Nat
  | .overlay _ _ _ _ selection => selection
  | _ => []

/-- The numbers that a node refers to. -/
def refs (node : Node) : List Nat := node.inside ++ node.selected

/-- An unnamed union. -/
def Unnamed : Node → Prop
  | .union head _ => head.name = none
  | _ => False

/-- How a node is read and written, if it is a register or a bank. -/
def view? : Node → Option RegisterView
  | .register view _ _ | .bank view _ _ => some view
  | _ => none

/-- An overlay selects its members in order, and they are registers. -/
def Selects (nodes : Array Node) : Node → Prop
  | .overlay _ _ _ members selection =>
    selection = members.numbers ∧
      ∀ number ∈ selection, nodes[number]?.map Node.kind = some .register
  | _ => True

end Node

/-- The root comes last, nodes refer to smaller numbers, overlays select their members, and every
other node is in a scope, unless it is an unnamed union. -/
structure WellFormed (d : Directory) : Prop where
  root_last : d.root.val + 1 = d.nodes.size
  root_group : d.rootNode.kind = .group
  lower : ∀ number (node : Node), d.node? number = some node → ∀ other ∈ node.refs, other < number
  selects : ∀ node ∈ d.nodes, node.Selects d.nodes
  listed : ∀ number (node : Node), d.node? number = some node → number ≠ d.root →
    ((∃ scope ∈ d.nodes, number ∈ scope.inside) ↔ ¬ node.Unnamed)

/-! ## nodes so far -/

/-- The nodes so far are in order; `taken` are the numbers in scopes that have no node yet. -/
structure Formed (taken : List Nat) (nodes : Array Node) : Prop where
  taken_lt : ∀ number ∈ taken, number < nodes.size
  lower : ∀ number (node : Node), nodes[number]? = some node → ∀ other ∈ node.refs, other < number
  selects : ∀ node ∈ nodes, node.Selects nodes
  listed : ∀ number (node : Node), nodes[number]? = some node →
    ((number ∈ taken ∨ ∃ scope ∈ nodes, number ∈ scope.inside) ↔ ¬ node.Unnamed)

variable {taken later outer : List Nat} {nodes : Array Node} {node : Node}

/-- Nothing refers to a number that no node has yet. -/
theorem Formed.lt_of_mem (h : Formed taken nodes) {scope : Node} (hscope : scope ∈ nodes)
    {other : Nat} (hother : other ∈ scope.refs) : other < nodes.size := by
  obtain ⟨number, hnumber⟩ := Array.mem_iff_getElem?.mp hscope
  have hlt : number < nodes.size := (Array.getElem?_eq_some_iff.mp hnumber).1
  exact (h.lower number scope hnumber other hother).trans hlt

/-- An index selects nothing that has no name. -/
theorem Node.Selects.refs_subset (h : node.Selects nodes) :
    ∀ other ∈ node.refs, other ∈ node.inside := by
  cases node with
  | overlay name address access members selection =>
      obtain ⟨rfl, -⟩ := h
      simp [Node.refs, Node.inside, Node.selected]
  | register | bank | group | union => simp [Node.refs, Node.selected]

/-- A node keeps its kind under its number when another one is added. -/
theorem kind_push {number : Nat} {kind : Kind} (h : nodes[number]?.map Node.kind = some kind) :
    (nodes.push node)[number]?.map Node.kind = some kind := by
  obtain ⟨found, hfound, hkind⟩ := Option.map_eq_some_iff.mp h
  have hlt : number < nodes.size := (Array.getElem?_eq_some_iff.mp hfound).1
  rw [Array.getElem?_push_lt hlt, ← Array.getElem?_eq_getElem hlt, h]

/-- So an overlay still selects registers. -/
theorem Node.Selects.push (h : node.Selects nodes) (other : Node) :
    node.Selects (nodes.push other) := by
  cases node with
  | overlay => exact ⟨h.1, fun number hnumber => kind_push (h.2 number hnumber)⟩
  | register | bank | group | union => trivial

/-- A node is added whose members were taken: they are in it from now on, and its own number is
taken in turn, unless it is an unnamed union. -/
theorem Formed.push (h : Formed taken nodes) (hselects : node.Selects nodes)
    (hinside : ∀ number ∈ node.inside, number ∈ taken)
    (hlater : ∀ number, number ∈ later ∨ number ∈ node.inside ↔
      number ∈ taken ∨ number = nodes.size ∧ ¬ node.Unnamed) :
    Formed later (nodes.push node) where
  taken_lt number hnumber := by
    rw [Array.size_push]
    rcases (hlater number).mp (.inl hnumber) with htaken | ⟨rfl, -⟩
    · exact (h.taken_lt number htaken).trans (Nat.lt_succ_self _)
    · exact Nat.lt_succ_self _
  lower number found hfound other hother := by
    rw [Array.getElem?_push] at hfound
    split at hfound
    · next hnumber =>
      obtain rfl := Option.some.inj hfound
      rw [hnumber]
      exact h.taken_lt other (hinside other (hselects.refs_subset other hother))
    · exact h.lower number found hfound other hother
  selects found hfound := by
    rcases Array.mem_push.mp hfound with hfound | rfl
    · exact (h.selects found hfound).push node
    · exact hselects.push found
  listed number found hfound := by
    have hscopes : (number ∈ later ∨ ∃ scope ∈ nodes.push node, number ∈ scope.inside) ↔
        (number ∈ taken ∨ number = nodes.size ∧ ¬ node.Unnamed) ∨
          ∃ scope ∈ nodes, number ∈ scope.inside := by
      rw [← hlater]
      simp only [Array.mem_push]
      grind
    rw [hscopes]
    rw [Array.getElem?_push] at hfound
    -- the new node's number is in no scope yet
    split at hfound
    · next hnumber =>
      obtain rfl := Option.some.inj hfound
      subst hnumber
      have hnew : nodes.size ∉ taken := fun htaken => Nat.lt_irrefl _ (h.taken_lt _ htaken)
      have hnowhere : ¬ ∃ scope ∈ nodes, nodes.size ∈ scope.inside := fun ⟨scope, hscope, hmem⟩ =>
        Nat.lt_irrefl _ (h.lt_of_mem hscope (List.mem_append_left _ hmem))
      simp [hnew, hnowhere]
    · next hnumber =>
      rw [← h.listed number found hfound]
      simp [hnumber]

/-! ## drafts -/

/-- The nodes of a draft are in order, within scopes that have taken `outer`. -/
def Draft.Formed (outer : List Nat) (d : Draft) : Prop :=
  Directory.Formed (outer ++ d.members.numbers) d.nodes

/-- The members of a draft are registers. -/
def Draft.HoldsRegisters (d : Draft) : Prop :=
  ∀ number ∈ d.members.numbers, d.nodes[number]?.map Node.kind = some .register

variable {scope name : String} {d d' : Draft}

/-- A node with a name comes last, and its name is one more member. -/
theorem eq_of_addNamed (h : d.addNamed scope name node = .ok d') :
    d' = ⟨d.nodes.push node, d.members ++ [(name, d.nodes.size)]⟩ := by
  obtain ⟨members, hmembers, h⟩ := bind_eq_ok_iff.mp h
  obtain ⟨rfl, -⟩ := eq_of_addMember hmembers
  exact (Except.ok.inj h).symm

/-- A scope opens inside the one at hand. -/
theorem Draft.Formed.inScope (h : d.Formed outer) :
    Draft.Formed (outer ++ d.members.numbers) ⟨d.nodes, []⟩ := by
  simpa [Draft.Formed] using h

/-- A node is added under a name, with what is inside it. -/
theorem Draft.formed_of_addNamed (hadd : d.addNamed scope name node = .ok d')
    (h : Directory.Formed (outer ++ d.members.numbers ++ node.inside) d.nodes)
    (hselects : node.Selects d.nodes) (hnamed : ¬ node.Unnamed) : d'.Formed outer := by
  obtain rfl := eq_of_addNamed hadd
  refine h.push hselects (fun number hnumber => List.mem_append_right _ hnumber) fun number => ?_
  simp only [numbers_append, numbers_singleton, List.mem_append, List.mem_singleton, hnamed,
    not_false_eq_true, and_true]
  tauto

/-- A register that is added leaves the nodes in order. -/
theorem Draft.Formed.addRegister {address : Nat} {access : Access} {r : Register}
    (h : d.Formed outer) (hadd : d.addRegister scope address access r = .ok d') :
    d'.Formed outer := by
  obtain ⟨view, -, hadd⟩ := bind_eq_ok_iff.mp hadd
  refine Draft.formed_of_addNamed hadd ?_ trivial id
  rwa [Node.inside, List.append_nil]

/-- A scope that held registers holds registers when one is added. -/
theorem Draft.HoldsRegisters.addRegister {address : Nat} {access : Access} {r : Register}
    (h : d.HoldsRegisters) (hadd : d.addRegister scope address access r = .ok d') :
    d'.HoldsRegisters := by
  obtain ⟨view, -, hadd⟩ := bind_eq_ok_iff.mp hadd
  obtain rfl := eq_of_addNamed hadd
  intro number hnumber
  rw [numbers_append] at hnumber
  rcases List.mem_append.mp hnumber with hnumber | hnumber
  · exact kind_push (h number hnumber)
  · obtain rfl := List.mem_singleton.mp hnumber
    simp [Node.kind]

/-- So do registers that are added in order, which are then the members of the scope. -/
theorem Draft.Formed.addRegisters {address : Nat} {access : Access} {rs : List Register}
    (h : d.Formed outer) (hregisters : d.HoldsRegisters)
    (hadd : addRegisters scope address access d rs = .ok d') :
    d'.Formed outer ∧ d'.HoldsRegisters := by
  induction rs generalizing d with
  | nil =>
      obtain rfl := Except.ok.inj hadd
      exact ⟨h, hregisters⟩
  | cons r rs ih =>
      obtain ⟨next, hnext, hadd⟩ := bind_eq_ok_iff.mp hadd
      exact ih (h.addRegister hnext) (hregisters.addRegister hnext) hadd

/-- The members of an inner scope go to the one around it, before the name of the inner one. -/
theorem eq_of_splice {members members' inner : Members} {name : Option String} {number : Nat}
    (h : splice scope members inner name number = .ok members') :
    members' = members ++ inner ++ name.toList.map (·, number) := by
  obtain ⟨next, hnext, h⟩ := bind_eq_ok_iff.mp h
  obtain ⟨rfl, -⟩ := eq_of_addMembers hnext
  cases name with
  | none =>
      obtain rfl := Except.ok.inj h
      simp
  | some name => exact (eq_of_addMember h).1

mutual
/-- An entry leaves the nodes in order. -/
theorem Draft.Formed.addEntry : {scope : String} → {outer : List Nat} → {d d' : Draft} →
    (entry : Entry) → d.Formed outer → addEntry scope d entry = .ok d' → d'.Formed outer
  | _, _, _, _, .register r, h, hadd => by
      simp only [Draft.addEntry] at hadd
      exact h.addRegister hadd
  | _, _, _, _, .bank b, h, hadd => by
      simp only [Draft.addEntry] at hadd
      obtain ⟨view, -, hadd⟩ := bind_eq_ok_iff.mp hadd
      refine Draft.formed_of_addNamed hadd ?_ trivial id
      rwa [Node.inside, List.append_nil]
  | _, _, _, _, .pair p, h, hadd => by
      simp only [Draft.addEntry] at hadd
      obtain ⟨next, hnext, hadd⟩ := bind_eq_ok_iff.mp hadd
      exact (h.addRegister hnext).addRegister hadd
  | _, _, _, _, .overlay o, h, hadd => by
      simp only [Draft.addEntry] at hadd
      obtain ⟨inner, hinner, hadd⟩ := bind_eq_ok_iff.mp hadd
      obtain ⟨hformed, hregisters⟩ := h.inScope.addRegisters nofun hinner
      exact Draft.formed_of_addNamed hadd hformed ⟨rfl, hregisters⟩ id
  | _, _, _, _, .group head content, h, hadd => by
      simp only [Draft.addEntry] at hadd
      split at hadd
      · exact h.addEntries content hadd
      · obtain ⟨inner, hinner, hadd⟩ := bind_eq_ok_iff.mp hadd
        exact Draft.formed_of_addNamed hadd (h.inScope.addEntries content hinner) trivial id
  | _, _, _, _, .union head content, h, hadd => by
      rw [addEntry_union] at hadd
      simp only [bind_eq_ok_iff] at hadd
      obtain ⟨inner, hinner, members, hmembers, hadd⟩ := hadd
      obtain rfl := Except.ok.inj hadd
      obtain rfl := eq_of_splice hmembers
      refine (h.inScope.addEntries content hinner).push trivial
        (fun number hnumber => List.mem_append_right _ hnumber) fun number => ?_
      -- the members are in the union and in the scope around it as well
      cases hname : head.name with
      | none =>
          simp only [Node.inside, Node.Unnamed, hname, Option.toList_none, List.map_nil,
            List.append_nil, numbers_append, List.mem_append, not_true_eq_false, and_false,
            or_false]
          tauto
      | some name =>
          simp only [Node.inside, Node.Unnamed, hname, Option.toList_some, List.map_cons,
            List.map_nil, numbers_append, numbers_singleton, List.mem_append, List.mem_singleton,
            reduceCtorEq, not_false_eq_true, and_true]
          tauto

/-- Entries leave the nodes in order. -/
theorem Draft.Formed.addEntries : {scope : String} → {outer : List Nat} → {d d' : Draft} →
    (entries : List Entry) → d.Formed outer → addEntries scope d entries = .ok d' → d'.Formed outer
  | _, _, _, _, [], h, hadd => by
      simp only [Draft.addEntries] at hadd
      obtain rfl := Except.ok.inj hadd
      exact h
  | _, _, _, _, entry :: entries, h, hadd => by
      simp only [Draft.addEntries] at hadd
      obtain ⟨next, hnext, hadd⟩ := bind_eq_ok_iff.mp hadd
      exact (h.addEntry entry hnext).addEntries entries hadd
end

/-! ## places -/

/-- A place that any steps lead to, from the root or along a path. -/
inductive Reached (d : Directory) : Place → Prop
  | top : Reached d d.top
  | member {place next : Place} {name : String} :
      Reached d place → d.member place name = .ok next → Reached d next
  | index {place next : Place} {n : Nat} :
      Reached d place → index place n = .ok next → Reached d next
  | select {place next : Place} {n : Nat} :
      Reached d place → d.select place n = .ok next → Reached d next
  | resolve {place : Place} {path : String} : d.resolve path = .ok place → Reached d place

section
variable {D : Directory} {place next : Place}

/-- The register of an index in a bank is in the directory. -/
theorem Has.index {n : Nat} (h : D.Has place) (hindex : index place n = .ok next) : D.Has next := by
  cases h with
  | register | element => cases hindex
  | @node number thing hnode =>
      cases thing with
      | register | group | overlay | union => cases hindex
      | bank view base count =>
          simp only [Directory.index] at hindex
          split at hindex
          · cases hindex
          · next hn =>
            split at hindex
            · cases hindex
            · obtain rfl := Except.ok.inj hindex
              exact .element hnode (Nat.lt_of_not_le hn)

/-- A step leads from a place of the directory to such a place. -/
theorem Has.follow {segment : Segment} (h : D.Has place)
    (hfollow : D.follow place segment = .ok next) : D.Has next := by
  cases segment with
  | member name => exact (outcome_member place name).of_ok hfollow
  | index n =>
      simp only [Directory.follow] at hfollow
      split at hfollow
      · exact (outcome_select _ n).of_ok hfollow
      · exact h.index hfollow

/-- So does a path. -/
theorem Has.followAll {path : Path} (h : D.Has place)
    (hfollow : D.followAll place path = .ok next) : D.Has next := by
  induction path generalizing place with
  | nil =>
      obtain rfl := Except.ok.inj hfollow
      exact h
  | cons segment path ih =>
      obtain ⟨mid, hmid, hfollow⟩ := bind_eq_ok_iff.mp hfollow
      exact ih (h.follow hmid) hfollow

/-- Steps stay in the directory. -/
theorem Reached.has (h : D.Reached place) : D.Has place := by
  induction h with
  | top => exact has_top
  | @member place _ name _ hmember _ => exact (outcome_member place name).of_ok hmember
  | index _ hindex ih => exact ih.index hindex
  | @select place _ n _ hselect _ => exact (outcome_select place n).of_ok hselect
  | resolve hresolve =>
      obtain ⟨path, -, hfollow⟩ := bind_eq_ok_iff.mp hresolve
      exact has_top.followAll hfollow

/-- A register stands for a node that is a register or a bank, and is read and written alike. -/
theorem Has.view? {handle : Handle} (h : D.Has (.register handle)) :
    (D.node? handle.number).bind Node.view? = some handle.view := by
  cases h with
  | register hnode | element hnode _ =>
      rw [hnode]
      rfl

/-! ## no way back -/

/-- Steps lead to places of less rank; a register of a bank is one step behind the bank. -/
def Place.rank : Place → Nat
  | .register handle => 2 * handle.number
  | .node number _ => 2 * number + 1

/-- The rank of a place is bounded by its number. -/
theorem rank_ofNode_le (number : Nat) (thing : Node) :
    (Place.ofNode number thing).rank ≤ 2 * number + 1 := by
  cases thing <;> simp [Place.ofNode, Place.rank]

/-- What a node refers to is of less rank. -/
theorem WellFormed.rank_place? (h : D.WellFormed) {number other : Nat} {thing : Node}
    (hthing : D.node? number = some thing) (hother : other ∈ thing.refs)
    (hplace : D.place? other = some next) : next.rank < (Place.node number thing).rank := by
  obtain ⟨found, -, rfl⟩ := Option.map_eq_some_iff.mp hplace
  have hlower := h.lower number thing hthing other hother
  have hrank := rank_ofNode_le other found
  rw [Place.rank]
  omega

/-- What is found in a scope by its name is inside the scope. -/
theorem mem_inside_of_lookup {thing : Node} {members : Members} {name : String} {number : Nat}
    (hthing : thing.members? = some members) (hlookup : members.lookup name = some number) :
    number ∈ thing.inside := by
  have hmem : (name, number) ∈ members := by
    obtain ⟨before, after, rfl, -⟩ := List.lookup_eq_some_iff.mp hlookup
    simp
  have hnumber : number ∈ members.numbers := List.mem_map_of_mem hmem
  cases thing <;> cases hthing <;> exact hnumber

/-- A member is of less rank than its scope. -/
theorem WellFormed.rank_member (h : D.WellFormed) {name : String} (hplace : D.Has place)
    (hmember : D.member place name = .ok next) : next.rank < place.rank := by
  simp only [member] at hmember
  split at hmember
  · cases hmember
  · split at hmember
    · cases hmember
    · next number thing _ members hmembers =>
      split at hmember
      · next found hfound =>
        obtain rfl := Except.ok.inj hmember
        obtain ⟨other, hlookup, hfound⟩ := Option.bind_eq_some_iff.mp hfound
        cases hplace with
        | node hthing =>
            exact h.rank_place? hthing
              (List.mem_append_left _ (mem_inside_of_lookup hmembers hlookup)) hfound
      · cases hmember

/-- What an index selects is of less rank than the overlay. -/
theorem WellFormed.rank_select (h : D.WellFormed) {n : Nat} (hplace : D.Has place)
    (hselect : D.select place n = .ok next) : next.rank < place.rank := by
  simp only [select] at hselect
  split at hselect
  · split at hselect
    · next found hfound =>
      obtain rfl := Except.ok.inj hselect
      obtain ⟨other, hother, hfound⟩ := Option.bind_eq_some_iff.mp hfound
      cases hplace with
      | node hthing =>
          exact h.rank_place? hthing (List.mem_append_right _ (List.mem_of_getElem? hother)) hfound
    · cases hselect
  · cases hselect

/-- A register of a bank is of less rank than the bank. -/
theorem rank_index {n : Nat} (hindex : index place n = .ok next) : next.rank < place.rank := by
  simp only [index] at hindex
  split at hindex
  · split at hindex
    · cases hindex
    · split at hindex
      · cases hindex
      · obtain rfl := Except.ok.inj hindex
        exact Nat.lt_succ_self _
  · cases hindex

/-- Every step lowers the rank. -/
theorem WellFormed.rank_follow (h : D.WellFormed) {segment : Segment} (hplace : D.Has place)
    (hfollow : D.follow place segment = .ok next) : next.rank < place.rank := by
  cases segment with
  | member name => exact h.rank_member hplace hfollow
  | index n =>
      simp only [follow] at hfollow
      split at hfollow
      · exact h.rank_select hplace hfollow
      · exact rank_index hfollow

/-- Every step of a path costs rank. -/
theorem WellFormed.rank_followAll (h : D.WellFormed) {path : Path} (hplace : D.Has place)
    (hfollow : D.followAll place path = .ok next) : next.rank + path.length ≤ place.rank := by
  induction path generalizing place with
  | nil =>
      obtain rfl := Except.ok.inj hfollow
      rfl
  | cons segment path ih =>
      obtain ⟨mid, hmid, hfollow⟩ := bind_eq_ok_iff.mp hfollow
      have hstep := h.rank_follow hplace hmid
      have hlater := ih (hplace.follow hmid) hfollow
      rw [List.length_cons]
      omega

end

/-! ## groups -/

/-- Once the root is added, no scope is open. -/
theorem wellFormed_of_ofGroup {g : Group} {D : Directory} (h : ofGroup g = .ok D) :
    D.WellFormed := by
  obtain ⟨d, hd, h⟩ := bind_eq_ok_iff.mp h
  obtain rfl := Except.ok.inj h
  have hempty : Draft.Formed [] ⟨#[], []⟩ := ⟨nofun, nofun, nofun, nofun⟩
  have hcontent := hempty.addEntries g.content hd
  have hroot : Formed [d.nodes.size]
      (d.nodes.push (.group g.name g.head.base g.head.span d.members)) :=
    hcontent.push trivial (fun _ hnumber => hnumber) fun number => by
      simp [Node.inside, Node.Unnamed, or_comm]
  refine ⟨by simp, by simp [rootNode, Node.kind], hroot.lower, hroot.selects, ?_⟩
  intro number node hnode hother
  have hlisted := hroot.listed number node hnode
  rwa [List.mem_singleton, or_iff_right hother] at hlisted

/-- In the directory of a group nodes refer to smaller numbers only, and whatever has a name is in a
scope.  So what a node refers to is found, steps do not lead back, and a register that they lead to
is one of the nodes or of a bank among them. -/
theorem ofGroup_navigable {g : Group} {D : Directory} (h : ofGroup g = .ok D) :
    D.WellFormed ∧
    (∀ number node, D.node? number = some node → ∀ other ∈ node.refs,
      ∃ place, D.place? other = some place) ∧
    (∀ place path, D.Reached place → D.followAll place path = .ok place → path = []) ∧
    ∀ handle, D.Reached (.register handle) →
      (D.node? handle.number).bind Node.view? = some handle.view := by
  have hformed := wellFormed_of_ofGroup h
  refine ⟨hformed, fun number node hnode other hother => ?_, fun place path hplace hfollow => ?_,
    fun handle hhandle => hhandle.has.view?⟩
  · have hnumber : number < D.nodes.size := (Array.getElem?_eq_some_iff.mp hnode).1
    have hlt : other < D.nodes.size := (hformed.lower number node hnode other hother).trans hnumber
    exact ⟨.ofNode other D.nodes[other], by simp [place?, node?, hlt]⟩
  · have hrank := hformed.rank_followAll hplace.has hfollow
    exact List.eq_nil_of_length_eq_zero (by omega)

/-- An unnamed union around a register, an overlay, and a bank in a hidden group. -/
def assorted : Group :=
  ⟨⟨"G", 0, 4, false, none, []⟩,
    [.union ⟨none, 0, 1, []⟩ [.register ⟨"A", 0, .readWrite, [], none, [], 2⟩],
      .overlay ⟨"MUX", 1, .readWrite,
        [⟨"LOW", 1, .readWrite, [], none, [], 4⟩, ⟨"HIGH", 1, .readWrite, [], none, [], 5⟩], []⟩,
      .group ⟨"H", 2, 2, true, none, []⟩ [.bank ⟨"TABLE", 2, 2, .readWrite, [], []⟩]]⟩

/-- The union is in no scope, and an index in the overlay leads to a register node. -/
theorem navigable_assorted :
    ∃ D, ofGroup assorted = .ok D ∧ D.root.val = 6 ∧ (¬ ∃ scope ∈ D.nodes, 1 ∈ scope.inside) ∧
      D.resolve "MUX[1]" = .ok (.register ⟨3, 1, ⟨"HIGH", .readWrite, []⟩⟩) ∧
      (D.node? 3).bind Node.view? = some ⟨"HIGH", .readWrite, []⟩ := by
  have hfound : (ofGroup assorted).toOption.bind (fun D =>
      (D.resolve "MUX[1]").toOption.map fun place => (D.nodes.size, D.node? 1, place)) =
      some (7, some (.union ⟨none, 0, 1, []⟩ [("A", 0)]),
        .register ⟨3, 1, ⟨"HIGH", .readWrite, []⟩⟩) := by cbv
  obtain ⟨D, hD, hfound⟩ := Option.bind_eq_some_iff.mp hfound
  obtain ⟨place, hplace, hfound⟩ := Option.map_eq_some_iff.mp hfound
  obtain ⟨hsize, hpair⟩ := Prod.mk.inj hfound
  obtain ⟨hunion, rfl⟩ := Prod.mk.inj hpair
  have hgroup := eq_ok_of_toOption hD
  have hresolve := eq_ok_of_toOption hplace
  obtain ⟨hformed, -, -, hview⟩ := ofGroup_navigable hgroup
  have hroot : D.root.val = 6 := by
    have hlast := hformed.root_last
    omega
  refine ⟨D, hgroup, hroot, ?_, hresolve, hview _ (.resolve hresolve)⟩
  rw [hformed.listed 1 _ hunion (by omega)]
  simp [Node.Unnamed]

end DeviceRegisters.Directory
