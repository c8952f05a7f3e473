import Mathlib
import DeviceRegisters.Proofs.Definition.Meaning
import DeviceRegisters.Proofs.Definition.Naming

/-!
# DeviceRegisters.Proofs.Definition.Including

Including a source is the same as describing its groups as templates.

The groups of a source become templates when the next source is added; with a colon in
front of their lines they are templates at once.  The templates get other numbers in that
way, and names are compared with other names, but names mean the same for the next source
(`Shares.shelve`), whose groups therefore expand alike (`addSource_shared`).
-/

namespace DeviceRegisters.Definition

open Outline (Node)

variable {library library' : Library} {name : String}

/-! ## templates -/

/-- Templates of one name that uses see alike. -/
structure Template.Same (library library' : Library) (t t' : Template) : Prop where
  name : t'.name = t.name
  span : t'.span = t.span
  seen : ∀ find find', Agrees library find → Agrees library' find' →
    t'.toInstance find' = t.toInstance find

theorem Template.Same.register (r : Register) :
    Template.Same library library' (.register r) (.register r) := ⟨rfl, rfl, fun _ _ _ _ => rfl⟩

/-- Groups that expand to the same are templates that do. -/
theorem Group.Same.asTemplate {g g' : Group} (h : g.Same library library' g') :
    Template.Same library library' (.group g) (.group g') where
  name := congrArg GroupHead.name h.head
  span := congrArg GroupHead.span h.head
  seen find find' hfind hfind' := by
    have hexpand : (fun base => expandEntries find' base g'.content) =
        fun base => expandEntries find base g.content :=
      funext (h.expand find find' hfind hfind')
    simp only [Template.toInstance, h.head, hexpand]

/-- As a template a group keeps its name. -/
theorem Group.Same.templateName {g g' : Group} (h : g.Same library library' g') :
    Template.name (.group g') = g.name := h.asTemplate.name

/-- Groups stay the same when there are more templates. -/
theorem Group.Same.append {g g' : Group} (h : g.Same library library' g')
    (newer newer' : Library) : g.Same (newer ++ library) (newer' ++ library') g' :=
  ⟨h.head, h.template, fun find find' hfind hfind' => h.expand find find' hfind.of_append hfind'.of_append⟩

namespace Library

/-- A library is served by itself. -/
theorem agrees_self (library : Library) : Agrees library library.instance? :=
  agrees_instance? [] library

/-- A name is taken by the newest template or by an older one. -/
theorem hasName_cons (t : Template) (older : Library) :
    hasName (t :: older) name = true ↔ t.name = name ∨ older.hasName name = true := by
  simp [hasName_iff]

/-- Names mean the same after both libraries got a template that is seen alike. -/
theorem Means.cons {t t' : Template} (h : library.Means library')
    (ht : t.Same library library' t') : Means (t :: library) (t' :: library') := by
  intro key meaning hmeaning
  simp only [meaning?] at hmeaning ⊢
  rw [ht.name, ht.span, ht.seen _ _ library.agrees_self library'.agrees_self]
  by_cases hname : t.name = key
  · rw [if_pos hname] at hmeaning ⊢
    exact hmeaning
  · rw [if_neg hname] at hmeaning ⊢
    exact h key meaning hmeaning

/-- A template of a new name takes no meaning away. -/
theorem Means.cons_right {t : Template} (h : library.Means library')
    (hnew : library.hasName t.name = false) : library.Means (t :: library') := by
  intro key meaning hmeaning
  have hne : t.name ≠ key := by
    rintro rfl
    rw [hasName_of_meaning? hmeaning] at hnew
    contradiction
  rw [meaning?, if_neg hne]
  exact h key meaning hmeaning

end Library

/-- A template that is read with one library is read with the other one, and expands to the same. -/
theorem follows_readTemplate (h : library.Means library') (node : Node) :
    Follows (Template.Same library library') (Catalog.readTemplate library node)
      (Catalog.readTemplate library' node) := by
  simp only [Catalog.readTemplate]
  split
  · exact (follows_readGroup h node).bind_sure fun _ _ hg => .ok hg.asTemplate
  · exact .bind_same fun r => .ok (.register r)

/-! ## groups that are templates elsewhere -/

/-- The other library has the library's names with their meanings, and those of the groups
with the meanings that they get as templates. -/
structure Shares (library : Library) (groups : List Group) (library' : Library) : Prop where
  means : library.Means library'
  names : ∀ name, library'.hasName name = true ↔
    library.hasName name = true ∨ ∃ g ∈ groups, g.name = name
  groups : ∀ g ∈ groups, ∀ find, Agrees library find →
    library'.meaning? g.name = some (g.head.span, (Template.group g).toInstance find)

theorem shares_nil : Shares [] [] [] := ⟨fun _ _ h => h, by simp, by simp⟩

/-- Both libraries get a template. -/
theorem Shares.cons {groups : List Group} {t t' : Template} (h : Shares library groups library')
    (ht : t.Same library library' t') (hfree : ∀ g ∈ groups, g.name ≠ t.name) :
    Shares (t :: library) groups (t' :: library') where
  means := h.means.cons ht
  names name := by rw [Library.hasName_cons, Library.hasName_cons, ht.name, h.names, or_assoc]
  groups g hg find hfind := by
    rw [Library.meaning?, ht.name, if_neg (hfree g hg).symm]
    exact h.groups g hg find hfind.of_cons

/-- What is a new group here is a new template there. -/
theorem Shares.addGroup {groups : List Group} {g g' : Group} (h : Shares library groups library')
    (hg : g.Same library library' g') (hnew : library.hasName g.name = false)
    (hfree : ∀ other ∈ groups, other.name ≠ g.name) :
    Shares library (groups ++ [g]) (.group g' :: library') where
  means := h.means.cons_right (hg.templateName ▸ hnew)
  names name := by
    rw [Library.hasName_cons, hg.templateName, h.names]
    simp only [List.mem_append, List.mem_singleton, or_and_right, exists_or, exists_eq_left]
    exact or_rotate
  groups other hother find hfind := by
    rw [Library.meaning?, hg.templateName]
    rcases List.mem_append.mp hother with hother | hother
    · rw [if_neg (hfree other hother).symm]
      exact h.groups other hother find hfind
    · obtain rfl := List.mem_singleton.mp hother
      rw [if_pos rfl, hg.asTemplate.span, hg.asTemplate.seen find _ hfind library'.agrees_self]
      rfl

/-- Once the groups are templates here as well, the libraries have the same names with the
same meanings. -/
theorem Shares.shelve {groups : List Group} {larger : Library} (h : Shares library groups library')
    (hshelve : Catalog.shelve library groups = .ok larger) : Shares larger [] library' := by
  induction groups generalizing library with
  | nil =>
      obtain rfl := Except.ok.inj hshelve
      exact h
  | cons g groups ih =>
      simp only [Catalog.shelve] at hshelve
      split at hshelve
      · next next hadd =>
        obtain rfl : next = .group g :: library := by
          simp only [Library.add?] at hadd
          split at hadd
          · contradiction
          · exact (Option.some.inj hadd).symm
        refine ih ⟨?means, fun name => ?names, fun other hother find hfind => ?groups⟩ hshelve
        case means =>
          intro key meaning hmeaning
          rw [Library.meaning?] at hmeaning
          split at hmeaning
          · next hname =>
            subst hname
            rw [← hmeaning]
            exact h.groups g List.mem_cons_self _ library.agrees_self
          · exact h.means key meaning hmeaning
        case names =>
          have hname : Template.name (.group g) = g.name := rfl
          rw [h.names, Library.hasName_cons, hname, List.exists_mem_cons_iff, or_assoc]
          exact or_left_comm
        case groups =>
          exact h.groups other (List.mem_cons_of_mem _ hother) find hfind.of_cons
      · contradiction

namespace Catalog

/-! ## the first source -/

/-- The line with a colon in front, if it describes a group. -/
def shared (line : Node) : Node :=
  if isGroupLine line then { line with text := ":" ++ line.text } else line

/-- The groups of the one catalog are templates of the other one. -/
structure SharedIn (c c' : Catalog) : Prop where
  shares : Shares c.library c.groups c'.library
  groups : c'.groups = []
  constants : c'.constants = c.constants

/-- Constants do not depend on the rest of a catalog. -/
theorem addConstant_congr {c c' d : Catalog} {node : Node} (h : c'.constants = c.constants)
    (hadd : c.addConstant node = .ok d) :
    ∃ constants, d = { c with constants } ∧ c'.addConstant node = .ok { c' with constants } := by
  have hsame : ∀ name, c'.constant? name = c.constant? name := by simp [constant?, h]
  simp only [addConstant, bind_eq_ok_iff] at hadd ⊢
  obtain ⟨_, hleaf, _, hname, hadd⟩ := hadd
  split at hadd
  · exact absurd hadd refuse_ne_ok
  · split at hadd
    · exact absurd hadd refuse_ne_ok
    · next hnew =>
      obtain rfl := Except.ok.inj hadd
      refine ⟨_, rfl, _, hleaf, _, hname, ?_⟩
      simp only [hsame, if_neg hnew, h]

/-- A template with a new name is taken. -/
theorem add?_eq_some {t : Template} (h : library.hasName t.name = false) :
    library.add? t = some (t :: library) := by
  rw [Library.add?, h]
  rfl

/-- A line that is no group's stays as it is and leaves the groups shared. -/
theorem SharedIn.addTemplate {c c' d : Catalog} {node : Node} (h : c.SharedIn c')
    (hadd : c.addTemplate node = .ok d) (hd : d.Distinct) :
    ∃ d', c'.addTemplate node = .ok d' ∧ d.SharedIn d' := by
  obtain ⟨t, ht, hadd⟩ := bind_eq_ok_iff.mp hadd
  obtain ⟨t', ht', hsame⟩ := (follows_readTemplate h.shares.means _).ok_of ht not_false
  split at hadd
  · next larger hlarger =>
    obtain rfl := Except.ok.inj hadd
    simp only [Library.add?] at hlarger
    split at hlarger
    · contradiction
    · next hnew =>
      obtain rfl := Option.some.inj hlarger
      have hfree : ∀ g ∈ c.groups, g.name ≠ t.name :=
        fun g hg heq => hd g hg t List.mem_cons_self heq.symm
      have hnew' : c'.library.hasName t'.name = false := by
        rw [← Bool.not_eq_true, h.shares.names, hsame.name]
        rintro (htaken | ⟨g, hg, heq⟩)
        · exact hnew htaken
        · exact hfree g hg heq
      refine ⟨{ c' with library := t' :: c'.library }, bind_eq_ok_iff.mpr ⟨t', ht', ?_⟩,
        h.shares.cons hsame hfree, h.groups, h.constants⟩
      rw [add?_eq_some hnew']
  · exact absurd hadd refuse_ne_ok

/-- The line of a group is the line of a template there. -/
theorem SharedIn.addGroup {c c' d : Catalog} {node : Node} (h : c.SharedIn c')
    (hline : isGroupLine node) (hadd : c.addGroup node = .ok d) :
    ∃ d', c'.addLine (shared node) = .ok d' ∧ d.SharedIn d' := by
  obtain ⟨g, hg, hadd⟩ := bind_eq_ok_iff.mp hadd
  obtain ⟨g', hg', hsame⟩ := (follows_readGroup h.shares.means node).ok_of hg not_false
  split at hadd
  · exact absurd hadd refuse_ne_ok
  · next hfree =>
    obtain rfl := Except.ok.inj hadd
    rw [Bool.or_eq_true, not_or, Bool.not_eq_true, Bool.not_eq_true, Option.isSome_eq_false_iff,
      Option.isNone_iff_eq_none, group?_eq_none_iff] at hfree
    obtain ⟨hgroups, hnew⟩ := hfree
    have huncolon : uncolon (shared node) = node := by
      obtain ⟨number, text, doc, children⟩ := node
      rw [shared, if_pos hline, uncolon]
      simp
    have htemplate : isGroupTemplateLine (shared node) := by
      rw [isGroupTemplateLine_iff, huncolon, ← isGroupLine_iff]
      refine ⟨?_, hline⟩
      rw [shared, if_pos hline]
      simp
    have hnew' : c'.library.hasName (Template.name (.group g')) = false := by
      rw [← Bool.not_eq_true, h.shares.names, hsame.templateName]
      rintro (htaken | ⟨other, hother, heq⟩)
      · rw [hnew] at htaken
        contradiction
      · exact hgroups other hother heq
    refine ⟨{ c' with library := .group g' :: c'.library }, ?_,
      h.shares.addGroup hsame hnew hgroups, h.groups, h.constants⟩
    rw [addLine_groupTemplate htemplate, huncolon]
    refine bind_eq_ok_iff.mpr ⟨g', hg', ?_⟩
    rw [add?_eq_some hnew']

/-- A line that is added to the one catalog can be added to the other one with a colon in front, if
it describes a group. -/
theorem SharedIn.addLine {c c' d : Catalog} {node : Node} (h : c.SharedIn c')
    (hadd : c.addLine node = .ok d) (hd : d.Distinct) :
    ∃ d', c'.addLine (shared node) = .ok d' ∧ d.SharedIn d' := by
  by_cases hline : isGroupLine node
  · rw [addLine_group hline] at hadd
    exact h.addGroup hline hadd
  · rw [shared, if_neg hline]
    simp only [Catalog.addLine] at hadd ⊢
    split at hadd
    · exact h.addTemplate hadd hd
    · next hbang =>
      rw [isGroupLine_iff, hbang] at hline
      exact absurd rfl hline
    · split at hadd
      · next hequals =>
        rw [if_pos hequals]
        obtain ⟨constants, rfl, hadd'⟩ := addConstant_congr h.constants hadd
        exact ⟨_, hadd', h.shares, h.groups, rfl⟩
      · exact absurd hadd refuse_ne_ok

/-- A catalog that grew kept its groups and templates. -/
theorem Distinct.of_growsTo {c larger : Catalog} (h : larger.Distinct) (hgrows : c.GrowsTo larger) :
    c.Distinct := by
  intro g hg t ht
  obtain ⟨newer, older, hlibrary⟩ := List.append_of_mem ht
  have hget : c.library.get? older.length = some t :=
    Library.get?_eq_some_iff.mpr ⟨newer, older, hlibrary, rfl⟩
  obtain ⟨newer', older', hlarger, -⟩ :=
    Library.get?_eq_some_iff.mp (hgrows.library.within _ t hget)
  exact h g (hgrows.groups hg) t (by simp [hlarger])

/-- So it goes on over the lines of a source, if no template gets the name of a group. -/
theorem SharedIn.addLines {c c' d : Catalog} {nodes : List Node} (h : c.SharedIn c')
    (hadd : c.addLines nodes = .ok d) (hd : d.Distinct) :
    ∃ d', c'.addLines (nodes.map shared) = .ok d' ∧ d.SharedIn d' := by
  induction nodes generalizing c c' with
  | nil =>
      obtain rfl := Except.ok.inj hadd
      exact ⟨c', rfl, h⟩
  | cons node nodes ih =>
      obtain ⟨next, hfirst, hrest⟩ := bind_eq_ok_iff.mp hadd
      obtain ⟨next', hfirst', hnext⟩ := h.addLine hfirst (hd.of_growsTo (growsTo_addLines hrest))
      obtain ⟨d', hrest', hd'⟩ := ih hnext hrest
      exact ⟨d', bind_eq_ok_iff.mpr ⟨next', hfirst', hrest'⟩, hd'⟩

/-! ## the second source -/

/-- Catalogs in which the same names mean the same, with groups that expand alike and the
same constants. -/
structure Same (c c' : Catalog) : Prop where
  library : Shares c.library [] c'.library
  groups : List.Forall₂ (Group.Same c.library c'.library) c.groups c'.groups
  constants : c'.constants = c.constants

/-- The same names are taken by templates of catalogs that come to the same. -/
theorem Same.hasName_eq {c c' : Catalog} (h : c.Same c') (name : String) :
    c'.library.hasName name = c.library.hasName name := by
  rw [Bool.eq_iff_iff, h.library.names]
  simp

/-- The same names are taken by their groups. -/
theorem Same.isSome_group?_eq {c c' : Catalog} (h : c.Same c') (name : String) :
    (c'.group? name).isSome = (c.group? name).isSome := by
  have hgroups := h.groups
  rw [group?, group?]
  generalize c.groups = groups, c'.groups = groups' at hgroups ⊢
  induction hgroups with
  | nil => rfl
  | @cons g g' _ _ hg _ ih =>
      have hname : g'.name = g.name := hg.templateName
      simp only [List.find?_cons, hname]
      split
      · rfl
      · exact ih

/-- A line that one catalog takes the other one takes too, and they come to the same again. -/
theorem follows_addLine {c c' : Catalog} (h : c.Same c') (node : Node) :
    Follows Same (c.addLine node) (c'.addLine node) := by
  simp only [addLine]
  split
  · refine (follows_readTemplate h.library.means _).bind_sure fun t t' ht => ?_
    simp only [Library.add?, ht.name, h.hasName_eq]
    split
    · next hadd =>
      split at hadd
      · contradiction
      · obtain rfl := Option.some.inj hadd
        next hnew =>
        rw [if_neg hnew]
        refine .ok ⟨h.library.cons ht (by simp), ?_, h.constants⟩
        exact h.groups.imp fun _ _ hg => hg.append [t] [t']
    · exact .of_not id _ _
  · refine (follows_readGroup h.library.means _).bind_sure fun g g' hg => ?_
    have hname : g'.name = g.name := hg.templateName
    refine .ite ?_ (fun _ => trivial) fun _ => .ok ?_
    · rw [hname, h.hasName_eq, h.isSome_group?_eq]
    · exact ⟨h.library, List.rel_append h.groups (.cons hg .nil), h.constants⟩
  · split
    · cases hadd : c.addConstant node with
      | error e => exact .of_not id _ _
      | ok d =>
          obtain ⟨constants, rfl, hadd'⟩ := addConstant_congr h.constants hadd
          rw [hadd']
          exact .ok ⟨h.library, h.groups, rfl⟩
    · trivial

/-- So do lines that are added in order. -/
theorem follows_addLines {c c' : Catalog} (h : c.Same c') (nodes : List Node) :
    Follows Same (c.addLines nodes) (c'.addLines nodes) := by
  induction nodes generalizing c c' with
  | nil => exact .ok h
  | cons node nodes ih => exact (follows_addLine h node).bind_sure fun _ _ hnext => ih hnext

/-! ## expansion -/

/-- Groups that come to the same one by one expand to the same. -/
theorem Same.expandGroups_eq {groups groups' : List Group}
    (h : List.Forall₂ (Group.Same library library') groups groups') :
    expandGroups library' groups' = expandGroups library groups := by
  induction h with
  | nil => rfl
  | cons hg _ ih =>
      have hcontent := hg.expand _ _ library.agrees_self library'.agrees_self
      simp only [expandGroups, Group.expand, Group.entry, Group.name, expandEntry, hg.head,
        hg.template, hcontent, ih]

/-- Catalogs that come to the same expand to the same. -/
theorem Same.flatten_eq {c c' : Catalog} (h : c.Same c') : c'.flatten = c.flatten := by
  rw [flatten, flatten, expandGroups_eq h.groups, h.constants]

/-! ## both sources -/

/-- If one source can be added after another, the lines of both can be added as one source,
when the lines of the first that describe groups get a colon in front.  The constants are the
same, and the expansion is. -/
theorem addSource_shared {first second : List Node} {a b : Catalog}
    (ha : empty.addSource first = .ok a) (hb : a.addSource second = .ok b) :
    ∃ c, empty.addSource (first.map shared ++ second) = .ok c ∧
      c.constants = b.constants ∧ c.flatten = b.flatten := by
  have hlines : empty.addLines first = .ok a := ha
  obtain ⟨library, hshelve, hsecond⟩ := bind_eq_ok_iff.mp hb
  have hdistinct : a.Distinct :=
    (outcome_shelve a.library (unrepeated_of_addSource ha)).of_ok hshelve
  have hstart : empty.SharedIn empty := ⟨shares_nil, rfl, rfl⟩
  obtain ⟨a', hfirst', hshared⟩ := hstart.addLines hlines hdistinct
  have hsame : Same ⟨library, [], a.constants⟩ a' := by
    refine ⟨hshared.shares.shelve hshelve, ?_, hshared.constants⟩
    rw [hshared.groups]
    exact .nil
  obtain ⟨c, hc, hcb⟩ := (follows_addLines hsame second).ok_of hsecond not_false
  have happend : empty.addLines (first.map shared ++ second) = .ok c := by
    rw [addLines_append, hfirst']
    exact hc
  exact ⟨c, happend, hcb.constants, hcb.flatten_eq⟩

/-- A constant, a group, and a register as a template. -/
def includedLines : List Node :=
  [⟨1, "LIMIT = 3", [], []⟩, portLine, ⟨5, ":CFG RW", [], [⟨6, ".EN", [], []⟩]⟩]

/-- A source with a group, a constant and a register template, loaded first or written out with
colons in front of the source that uses them. -/
theorem addSource_shared_port :
    ∃ a b c, empty.addSource includedLines = .ok a ∧ a.addSource [systemLine portUse] = .ok b ∧
      empty.addSource (includedLines.map shared ++ [systemLine portUse]) = .ok c ∧
        c.constants = b.constants ∧ c.flatten = b.flatten := by
  have hloads : ((empty.addSource includedLines).toOption.bind
      fun a => (a.addSource [systemLine portUse]).toOption).isSome := by cbv
  obtain ⟨b, hb⟩ := Option.isSome_iff_exists.mp hloads
  obtain ⟨a, ha, hb⟩ := Option.bind_eq_some_iff.mp hb
  have hfirst := eq_ok_of_toOption ha
  have hsecond := eq_ok_of_toOption hb
  obtain ⟨c, hc, hconstants, hflatten⟩ := addSource_shared hfirst hsecond
  exact ⟨a, b, c, hfirst, hsecond, hc, hconstants, hflatten⟩

end Catalog
end DeviceRegisters.Definition
