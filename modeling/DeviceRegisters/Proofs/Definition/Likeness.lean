import Mathlib.Data.List.Forall2
import DeviceRegisters.Proofs.Definition.Growth

/-!
# DeviceRegisters.Proofs.Definition.Likeness

Descriptions that expand to the same.

Entries are alike if they take the same addresses and expand alike, groups if
moreover the same is said of them, libraries if they have like templates under the
same numbers and names, and so on up to catalogs.  A line that is added to catalogs
alike is refused by both, or leaves them alike (`matches_addLine`), and so is a
source (`matches_addSource`).  In the end they expand to the same
(`Catalog.Alike.flatten_eq`).
-/

namespace DeviceRegisters.Definition

open Outline (Node)

variable {library library' newer : Library} {find : Nat → Option Instance}

/-! ## instances -/

/-- `find` gives the templates of the library as their uses see them. -/
def Agrees (library : Library) (find : Nat → Option Instance) : Prop :=
  ∀ number < library.length, find number = library.instance? number

/-- A library with more in front serves the uses of its own templates as before. -/
theorem agrees_instance? (newer library : Library) :
    Agrees library (Library.instance? (newer ++ library)) := by
  intro number hnumber
  induction newer with
  | nil => rfl
  | cons t newer ih =>
      have hne : number ≠ (newer ++ library).length := by
        rw [List.length_append]
        omega
      simp only [List.cons_append, Library.instance?, if_neg hne]
      exact ih

/-- What serves a larger library serves the one that it was made from. -/
theorem Agrees.of_append (h : Agrees (newer ++ library) find) : Agrees library find := by
  intro number hnumber
  have hlarger := h number (by rw [List.length_append]; omega)
  rw [hlarger, agrees_instance? newer library number hnumber]

theorem Agrees.of_cons {t : Template} (h : Agrees (t :: library) find) : Agrees library find := by
  have happended : Agrees ([t] ++ library) find := h
  exact happended.of_append

/-! ## entries and groups -/

/-- Entries that take the same addresses and expand alike. -/
structure Entry.Alike (library : Library) (e e' : Entry) : Prop where
  span : e'.span = e.span
  isBank : e'.isBank = e.isBank
  expand : ∀ find, Agrees library find → ∀ shift, expandEntry find shift e' = expandEntry find shift e

/-- Lists of entries that take the same addresses and expand alike. -/
structure ContentAlike (library : Library) (es es' : List Entry) : Prop where
  totalSpan : totalSpan es' = totalSpan es
  greatestSpan : greatestSpan es' = greatestSpan es
  expand : ∀ find, Agrees library find → ∀ shift,
    expandEntries find shift es' = expandEntries find shift es

/-- Groups of which the same is said, and whose contents expand alike. -/
structure Group.Alike (library : Library) (g g' : Group) : Prop where
  head : g'.head = g.head
  expand : ∀ find, Agrees library find → ∀ shift,
    expandEntries find shift g'.content = expandEntries find shift g.content

/-- An entry is like itself. -/
theorem Entry.Alike.refl (library : Library) (e : Entry) : e.Alike library e :=
  ⟨rfl, rfl, fun _ _ _ => rfl⟩

theorem ContentAlike.refl (library : Library) (es : List Entry) : ContentAlike library es es :=
  ⟨rfl, rfl, fun _ _ _ => rfl⟩

theorem Group.Alike.refl (library : Library) (g : Group) : g.Alike library g :=
  ⟨rfl, fun _ _ _ => rfl⟩

/-- A like entry in front of like content is like content. -/
theorem ContentAlike.cons {e e' : Entry} {es es' : List Entry} (he : e.Alike library e')
    (hes : ContentAlike library es es') : ContentAlike library (e :: es) (e' :: es') where
  totalSpan := by simp only [Definition.totalSpan, he.span, hes.totalSpan]
  greatestSpan := by simp only [Definition.greatestSpan, he.span, hes.greatestSpan]
  expand find hfind shift := by
    simp only [expandEntries, he.expand find hfind shift, hes.expand find hfind shift]

/-- Groups stay alike when there are more templates. -/
theorem Group.Alike.append {g g' : Group} (h : g.Alike library g') (newer : Library) :
    g.Alike (newer ++ library) g' :=
  ⟨h.head, fun find hfind => h.expand find hfind.of_append⟩

/-- Groups alike have one name. -/
theorem Group.Alike.name {g g' : Group} (h : g.Alike library g') : g'.name = g.name := by
  rw [Group.name, h.head, Group.name]

/-! ## libraries -/

/-- Templates that their uses see alike. -/
inductive Template.Alike (library : Library) : Template → Template → Prop where
  | register (r : Register) : Alike library (.register r) (.register r)
  | group {g g' : Group} : g.Alike library g' → Alike library (.group g) (.group g')

/-- A template is like itself, whatever it holds. -/
theorem Template.Alike.refl (library : Library) : (t : Template) → t.Alike library t
  | .register r => .register r
  | .group g => .group (.refl library g)

namespace Template.Alike

variable {t t' : Template}

/-- Templates alike have one name. -/
theorem name (h : t.Alike library t') : t'.name = t.name := by
  cases h with
  | register r => rfl
  | group hg => exact hg.name

/-- Templates alike offer the same to their uses. -/
theorem offer (h : t.Alike library t') (number : Nat) : t'.offer number = t.offer number := by
  cases h with
  | register r => rfl
  | group hg => simp only [Template.offer, hg.head]

/-- Templates alike expand to the same where the library before them is served. -/
theorem toInstance (h : t.Alike library t') (hfind : Agrees library find) :
    t'.toInstance find = t.toInstance find := by
  cases h with
  | register r => rfl
  | group hg => simp only [Template.toInstance, hg.head, hg.expand find hfind]

end Template.Alike

/-- Libraries with like templates under the same numbers. -/
inductive Library.Alike : Library → Library → Prop where
  | nil : Alike [] []
  | cons {t t' : Template} {library library' : Library} :
      t.Alike library t' → Alike library library' → Alike (t :: library) (t' :: library')

theorem Library.Alike.refl : (library : Library) → library.Alike library
  | [] => .nil
  | t :: older => .cons (.refl older t) (Alike.refl older)

namespace Library.Alike

/-- Libraries alike hold as many templates. -/
theorem length_eq (h : library.Alike library') : library'.length = library.length := by
  induction h with
  | nil => rfl
  | cons _ _ ih => simp only [List.length_cons, ih]

/-- A name has the same number in libraries alike. -/
theorem numberOf?_eq (h : library.Alike library') (name : String) :
    library'.numberOf? name = library.numberOf? name := by
  induction h with
  | nil => rfl
  | cons ht hlibrary ih => simp only [numberOf?, ht.name, hlibrary.length_eq, ih]

theorem hasName_eq (h : library.Alike library') (name : String) :
    library'.hasName name = library.hasName name := by
  rw [hasName, h.numberOf?_eq, hasName]

/-- Under each number libraries alike offer the same. -/
theorem map_offer_get? (h : library.Alike library') (number : Nat) :
    (library'.get? number).map (·.offer number) = (library.get? number).map (·.offer number) := by
  induction h with
  | nil => rfl
  | cons ht hlibrary ih =>
      simp only [get?, hlibrary.length_eq]
      split
      · simp only [Option.map_some, ht.offer]
      · exact ih

/-- A name is offered the same way in libraries alike. -/
theorem offer?_eq (h : library.Alike library') (key : String) :
    library'.offer? key = library.offer? key := by
  simp only [offer?, h.numberOf?_eq, h.map_offer_get?]

/-- Libraries alike serve expansion alike. -/
theorem instance?_eq (h : library.Alike library') : library'.instance? = library.instance? := by
  induction h with
  | nil => rfl
  | @cons t t' library library' ht hlibrary ih =>
      have ht := ht.toInstance (agrees_instance? [] library)
      rw [List.nil_append] at ht
      funext number
      simp only [instance?, hlibrary.length_eq, ih, ht]

/-- Libraries alike cover each other. -/
theorem coveredBy (h : library.Alike library') :
    library.CoveredBy library' ∧ library'.CoveredBy library := by
  constructor
  · exact fun key offer hoffer => (h.offer?_eq key).trans hoffer
  · exact fun key offer hoffer => (h.offer?_eq key).symm.trans hoffer

/-- Both libraries take a template, or neither does. -/
theorem matches_add? (h : library.Alike library') {t t' : Template} (ht : t.Alike library t') :
    (library.add? t = none ∧ library'.add? t' = none) ∨
      (library.add? t = some (t :: library) ∧ library'.add? t' = some (t' :: library')) := by
  simp only [add?, ht.name, h.hasName_eq]
  split
  · exact .inl ⟨rfl, rfl⟩
  · exact .inr ⟨rfl, rfl⟩

end Library.Alike

/-! ## catalogs -/

namespace Catalog

/-- Catalogs with like libraries and like groups, and the same constants. -/
structure Alike (c c' : Catalog) : Prop where
  library : c.library.Alike c'.library
  groups : List.Forall₂ (Group.Alike c.library) c.groups c'.groups
  constants : c'.constants = c.constants

variable {P : Prop} {c c' : Catalog}

/-- If `P` holds, both computations fail or they give catalogs alike. -/
abbrev MatchesAlike (P : Prop) (x y : Except Error Catalog) : Prop :=
  Matches P Alike (fun _ => False) x y

theorem Alike.refl (c : Catalog) : c.Alike c :=
  ⟨.refl c.library, List.forall₂_same.mpr fun g _ => .refl c.library g, rfl⟩

/-- The same names are taken by groups that are alike one by one. -/
theorem find?_isSome_of_alike {library : Library} {groups groups' : List Group}
    (h : List.Forall₂ (Group.Alike library) groups groups') (name : String) :
    (groups'.find? (·.name = name)).isSome = (groups.find? (·.name = name)).isSome := by
  induction h with
  | nil => rfl
  | cons hg _ ih =>
      simp only [List.find?_cons, hg.name]
      split
      · rfl
      · exact ih

/-! ## lines -/

/-- A template line is refused by catalogs alike, or leaves them alike. -/
theorem matches_addTemplate (h : c.Alike c') (node : Node) :
    MatchesAlike P (c.addTemplate node) (c'.addTemplate node) := by
  obtain ⟨hcovered, hcovered'⟩ := h.library.coveredBy
  simp only [addTemplate]
  refine (Matches.of_iff fun t => ⟨readTemplate_eq_ok_of_covered hcovered,
    readTemplate_eq_ok_of_covered hcovered'⟩).bind_sure ?_
  rintro _ t rfl
  rcases h.library.matches_add? (.refl c.library t) with ⟨hadd, hadd'⟩ | ⟨hadd, hadd'⟩
  · rw [hadd, hadd']
    trivial
  · rw [hadd, hadd']
    exact .ok ⟨.cons (.refl c.library t) h.library, h.groups.imp fun _ _ hg => hg.append [t],
      h.constants⟩

/-- So it is with the line of a group. -/
theorem matches_addGroup (h : c.Alike c') (node : Node) :
    MatchesAlike P (c.addGroup node) (c'.addGroup node) := by
  obtain ⟨hcovered, hcovered'⟩ := h.library.coveredBy
  simp only [addGroup]
  refine (Matches.of_iff fun g => ⟨readGroup_eq_ok_of_covered hcovered,
    readGroup_eq_ok_of_covered hcovered'⟩).bind_sure ?_
  rintro _ g rfl
  refine .ite ?_ (fun _ => trivial) (fun _ => .ok ?_)
  · simp only [group?, find?_isSome_of_alike h.groups, h.library.hasName_eq]
  · exact ⟨h.library, List.rel_append h.groups (.cons (.refl c.library g) .nil), h.constants⟩

/-- So it is with a constant, since the names that are taken are the same. -/
theorem matches_addConstant (h : c.Alike c') (node : Node) :
    MatchesAlike P (c.addConstant node) (c'.addConstant node) := by
  simp only [addConstant, constant?, h.constants]
  refine .bind_same fun _ => .bind_same fun _ => ?_
  cases Numeral.parse (Text.trim ((node.text.toList.dropWhile (· ≠ '=')).drop 1)) with
  | error problem => trivial
  | ok value =>
      exact .ite Iff.rfl (fun _ => trivial) fun _ => .ok ⟨h.library, h.groups, rfl⟩

/-- Any line is refused by both of two catalogs alike, or leaves them alike. -/
theorem matches_addLine (h : c.Alike c') (node : Node) :
    MatchesAlike P (c.addLine node) (c'.addLine node) := by
  simp only [addLine]
  split
  · exact matches_addTemplate h node
  · exact matches_addGroup h node
  · split
    · exact matches_addConstant h node
    · trivial

/-- So are lines that are added in order. -/
theorem matches_addLines (h : c.Alike c') (nodes : List Node) :
    MatchesAlike P (c.addLines nodes) (c'.addLines nodes) := by
  induction nodes generalizing c c' with
  | nil => exact h
  | cons node nodes ih => exact (matches_addLine h node).bind_sure fun _ _ hnext => ih hnext

/-! ## sources -/

/-- Like groups become like templates. -/
theorem matches_shelve (newer : Library) {library library' : Library} {groups groups' : List Group}
    (hlibrary : (newer ++ library).Alike library')
    (hgroups : List.Forall₂ (Group.Alike library) groups groups') :
    Matches P Library.Alike (fun _ => False) (shelve (newer ++ library) groups)
      (shelve library' groups') := by
  induction hgroups generalizing newer library' with
  | nil => exact .ok hlibrary
  | @cons g g' groups groups' hg _ ih =>
      have ht : Template.Alike (newer ++ library) (.group g) (.group g') := .group (hg.append newer)
      simp only [shelve]
      rcases hlibrary.matches_add? ht with ⟨hadd, hadd'⟩ | ⟨hadd, hadd'⟩
      · rw [hadd, hadd']
        trivial
      · rw [hadd, hadd']
        exact ih (.group g :: newer) (.cons ht hlibrary)

/-- So is a source, whose groups are shelved after its lines. -/
theorem matches_addSource (h : c.Alike c') (nodes : List Node) :
    MatchesAlike P (c.addSource nodes) (c'.addSource nodes) := by
  refine (matches_shelve [] h.library h.groups).bind_sure fun library library' hlibrary => ?_
  have hstart : Alike ⟨library, [], c.constants⟩ ⟨library', [], c'.constants⟩ :=
    ⟨hlibrary, .nil, h.constants⟩
  exact matches_addLines hstart nodes

/-- So are sources that are added in order. -/
theorem matches_addSources (h : c.Alike c') (sources : List (List Node)) :
    MatchesAlike P (c.addSources sources) (c'.addSources sources) := by
  induction sources generalizing c c' with
  | nil => exact h
  | cons nodes sources ih => exact (matches_addSource h nodes).bind_sure fun _ _ hnext => ih hnext

/-! ## expansion -/

/-- Groups alike expand to the same with libraries alike. -/
theorem expand_eq_of_alike {library library' : Library} {g g' : Group}
    (hlibrary : library.Alike library') (hg : g.Alike library g') (shift : Nat) :
    g'.expand library' shift = g.expand library shift := by
  have hfind : Agrees library library.instance? := agrees_instance? [] library
  simp only [Group.expand, Group.entry, expandEntry, hlibrary.instance?_eq, hg.head,
    hg.expand _ hfind, Group.name]

/-- Lists of groups alike expand to the same, up to the first error. -/
theorem expandGroups_eq_of_alike {library library' : Library} {groups groups' : List Group}
    (hlibrary : library.Alike library') (h : List.Forall₂ (Group.Alike library) groups groups') :
    expandGroups library' groups' = expandGroups library groups := by
  induction h with
  | nil => rfl
  | cons hg _ ih => simp only [expandGroups, expand_eq_of_alike hlibrary hg, ih]

/-- Catalogs alike expand to the same. -/
theorem Alike.flatten_eq (h : c.Alike c') : c'.flatten = c.flatten := by
  rw [flatten, flatten, expandGroups_eq_of_alike h.library h.groups, h.constants]

end Catalog
end DeviceRegisters.Definition
