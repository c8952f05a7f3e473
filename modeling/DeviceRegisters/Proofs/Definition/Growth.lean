import DeviceRegisters.Proofs.Definition.Catalog
import DeviceRegisters.Proofs.Definition.Moving

/-!
# DeviceRegisters.Proofs.Definition.Growth

What reading does to what was read before: nothing.

Templates keep their numbers, and names their meaning (`Library.GrowsTo`).  So a line
that described a group can be found later on: its group waits to become a template
(`Catalog.Awaits`), or is one (`Library.Defines`).
-/

namespace DeviceRegisters.Definition

open Outline (Node)

/-! ## libraries -/

namespace Library

/-- The larger library has the templates and the names of the library. -/
structure GrowsTo (library larger : Library) : Prop where
  within : library.Within larger
  covered : library.CoveredBy larger

variable {library larger largest : Library}

theorem GrowsTo.refl (library : Library) : library.GrowsTo library :=
  ⟨fun _ _ h => h, .refl library⟩

/-- A library that grows to another one grows to what that one grows to. -/
theorem GrowsTo.trans (h : library.GrowsTo larger) (h' : larger.GrowsTo largest) :
    library.GrowsTo largest :=
  ⟨fun n t ht => h'.within n t (h.within n t ht), h.covered.trans h'.covered⟩

/-- A library grows by a template of a new name. -/
theorem growsTo_of_add? {t : Template} (h : library.add? t = some larger) :
    library.GrowsTo larger ∧ larger.get? library.length = some t := by
  simp only [add?] at h
  split at h
  · contradiction
  · next hnew =>
    obtain rfl := Option.some.inj h
    have hwithin := within_cons t library
    refine ⟨⟨hwithin, ?_⟩, by simp [get?]⟩
    intro key offer hoffer
    obtain ⟨number, found, hnumber, hfound, hoffer⟩ := offer?_eq_some_iff.mp hoffer
    have hne : t.name ≠ key := by
      rintro rfl
      simp [hasName, hnumber] at hnew
    have hnumber' : numberOf? key (t :: library) = some number := by
      rw [numberOf?, if_neg hne, hnumber]
    exact offer?_eq_some_iff.mpr ⟨number, found, hnumber', hwithin number found hfound, hoffer⟩

/-- A group of the library was read from a line. -/
def Defines (library : Library) (line : Node) (number : Nat) (g : Group) : Prop :=
  library.get? number = some (.group g) ∧
    ∃ older : Library, older.CoveredBy library ∧ readGroup older line = .ok g

/-- What a library defines a larger one defines too. -/
theorem Defines.mono {line : Node} {number : Nat} {g : Group} (h : library.Defines line number g)
    (hgrows : library.GrowsTo larger) : larger.Defines line number g := by
  obtain ⟨hget, older, hcovered, hread⟩ := h
  exact ⟨hgrows.within number _ hget, older, hcovered.trans hgrows.covered, hread⟩

end Library

namespace Catalog

/-- The larger catalog has everything that is in the catalog. -/
structure GrowsTo (c larger : Catalog) : Prop where
  library : c.library.GrowsTo larger.library
  groups : c.groups ⊆ larger.groups

/-- A group of the catalog was read from a line. -/
def Awaits (c : Catalog) (line : Node) : Prop :=
  ∃ g ∈ c.groups, ∃ older : Library, older.CoveredBy c.library ∧ readGroup older line = .ok g

variable {c c' : Catalog} {line : Node}

/-- A line that is waited for is still waited for when the catalog has grown. -/
theorem Awaits.mono (h : c.Awaits line) (hgrows : c.GrowsTo c') : c'.Awaits line := by
  obtain ⟨g, hg, older, hcovered, hread⟩ := h
  exact ⟨g, hgrows.groups hg, older, hcovered.trans hgrows.library.covered, hread⟩

/-- The line without the colon in front of it. -/
def uncolon (node : Node) : Node := { node with text := String.ofList (node.text.toList.drop 1) }

/-! ## lines -/

/-- A template line that is taken makes the catalog grow. -/
theorem growsTo_addTemplate {node : Node} (h : c.addTemplate node = .ok c') : c.GrowsTo c' := by
  obtain ⟨t, -, h⟩ := bind_eq_ok_iff.mp h
  split at h
  · next library hadd =>
    obtain rfl := Except.ok.inj h
    exact ⟨(Library.growsTo_of_add? hadd).1, List.Subset.refl _⟩
  · exact absurd h refuse_ne_ok

/-- A group is in the catalog once its line was read. -/
theorem growsTo_addGroup {node : Node} (h : c.addGroup node = .ok c') :
    c.GrowsTo c' ∧ c'.Awaits node := by
  obtain ⟨g, hg, h⟩ := bind_eq_ok_iff.mp h
  split at h
  · exact absurd h refuse_ne_ok
  · obtain rfl := Except.ok.inj h
    refine ⟨⟨.refl c.library, List.subset_append_left _ _⟩, g, by simp, c.library, ?_, hg⟩
    exact .refl c.library

/-- A constant that is taken does not touch templates and groups. -/
theorem growsTo_addConstant {node : Node} (h : c.addConstant node = .ok c') : c.GrowsTo c' := by
  simp only [addConstant, bind_eq_ok_iff] at h
  obtain ⟨_, _, _, _, h⟩ := h
  split at h
  · exact absurd h refuse_ne_ok
  · split at h
    · exact absurd h refuse_ne_ok
    · obtain rfl := Except.ok.inj h
      exact ⟨.refl c.library, List.Subset.refl _⟩

/-- A line that is taken makes the catalog grow. -/
theorem growsTo_addLine {node : Node} (h : c.addLine node = .ok c') : c.GrowsTo c' := by
  simp only [addLine] at h
  split at h
  · exact growsTo_addTemplate h
  · exact (growsTo_addGroup h).1
  · split at h
    · exact growsTo_addConstant h
    · exact absurd h refuse_ne_ok

/-- So do lines that are taken in order. -/
theorem growsTo_addLines {nodes : List Node} (h : c.addLines nodes = .ok c') : c.GrowsTo c' := by
  induction nodes generalizing c with
  | nil =>
      obtain rfl := Except.ok.inj h
      exact ⟨.refl c.library, List.Subset.refl _⟩
  | cons node nodes ih =>
      obtain ⟨next, hline, hrest⟩ := bind_eq_ok_iff.mp h
      have hfirst := growsTo_addLine hline
      have hlater := ih hrest
      exact ⟨hfirst.library.trans hlater.library, List.Subset.trans hfirst.groups hlater.groups⟩

/-! ## lines that describe groups -/

/-- Whether a line describes a group that becomes a template with the next source. -/
def isGroupLine (node : Node) : Bool := node.text.toList.head? = some '!'

/-- Whether a line describes a group as a template. -/
def isGroupTemplateLine (node : Node) : Bool :=
  node.text.toList.head? = some ':' && isGroupLine (uncolon node)

/-- The line of a group starts with an exclamation mark. -/
theorem isGroupLine_iff {node : Node} :
    isGroupLine node = true ↔ node.text.toList.head? = some '!' := by
  rw [isGroupLine, decide_eq_true_eq]

/-- The line of a group template starts with a colon and an exclamation mark. -/
theorem isGroupTemplateLine_iff {node : Node} :
    isGroupTemplateLine node = true ↔
      node.text.toList.head? = some ':' ∧ (uncolon node).text.toList.head? = some '!' := by
  rw [isGroupTemplateLine, Bool.and_eq_true, decide_eq_true_eq, isGroupLine_iff]

/-- A line that describes a group is added as one. -/
theorem addLine_group {node : Node} (hline : isGroupLine node) : c.addLine node = c.addGroup node := by
  obtain ⟨cs, hcs⟩ := List.head?_eq_some_iff.mp (isGroupLine_iff.mp hline)
  simp only [addLine, hcs]

/-- A line that describes a group as a template is added as one. -/
theorem addLine_groupTemplate {node : Node} (hline : isGroupTemplateLine node) :
    c.addLine node = (do
      let g ← readGroup c.library (uncolon node)
      match c.library.add? (.group g) with
      | some library => .ok { c with library }
      | none => refuse (.repeatedTemplate g.name) node.number) := by
  obtain ⟨hcolon, hgroup⟩ := isGroupTemplateLine_iff.mp hline
  obtain ⟨cs, hcs⟩ := List.head?_eq_some_iff.mp hcolon
  have hread : readTemplate c.library (uncolon node) =
      readGroup c.library (uncolon node) >>= fun g => .ok (.group g) := if_pos hgroup
  have hadd : c.addLine node = readTemplate c.library (uncolon node) >>= fun t =>
      match c.library.add? t with
      | some library => .ok { c with library }
      | none => refuse (.repeatedTemplate t.name) node.number := by
    simp only [addLine, hcs]
    rfl
  rw [hadd, hread, bind_assoc]
  rfl

/-- The group of a line that was taken waits to become a template. -/
theorem awaits_of_addLine (hline : isGroupLine line) (h : c.addLine line = .ok c') :
    c'.Awaits line := by
  rw [addLine_group hline] at h
  exact (growsTo_addGroup h).2

/-- A group template is defined as soon as its line was taken. -/
theorem defines_of_addLine (hline : isGroupTemplateLine line) (h : c.addLine line = .ok c') :
    ∃ number g, c'.library.Defines (uncolon line) number g := by
  rw [addLine_groupTemplate hline] at h
  obtain ⟨g, hg, h⟩ := bind_eq_ok_iff.mp h
  split at h
  · next library hadd =>
    obtain rfl := Except.ok.inj h
    obtain ⟨hgrows, hget⟩ := Library.growsTo_of_add? hadd
    exact ⟨_, g, hget, c.library, hgrows.covered, hg⟩
  · exact absurd h refuse_ne_ok

/-- Of lines taken in order each one of a group waits at the end. -/
theorem awaits_of_addLines {nodes : List Node} (hmem : line ∈ nodes) (hline : isGroupLine line)
    (h : c.addLines nodes = .ok c') : c'.Awaits line := by
  induction nodes generalizing c with
  | nil => simp at hmem
  | cons node nodes ih =>
      obtain ⟨next, hfirst, hrest⟩ := bind_eq_ok_iff.mp h
      rcases List.mem_cons.mp hmem with rfl | hmem
      · exact (awaits_of_addLine hline hfirst).mono (growsTo_addLines hrest)
      · exact ih hmem hrest

/-- Of lines taken in order each one of a group template is defined at the end. -/
theorem defines_of_addLines {nodes : List Node} (hmem : line ∈ nodes)
    (hline : isGroupTemplateLine line) (h : c.addLines nodes = .ok c') :
    ∃ number g, c'.library.Defines (uncolon line) number g := by
  induction nodes generalizing c with
  | nil => simp at hmem
  | cons node nodes ih =>
      obtain ⟨next, hfirst, hrest⟩ := bind_eq_ok_iff.mp h
      rcases List.mem_cons.mp hmem with rfl | hmem
      · obtain ⟨number, g, hdefines⟩ := defines_of_addLine hline hfirst
        exact ⟨number, g, hdefines.mono (growsTo_addLines hrest).library⟩
      · exact ih hmem hrest

/-! ## sources -/

/-- Groups become templates, and the library keeps what it has. -/
theorem growsTo_shelve {library larger : Library} {groups : List Group}
    (h : shelve library groups = .ok larger) :
    library.GrowsTo larger ∧ ∀ g ∈ groups, ∃ number, larger.get? number = some (.group g) := by
  induction groups generalizing library with
  | nil =>
      obtain rfl := Except.ok.inj h
      exact ⟨.refl library, by simp⟩
  | cons group groups ih =>
      simp only [shelve] at h
      split at h
      · next next hadd =>
        obtain ⟨hfirst, hget⟩ := Library.growsTo_of_add? hadd
        obtain ⟨hlater, hgroups⟩ := ih h
        refine ⟨hfirst.trans hlater, List.forall_mem_cons.mpr ⟨?_, hgroups⟩⟩
        exact ⟨_, hlater.within _ _ hget⟩
      · contradiction

/-- A group that waits is a template once the groups were made templates. -/
theorem Awaits.defines {library : Library} (h : c.Awaits line)
    (hshelve : shelve c.library c.groups = .ok library) :
    ∃ number g, library.Defines line number g := by
  obtain ⟨g, hg, older, hcovered, hread⟩ := h
  obtain ⟨hgrows, hgroups⟩ := growsTo_shelve hshelve
  obtain ⟨number, hget⟩ := hgroups g hg
  exact ⟨number, g, hget, older, hcovered.trans hgrows.covered, hread⟩

/-- A line of which the group is a template, or waits to become one. -/
def Knows (c : Catalog) (line : Node) : Prop :=
  (∃ number g, c.library.Defines line number g) ∨ c.Awaits line

/-- Once the groups are shelved, a line that is known is defined. -/
theorem Knows.defines {library : Library} (h : c.Knows line)
    (hshelve : shelve c.library c.groups = .ok library) :
    ∃ number g, library.Defines line number g := by
  rcases h with ⟨number, g, hdefines⟩ | hawaits
  · exact ⟨number, g, hdefines.mono (growsTo_shelve hshelve).1⟩
  · exact hawaits.defines hshelve

/-- A source that is taken leaves known lines known. -/
theorem Knows.addSource {nodes : List Node} (h : c.Knows line)
    (hadd : c.addSource nodes = .ok c') : c'.Knows line := by
  obtain ⟨library, hshelve, hlines⟩ := bind_eq_ok_iff.mp hadd
  obtain ⟨number, g, hdefines⟩ := h.defines hshelve
  exact .inl ⟨number, g, hdefines.mono (growsTo_addLines hlines).library⟩

/-- Adds sources in order. -/
def addSources (c : Catalog) : List (List Node) → Except Error Catalog
  | [] => .ok c
  | nodes :: sources => do
    let c ← c.addSource nodes
    addSources c sources

/-- Sources that are taken leave a catalog well-formed. -/
theorem WellFormed.addSources (h : c.WellFormed) {sources : List (List Node)}
    (hadd : c.addSources sources = .ok c') : c'.WellFormed := by
  induction sources generalizing c with
  | nil =>
      obtain rfl := Except.ok.inj hadd
      exact h
  | cons nodes sources ih =>
      obtain ⟨next, hfirst, hrest⟩ := bind_eq_ok_iff.mp hadd
      exact ih (h.addSource hfirst) hrest

/-- A line stays known whatever sources are taken after it. -/
theorem Knows.addSources {sources : List (List Node)} (h : c.Knows line)
    (hadd : c.addSources sources = .ok c') : c'.Knows line := by
  induction sources generalizing c with
  | nil =>
      obtain rfl := Except.ok.inj hadd
      exact h
  | cons nodes sources ih =>
      obtain ⟨next, hfirst, hrest⟩ := bind_eq_ok_iff.mp hadd
      exact ih (h.addSource hfirst) hrest

/-- The lines that describe groups in sources that were added are known. -/
theorem knows_of_addSources {sources : List (List Node)} {source : List Node}
    (hsource : source ∈ sources) (hmem : line ∈ source) (hadd : c.addSources sources = .ok c') :
    (isGroupLine line → c'.Knows line) ∧ (isGroupTemplateLine line → c'.Knows (uncolon line)) := by
  induction sources generalizing c with
  | nil => simp at hsource
  | cons nodes sources ih =>
      obtain ⟨next, hfirst, hrest⟩ := bind_eq_ok_iff.mp hadd
      rcases List.mem_cons.mp hsource with rfl | hsource
      · obtain ⟨library, -, hlines⟩ := bind_eq_ok_iff.mp hfirst
        constructor
        · intro hline
          have hknown : next.Knows line := .inr (awaits_of_addLines hmem hline hlines)
          exact hknown.addSources hrest
        · intro hline
          have hknown : next.Knows (uncolon line) := .inl (defines_of_addLines hmem hline hlines)
          exact hknown.addSources hrest
      · exact ih hsource hrest

end Catalog
end DeviceRegisters.Definition
