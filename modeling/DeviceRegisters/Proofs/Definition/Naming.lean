import DeviceRegisters.Proofs.Definition.Inlining

/-!
# DeviceRegisters.Proofs.Definition.Naming

Names of templates and of groups.

No two templates have one name, and no two groups have one (`Unrepeated`).  A group does
not get the name of a template either, but a template can get the name of a group that
stands above it in the same source (`Retakes`): no line is checked against that.  If no
line does so, groups and templates have different names (`Distinct.addLines`), and that
is what decides whether the groups can become templates (`outcome_shelve`).
-/

namespace DeviceRegisters.Definition

open Outline (Node)

variable {library : Library} {name : String}

/-! ## libraries -/

namespace Library

/-- A library has the names of its templates. -/
theorem hasName_iff : library.hasName name = true ↔ ∃ t ∈ library, t.name = name := by
  induction library with
  | nil => simp [hasName, numberOf?]
  | cons first older ih =>
      have hcons : hasName (first :: older) name = true ↔
          first.name = name ∨ hasName older name = true := by
        unfold hasName
        rw [numberOf?]
        split
        · next hname => simp [hname]
        · next hname => simp [hname]
      rw [hcons, ih]
      simp

/-- A name is free if no template has it. -/
theorem hasName_eq_false_iff : library.hasName name = false ↔ ∀ t ∈ library, t.name ≠ name := by
  rw [← Bool.not_eq_true, hasName_iff]
  simp

/-- The templates of a well-formed library have different names. -/
theorem WellFormed.nodup (h : library.WellFormed) : (library.map Template.name).Nodup := by
  induction h with
  | nil => exact List.nodup_nil
  | @cons t older _ hnew _ ih =>
      rw [List.map_cons, List.nodup_cons]
      constructor
      · intro hmem
        obtain ⟨other, hother, hname⟩ := List.mem_map.mp hmem
        exact hasName_eq_false_iff.mp hnew other hother hname
      · exact ih

end Library

namespace Catalog

/-! ## names in lines -/

/-- The name in the line of a template. -/
def templateName? (node : Node) : Option String :=
  if isGroupLine (uncolon node) then groupName? (uncolon node)
  else (Text.wordsOf (uncolon node).text).head?

/-- The line makes a template of the name. -/
def Takes (node : Node) (name : String) : Prop :=
  node.text.toList.head? = some ':' ∧ templateName? node = some name

/-- The one line describes a group, and the other makes a template of the group's name. -/
def Retakes (above below : Node) : Prop :=
  isGroupLine above ∧ ∃ name, groupName? above = some name ∧ Takes below name

/-- A register has the first word of its line for a name. -/
theorem wordsOf_of_readRegister {offset : Nat} {wanted : List Access} {otherwise : Option Access}
    {node : Node} {r : Register} (h : readRegister offset wanted otherwise node = .ok r) :
    (Text.wordsOf node.text).head? = some r.name := by
  simp only [readRegister, readTokens, bind_eq_ok_iff] at h
  obtain ⟨⟨first, tokens⟩, hwords, _, _, _, _, h⟩ := h
  have hname : r.name = first := by
    -- one case for each way to settle the mode
    split at h
    all_goals
      simp only [bind_eq_ok_iff] at h
      obtain ⟨_, _, _, _, _, _, hr⟩ := h
      obtain rfl := Except.ok.inj hr
      rfl
  split at hwords
  · exact absurd hwords refuse_ne_ok
  · next token rest heq =>
    obtain ⟨rfl, rfl⟩ := Prod.mk.inj (Except.ok.inj hwords)
    rw [heq, hname]
    rfl

/-- A template that was read has the name in its line. -/
theorem templateName?_of_readTemplate {node : Node} {t : Template}
    (h : readTemplate library (uncolon node) = .ok t) : templateName? node = some t.name := by
  rw [readTemplate] at h
  rw [templateName?]
  split at h
  · next hbang =>
    obtain ⟨g, hg, h⟩ := bind_eq_ok_iff.mp h
    obtain rfl := Except.ok.inj h
    rw [if_pos (isGroupLine_iff.mpr hbang)]
    exact (readGroup_eq_ok hg).1
  · next hbang =>
    obtain ⟨r, hr, h⟩ := bind_eq_ok_iff.mp h
    obtain rfl := Except.ok.inj h
    rw [if_neg (fun hline => hbang (isGroupLine_iff.mp hline))]
    exact wordsOf_of_readRegister hr

/-! ## lines -/

variable {c c' : Catalog} {node : Node}

/-- A name is no group's if all groups have other names. -/
theorem group?_eq_none_iff : c.group? name = none ↔ ∀ g ∈ c.groups, g.name ≠ name := by
  simp [group?]

/-- What a line at the top can do: it adds a template of a new name, or a group of a name that
neither a template nor a group has, or neither of them. -/
theorem addLine_cases (h : c.addLine node = .ok c') :
    (∃ t, Takes node t.name ∧ c.library.hasName t.name = false ∧
      c' = { c with library := t :: c.library }) ∨
    (∃ g, isGroupLine node ∧ groupName? node = some g.name ∧ (∀ other ∈ c.groups, other.name ≠ g.name) ∧
      c.library.hasName g.name = false ∧ c' = { c with groups := c.groups ++ [g] }) ∨
    (c'.library = c.library ∧ c'.groups = c.groups) := by
  rw [addLine] at h
  split at h
  · next cs hcolon =>
    obtain ⟨t, ht, h⟩ := bind_eq_ok_iff.mp h
    rw [Library.add?] at h
    split at h
    · next larger hadd =>
      obtain rfl := Except.ok.inj h
      split at hadd
      · contradiction
      · next hnew =>
        obtain rfl := Option.some.inj hadd
        have htakes : Takes node t.name := by
          constructor
          · rw [hcolon]
            rfl
          · exact templateName?_of_readTemplate ht
        exact .inl ⟨t, htakes, by simpa using hnew, rfl⟩
    · exact absurd h refuse_ne_ok
  · next cs hbang =>
    obtain ⟨g, hg, h⟩ := bind_eq_ok_iff.mp h
    split at h
    · exact absurd h refuse_ne_ok
    · next hfree =>
      obtain rfl := Except.ok.inj h
      rw [Bool.or_eq_true, not_or, Bool.not_eq_true, Bool.not_eq_true, Option.isSome_eq_false_iff,
        Option.isNone_iff_eq_none, group?_eq_none_iff] at hfree
      have hline : isGroupLine node := by
        rw [isGroupLine_iff, hbang]
        rfl
      exact .inr (.inl ⟨g, hline, (readGroup_eq_ok hg).1, hfree.1, hfree.2, rfl⟩)
  · split at h
    · simp only [addConstant, bind_eq_ok_iff] at h
      obtain ⟨_, _, _, _, h⟩ := h
      split at h
      · exact absurd h refuse_ne_ok
      · split at h
        · exact absurd h refuse_ne_ok
        · obtain rfl := Except.ok.inj h
          exact .inr (.inr ⟨rfl, rfl⟩)
    · exact absurd h refuse_ne_ok

/-! ## groups among each other -/

/-- The groups have different names. -/
def Unrepeated (c : Catalog) : Prop := (c.groups.map Group.name).Nodup

/-- A line that is taken repeats no group. -/
theorem Unrepeated.addLine (h : c.Unrepeated) (hadd : c.addLine node = .ok c') : c'.Unrepeated := by
  unfold Unrepeated at h ⊢
  obtain ⟨t, -, -, rfl⟩ | ⟨g, -, -, hnew, -, rfl⟩ | ⟨-, hgroups⟩ := addLine_cases hadd
  · exact h
  · rw [List.map_append, List.nodup_append]
    refine ⟨h, List.nodup_singleton _, fun a ha b hb => ?_⟩
    obtain ⟨other, hother, rfl⟩ := List.mem_map.mp ha
    rw [List.mem_singleton.mp hb]
    exact hnew other hother
  · rw [hgroups]
    exact h

/-- The groups of a source have different names. -/
theorem Unrepeated.addLines {nodes : List Node} (h : c.Unrepeated)
    (hadd : c.addLines nodes = .ok c') : c'.Unrepeated := by
  induction nodes generalizing c with
  | nil =>
      obtain rfl := Except.ok.inj hadd
      exact h
  | cons node nodes ih =>
      obtain ⟨next, hline, hadd⟩ := bind_eq_ok_iff.mp hadd
      exact ih (h.addLine hline) hadd

/-- After a source has been taken no group is repeated. -/
theorem unrepeated_of_addSource {nodes : List Node} (hadd : c.addSource nodes = .ok c') :
    c'.Unrepeated := by
  obtain ⟨library, -, hlines⟩ := bind_eq_ok_iff.mp hadd
  exact Unrepeated.addLines (c := ⟨library, [], c.constants⟩) List.nodup_nil hlines

/-! ## groups and templates -/

/-- No group has the name of a template. -/
def Distinct (c : Catalog) : Prop := ∀ g ∈ c.groups, ∀ t ∈ c.library, t.name ≠ g.name

/-- Lines keep the names of groups and templates apart, unless a line makes a template of the
name of a group above it. -/
theorem Distinct.addLines {nodes : List Node} (h : c.Distinct)
    (hspared : ∀ g ∈ c.groups, ∀ node ∈ nodes, ¬ Takes node g.name)
    (hnodes : nodes.Pairwise fun above below => ¬ Retakes above below)
    (hadd : c.addLines nodes = .ok c') : c'.Distinct := by
  induction nodes generalizing c with
  | nil =>
      obtain rfl := Except.ok.inj hadd
      exact h
  | cons node nodes ih =>
      obtain ⟨next, hline, hadd⟩ := bind_eq_ok_iff.mp hadd
      obtain ⟨hbelow, hnodes⟩ := List.pairwise_cons.mp hnodes
      have hlater : ∀ g ∈ c.groups, ∀ node ∈ nodes, ¬ Takes node g.name :=
        fun g hg other hother => hspared g hg other (List.mem_cons_of_mem _ hother)
      obtain ⟨t, htakes, -, rfl⟩ | ⟨g, hgroup, hname, -, hnew, rfl⟩ | ⟨hlibrary, hgroups⟩ :=
        addLine_cases hline
      · have hnext : Distinct { c with library := t :: c.library } := by
          intro g hg
          refine List.forall_mem_cons.mpr ⟨fun heq => ?_, h g hg⟩
          rw [heq] at htakes
          exact hspared g hg node List.mem_cons_self htakes
        exact ih hnext hlater hnodes hadd
      · refine ih (fun other hother => ?_) (fun other hother => ?_) hnodes hadd
        · rcases List.mem_append.mp hother with hother | hother
          · exact h other hother
          · obtain rfl := List.mem_singleton.mp hother
            exact Library.hasName_eq_false_iff.mp hnew
        · rcases List.mem_append.mp hother with hother | hother
          · exact hlater other hother
          · obtain rfl := List.mem_singleton.mp hother
            exact fun below hmem htakes => hbelow below hmem ⟨hgroup, other.name, hname, htakes⟩
      · refine ih ?_ ?_ hnodes hadd
        · unfold Distinct
          rw [hlibrary, hgroups]
          exact h
        · rw [hgroups]
          exact hlater

/-- So do the lines of a source. -/
theorem distinct_of_addSource {nodes : List Node}
    (hnodes : nodes.Pairwise fun above below => ¬ Retakes above below)
    (hadd : c.addSource nodes = .ok c') : c'.Distinct := by
  obtain ⟨library, -, hlines⟩ := bind_eq_ok_iff.mp hadd
  exact Distinct.addLines (c := ⟨library, [], c.constants⟩) nofun nofun hnodes hlines

/-! ## groups that become templates -/

/-- Groups of different names become templates if none of them has the name of a template; else
the name of one that has is the error. -/
theorem outcome_shelve (library : Library) {groups : List Group}
    (hgroups : (groups.map Group.name).Nodup) :
    Outcome (fun _ => ∀ g ∈ groups, ∀ t ∈ library, t.name ≠ g.name)
      (fun e => ∃ g ∈ groups, (∃ t ∈ library, t.name = g.name) ∧
        e = .duplicateName templateScope g.name)
      (shelve library groups) := by
  induction groups generalizing library with
  | nil => exact .ok (by simp)
  | cons first groups ih =>
      rw [List.map_cons, List.nodup_cons] at hgroups
      have hfirst : ∀ g ∈ groups, first.name ≠ g.name :=
        fun g hg heq => hgroups.1 (List.mem_map.mpr ⟨g, hg, heq.symm⟩)
      have hadd : library.add? (.group first) =
          if library.hasName first.name then none else some (.group first :: library) := rfl
      rw [shelve, hadd]
      cases htaken : library.hasName first.name with
      | true => exact ⟨first, List.mem_cons_self, Library.hasName_iff.mp htaken, rfl⟩
      | false =>
          have hrest := ih (.group first :: library) hgroups.2
          show Outcome _ _ (shelve (.group first :: library) groups)
          cases hshelve : shelve (.group first :: library) groups with
          | ok larger =>
              refine List.forall_mem_cons.mpr ⟨Library.hasName_eq_false_iff.mp htaken, fun g hg t ht => ?_⟩
              exact hrest.of_ok hshelve g hg t (List.mem_cons_of_mem _ ht)
          | error e =>
              obtain ⟨g, hg, ⟨t, ht, hname⟩, he⟩ := hrest.of_error hshelve
              rcases List.mem_cons.mp ht with rfl | ht
              · exact absurd hname (hfirst g hg)
              · exact ⟨g, List.mem_cons_of_mem _ hg, ⟨t, ht, hname⟩, he⟩

end Catalog
end DeviceRegisters.Definition
