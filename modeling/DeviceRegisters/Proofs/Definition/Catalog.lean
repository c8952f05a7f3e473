import DeviceRegisters.Definition.Catalog
import DeviceRegisters.Proofs.Definition.Library

/-!
# DeviceRegisters.Proofs.Definition.Catalog

Reading a source keeps a catalog well formed: one lemma for each kind of line,
then the run over the lines (`WellFormed.addLines`) and the source
(`WellFormed.addSource`).
-/

namespace DeviceRegisters.Definition.Catalog

open Outline (Node)

/-- The library is well formed, and the groups are laid out with its templates. -/
structure WellFormed (c : Catalog) : Prop where
  library : c.library.WellFormed
  groups : ∀ g ∈ c.groups, g.LaidOut c.library

/-- The catalog that nothing was loaded into is well-formed. -/
theorem wellFormed_empty : WellFormed empty := ⟨.nil, by simp [empty]⟩

/-! ## lines -/

/-- A template that is read is laid out with those before it. -/
theorem laidOut_of_readTemplate {library : Library} {node : Node} {t : Template}
    (h : readTemplate library node = .ok t) : t.LaidOut library := by
  simp only [readTemplate] at h
  split at h
  · obtain ⟨group, hgroup, ht⟩ := bind_eq_ok_iff.mp h
    obtain rfl := Except.ok.inj ht
    exact laidOut_of_readGroup hgroup
  · obtain ⟨register, hregister, ht⟩ := bind_eq_ok_iff.mp h
    obtain rfl := Except.ok.inj ht
    exact (readRegister_eq_ok hregister).2

variable {c c' : Catalog}

/-- Groups that were laid out stay so when a template comes. -/
theorem WellFormed.addTemplate (h : c.WellFormed) {node : Node}
    (hadd : c.addTemplate node = .ok c') : c'.WellFormed := by
  obtain ⟨t, ht, hadd⟩ := bind_eq_ok_iff.mp hadd
  split at hadd
  · next library hlibrary =>
    obtain rfl := Except.ok.inj hadd
    obtain ⟨hwell, hwithin⟩ := h.library.add (laidOut_of_readTemplate ht) hlibrary
    exact ⟨hwell, fun g hg => (h.groups g hg).mono hwithin⟩
  · exact absurd hadd refuse_ne_ok

/-- A new group is laid out with the templates so far. -/
theorem WellFormed.addGroup (h : c.WellFormed) {node : Node}
    (hadd : c.addGroup node = .ok c') : c'.WellFormed := by
  obtain ⟨group, hgroup, hadd⟩ := bind_eq_ok_iff.mp hadd
  split at hadd
  · exact absurd hadd refuse_ne_ok
  · obtain rfl := Except.ok.inj hadd
    refine ⟨h.library, fun g hg => ?_⟩
    rcases List.mem_append.mp hg with hg | hg
    · exact h.groups g hg
    · obtain rfl := List.mem_singleton.mp hg
      exact laidOut_of_readGroup hgroup

/-- A constant changes neither templates nor groups. -/
theorem WellFormed.addConstant (h : c.WellFormed) {node : Node}
    (hadd : c.addConstant node = .ok c') : c'.WellFormed := by
  simp only [Catalog.addConstant, bind_eq_ok_iff] at hadd
  obtain ⟨_, _, _, _, hadd⟩ := hadd
  split at hadd
  · exact absurd hadd refuse_ne_ok
  · split at hadd
    · exact absurd hadd refuse_ne_ok
    · obtain rfl := Except.ok.inj hadd
      exact ⟨h.library, h.groups⟩

/-- A line that is taken leaves a catalog well-formed. -/
theorem WellFormed.addLine (h : c.WellFormed) {node : Node}
    (hadd : c.addLine node = .ok c') : c'.WellFormed := by
  simp only [Catalog.addLine] at hadd
  split at hadd
  · exact h.addTemplate hadd
  · exact h.addGroup hadd
  · split at hadd
    · exact h.addConstant hadd
    · exact absurd hadd refuse_ne_ok

/-- A catalog stays well formed over a run of lines. -/
theorem WellFormed.addLines (h : c.WellFormed) {nodes : List Node}
    (hadd : c.addLines nodes = .ok c') : c'.WellFormed := by
  induction nodes generalizing c with
  | nil =>
      obtain rfl := Except.ok.inj hadd
      exact h
  | cons node nodes ih =>
      obtain ⟨next, hline, hadd⟩ := bind_eq_ok_iff.mp hadd
      exact ih (h.addLine hline) hadd

/-! ## sources -/

/-- Groups that become templates are laid out with the templates before them. -/
theorem shelve_wellFormed {library larger : Library} {groups : List Group}
    (h : library.WellFormed) (hgroups : ∀ g ∈ groups, g.LaidOut library)
    (hshelve : shelve library groups = .ok larger) : larger.WellFormed := by
  induction groups generalizing library with
  | nil =>
      obtain rfl := Except.ok.inj hshelve
      exact h
  | cons group groups ih =>
      obtain ⟨hgroup, hlater⟩ := List.forall_mem_cons.mp hgroups
      simp only [shelve] at hshelve
      split at hshelve
      · next next hnext =>
        obtain ⟨hwell, hwithin⟩ := h.add (show Template.LaidOut library (.group group) from hgroup) hnext
        exact ih hwell (fun g hg => (hlater g hg).mono hwithin) hshelve
      · contradiction

/-- A catalog stays well formed when a source is added. -/
theorem WellFormed.addSource (h : c.WellFormed) {nodes : List Node}
    (hadd : c.addSource nodes = .ok c') : c'.WellFormed := by
  obtain ⟨library, hshelve, hadd⟩ := bind_eq_ok_iff.mp hadd
  have hstart : WellFormed ⟨library, [], c.constants⟩ :=
    ⟨shelve_wellFormed h.library h.groups hshelve, by simp⟩
  exact hstart.addLines hadd

end DeviceRegisters.Definition.Catalog
