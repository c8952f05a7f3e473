import Mathlib
import DeviceRegisters.Proofs.Definition.Naming
import DeviceRegisters.Session

/-!
# DeviceRegisters.Proofs.Session.Names

Names in what was loaded.

Templates have different names, and so have the groups of the last source.  A template
and a group can share a name, though, if a source makes a template of the name of a group
that it describes above (`name_taken_twice`).  Such a source is accepted; from then on its
groups cannot become templates, and every other source is refused (`namesSettled_loadEach`).
-/

namespace DeviceRegisters.Session

open Definition Definition.Catalog
open Outline (Node)

/-! ## loads -/

/-- The lines of a source, if it is there and its outline can be read. -/
def Source.nodes? : Source → Option (List Node)
  | .text content => (Outline.parse content).result.toOption
  | .file bytes => do
    let content ← String.fromUTF8? (← bytes)
    (Outline.parse content).result.toOption

/-- The catalog after a load, if there are lines to be added. -/
def addedTo (c : Catalog) : Option (List Node) → Catalog
  | none => c
  | some nodes => (c.addSource nodes).toOption.getD c

theorem load_eq (s : Session) (text : String) :
    (s.load text).2.catalog = addedTo s.catalog (Outline.parse text).result.toOption ∧
      ∀ nodes, (Outline.parse text).result = .ok nodes →
        (s.load text).1 = (s.catalog.addSource nodes).map fun _ => () := by
  rw [load]
  cases hparse : (Outline.parse text).result with
  | error e =>
      simp only [outline, hparse]
      exact ⟨rfl, nofun⟩
  | ok nodes =>
      simp only [outline, hparse, Except.ok.injEq, forall_eq', addedTo, Except.toOption]
      cases s.catalog.addSource nodes with
      | error e => exact ⟨rfl, rfl⟩
      | ok catalog => exact ⟨rfl, rfl⟩

/-- A load adds the lines of the source, all of them or none. -/
theorem loadSource_eq (s : Session) (source : Source) :
    (s.loadSource source).2.catalog = addedTo s.catalog source.nodes? ∧
      ∀ nodes, source.nodes? = some nodes →
        (s.loadSource source).1 = (s.catalog.addSource nodes).map fun _ => () := by
  have htext : ∀ text, (s.load text).2.catalog = addedTo s.catalog (Source.text text).nodes? ∧
      ∀ nodes, (Source.text text).nodes? = some nodes →
        (s.load text).1 = (s.catalog.addSource nodes).map fun _ => () := by
    intro text
    obtain ⟨hcatalog, hanswer⟩ := load_eq s text
    exact ⟨hcatalog, fun nodes hnodes => hanswer nodes (eq_ok_of_toOption hnodes)⟩
  cases source with
  | text text => exact htext text
  | file bytes =>
      cases bytes with
      | none =>
          refine ⟨rfl, fun nodes hnodes => ?_⟩
          cases hnodes
      | some bytes =>
          cases hdecoded : String.fromUTF8? bytes with
          | none =>
              simp only [loadSource, loadFile, Source.nodes?, bind, Option.bind, hdecoded]
              refine ⟨rfl, fun nodes hnodes => ?_⟩
              cases hnodes
          | some text =>
              simp only [loadSource, loadFile, Source.nodes?, bind, Option.bind, hdecoded]
              exact htext text

/-! ## runs of loads -/

variable {s : Session}

/-- What a load keeps of the catalog if each source that it adds does. -/
theorem catalog_loadEach {P : Catalog → Prop} (sources : List Source)
    (hadd : ∀ source ∈ sources, ∀ nodes, source.nodes? = some nodes →
      ∀ c c', P c → c.addSource nodes = .ok c' → P c') (h : P s.catalog) :
    P (s.loadEach sources).2.catalog := by
  induction sources generalizing s with
  | nil => exact h
  | cons source sources ih =>
      obtain ⟨hsource, hlater⟩ := List.forall_mem_cons.mp hadd
      have hnext : P (s.loadSource source).2.catalog := by
        rw [(loadSource_eq s source).1]
        cases hnodes : source.nodes? with
        | none => exact h
        | some nodes =>
            rw [addedTo]
            cases hresult : s.catalog.addSource nodes with
            | error e => exact h
            | ok c' => exact hsource nodes hnodes s.catalog c' h hresult
      exact ih hlater hnext

/-- A source makes no template of the name of a group that it describes above. -/
def Source.Spares (source : Source) : Prop :=
  ∀ nodes, source.nodes? = some nodes → nodes.Pairwise fun above below => ¬ Retakes above below

/-- If the groups cannot become templates, sources are refused from then on. -/
theorem refused_of_shelve {e : Error} (h : shelve s.catalog.library s.catalog.groups = .error e)
    (later : List Source) : (s.loadEach later).2.catalog = s.catalog ∧
      ∀ source nodes, source.nodes? = some nodes →
        ((s.loadEach later).2.loadSource source).1 = .error e := by
  have hadd : ∀ nodes, s.catalog.addSource nodes = .error e := by
    intro nodes
    rw [addSource, h]
    rfl
  have hsame : (s.loadEach later).2.catalog = s.catalog := by
    refine catalog_loadEach (P := (· = s.catalog)) later ?_ rfl
    rintro _ _ nodes _ c c' rfl hok
    rw [hadd nodes] at hok
    contradiction
  refine ⟨hsame, fun source nodes hnodes => ?_⟩
  rw [(loadSource_eq _ source).2 nodes hnodes, hsame, hadd nodes]
  rfl

/-- What holds of names in a session in which sources were loaded. -/
structure NamesSettled (sources : List Source) (s : Session) : Prop where
  templates : (s.catalog.library.map Template.name).Nodup
  groups : (s.catalog.groups.map Group.name).Nodup
  /-- A template and a group share a name only if a source makes a template of the name of a
  group above. -/
  distinct : (∀ source ∈ sources, source.Spares) → s.catalog.Distinct
  /-- If none do, the groups can become templates, whatever is loaded next. -/
  shelved : s.catalog.Distinct → ∃ library, shelve s.catalog.library s.catalog.groups = .ok library
  /-- If some do, every source is refused from then on for the name they share. -/
  refused : ¬ s.catalog.Distinct → ∃ g ∈ s.catalog.groups,
    (∃ t ∈ s.catalog.library, t.name = g.name) ∧
      ∀ later, (s.loadEach later).2.catalog = s.catalog ∧
        ∀ source nodes, source.nodes? = some nodes →
          ((s.loadEach later).2.loadSource source).1 =
            .error (.duplicateName templateScope g.name)

/-- What any loads do to names. -/
theorem namesSettled_loadEach (warn : Bool) (sources : List Source) :
    NamesSettled sources ((start warn).loadEach sources).2 := by
  have hwell : ((start warn).loadEach sources).2.catalog.WellFormed :=
    catalog_loadEach sources (fun _ _ _ _ _ _ h hadd => h.addSource hadd) wellFormed_empty
  have hgroups : ((start warn).loadEach sources).2.catalog.Unrepeated :=
    catalog_loadEach sources (fun _ _ _ _ _ _ _ hadd => unrepeated_of_addSource hadd) List.nodup_nil
  have hshelve := outcome_shelve ((start warn).loadEach sources).2.catalog.library hgroups
  constructor
  case templates => exact hwell.library.nodup
  case groups => exact hgroups
  case distinct =>
    intro hspares
    refine catalog_loadEach sources (fun source hsource nodes hnodes _ _ _ hadd => ?_) nofun
    exact distinct_of_addSource (hspares source hsource nodes hnodes) hadd
  case shelved =>
    intro hdistinct
    cases hresult : shelve _ _ with
    | ok library => exact ⟨library, rfl⟩
    | error e =>
        obtain ⟨g, hg, ⟨t, ht, hname⟩, -⟩ := hshelve.of_error hresult
        exact absurd hname (hdistinct g hg t ht)
  case refused =>
    intro hshared
    cases hresult : shelve _ _ with
    | ok library => exact absurd (hshelve.of_ok hresult) hshared
    | error e =>
        obtain ⟨g, hg, hname, rfl⟩ := hshelve.of_error hresult
        exact ⟨g, hg, hname, refused_of_shelve hresult⟩

/-- What becomes of a source whose last line makes a template of the name of the group above it. -/
def retaken : Except Error Unit × Session := (start false).load "!A\n  X R\n:A RW\n"

/-- The source is accepted although a group and a template have one name now, and no other
source can be loaded after it. -/
theorem name_taken_twice :
    retaken.1 = .ok () ∧ ¬ retaken.2.catalog.Distinct ∧
      (retaken.2.load "!B\n  Y R\n").1 = .error (.duplicateName "shared definitions" "A") := by
  have hgroups : retaken.2.catalog.groups.map (·.name) = ["A"] := by cbv
  have hlibrary : retaken.2.catalog.library.map (·.name) = ["A"] := by cbv
  refine ⟨by cbv, fun hdistinct => ?_, by cbv⟩
  have hgroup : "A" ∈ retaken.2.catalog.groups.map (·.name) := by simp [hgroups]
  have htemplate : "A" ∈ retaken.2.catalog.library.map (·.name) := by simp [hlibrary]
  obtain ⟨g, hg, hname⟩ := List.mem_map.mp hgroup
  obtain ⟨t, ht, htaken⟩ := List.mem_map.mp htemplate
  exact hdistinct g hg t ht (htaken.trans hname.symm)

end DeviceRegisters.Session
