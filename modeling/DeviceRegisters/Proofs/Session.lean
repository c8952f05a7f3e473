import Mathlib
import DeviceRegisters.Proofs.Definition.Expansion
import DeviceRegisters.Session

/-!
# DeviceRegisters.Proofs.Session

What holds in every state that loading leads to: the catalog is well formed
(`wellFormed_loadEach`), so that it can be expanded, and what comes out is laid out
without templates (`laidOut_of_flatten`).
-/

namespace DeviceRegisters.Session

open Definition

/-! ## runs of loads -/

theorem wellFormed_load {s : Session} (h : s.catalog.WellFormed) (source : String) :
    (s.load source).2.catalog.WellFormed := by
  simp only [load]
  split
  · exact h
  · split
    · exact h
    · next catalog hadd => exact h.addSource hadd

/-- A load keeps the catalog well formed, whether it succeeds or not. -/
theorem wellFormed_loadSource {s : Session} (h : s.catalog.WellFormed) (source : Source) :
    (s.loadSource source).2.catalog.WellFormed := by
  cases source with
  | text source => exact wellFormed_load h source
  | file bytes =>
      simp only [loadSource, loadFile]
      split
      · exact h
      · split
        · exact h
        · exact wellFormed_load h _

/-- So does a run of loads. -/
theorem wellFormed_loadEach {s : Session} (h : s.catalog.WellFormed) (sources : List Source) :
    (s.loadEach sources).2.catalog.WellFormed := by
  induction sources generalizing s with
  | nil => exact h
  | cons source sources ih => exact ih (wellFormed_loadSource h source)

variable (warn : Bool) (sources : List Source)

/-- Whatever is loaded, the catalog is well-formed. -/
theorem wellFormed_start : ((start warn).loadEach sources).2.catalog.WellFormed :=
  wellFormed_loadEach Catalog.wellFormed_empty sources

/-- After any loads the references in the catalog lead to older templates of the right
kind, so that it can be expanded unless a use adds a field that overlaps another. -/
theorem sound_loadEach : ((start warn).loadEach sources).2.catalog.Sound :=
  (wellFormed_start warn sources).sound

/-! ## addresses -/

/-- What loaded sources are expanded to is laid out without templates. -/
theorem laidOut_of_flatten {warn : Bool} {sources : List Source} {flat : FlatCatalog}
    (h : ((start warn).loadEach sources).2.flatten = .ok flat) : ∀ g ∈ flat.groups, g.LaidOut [] :=
  (outcome_flatten (wellFormed_start warn sources)).of_ok h

/-- The groups of loaded sources are tiled at every depth. -/
theorem tiled_of_flatten {warn : Bool} {sources : List Source} {flat : FlatCatalog} {g : Group}
    (h : ((start warn).loadEach sources).2.flatten = .ok flat) (hg : g ∈ flat.groups) : g.Tiled :=
  (laidOut_of_flatten h g hg).tiled

/-- A source and one that uses its group twice, once in a union. -/
def sample : List Source :=
  [.text "!PORT\n  DATA RW\n  TABLE R 2\n",
    .text "!SYS\n  :PORT\n  *UNION\n    :PORT B\n    W W\n"]

/-- The group of `sample` that uses the other one takes six addresses and is tiled. -/
theorem tiled_sample :
    ∃ flat g, ((start false).loadEach sample).2.flatten = .ok flat ∧ g ∈ flat.groups ∧
      g.head.span = 6 ∧ g.Tiled := by
  have hfirst : (((start false).loadEach sample).2.flatten.toOption.bind (·.groups[0]?)).map
      (·.head.span) = some 6 := by cbv
  obtain ⟨g, hfound, hspan⟩ := Option.map_eq_some_iff.mp hfirst
  obtain ⟨flat, hflat, hg⟩ := Option.bind_eq_some_iff.mp hfound
  have hflatten := eq_ok_of_toOption hflat
  have hmem := List.mem_of_getElem? hg
  exact ⟨flat, g, hflatten, hmem, hspan, tiled_of_flatten hflatten hmem⟩

end DeviceRegisters.Session
