import Mathlib
import DeviceRegisters.Proofs.Session.Names

/-!
# DeviceRegisters.Proofs.Session.Failures

Sources that fail.

What a load answers and what it does to the catalog depends on nothing but the catalog
(`loadSource_congr`), and a load that fails leaves the catalog alone (`catalog_of_failed`).
So a run of loads comes to what it comes to without the sources that failed
(`loadEach_kept`).  Warnings do not go away with them: those of a source are reported as
soon as its outline can be read, whatever is then found wrong with its lines
(`warnings_loadSource`).
-/

namespace DeviceRegisters.Session

open Outline (Warning)

/-! ## one load -/

/-- The text of a source, if there is one. -/
def Source.text? : Source → Option String
  | .text content => some content
  | .file bytes => bytes.bind String.fromUTF8?

/-- A source with a text is loaded like that text. -/
theorem loadSource_of_text {source : Source} {text : String} (h : source.text? = some text)
    (s : Session) : s.loadSource source = s.load text := by
  cases source with
  | text content =>
      obtain rfl := Option.some.inj h
      rfl
  | file bytes =>
      obtain ⟨bytes, rfl, hdecoded⟩ := Option.bind_eq_some_iff.mp h
      simp only [loadSource, loadFile, hdecoded]

/-- Any other source is refused out of hand. -/
theorem loadSource_of_no_text {source : Source} (h : source.text? = none) :
    ∃ e, ∀ s : Session, s.loadSource source = (.error e, s) := by
  cases source with
  | text content => cases h
  | file bytes =>
      cases bytes with
      | none => exact ⟨_, fun _ => rfl⟩
      | some bytes =>
          rw [Source.text?, Option.bind_some] at h
          simp only [loadSource, loadFile, h]
          exact ⟨_, fun _ => rfl⟩

theorem load_congr {s s' : Session} (h : s.catalog = s'.catalog) (text : String) :
    (s.load text).1 = (s'.load text).1 ∧ (s.load text).2.catalog = (s'.load text).2.catalog := by
  simp only [load, outline]
  cases (Outline.parse text).result with
  | error e => exact ⟨rfl, h⟩
  | ok nodes =>
      simp only [h]
      cases s'.catalog.addSource nodes with
      | error e => exact ⟨rfl, rfl⟩
      | ok catalog => exact ⟨rfl, rfl⟩

/-- Two sessions with one catalog answer a load alike, and have one catalog again after it. -/
theorem loadSource_congr {s s' : Session} (h : s.catalog = s'.catalog) (source : Source) :
    (s.loadSource source).1 = (s'.loadSource source).1 ∧
      (s.loadSource source).2.catalog = (s'.loadSource source).2.catalog := by
  cases htext : source.text? with
  | none =>
      obtain ⟨e, hrefused⟩ := loadSource_of_no_text htext
      simp only [hrefused]
      exact ⟨trivial, h⟩
  | some text =>
      simp only [loadSource_of_text htext]
      exact load_congr h text

/-- Whatever the failure is, the catalog stays. -/
theorem catalog_of_failed {s : Session} {source : Source} {e : Error}
    (h : (s.loadSource source).1 = .error e) : (s.loadSource source).2.catalog = s.catalog := by
  obtain ⟨hcatalog, hanswer⟩ := loadSource_eq s source
  rw [hcatalog]
  cases hnodes : source.nodes? with
  | none => rfl
  | some nodes =>
      rw [hanswer nodes hnodes] at h
      rw [addedTo]
      cases hadd : s.catalog.addSource nodes with
      | error e => rfl
      | ok catalog =>
          rw [hadd] at h
          contradiction

/-! ## warnings -/

/-- The warnings for a text, if its outline can be read. -/
def warningsOf (text : String) : List String :=
  match (Outline.parse text).result with
  | .ok _ => (Outline.parse text).warnings.map Warning.message
  | .error _ => []

/-- The warnings for a source, if its outline can be read. -/
def Source.warnings (source : Source) : List String := (source.text?.map warningsOf).getD []

theorem warnings_load (s : Session) (text : String) :
    (s.load text).2.warn = s.warn ∧
      (s.load text).2.warnings = s.warnings ++ if s.warn then warningsOf text else [] := by
  simp only [load, outline, warningsOf]
  cases (Outline.parse text).result with
  | error e => simp
  | ok nodes =>
      simp only
      cases s.catalog.addSource nodes with
      | error e => exact ⟨rfl, rfl⟩
      | ok catalog => exact ⟨rfl, rfl⟩

/-- The warnings for a source are reported if they are wanted, also if its load fails. -/
theorem warnings_loadSource (s : Session) (source : Source) :
    (s.loadSource source).2.warn = s.warn ∧
      (s.loadSource source).2.warnings = s.warnings ++ if s.warn then source.warnings else [] := by
  cases htext : source.text? with
  | none =>
      obtain ⟨e, hrefused⟩ := loadSource_of_no_text htext
      simp [hrefused, Source.warnings, htext]
  | some text =>
      simp only [loadSource_of_text htext, Source.warnings, htext]
      exact warnings_load s text

/-! ## runs of loads -/

/-- An answer that is no failure. -/
def succeeded (answer : Except Error Unit) : Bool := answer.toOption.isSome

/-- Those of the sources that are loaded, one after the other, without a failure. -/
def kept (s : Session) (sources : List Source) : List Source :=
  ((sources.zip (s.loadEach sources).1).filter (succeeded ·.2)).map (·.1)

variable {s s' : Session} {source : Source} {sources : List Source}

theorem kept_cons_of_failed {e : Error} (h : (s.loadSource source).1 = .error e) :
    s.kept (source :: sources) = (s.loadSource source).2.kept sources := by
  simp [kept, loadEach, succeeded, h, Except.toOption]

theorem kept_cons_of_ok (h : (s.loadSource source).1 = .ok ()) :
    s.kept (source :: sources) = source :: (s.loadSource source).2.kept sources := by
  simp [kept, loadEach, succeeded, h, Except.toOption]

/-- The sources that do not fail are answered, in a session with the same catalog, as if there
had been no others, and they come to the same catalog. -/
theorem loadEach_kept_of_catalog (h : s'.catalog = s.catalog) (sources : List Source) :
    (s'.loadEach (s.kept sources)).1 = (s.loadEach sources).1.filter succeeded ∧
      (s'.loadEach (s.kept sources)).2.catalog = (s.loadEach sources).2.catalog := by
  induction sources generalizing s s' with
  | nil => exact ⟨rfl, h⟩
  | cons source sources ih =>
      cases hanswer : (s.loadSource source).1 with
      | error e =>
          obtain ⟨hanswers, hcatalog⟩ := ih (h.trans (catalog_of_failed hanswer).symm)
          rw [kept_cons_of_failed hanswer]
          exact ⟨by simpa [loadEach, hanswer, succeeded, Except.toOption] using hanswers, hcatalog⟩
      | ok =>
          obtain ⟨hsame, hafter⟩ := loadSource_congr h source
          obtain ⟨hanswers, hcatalog⟩ := ih hafter
          rw [kept_cons_of_ok hanswer]
          refine ⟨?_, hcatalog⟩
          simp only [loadEach, hsame, hanswer, hanswers]
          rfl

theorem warnings_loadEach (s : Session) (sources : List Source) :
    (s.loadEach sources).2.warnings =
      s.warnings ++ if s.warn then sources.flatMap Source.warnings else [] := by
  induction sources generalizing s with
  | nil => simp [loadEach]
  | cons source sources ih =>
      obtain ⟨hwarn, hwarnings⟩ := warnings_loadSource s source
      calc ((s.loadSource source).2.loadEach sources).2.warnings
        _ = (s.loadSource source).2.warnings ++
              if s.warn then sources.flatMap Source.warnings else [] := by rw [ih, hwarn]
        _ = s.warnings ++ if s.warn then (source :: sources).flatMap Source.warnings else [] := by
            rw [hwarnings]
            split <;> simp

/-- Sources that fail leave no trace in what loads answer, in the catalog and in what it is
expanded to, whatever they fail for.  They do in the warnings: those are of all sources whose
outline can be read. -/
theorem loadEach_kept (s : Session) (sources : List Source) :
    (s.loadEach (s.kept sources)).1 = (s.loadEach sources).1.filter succeeded ∧
      (s.loadEach (s.kept sources)).2.catalog = (s.loadEach sources).2.catalog ∧
      (s.loadEach (s.kept sources)).2.flatten = (s.loadEach sources).2.flatten ∧
      (s.loadEach sources).2.warnings =
        s.warnings ++ if s.warn then sources.flatMap Source.warnings else [] := by
  obtain ⟨hanswers, hcatalog⟩ := loadEach_kept_of_catalog (Eq.refl s.catalog) sources
  exact ⟨hanswers, hcatalog, by rw [flatten, hcatalog]; rfl, warnings_loadEach s sources⟩

end DeviceRegisters.Session
