import DeviceRegisters.Proofs.Definition.Reading

/-!
# DeviceRegisters.Proofs.Definition.Library

Numbers and names of templates.

A library is well formed if its names are different and each template is laid
out with the templates before it.  Then names and numbers stand for the same
templates (`WellFormed.numberOf?_eq_some_iff`), and what a template uses is older
than the template (`WellFormed.usesBelow`).
-/

namespace DeviceRegisters.Definition

namespace Library

/-! ## numbers -/

/-- The number of a template is the count of those behind it. -/
theorem get?_eq_some_iff {library : Library} {number : Nat} {t : Template} :
    library.get? number = some t ↔
      ∃ newer older : Library, library = newer ++ t :: older ∧ older.length = number := by
  induction library with
  | nil => simp [get?]
  | cons first older ih =>
      simp only [get?]
      split
      · next hnumber =>
        constructor
        · intro h
          obtain rfl := Option.some.inj h
          exact ⟨[], older, rfl, hnumber.symm⟩
        · rintro ⟨newer, older', heq, hlength⟩
          cases newer with
          | nil => rw [(List.cons.inj heq).1]
          | cons _ newer =>
              have holder : older = newer ++ t :: older' := (List.cons.inj heq).2
              rw [holder, List.length_append, List.length_cons] at hnumber
              omega
      · next hnumber =>
        rw [ih]
        constructor
        · rintro ⟨newer, older', rfl, hlength⟩
          exact ⟨first :: newer, older', rfl, hlength⟩
        · rintro ⟨newer, older', heq, hlength⟩
          cases newer with
          | nil =>
              obtain ⟨-, rfl⟩ := List.cons.inj heq
              exact absurd hlength.symm hnumber
          | cons _ newer => exact ⟨newer, older', (List.cons.inj heq).2, hlength⟩

/-- Numbers are below the count of templates. -/
theorem lt_length_of_get? {library : Library} {number : Nat} {t : Template}
    (h : library.get? number = some t) : number < library.length := by
  obtain ⟨newer, older, rfl, rfl⟩ := get?_eq_some_iff.mp h
  simp only [List.length_append, List.length_cons]
  omega

/-- New templates change no number. -/
theorem within_append (newer library : Library) : library.Within (newer ++ library) := by
  intro n t h
  obtain ⟨newer', older, rfl, hlength⟩ := get?_eq_some_iff.mp h
  exact get?_eq_some_iff.mpr ⟨newer ++ newer', older, by simp, hlength⟩

/-- A new template changes no number. -/
theorem within_cons (t : Template) (library : Library) : library.Within (t :: library) :=
  within_append [t] library

/-! ## names -/

/-- A name that is found belongs to a template of the library. -/
theorem get?_of_numberOf? {library : Library} {name : String} {number : Nat}
    (h : library.numberOf? name = some number) :
    ∃ t, library.get? number = some t ∧ t.name = name := by
  induction library with
  | nil => simp [numberOf?] at h
  | cons first older ih =>
      simp only [numberOf?] at h
      split at h
      · next hname =>
        obtain rfl := Option.some.inj h
        exact ⟨first, by simp [get?], hname⟩
      · obtain ⟨t, ht, hname⟩ := ih h
        exact ⟨t, within_cons first older _ _ ht, hname⟩

/-- The library has the name of each of its templates. -/
theorem hasName_of_get? {library : Library} {number : Nat} {t : Template}
    (h : library.get? number = some t) : library.hasName t.name = true := by
  induction library with
  | nil => simp [get?] at h
  | cons first older ih =>
      simp only [hasName, numberOf?]
      split
      · rfl
      · next hname =>
        simp only [get?] at h
        split at h
        · exact absurd (by rw [Option.some.inj h]) hname
        · exact ih h

end Library

/-! ## well-formed libraries -/

/-- A template is laid out with the templates of a library. -/
def Template.LaidOut (library : Library) : Template → Prop
  | .group g => g.LaidOut library
  | .register r => r.template = none

/-- What registers and groups use is older than the number `bound` and of their
kind. -/
structure UsesBelow (library : Library) (bound : Nat) (registers : List Register)
    (heads : List GroupHead) : Prop where
  registers : ∀ r ∈ registers, ∀ n, r.template = some n →
    n < bound ∧ ∃ t, library.get? n = some (.register t)
  heads : ∀ head ∈ heads, ∀ n, head.template = some n →
    n < bound ∧ ∃ g, library.get? n = some (.group g)

variable {library older : Library} {registers : List Register} {heads : List GroupHead}

/-- What is known to a library is older than anything that comes next. -/
theorem AllKnown.usesBelow (h : AllKnown older registers heads) (hwithin : older.Within library) :
    UsesBelow library older.length registers heads where
  registers r hr n hn := by
    obtain ⟨t, ht⟩ := h.registers r hr n hn
    exact ⟨Library.lt_length_of_get? ht, t, hwithin n _ ht⟩
  heads head hhead n hn := by
    obtain ⟨g, hg⟩ := h.heads head hhead n hn
    exact ⟨Library.lt_length_of_get? hg, g, hwithin n _ hg⟩

/-- What a template that is laid out uses is in the library. -/
theorem Template.LaidOut.known {t : Template} (h : t.LaidOut library) :
    AllKnown library t.registers t.heads := by
  cases t with
  | group g => exact Entry.LaidAt.known g.entry h.laid
  | register r =>
      have hr : r.Known library := Register.known_of_template_eq_none h
      exact ⟨by simpa [Template.registers] using hr, by simp [Template.heads]⟩

namespace Library

/-- Each template is laid out with the older ones and has a name of its own. -/
inductive WellFormed : Library → Prop where
  | nil : WellFormed []
  | cons {t : Template} {older : Library} :
      t.LaidOut older → older.hasName t.name = false → WellFormed older → WellFormed (t :: older)

/-- The older part of a well-formed library is well formed. -/
theorem WellFormed.of_append {newer : Library} (h : WellFormed (newer ++ library)) :
    WellFormed library := by
  induction newer with
  | nil => exact h
  | cons t newer ih =>
      cases h with
      | cons _ _ hrest => exact ih hrest

/-- A template is laid out with those that are older. -/
theorem WellFormed.laidOut_of_get? (h : library.WellFormed) {number : Nat} {t : Template}
    (hget : library.get? number = some t) :
    ∃ older : Library, older.length = number ∧ older.Within library ∧ t.LaidOut older := by
  obtain ⟨newer, older, rfl, hlength⟩ := get?_eq_some_iff.mp hget
  cases h.of_append with
  | cons hlaid _ _ =>
      refine ⟨older, hlength, ?_, hlaid⟩
      have hwithin := within_append (newer ++ [t]) older
      simpa using hwithin

/-- What a template uses is older than the template. -/
theorem WellFormed.usesBelow (h : library.WellFormed) {number : Nat} {t : Template}
    (hget : library.get? number = some t) : UsesBelow library number t.registers t.heads := by
  obtain ⟨older, rfl, hwithin, hlaid⟩ := h.laidOut_of_get? hget
  exact hlaid.known.usesBelow hwithin

/-- The number of a name is the number of the template with the name. -/
theorem WellFormed.numberOf?_eq_some_iff (h : library.WellFormed) {name : String} {number : Nat} :
    library.numberOf? name = some number ↔
      ∃ t, library.get? number = some t ∧ t.name = name := by
  refine ⟨get?_of_numberOf?, ?_⟩
  rintro ⟨t, hget, rfl⟩
  induction h with
  | nil => simp [get?] at hget
  | @cons first older _ hnew _ ih =>
      simp only [get?] at hget
      simp only [numberOf?]
      split at hget
      · next hnumber =>
        obtain rfl := Option.some.inj hget
        rw [if_pos rfl, hnumber]
      · have hother : first.name ≠ t.name := by
          intro heq
          rw [heq, hasName_of_get? hget] at hnew
          contradiction
        rw [if_neg hother]
        exact ih hget

/-- A template that is added is laid out with those before it. -/
theorem WellFormed.add (h : library.WellFormed) {t : Template} (ht : t.LaidOut library)
    {larger : Library} (hadd : library.add? t = some larger) :
    larger.WellFormed ∧ library.Within larger := by
  simp only [add?] at hadd
  split at hadd
  · contradiction
  · next hnew =>
    obtain rfl := Option.some.inj hadd
    exact ⟨.cons ht (by simpa using hnew) h, within_cons t library⟩

end Library
end DeviceRegisters.Definition
