import Mathlib
import DeviceRegisters.Peripheral.Snapshot
import DeviceRegisters.Proofs.Directory.Views
import DeviceRegisters.Proofs.Session
import DeviceRegisters.Proofs.Session.Fields
import DeviceRegisters.Proofs.Word

/-!
# DeviceRegisters.Proofs.Peripheral.Snapshots

Setting fields of a snapshot one after the other.

A set is taken or refused, for one reason (`takes_or_refuses`), and neither depends on the
word.  In a register whose fields are inside it and share no bit, a field reads as the last
value that was taken for it, and the bits in no such field stay (`testBit_setEach`,
`testBit_setEach_outside`).  So the word depends only on what was taken for each field
(`word_setEach_congr`).  Registers of loaded groups are such registers (`fits_of_flatten`).
-/

namespace DeviceRegisters

namespace Directory.RegisterView

variable {v : RegisterView} {name other : String} {value : UInt64} {f g : FieldView}

/-! ## what is taken and what is refused -/

/-- A value can be put into the field of a name: there is one that can be written, and it has
room for the value. -/
structure Takes (v : RegisterView) (name : String) (value : UInt64) (f : FieldView) : Prop where
  found : v.field? name = some f
  writable : f.access ≠ .readOnly
  room : value.toNat < 2 ^ f.width

/-- Why a value cannot be put into the field of a name: there is none, or it cannot be written,
or it has no room for the value. -/
inductive Refuses (v : RegisterView) (name : String) (value : UInt64) : Error → Prop where
  | unknown (hnone : ∀ f ∈ v.fields, f.name ≠ name) : Refuses v name value (.noSuchField v.name name)
  | readOnly {f : FieldView} (hfound : v.field? name = some f) (haccess : f.access = .readOnly) :
    Refuses v name value (.readOnly (v.name ++ "." ++ name))
  | tooWide {f : FieldView} (hfound : v.field? name = some f) (haccess : f.access ≠ .readOnly)
      (hvalue : 2 ^ f.width ≤ value.toNat) :
    Refuses v name value (.valueTooWide (v.name ++ "." ++ name) value f.width)

/-- Whether a value can be put into the field of a name. -/
def accepts (v : RegisterView) (name : String) (value : UInt64) : Bool :=
  match v.field? name with
  | some f => f.access.isWritable && Word.fits value f.width
  | none => false

/-- The values among some that are put into the field of a name, in order. -/
def taken (v : RegisterView) (name : String) : List (String × UInt64) → List UInt64
  | [] => []
  | (other, value) :: more =>
    if other = name ∧ v.accepts other value then value :: v.taken name more else v.taken name more

/-- A name is no field's if all fields have other names. -/
theorem field?_eq_none_iff : v.field? name = none ↔ ∀ f ∈ v.fields, f.name ≠ name := by
  simp [field?]

/-- A field that is found is one of the register, and has the name. -/
theorem mem_of_field? (h : v.field? name = some f) : f ∈ v.fields ∧ f.name = name :=
  ⟨List.mem_of_find?_eq_some h, by simpa using List.find?_some h⟩

/-- A value is either put into a field or refused. -/
theorem takes_or_refuses (v : RegisterView) (name : String) (value : UInt64) :
    (∃ f, v.Takes name value f) ∨ ∃ e, v.Refuses name value e := by
  cases hfound : v.field? name with
  | none => exact .inr ⟨_, .unknown (field?_eq_none_iff.mp hfound)⟩
  | some f =>
      by_cases haccess : f.access = .readOnly
      · exact .inr ⟨_, .readOnly hfound haccess⟩
      · rcases Nat.lt_or_ge value.toNat (2 ^ f.width) with hvalue | hvalue
        · exact .inl ⟨f, hfound, haccess, hvalue⟩
        · exact .inr ⟨_, .tooWide hfound haccess hvalue⟩

/-- What is refused is not taken. -/
theorem Refuses.not_takes {e : Error} (h : v.Refuses name value e) : ¬ v.Takes name value f := by
  intro htakes
  cases h with
  | unknown hnone =>
      obtain ⟨hmem, hname⟩ := mem_of_field? htakes.found
      exact hnone f hmem hname
  | readOnly hfound haccess =>
      obtain rfl := Option.some.inj (hfound.symm.trans htakes.found)
      exact htakes.writable haccess
  | tooWide hfound _ hvalue =>
      obtain rfl := Option.some.inj (hfound.symm.trans htakes.found)
      exact Nat.not_lt.mpr hvalue htakes.room

/-- Each value among those taken is accepted. -/
theorem mem_taken {sets : List (String × UInt64)} (h : value ∈ v.taken name sets) :
    v.accepts name value = true := by
  induction sets with
  | nil => exact absurd h List.not_mem_nil
  | cons set more ih =>
      rw [taken] at h
      split at h
      · next hset =>
        rcases List.mem_cons.mp h with rfl | h
        · exact hset.1 ▸ hset.2
        · exact ih h
      · exact ih h

/-- A value is accepted if there is a field that takes it. -/
theorem accepts_iff : v.accepts name value = true ↔ ∃ f, v.Takes name value f := by
  rw [accepts]
  cases hfound : v.field? name with
  | none => exact iff_of_false nofun fun ⟨f, h⟩ => absurd (hfound.symm.trans h.found) nofun
  | some f =>
      simp only [Bool.and_eq_true, Access.isWritable_iff, Word.fits_iff]
      constructor
      · rintro ⟨haccess, hvalue⟩
        exact ⟨f, hfound, haccess, hvalue⟩
      · rintro ⟨g, h⟩
        obtain rfl := Option.some.inj (hfound.symm.trans h.found)
        exact ⟨h.writable, h.room⟩

/-- A field that is found ends inside the register, and its width is one of a value. -/
theorem Fits.within (h : v.Fits) (hf : v.field? name = some f) :
    f.offset + f.width ≤ 32 ∧ min f.width 64 = f.width := by
  have hstop : f.offset + f.width ≤ 32 := (h.inside f (mem_of_field? hf).1).2
  exact ⟨hstop, by omega⟩

/-- Fields of different names share no bit. -/
theorem Fits.disjoint (h : v.Fits) (hf : v.field? name = some f) (hg : v.field? other = some g)
    (hne : name ≠ other) : g.offset + g.width ≤ f.offset ∨ f.offset + f.width ≤ g.offset := by
  obtain ⟨hmem, hname⟩ := mem_of_field? hf
  obtain ⟨hother, hgname⟩ := mem_of_field? hg
  have hsymm : Std.Symm fun f g : FieldView =>
      g.offset + g.width ≤ f.offset ∨ f.offset + f.width ≤ g.offset := ⟨fun _ _ => Or.symm⟩
  refine h.apart.forall hmem hother ?_
  rintro rfl
  exact hne (hname.symm.trans hgname)

end Directory.RegisterView

open Directory (FieldView RegisterView)

namespace Snapshot

variable {s : Snapshot} {name other : String} {value : UInt64} {f g : FieldView} {e : Error}
  {sets others : List (String × UInt64)} {i j : Nat}

/-! ## one set -/

/-- What is taken is put into the word. -/
theorem set_of_takes (h : s.view.Takes name value f) :
    s.set name value = .ok { s with word := Word.insert s.word f.offset f.width value } := by
  simp only [set, h.found, Access.isWritable_iff.mpr h.writable, Word.fits_iff.mpr h.room, if_true]

/-- What is refused fails with its reason. -/
theorem set_of_refuses (h : s.view.Refuses name value e) : s.set name value = .error e := by
  cases h with
  | unknown hnone =>
      simp only [set, RegisterView.field?_eq_none_iff.mpr hnone, unknownField]
  | readOnly hfound haccess => simp [set, hfound, haccess, Access.isWritable, fullName]
  | @tooWide f hfound haccess hvalue =>
      have hwide : Word.fits value f.width ≠ true := fun hfits =>
        Nat.not_lt.mpr hvalue (Word.fits_iff.mp hfits)
      simp [set, hfound, Access.isWritable_iff.mpr haccess, hwide, fullName]

/-- There is one error only that a value is refused with. -/
theorem eq_of_refuses {v : RegisterView} {e e' : Error} (h : v.Refuses name value e)
    (h' : v.Refuses name value e') : e = e' :=
  Except.error.inj ((set_of_refuses (s := ⟨v, 0⟩) h).symm.trans (set_of_refuses h'))

/-- The snapshot after a set, which is as it was if the set is refused. -/
def setOrKeep (s : Snapshot) (name : String) (value : UInt64) : Snapshot :=
  match s.set name value with
  | .ok next => next
  | .error _ => s

/-- A set that is taken puts its value into the word. -/
theorem setOrKeep_of_takes (h : s.view.Takes name value f) :
    s.setOrKeep name value = { s with word := Word.insert s.word f.offset f.width value } := by
  rw [setOrKeep, set_of_takes h]

/-- A set that is refused changes nothing. -/
theorem setOrKeep_of_refuses (h : s.view.Refuses name value e) : s.setOrKeep name value = s := by
  rw [setOrKeep, set_of_refuses h]

@[simp] theorem view_setOrKeep (s : Snapshot) (name : String) (value : UInt64) :
    (s.setOrKeep name value).view = s.view := by
  obtain ⟨f, h⟩ | ⟨e, h⟩ := s.view.takes_or_refuses name value
  · rw [setOrKeep_of_takes h]
  · rw [setOrKeep_of_refuses h]

/-- A field that takes a value has the bits of the value. -/
theorem testBit_setOrKeep_own (hfits : s.view.Fits) (h : s.view.Takes name value f)
    (hj : j < f.width) :
    (s.setOrKeep name value).word.toNat.testBit (f.offset + j) = value.toNat.testBit j := by
  obtain ⟨hstop, hmin⟩ := hfits.within h.found
  rw [setOrKeep_of_takes h, Word.testBit_insert, hmin, if_pos ⟨by omega, by omega, by omega⟩,
    Nat.add_sub_cancel_left]

/-- No other bit changes. -/
theorem testBit_setOrKeep_outside
    (h : ∀ f, s.view.Takes name value f → i < f.offset ∨ f.offset + f.width ≤ i) :
    (s.setOrKeep name value).word.toNat.testBit i = s.word.toNat.testBit i := by
  obtain ⟨f, htakes⟩ | ⟨e, hrefuses⟩ := s.view.takes_or_refuses name value
  · have hout := h f htakes
    have hmin : min f.width 64 ≤ f.width := Nat.min_le_left _ _
    rw [setOrKeep_of_takes htakes, Word.testBit_insert, if_neg (by omega)]
  · rw [setOrKeep_of_refuses hrefuses]

/-! ## runs -/

/-- Sets fields in order, going on after those that are refused. -/
def setEach (s : Snapshot) : List (String × UInt64) → Snapshot
  | [] => s
  | (name, value) :: more => setEach (s.setOrKeep name value) more

/-- Sets leave a snapshot one of the same register. -/
@[simp] theorem view_setEach (s : Snapshot) (sets : List (String × UInt64)) :
    (s.setEach sets).view = s.view := by
  induction sets generalizing s with
  | nil => rfl
  | cons set more ih => rw [setEach, ih, view_setOrKeep]

/-- Sets can be made in two parts. -/
theorem setEach_append (s : Snapshot) (sets more : List (String × UInt64)) :
    s.setEach (sets ++ more) = (s.setEach sets).setEach more := by
  induction sets generalizing s with
  | nil => rfl
  | cons set sets ih => rw [List.cons_append, setEach, setEach, ih]

/-- When all sets are taken, nothing stops before the last one. -/
theorem setAll_of_takes (h : ∀ set ∈ sets, ∃ f, s.view.Takes set.1 set.2 f) :
    s.setAll sets = .ok (s.setEach sets) := by
  induction sets generalizing s with
  | nil => rfl
  | cons set more ih =>
      obtain ⟨name, value⟩ := set
      obtain ⟨⟨f, hfirst⟩, hmore⟩ := List.forall_mem_cons.mp h
      rw [setAll, set_of_takes hfirst, setEach, setOrKeep_of_takes hfirst]
      exact ih hmore

/-- The first set that is refused stops all of them. -/
theorem setAll_of_refuses {before : List (String × UInt64)}
    (hbefore : ∀ set ∈ before, ∃ f, s.view.Takes set.1 set.2 f)
    (h : s.view.Refuses name value e) (after : List (String × UInt64)) :
    s.setAll (before ++ (name, value) :: after) = .error e := by
  induction before generalizing s with
  | nil =>
      rw [List.nil_append, setAll, set_of_refuses h]
      rfl
  | cons set before ih =>
      obtain ⟨other, taken⟩ := set
      obtain ⟨⟨f, hfirst⟩, hmore⟩ := List.forall_mem_cons.mp hbefore
      rw [List.cons_append, setAll, set_of_takes hfirst]
      exact ih hmore h

/-- A field has the bits of the last value that it took, or those that it had. -/
theorem testBit_setEach (hfits : s.view.Fits) (hfound : s.view.field? name = some f)
    (hj : j < f.width) :
    (s.setEach sets).word.toNat.testBit (f.offset + j) =
      ((s.view.taken name sets).getLast?.map (·.toNat.testBit j)).getD
        (s.word.toNat.testBit (f.offset + j)) := by
  induction sets generalizing s with
  | nil => rfl
  | cons set more ih =>
      obtain ⟨other, value⟩ := set
      rw [setEach, ih (by simpa using hfits) (by simpa using hfound), view_setOrKeep,
        RegisterView.taken]
      by_cases hown : other = name ∧ s.view.accepts other value = true
      · obtain ⟨rfl, haccepts⟩ := hown
        obtain ⟨g, htakes⟩ := RegisterView.accepts_iff.mp haccepts
        obtain rfl := Option.some.inj (hfound.symm.trans htakes.found)
        rw [if_pos ⟨rfl, haccepts⟩, testBit_setOrKeep_own hfits htakes hj, List.getLast?_cons]
        cases (s.view.taken other more).getLast? <;> rfl
      · -- whatever is taken now goes to a field of another name
        rw [if_neg hown, testBit_setOrKeep_outside fun g htakes => ?_]
        have hne : name ≠ other := fun heq =>
          hown ⟨heq.symm, RegisterView.accepts_iff.mpr ⟨g, htakes⟩⟩
        have hapart := hfits.disjoint hfound htakes.found hne
        omega

/-- A bit in no field that took a value is as it was. -/
theorem testBit_setEach_outside
    (h : ∀ set ∈ sets, ∀ f, s.view.Takes set.1 set.2 f → i < f.offset ∨ f.offset + f.width ≤ i) :
    (s.setEach sets).word.toNat.testBit i = s.word.toNat.testBit i := by
  induction sets generalizing s with
  | nil => rfl
  | cons set more ih =>
      obtain ⟨name, value⟩ := set
      obtain ⟨hfirst, hmore⟩ := List.forall_mem_cons.mp h
      rw [setEach, ih (by simpa using hmore), testBit_setOrKeep_outside hfirst]

/-- The word depends only on what each field took. -/
theorem word_setEach_congr (hfits : s.view.Fits)
    (h : ∀ name, s.view.taken name others = s.view.taken name sets) :
    (s.setEach others).word = (s.setEach sets).word := by
  refine UInt32.toNat_inj.mp (Nat.eq_of_testBit_eq fun i => ?_)
  by_cases hin : ∃ name f, s.view.field? name = some f ∧ f.offset ≤ i ∧ i < f.offset + f.width
  · obtain ⟨name, f, hfound, hstart, hstop⟩ := hin
    obtain ⟨j, rfl⟩ := Nat.exists_eq_add_of_le hstart
    have hj : j < f.width := by omega
    rw [testBit_setEach hfits hfound hj, testBit_setEach hfits hfound hj, h name]
  · have hout : ∀ name f value, s.view.Takes name value f →
        i < f.offset ∨ f.offset + f.width ≤ i := by
      intro name f value htakes
      by_contra hbit
      exact hin ⟨name, f, htakes.found, by omega, by omega⟩
    rw [testBit_setEach_outside fun _ _ f => hout _ f _,
      testBit_setEach_outside fun _ _ f => hout _ f _]

/-- A field reads as the last value that it took. -/
theorem get_setEach_of_taken (hfits : s.view.Fits)
    (hlast : (s.view.taken name sets).getLast? = some value) :
    ∃ bits, (s.setEach sets).get name = .ok bits ∧ bits.toNat = value.toNat := by
  obtain ⟨f, htakes⟩ :=
    RegisterView.accepts_iff.mp (RegisterView.mem_taken (List.mem_of_getLast? hlast))
  obtain ⟨hstop, hmin⟩ := hfits.within htakes.found
  refine ⟨_, by rw [get, view_setEach, htakes.found], Nat.eq_of_testBit_eq fun j => ?_⟩
  rw [bits, Word.testBit_extract, hmin]
  by_cases hj : j < f.width
  · rw [testBit_setEach hfits htakes.found hj, hlast]
    simp [hj]
  · have hhigh : value.toNat.testBit j = false := Nat.testBit_lt_two_pow
      (htakes.room.trans_le (Nat.pow_le_pow_right (by decide) (Nat.le_of_not_lt hj)))
    simp [hj, hhigh]

/-- A field that took nothing reads as before, and so does a name that is no field. -/
theorem get_setEach_of_untaken (hfits : s.view.Fits) (hnone : s.view.taken name sets = []) :
    (s.setEach sets).get name = s.get name := by
  rw [get, get, view_setEach, unknownField, view_setEach]
  cases hfound : s.view.field? name with
  | none => rfl
  | some f =>
      refine congrArg Except.ok (UInt32.toNat_inj.mp (Nat.eq_of_testBit_eq fun j => ?_))
      rw [bits, bits, Word.testBit_extract, Word.testBit_extract]
      by_cases hj : j < f.width
      · rw [testBit_setEach hfits hfound hj, hnone]
        rfl
      · have hmin : ¬ j < min f.width 64 := by omega
        simp [hmin]

end Snapshot

/-! ## loaded groups -/

namespace Directory

variable {warn : Bool} {sources : List Session.Source} {flat : Definition.FlatCatalog}
  {g : Definition.Group} {d : Directory} {r : Handle}

/-- Registers of loaded groups have fields that are inside them and share no bit. -/
theorem fits_of_flatten (hflat : ((Session.start warn).loadEach sources).2.flatten = .ok flat)
    (hg : g ∈ flat.groups) (hd : ofGroup g = .ok d) (hr : d.Has (.register r)) : r.view.Fits := by
  have hcatalog := Session.fieldsFit_loadEach warn sources
  have hfit := (Definition.fit_flatten hcatalog).of_ok hflat g hg
  exact fits_of_has ((fits_ofGroup hfit).of_ok hd) hr

/-- Sets to a snapshot of a register of a loaded group, starting from any word.  One that is
refused changes nothing.  A field reads as the last value that was taken for it, or as it did at
the start; the bits of no field that took a value are those of the start; and sets that give each
field the same values in the same order lead to the same word, however they are ordered among
the fields. -/
theorem fields_of_setEach (hflat : ((Session.start warn).loadEach sources).2.flatten = .ok flat)
    (hg : g ∈ flat.groups) (hd : ofGroup g = .ok d) (hr : d.Has (.register r)) (word : UInt32)
    (sets : List (String × UInt64)) :
    let s : Snapshot := ⟨r.view, word⟩
    let after := s.setEach sets
    (∀ name value,
      (∃ f, r.view.Takes name value f ∧
        after.set name value = .ok (s.setEach (sets ++ [(name, value)]))) ∨
      ∃ e, r.view.Refuses name value e ∧ after.set name value = .error e ∧
        s.setEach (sets ++ [(name, value)]) = after) ∧
    (∀ name value, (r.view.taken name sets).getLast? = some value →
      ∃ bits, after.get name = .ok bits ∧ bits.toNat = value.toNat) ∧
    (∀ name, r.view.taken name sets = [] → after.get name = s.get name) ∧
    (∀ i, (∀ set ∈ sets, ∀ f, r.view.Takes set.1 set.2 f →
        i < f.offset ∨ f.offset + f.width ≤ i) →
      after.word.toNat.testBit i = word.toNat.testBit i) ∧
    ∀ others, (∀ name, r.view.taken name others = r.view.taken name sets) →
      (s.setEach others).word = after.word := by
  intro s after
  have hfits : s.view.Fits := fits_of_flatten hflat hg hd hr
  have hview : after.view = r.view := s.view_setEach sets
  refine ⟨fun name value => ?_, fun name value => Snapshot.get_setEach_of_taken hfits,
    fun name => Snapshot.get_setEach_of_untaken hfits, fun i => Snapshot.testBit_setEach_outside (s := s),
    fun others => Snapshot.word_setEach_congr hfits⟩
  rw [Snapshot.setEach_append]
  obtain ⟨f, htakes⟩ | ⟨e, hrefuses⟩ := r.view.takes_or_refuses name value
  · rw [← hview] at htakes
    refine .inl ⟨f, hview ▸ htakes, ?_⟩
    rw [Snapshot.set_of_takes htakes, Snapshot.setEach, Snapshot.setOrKeep_of_takes htakes,
      Snapshot.setEach]
  · rw [← hview] at hrefuses
    exact .inr ⟨e, hview ▸ hrefuses, Snapshot.set_of_refuses hrefuses,
      Snapshot.setOrKeep_of_refuses hrefuses⟩

/-- What is found in the first group of some sources is found in one of their groups. -/
theorem exists_loaded (warn : Bool) (sources : List Session.Source) {α : Type}
    (find : Directory → Option α) {a : α}
    (h : (((Session.start warn).loadEach sources).2.flatten.toOption.bind (·.groups[0]?)).bind
      (fun g => (ofGroup g).toOption.bind find) = some a) :
    ∃ flat g d, ((Session.start warn).loadEach sources).2.flatten = .ok flat ∧ g ∈ flat.groups ∧
      ofGroup g = .ok d ∧ find d = some a := by
  obtain ⟨g, hgroup, hfound⟩ := Option.bind_eq_some_iff.mp h
  obtain ⟨flat, hflat, hg⟩ := Option.bind_eq_some_iff.mp hgroup
  obtain ⟨d, hd, hfind⟩ := Option.bind_eq_some_iff.mp hfound
  have hflatten := eq_ok_of_toOption hflat
  have hmem := List.mem_of_getElem? hg
  have hdirectory := eq_ok_of_toOption hd
  exact ⟨flat, g, d, hflatten, hmem, hdirectory, hfind⟩

/-- A register with three fields, the second of which cannot be written. -/
def mixed : List Session.Source := [.text "!G\n  A RW\n    .F 4\n    .K 8 R\n    .M 4\n"]

/-- The register of `mixed`. -/
def mixedRegister : Handle :=
  ⟨0, 0, "A", .readWrite, [⟨"F", 0, 4, false, .readWrite, []⟩, ⟨"K", 4, 8, false, .readOnly, []⟩,
    ⟨"M", 12, 4, false, .readWrite, []⟩]⟩

/-- The register of `mixed` is one of its group. -/
theorem exists_mixed :
    ∃ flat g d, ((Session.start false).loadEach mixed).2.flatten = .ok flat ∧ g ∈ flat.groups ∧
      ofGroup g = .ok d ∧ d.Has (.register mixedRegister) := by
  obtain ⟨flat, g, d, hflat, hg, hd, hfollow⟩ := exists_loaded false mixed
    (fun d => (d.followAll d.top [.member "A"]).toOption)
    (a := .register mixedRegister) (by cbv)
  exact ⟨flat, g, d, hflat, hg, hd, has_of_followAll (Session.laidOut_of_flatten hflat g hg) hd
    (eq_ok_of_toOption hfollow)⟩

/-- Of five sets two are refused; the others can be made in another order. -/
theorem sets_mixed :
    ∃ flat g d, ((Session.start false).loadEach mixed).2.flatten = .ok flat ∧ g ∈ flat.groups ∧
      ofGroup g = .ok d ∧ d.Has (.register mixedRegister) ∧
      let s : Snapshot := ⟨mixedRegister.view, 0xFFFFFFFF⟩
      let after := s.setEach [("F", 3), ("F", 16), ("M", 0), ("K", 1), ("F", 5)]
      (∃ bits, after.get "F" = .ok bits ∧ bits.toNat = 5) ∧ after.get "K" = s.get "K" ∧
        after.word.toNat.testBit 20 = true ∧
        (s.setEach [("M", 0), ("F", 3), ("F", 5)]).word = after.word := by
  obtain ⟨flat, g, d, hflat, hg, hd, hr⟩ := exists_mixed
  obtain ⟨-, hlast, hnone, hrest, horder⟩ := fields_of_setEach hflat hg hd hr 0xFFFFFFFF
    [("F", 3), ("F", 16), ("M", 0), ("K", 1), ("F", 5)]
  refine ⟨flat, g, d, hflat, hg, hd, hr, hlast "F" 5 (by decide), hnone "K" (by decide), ?_, ?_⟩
  · have hstop : ∀ f ∈ mixedRegister.view.fields, f.offset + f.width ≤ 20 := by decide
    exact (hrest 20 fun _ _ f htakes =>
      .inr (hstop f (RegisterView.mem_of_field? htakes.found).1)).trans (by decide)
  · refine horder _ fun name => ?_
    by_cases hF : name = "F"
    · subst hF
      decide
    · by_cases hM : name = "M"
      · subst hM
        decide
      · have hK : mixedRegister.view.accepts "K" 1 = false := by decide
        simp [RegisterView.taken, Ne.symm hF, Ne.symm hM, hK]

end Directory
end DeviceRegisters
