import Mathlib
import DeviceRegisters.Proofs.Device.Words
import DeviceRegisters.Proofs.Peripheral.Effects
import DeviceRegisters.Proofs.Peripheral.Snapshots

/-!
# DeviceRegisters.Proofs.Peripheral.FieldWrites

Writing a field changes the bits of the field only.

The other bits are taken from the device, or from memory for a register that can only be
written.  The memory follows the device at an address (`Recalls`) as long as the word
there was last written through registers of the kind that is remembered
(`recalls_performEach`).  A register that is read from the device can stand at the same
address in a union, and what is written through it is not remembered: then a field is
written over an old word (`stale_word_restored`).
-/

namespace DeviceRegisters.Peripheral

open Device (Backend HasWords Memory Quiet)
open Directory (FieldView Handle)

variable {β : Type} [Backend β] {wordAt : β → Nat → UInt32} {p q : Peripheral β} {r : Handle}
  {name : String} {value : UInt64}

/-! ## words -/

/-- A device that takes no word keeps its words. -/
theorem wordAt_of_quiet (hwords : HasWords wordAt) {address : Nat} {device after : β}
    (h : Quiet address device after) (b : Nat) : wordAt after b = wordAt device b := by
  induction h with
  | refl => rfl
  | @read next _ answer _ hread ih =>
      cases answer with
      | error fault => rw [hwords.read_error hread, ih]
      | ok word => rw [(hwords.read_ok hread).2, ih]
  | refused _ hwrite ih => rw [hwords.write_error hwrite, ih]
  | note line _ ih => rw [hwords.note, ih]

/-- An operation that only touches the device changes no word. -/
theorem Kept.wordAt_eq (hwords : HasWords wordAt) (h : Kept r p q) (b : Nat) :
    wordAt q.device b = wordAt p.device b := wordAt_of_quiet hwords h.device b

/-- A word that is taken stands at the address of the register. -/
theorem Wrote.wordAt_eq (hwords : HasWords wordAt) {word : UInt32} (h : Wrote r word p q) (b : Nat) :
    wordAt q.device b = if b = r.address then word else wordAt p.device b := by
  obtain ⟨before, hquiet, hwrite⟩ := h.device
  rw [hwords.write_ok hwrite, wordAt_of_quiet hwords hquiet]

/-! ## memory and device -/

/-- The word that is remembered for an address is the device's. -/
def Recalls (wordAt : β → Nat → UInt32) (p : Peripheral β) (address : Nat) : Prop :=
  p.shadow.getOrZero address = wordAt p.device address

/-- The mode of the register through which an operation writes at an address, if it does. -/
def writer? (p : Peripheral β) (address : Nat) (operation : Operation) : Option Access :=
  match (p.perform operation).1 with
  | .ok .done =>
    if operation.register.address = address then some operation.register.view.access else none
  | _ => none

/-- The mode of the register through which the word at an address is last written in a run. -/
def lastWriter? (p : Peripheral β) (address : Nat) : List Operation → Option Access
  | [] => none
  | operation :: operations =>
    ((p.perform operation).2.lastWriter? address operations).or (p.writer? address operation)

/-- An operation keeps memory and device together, unless it writes at the address through a
register that is read from the device. -/
theorem recalls_perform (hwords : HasWords wordAt) {address : Nat} {operation : Operation}
    (hpulse : operation.register.view.access ≠ .writePulse)
    (hwriter : p.writer? address operation ≠ some .readWrite)
    (h : p.writer? address operation = none → p.Recalls wordAt address) :
    (p.perform operation).2.Recalls wordAt address := by
  have heffect := effect_perform p operation
  rw [writer?] at hwriter h
  generalize p.perform operation = outcome at heffect hwriter h
  cases heffect with
  | @kept answer q hanswer hkept =>
      have hnone : (match answer with
          | .ok .done => if operation.register.address = address then
              some operation.register.view.access else none
          | _ => none) = none := by
        split
        · exact absurd rfl hanswer
        · rfl
      have hrecalls := h hnone
      rw [Recalls, hkept.wordAt_eq hwords, hkept.rest]
      exact hrecalls
  | @wrote word q hwrote =>
      by_cases haddress : operation.register.address = address
      · -- the mode is the only one left that is written
        have haccess : operation.register.view.access = .writeOnly := by
          have hwritable := hwrote.writable
          simp only [if_pos haddress] at hwriter
          cases hmode : operation.register.view.access with
          | readOnly => simp [hmode, Access.isWritable] at hwritable
          | writeOnly => rfl
          | readWrite => exact absurd (congrArg some hmode) hwriter
          | writePulse => exact absurd hmode hpulse
        rw [Recalls, hwrote.wordAt_eq hwords, hwrote.rest]
        simp only [if_pos haccess, WordTable.getOrZero_insert, if_pos haddress.symm]
      · have hrecalls := h (if_neg haddress)
        have hother : ¬ address = operation.register.address := fun heq => haddress heq.symm
        rw [Recalls, hwrote.wordAt_eq hwords, if_neg hother, hwrote.rest]
        split
        · rw [WordTable.getOrZero_insert, if_neg hother]
          exact hrecalls
        · exact hrecalls

/-- So does a run in which the last write at the address is of that kind. -/
theorem recalls_performEach (hwords : HasWords wordAt) {address : Nat}
    {operations : List Operation}
    (hpulse : ∀ operation ∈ operations, operation.register.view.access ≠ .writePulse)
    (hwriter : p.lastWriter? address operations ≠ some .readWrite)
    (h : p.lastWriter? address operations = none → p.Recalls wordAt address) :
    (p.performEach operations).2.Recalls wordAt address := by
  induction operations generalizing p with
  | nil => exact h rfl
  | cons operation operations ih =>
      obtain ⟨hfirst, hlater⟩ := List.forall_mem_cons.mp hpulse
      rw [lastWriter?] at hwriter h
      refine ih (p := (p.perform operation).2) hlater (fun heq => ?_) fun hnone => ?_
      · rw [heq] at hwriter
        exact hwriter rfl
      · rw [hnone, Option.none_or] at hwriter h
        exact recalls_perform hwords hfirst hwriter h

/-! ## fields -/

/-- A read gives the word of the device, if the memory has it. -/
theorem word_of_read (hwords : HasWords wordAt) (hpulse : r.view.access ≠ .writePulse)
    (hrecalls : r.view.access = .writeOnly → p.Recalls wordAt r.address) {word : UInt32}
    (h : p.read r = (.ok word, q)) : word = wordAt p.device r.address := by
  have hdevice : ∀ answer after, Backend.read p.device r.address = (answer, after) →
      answer = .ok word → word = wordAt p.device r.address := by
    rintro _ after hread rfl
    exact (hwords.read_ok hread).1
  cases haccess : r.view.access with
  | writePulse => exact absurd haccess hpulse
  | writeOnly =>
      simp only [read, haccess, Prod.mk.injEq, Except.ok.injEq] at h
      rw [← h.1]
      exact hrecalls haccess
  | readOnly | readWrite =>
      rcases hread : Backend.read p.device r.address with ⟨fault | found, after⟩
      · simp [read, haccess, hread] at h
      · simp only [read, haccess, hread, Prod.mk.injEq, Except.ok.injEq] at h
        exact hdevice _ after hread (by rw [h.1])

theorem kept_of_read {answer : Except Error UInt32} (h : p.read r = (answer, q)) : Kept r p q := by
  have hkept := kept_read p r
  rwa [h] at hkept

/-- A write that succeeds takes the word given. -/
theorem wrote_of_write {word : UInt32} (h : p.write r word = (.ok (), q)) : Wrote r word p q := by
  obtain ⟨e, after, hwrite, -⟩ | ⟨after, hwrite, hwrote⟩ := write_cases p r word
  · rw [hwrite] at h
    exact absurd (Prod.mk.inj h).1 nofun
  · rw [hwrite] at h
    rwa [← (Prod.mk.inj h).2]

/-- Writing a field that takes the value is writing the register with it. -/
theorem writeField_of_takes {word : UInt32} {f : FieldView} (h : p.read r = (.ok word, q))
    (htakes : r.view.Takes name value f) :
    p.writeField r name value = q.write r (Word.insert word f.offset f.width value) := by
  have hset := Snapshot.set_of_takes (s := ⟨r.view, word⟩) htakes
  simp only [writeField, snapshot, h, hset, commit]

/-- A value that is refused is not written. -/
theorem writeField_of_refuses {word : UInt32} {e : Error} (h : p.read r = (.ok word, q))
    (hrefuses : r.view.Refuses name value e) :
    p.writeField r name value = (.error e, q) := by
  have hset := Snapshot.set_of_refuses (s := ⟨r.view, word⟩) hrefuses
  simp only [writeField, snapshot, h, hset]

/-- A field that is written is put into the word of the device. -/
theorem wordAt_of_writeField (hwords : HasWords wordAt) (hpulse : r.view.access ≠ .writePulse)
    (hrecalls : r.view.access = .writeOnly → p.Recalls wordAt r.address)
    (h : p.writeField r name value = (.ok (), q)) :
    ∃ f, r.view.field? name = some f ∧ Word.fits value f.width = true ∧ ∀ b, wordAt q.device b =
      if b = r.address then Word.insert (wordAt p.device r.address) f.offset f.width value
      else wordAt p.device b := by
  rcases hread : p.read r with ⟨e | word, next⟩
  · simp [writeField, snapshot, hread] at h
  · have hword := word_of_read hwords hpulse hrecalls hread
    obtain ⟨f, htakes⟩ | ⟨e, hrefuses⟩ := r.view.takes_or_refuses name value
    · rw [writeField_of_takes hread htakes] at h
      refine ⟨f, htakes.found, Word.fits_iff.mpr htakes.room, fun b => ?_⟩
      rw [(wrote_of_write h).wordAt_eq hwords, (kept_of_read hread).wordAt_eq hwords, hword]
    · rw [writeField_of_refuses hread hrefuses] at h
      cases h

/-- The field has the value now, and nothing else changed in the words. -/
structure Replaced (wordAt : β → Nat → UInt32) (p q : Peripheral β) (address : Nat) (f : FieldView)
    (value : UInt64) : Prop where
  value : (Word.extract (wordAt q.device address) f.offset f.width).toNat = value.toNat
  rest : ∀ i, i < f.offset ∨ f.offset + f.width ≤ i →
    (wordAt q.device address).toNat.testBit i = (wordAt p.device address).toNat.testBit i
  words : ∀ b, b ≠ address → wordAt q.device b = wordAt p.device b

/-- A field that is written has its value, and nothing else changed. -/
theorem replaced_of_writeField (hwords : HasWords wordAt) (hpulse : r.view.access ≠ .writePulse)
    (hrecalls : r.view.access = .writeOnly → p.Recalls wordAt r.address) (hview : r.view.Fits)
    (h : p.writeField r name value = (.ok (), q)) :
    ∃ f, r.view.field? name = some f ∧ Replaced wordAt p q r.address f value := by
  obtain ⟨f, hf, hfits, hword⟩ := wordAt_of_writeField hwords hpulse hrecalls h
  obtain ⟨hstop, hmin⟩ := hview.within hf
  have hown : wordAt q.device r.address =
      Word.insert (wordAt p.device r.address) f.offset f.width value := by
    rw [hword, if_pos rfl]
  refine ⟨f, hf, ?_, fun i hi => ?_, fun b hb => ?_⟩
  · rw [hown]
    exact Word.toNat_extract_insert hstop hfits
  · rw [hown, Word.testBit_insert, hmin, if_neg (by omega)]
  · rw [hword, if_neg hb]

/-! ## loaded groups -/

omit [Backend β] in
/-- Registers of loaded groups have fields that fit. -/
theorem fits_of_bindAll {warn : Bool} {sources : List Session.Source}
    {flat : Definition.FlatCatalog} {deviceFor : Definition.Group → β} {ps : List (Peripheral β)}
    {g : Definition.Group}
    (hflat : ((Session.start warn).loadEach sources).2.flatten = .ok flat)
    (hbind : bindAll deviceFor flat.groups = .ok ps) (hgp : (g, p) ∈ flat.groups.zip ps)
    (hr : p.directory.Has (.register r)) : r.view.Fits := by
  obtain ⟨directory, hdirectory, hp⟩ := bind_eq_ok_iff.mp (ofGroup_of_bindAll hbind hgp)
  obtain rfl := Except.ok.inj hp
  exact Directory.fits_of_flatten hflat (List.of_mem_zip hgp).1 hdirectory hr

/-- A register that is read and written, and one that is only written, in a union. -/
def aliased : List Session.Source :=
  [.text "!G\n  *UNION\n    A RW\n    B W\n      .F 4\n"]

/-- The register of `aliased` that is read and written. -/
def aliasedPlain : Handle := ⟨0, 0, "A", .readWrite, []⟩

/-- The register of `aliased` that is only written. -/
def aliasedOnly : Handle :=
  ⟨1, 0, "B", .writeOnly, [⟨"F", 0, 4, false, .writeOnly, []⟩]⟩

/-- The registers of `aliased` are registers of its group on a memory. -/
theorem exists_aliased :
    ∃ flat ps g directory, ((Session.start false).loadEach aliased).2.flatten = .ok flat ∧
      bindAll (fun g => Memory.zeroed g.name g.head.span) flat.groups = .ok ps ∧
      (g, ofDirectory directory (Memory.zeroed "G" 1)) ∈ flat.groups.zip ps ∧
      Memory.zeroed g.name g.head.span = .zeroed "G" 1 ∧
      directory.Has (.register aliasedPlain) ∧ directory.Has (.register aliasedOnly) := by
  have hfirst : ((((Session.start false).loadEach aliased).2.flatten.toOption.bind
      fun flat => (bindAll (fun g => Memory.zeroed g.name g.head.span) flat.groups).toOption.bind
        fun ps => (flat.groups.zip ps)[0]?).map fun (g, p) => (Memory.zeroed g.name g.head.span,
          p.device, p.shadow, (p.directory.resolve "A").toOption,
          (p.directory.resolve "B").toOption)) =
      some (.zeroed "G" 1, .zeroed "G" 1, .empty, some (.register aliasedPlain),
        some (.register aliasedOnly)) := by
    cbv
  obtain ⟨⟨g, ⟨directory, device, shadow⟩⟩, hfound, hrest⟩ := Option.map_eq_some_iff.mp hfirst
  obtain ⟨flat, hflat, hfound⟩ := Option.bind_eq_some_iff.mp hfound
  obtain ⟨ps, hps, hgp⟩ := Option.bind_eq_some_iff.mp hfound
  simp only [Prod.mk.injEq] at hrest
  obtain ⟨hmemory, rfl, rfl, hplain, honly⟩ := hrest
  have hflatten := eq_ok_of_toOption hflat
  have hbind := eq_ok_of_toOption hps
  have hmem := List.mem_of_getElem? hgp
  have hrange := inRange_of_bindAll hflatten hbind hmem
  exact ⟨flat, ps, g, directory, hflatten, hbind, hmem, hmemory,
    (hrange.resolve _ _ (eq_ok_of_toOption hplain)).1,
    (hrange.resolve _ _ (eq_ok_of_toOption honly)).1⟩

/-- On a memory that was zero when it was bound to a loaded group, and that only operations on
its registers changed, a field that is written has the value, and no other bit changes.  If the
register can only be written, the word at its address must not be the work of a register that
is read from the device. -/
theorem replaced_after_run {warn : Bool} {sources : List Session.Source}
    {flat : Definition.FlatCatalog} {deviceFor : Definition.Group → Memory}
    {ps : List (Peripheral Memory)} {g : Definition.Group} {p₀ q : Peripheral Memory}
    {operations : List Operation} {r : Handle} {name memory : String} {size : Nat} {value : UInt64}
    (hflat : ((Session.start warn).loadEach sources).2.flatten = .ok flat)
    (hbind : bindAll deviceFor flat.groups = .ok ps) (hgp : (g, p₀) ∈ flat.groups.zip ps)
    (hdevice : deviceFor g = .zeroed memory size)
    (hoperations : ∀ operation ∈ operations, operation.register.view.access ≠ .writePulse)
    (hr : p₀.directory.Has (.register r)) (hpulse : r.view.access ≠ .writePulse)
    (hlast : r.view.access = .writeOnly → p₀.lastWriter? r.address operations ≠ some .readWrite)
    (h : (p₀.performEach operations).2.writeField r name value = (.ok (), q)) :
    ∃ f, r.view.field? name = some f ∧
      Replaced Memory.wordAt (p₀.performEach operations).2 q r.address f value := by
  have hstart : p₀.Recalls Memory.wordAt r.address := by
    obtain ⟨directory, -, hp⟩ := bind_eq_ok_iff.mp (ofGroup_of_bindAll hbind hgp)
    obtain rfl := Except.ok.inj hp
    rw [Recalls, ofDirectory, hdevice, Memory.wordAt_zeroed]
    rfl
  have hrecalls : r.view.access = .writeOnly →
      (p₀.performEach operations).2.Recalls Memory.wordAt r.address := fun haccess =>
    recalls_performEach Device.hasWords_memory hoperations (hlast haccess) fun _ => hstart
  exact replaced_of_writeField Device.hasWords_memory hpulse hrecalls
    (fits_of_bindAll hflat hbind hgp hr) h

/-- Once a register that is remembered was written last, a field of it can be written. -/
theorem replaced_aliased :
    ∃ flat ps g p₀ f, ((Session.start false).loadEach aliased).2.flatten = .ok flat ∧
      bindAll (fun g => Memory.zeroed g.name g.head.span) flat.groups = .ok ps ∧
      (g, p₀) ∈ flat.groups.zip ps ∧
      let p := (p₀.performEach [.write aliasedPlain 255, .write aliasedOnly 240]).2
      (p.writeField aliasedOnly "F" 1).1 = .ok () ∧ aliasedOnly.view.field? "F" = some f ∧
        Replaced Memory.wordAt p (p.writeField aliasedOnly "F" 1).2 0 f 1 := by
  obtain ⟨flat, ps, g, directory, hflat, hbind, hgp, hdevice, -, honly⟩ := exists_aliased
  have hmodes : ∀ operation ∈ [Operation.write aliasedPlain 255, .write aliasedOnly 240],
      operation.register.view.access ≠ .writePulse := by decide
  have hlast : (ofDirectory directory (Memory.zeroed "G" 1)).lastWriter? 0
      [.write aliasedPlain 255, .write aliasedOnly 240] = some .writeOnly := by cbv
  have hwrite : (((ofDirectory directory (Memory.zeroed "G" 1)).performEach
      [.write aliasedPlain 255, .write aliasedOnly 240]).2.writeField aliasedOnly "F" 1).1 =
        .ok () := by cbv
  obtain ⟨f, hf, hreplaced⟩ := replaced_after_run hflat hbind hgp hdevice hmodes honly (by decide)
    (fun _ heq => absurd (hlast.symm.trans heq) (by decide)) (Prod.ext hwrite rfl)
  exact ⟨flat, ps, g, _, f, hflat, hbind, hgp, hwrite, hf, hreplaced⟩

/-- What was written through a register that is read from the device is not remembered: a field
of the other register at the address is written together with an old word. -/
theorem stale_word_restored :
    ∃ flat ps g p₀ f, ((Session.start false).loadEach aliased).2.flatten = .ok flat ∧
      bindAll (fun g => Memory.zeroed g.name g.head.span) flat.groups = .ok ps ∧
      (g, p₀) ∈ flat.groups.zip ps ∧ p₀.directory.Has (.register aliasedPlain) ∧
      p₀.directory.Has (.register aliasedOnly) ∧
      let p := (p₀.performEach [.write aliasedPlain 255]).2
      (p.writeField aliasedOnly "F" 1).1 = .ok () ∧ aliasedOnly.view.field? "F" = some f ∧
        ¬ Replaced Memory.wordAt p (p.writeField aliasedOnly "F" 1).2 0 f 1 := by
  obtain ⟨flat, ps, g, directory, hflat, hbind, hgp, -, hplain, honly⟩ := exists_aliased
  have hbefore : Memory.wordAt ((ofDirectory directory (Memory.zeroed "G" 1)).performEach
      [.write aliasedPlain 255]).2.device 0 = 255 := by cbv
  have hwrite : (((ofDirectory directory (Memory.zeroed "G" 1)).performEach
      [.write aliasedPlain 255]).2.writeField aliasedOnly "F" 1).1 = .ok () := by cbv
  have hafter : Memory.wordAt (((ofDirectory directory (Memory.zeroed "G" 1)).performEach
      [.write aliasedPlain 255]).2.writeField aliasedOnly "F" 1).2.device 0 = 1 := by cbv
  refine ⟨flat, ps, g, _, ⟨"F", 0, 4, false, .writeOnly, []⟩, hflat, hbind, hgp, hplain, honly,
    hwrite, rfl, fun hreplaced => ?_⟩
  have hbit := hreplaced.rest 4 (.inr (by decide))
  rw [hbefore, hafter] at hbit
  exact absurd hbit (by decide)

end DeviceRegisters.Peripheral
