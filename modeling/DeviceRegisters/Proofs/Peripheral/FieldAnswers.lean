import Mathlib
import DeviceRegisters.Proofs.Directory.Resolution
import DeviceRegisters.Proofs.Peripheral.FieldWrites
import DeviceRegisters.Proofs.Peripheral.Journal

/-!
# DeviceRegisters.Proofs.Peripheral.FieldAnswers

What writing a field answers on a device none of whose accesses fail.

It succeeds or is denied, for one reason (`writeField_cases`), and a value that was written is
read back (`readField_of_writeField`).  The device is entered in a ledger, which shows what
reading and writing a register ask of it (`made_of_read`, `made_of_write`).  In a loaded group
the mode of a register is the one that the route to it gives it, its fields are declared
(`Leads.declared`), and the mode of a field is its own or else the register's, so that the answer
can be told from the definitions (`writeField_of_flatten`).
-/

namespace DeviceRegisters

/-! ## ledgers -/

namespace Device

variable {β : Type} [Backend β]

/-- A device has the same words when its accesses are entered in a ledger. -/
theorem hasWords_ledger {wordAt : β → Nat → UInt32} (h : HasWords wordAt) :
    HasWords fun l : Ledger β => wordAt l.inner where
  read_ok hread := h.read_ok (Ledger.inner_of_enter hread)
  read_error hread := h.read_error (Ledger.inner_of_enter hread)
  write_ok hwrite := h.write_ok (Ledger.inner_of_enter hwrite)
  write_error hwrite := h.write_error (Ledger.inner_of_enter hwrite)
  note l line b := h.note l.inner line b

/-- It answers where it did. -/
theorem answers_ledger {good : β → Prop} {address : Nat} (h : Answers good address) :
    Answers (fun l : Ledger β => good l.inner) address where
  read l hl := by
    obtain ⟨word, next, hread, hnext⟩ := h.read l.inner hl
    refine ⟨word, { l with inner := next, performed := l.performed ++ [.read address] }, ?_, hnext⟩
    change l.enter (.read address) (Backend.read l.inner address) = _
    rw [hread]
    rfl
  write l word hl := by
    obtain ⟨next, hwrite, hnext⟩ := h.write l.inner word hl
    refine ⟨{ l with inner := next, performed := l.performed ++ [.write address word] }, ?_, hnext⟩
    change l.enter (.write address word) (Backend.write l.inner address word) = _
    rw [hwrite]
    rfl
  note l line hl := h.note l.inner line hl

end Device

/-! ## views -/

namespace Directory.RegisterView

/-- Why a value cannot be written to the field of a name: it cannot be put into the field, or the
register cannot be written. -/
inductive Denies (v : RegisterView) (name : String) (value : UInt64) : Error → Prop where
  | field {e : Error} (hrefuses : v.Refuses name value e) : Denies v name value e
  | register {f : FieldView} (htakes : v.Takes name value f) (haccess : v.access = .readOnly) :
    Denies v name value (.readOnly v.name)

/-- What a field takes is denied only for the register. -/
theorem Denies.of_takes {v : RegisterView} {name : String} {value : UInt64} {f : FieldView}
    {e : Error} (h : v.Denies name value e) (htakes : v.Takes name value f) :
    v.access = .readOnly ∧ e = .readOnly v.name := by
  cases h with
  | field hrefuses => exact absurd htakes hrefuses.not_takes
  | register _ haccess => exact ⟨haccess, rfl⟩

/-- The mode of a field in a view is its own, or else the register's. -/
theorem field?_of (name : String) (access : Access) (fields : List Definition.Field)
    (field : String) :
    (RegisterView.of name access fields).field? field =
      (fields.find? (·.name = field)).map (.ofField access) := by
  rw [field?, of, List.find?_map]
  rfl

/-- A field takes a value if it is declared, if its mode, its own or the register's, is not
read-only, and if it has room. -/
theorem takes_of_iff {name field : String} {access : Access} {fields : List Definition.Field}
    {value : UInt64} :
    (∃ f, (RegisterView.of name access fields).Takes field value f) ↔
      ∃ f, fields.find? (·.name = field) = some f ∧ f.access.getD access ≠ .readOnly ∧
        value.toNat < 2 ^ f.width := by
  constructor
  · rintro ⟨view, hfound, haccess, hvalue⟩
    rw [field?_of, Option.map_eq_some_iff] at hfound
    obtain ⟨f, hf, rfl⟩ := hfound
    exact ⟨f, hf, haccess, hvalue⟩
  · rintro ⟨f, hf, haccess, hvalue⟩
    exact ⟨.ofField access f, by rw [field?_of, hf, Option.map_some], haccess, hvalue⟩

end Directory.RegisterView

/-! ## what is declared -/

namespace Definition

open Directory (Leaf)

/-- A route leads to a register with its declared fields, in the mode that it has there. -/
theorem Entry.Leads.declared {entry : Entry} {path : Path} {leaf : Leaf}
    (h : entry.Leads path leaf) :
    ∃ fields, (leaf.view.name, fields) ∈ entry.declared ∧
      leaf.view = .of leaf.view.name leaf.view.access fields := by
  induction h with
  | register => exact ⟨_, List.mem_singleton_self _, rfl⟩
  | element _ => exact ⟨_, List.mem_singleton_self _, rfl⟩
  | read => exact ⟨_, List.mem_cons_self, rfl⟩
  | write => exact ⟨_, List.mem_cons_of_mem _ (List.mem_singleton_self _), rfl⟩
  | named hr => exact ⟨_, List.mem_map_of_mem hr, rfl⟩
  | selected hr => exact ⟨_, List.mem_map_of_mem (List.mem_of_getElem? hr), rfl⟩
  | visible _ hentry _ ih | hidden _ hentry _ ih | past hentry _ ih | through _ hentry _ ih =>
      obtain ⟨fields, hdeclared, hview⟩ := ih
      exact ⟨fields, mem_declaredIn hentry hdeclared, hview⟩

end Definition

namespace Peripheral

open Device (Answers Backend HasWords Ledger Transfer)
open Directory (FieldView Handle RegisterView)

section Words

variable {β : Type} [Backend β] {wordAt : β → Nat → UInt32} {good : β → Prop}
  {p q : Peripheral β} {r : Handle} {word : UInt32} {name : String} {value : UInt64}
  {f : FieldView} {e : Error}

/-! ## registers -/

/-- A register that is read from the device gives the word that the device answers. -/
theorem read_eq (h : r.view.access = .readOnly ∨ r.view.access = .readWrite) {device : β}
    (hread : Backend.read p.device r.address = (.ok word, device)) :
    p.read r = (.ok word, { p with device := Backend.note device (line r .read word) }) := by
  rcases h with h | h
  all_goals simp only [read, h, hread]

/-- A register that can be written is written when the device takes the word. -/
theorem write_eq (h : r.view.access ≠ .readOnly) {device : β}
    (hwrite : Backend.write (Backend.note p.device (line r .write word)) r.address word =
      (.ok (), device)) :
    p.write r word = (.ok (), { p with
      device
      shadow := if r.view.access = .writeOnly then p.shadow.insert r.address word else p.shadow }) := by
  simp only [write, Access.isWritable_iff.mpr h, hwrite, if_true]

/-- Where the device answers, a register is read. -/
theorem read_answered (hr : Answers good r.address) (hp : good p.device) :
    ∃ word q, p.read r = (.ok word, q) ∧ good q.device := by
  obtain ⟨word, next, hread, hnext⟩ := hr.read p.device hp
  cases haccess : r.view.access with
  | readOnly => exact ⟨word, _, read_eq (.inl haccess) hread, hr.note _ _ hnext⟩
  | readWrite => exact ⟨word, _, read_eq (.inr haccess) hread, hr.note _ _ hnext⟩
  | writeOnly => exact ⟨p.shadow.getOrZero r.address, p, by simp only [read, haccess], hp⟩
  | writePulse => exact ⟨0, p, by simp only [read, haccess], hp⟩

/-- Where the device answers, a register that can be written is written. -/
theorem write_answered (hr : Answers good r.address) (hp : good p.device)
    (hwritable : r.view.access ≠ .readOnly) (word : UInt32) :
    ∃ q, p.write r word = (.ok (), q) ∧ Wrote r word p q ∧ good q.device := by
  obtain ⟨next, hwrite, hnext⟩ :=
    hr.write (Backend.note p.device (line r .write word)) word (hr.note _ _ hp)
  have heq := write_eq hwritable hwrite
  exact ⟨_, heq, wrote_of_write heq, hnext⟩

/-- A register that can only be read is not written. -/
theorem write_readOnly (h : r.view.access = .readOnly) (word : UInt32) :
    p.write r word = (.error (.readOnly r.view.name), p) := by
  simp [write, h, Access.isWritable]

/-- The word that reading a register gives unless it is written in pulses: the device's, or the
one that is remembered. -/
def held (wordAt : β → Nat → UInt32) (p : Peripheral β) (r : Handle) : UInt32 :=
  if r.view.access = .writeOnly then p.shadow.getOrZero r.address else wordAt p.device r.address

/-- Reading a register gives the word that it holds. -/
theorem held_of_read (hwords : HasWords wordAt) (hpulse : r.view.access ≠ .writePulse)
    (h : p.read r = (.ok word, q)) : word = p.held wordAt r := by
  by_cases honly : r.view.access = .writeOnly
  · simp only [read, honly, Prod.mk.injEq, Except.ok.injEq] at h
    rw [held, if_pos honly, h.1]
  · rw [held, if_neg honly]
    exact word_of_read hwords hpulse (fun h => absurd h honly) h

/-! ## fields -/

/-- A value that is denied is not written. -/
theorem writeField_of_denies (h : p.read r = (.ok word, q)) (hdenies : r.view.Denies name value e) :
    p.writeField r name value = (.error e, q) := by
  cases hdenies with
  | field hrefuses => exact writeField_of_refuses h hrefuses
  | register htakes haccess => rw [writeField_of_takes h htakes, write_readOnly haccess]

/-- When no access fails, a write to a field succeeds or is denied. -/
theorem writeField_cases (hr : Answers good r.address) (hp : good p.device) (name : String)
    (value : UInt64) :
    (∃ f q, r.view.Takes name value f ∧ r.view.access ≠ .readOnly ∧
      p.writeField r name value = (.ok (), q)) ∨
    ∃ e word q, r.view.Denies name value e ∧ p.read r = (.ok word, q) ∧
      p.writeField r name value = (.error e, q) := by
  obtain ⟨word, next, hread, hnext⟩ := read_answered hr hp
  obtain ⟨f, htakes⟩ | ⟨e, hrefuses⟩ := r.view.takes_or_refuses name value
  · by_cases haccess : r.view.access = .readOnly
    · have hdenies := RegisterView.Denies.register htakes haccess
      exact .inr ⟨_, word, next, hdenies, hread, writeField_of_denies hread hdenies⟩
    · obtain ⟨q, hwrite, -, -⟩ :=
        write_answered hr hnext haccess (Word.insert word f.offset f.width value)
      exact .inl ⟨f, q, htakes, haccess, (writeField_of_takes hread htakes).trans hwrite⟩
  · exact .inr ⟨e, word, next, .field hrefuses, hread, writeField_of_refuses hread hrefuses⟩

/-! ## words that are stored -/

/-- One peripheral is as another is when a word was written to a register of it. -/
structure Stored (wordAt : β → Nat → UInt32) (r : Handle) (word : UInt32) (p q : Peripheral β) :
    Prop where
  words : ∀ b, wordAt q.device b = if b = r.address then word else wordAt p.device b
  shadow : q.shadow =
    if r.view.access = .writeOnly then p.shadow.insert r.address word else p.shadow

/-- A word that is taken is stored. -/
theorem Wrote.stored (hwords : HasWords wordAt) (h : Wrote r word p q) : Stored wordAt r word p q :=
  ⟨h.wordAt_eq hwords, by rw [h.rest]⟩

omit [Backend β] in
/-- What is stored is what reading gives. -/
theorem Stored.held_eq (h : Stored wordAt r word p q) : q.held wordAt r = word := by
  rw [held, h.shadow, h.words, if_pos rfl]
  split <;> simp

/-- A value that was written to a field is read back, also as a signed number. -/
theorem readField_of_writeField (hwords : HasWords wordAt) (hr : Answers good r.address)
    (hp : good p.device) (hpulse : r.view.access ≠ .writePulse) (hview : r.view.Fits)
    (htakes : r.view.Takes name value f) (h : p.writeField r name value = (.ok (), q)) :
    ∃ bits signed, (q.readField r name).1 = .ok bits ∧ bits.toNat = value.toNat ∧
      (q.readSigned r name).1 = .ok signed ∧
      signed.toInt = (BitVec.ofNat f.width value.toNat).toInt := by
  obtain ⟨hpos, hstop⟩ := hview.inside f (RegisterView.mem_of_field? htakes.found).1
  rw [Definition.registerBits] at hstop
  have hq : good q.device := by
    have hunharmed := (unharmed_writeField hr hp name value).device
    rwa [h] at hunharmed
  obtain ⟨word, next, hread, -⟩ := read_answered hr hp
  rw [writeField_of_takes hread htakes] at h
  obtain ⟨found, last, hback, -⟩ := read_answered hr hq
  have hfound : found = Word.insert word f.offset f.width value :=
    (held_of_read hwords hpulse hback).trans ((wrote_of_write h).stored hwords).held_eq
  have hvalue : (Word.extract (Word.insert word f.offset f.width value) f.offset f.width).toNat =
      value.toNat := Word.toNat_extract_insert hstop (Word.fits_iff.mpr htakes.room)
  generalize hbits : Word.extract (Word.insert word f.offset f.width value) f.offset f.width = bits
    at hvalue
  have hfield : q.readField r name = (.ok bits, last) := by
    simp only [readField, htakes.found, hback, hfound, hbits]
  have hsigned : (q.readSigned r name).1 = .ok (Word.toSigned bits.toUInt64 f.width) := by
    simp only [readSigned, htakes.found, hfield]
  refine ⟨bits, _, by rw [hfield], hvalue, hsigned, ?_⟩
  rw [Word.toInt_toSigned _ hpos (by omega), UInt32.toNat_toUInt64, hvalue]

end Words

/-! ## accesses -/

section Ledgers

variable {β : Type} [Backend β] {p q : Peripheral (Ledger β)} {r : Handle} {word : UInt32}

/-- What reading a register asks of the device. -/
def asked (r : Handle) : List Transfer :=
  match r.view.access with
  | .readOnly | .readWrite => [.read r.address]
  | .writeOnly | .writePulse => []

/-- Reading a register asks of the device what its mode says. -/
theorem made_of_read (h : p.read r = (.ok word, q)) : p.device.Made (asked r) q.device := by
  have hdevice (haccess : r.view.access = .readOnly ∨ r.view.access = .readWrite) :
      p.device.Made [.read r.address] q.device := by
    rcases hread : Backend.read p.device r.address with ⟨fault | found, device⟩
    · rcases haccess with haccess | haccess
      all_goals simp [read, haccess, hread] at h
    · obtain rfl := (Prod.mk.inj ((read_eq haccess hread).symm.trans h)).2
      exact ⟨(Ledger.enter_ok hread).1, (Ledger.enter_ok hread).2⟩
  cases haccess : r.view.access with
  | readOnly =>
      rw [asked, haccess]
      exact hdevice (.inl haccess)
  | readWrite =>
      rw [asked, haccess]
      exact hdevice (.inr haccess)
  | writeOnly | writePulse =>
      simp only [read, haccess, Prod.mk.injEq] at h
      rw [asked, haccess, ← h.2]
      exact .refl _

/-- Writing a register is one write for the device. -/
theorem made_of_write (h : p.write r word = (.ok (), q)) :
    p.device.Made [.write r.address word] q.device := by
  simp only [write] at h
  split at h
  · rcases hwrite : Backend.write (Backend.note p.device (line r .write word)) r.address word with
      ⟨fault | ⟨⟩, device⟩
    · simp [hwrite] at h
    · simp only [hwrite, Prod.mk.injEq, true_and] at h
      rw [← h]
      exact ⟨(Ledger.enter_ok hwrite).1, (Ledger.enter_ok hwrite).2⟩
  · simp at h

end Ledgers

/-! ## loaded groups -/

/-- Writing a field of a register that a path leads to in a loaded group, on a device none of whose
accesses fail.  It succeeds if a field of that name is declared, if the field's mode, which is its
own or else the register's, is not read-only, if it has room for the value, and if the register's
mode is not read-only either.  If not, the answer is the error for the first of these that does not
hold; then the device is asked for the word at most, as reading the register does, and nothing new
is remembered.  A value that is written to a register that is not written in pulses is read back,
also as a signed number. -/
theorem writeField_of_flatten {β : Type} [Backend β] {good : β → Prop} {p : Peripheral (Ledger β)}
    {r : Handle} {warn : Bool} {sources : List Session.Source} {flat : Definition.FlatCatalog}
    {g : Definition.Group} {path : Path}
    (hflat : ((Session.start warn).loadEach sources).2.flatten = .ok flat) (hg : g ∈ flat.groups)
    (hd : Directory.ofGroup g = .ok p.directory)
    (hpath : p.directory.followAll p.directory.top path = .ok (.register r))
    (hr : Answers good r.address) (hp : good p.device.inner) (name : String) (value : UInt64) :
    let written := p.writeField r name value
    ∃ fields, Definition.AnyLeads g.content path ⟨r.address, r.view⟩ ∧
      (r.view.name, fields) ∈ Definition.declaredIn g.content ∧
      r.view = .of r.view.name r.view.access fields ∧
      (written.1 = .ok () ↔
        (∃ f, fields.find? (·.name = name) = some f ∧ f.access.getD r.view.access ≠ .readOnly ∧
          value.toNat < 2 ^ f.width) ∧ r.view.access ≠ .readOnly) ∧
      (written.1 ≠ .ok () → ∃ e, r.view.Denies name value e ∧ written.1 = .error e ∧
        p.device.Made (asked r) written.2.device ∧ written.2.shadow = p.shadow) ∧
      (written.1 = .ok () → ∀ wordAt : β → Nat → UInt32, HasWords wordAt → r.view.access ≠ .writePulse →
        ∃ f bits signed, fields.find? (·.name = name) = some f ∧
          (written.2.readField r name).1 = .ok bits ∧ bits.toNat = value.toNat ∧
          (written.2.readSigned r name).1 = .ok signed ∧
          signed.toInt = (BitVec.ofNat f.width value.toNat).toInt) := by
  intro written
  have hlaid := Session.laidOut_of_flatten hflat g hg
  have hfits : r.view.Fits :=
    Directory.fits_of_flatten hflat hg hd (Directory.has_of_followAll hlaid hd hpath)
  have hleads : Definition.AnyLeads g.content path ⟨r.address, r.view⟩ :=
    (Directory.ends_top_iff hlaid hd).mp ⟨r, hpath, rfl⟩
  obtain ⟨entry, hentry, hroute⟩ := hleads
  obtain ⟨fields, hdeclared, hview⟩ : ∃ fields, (r.view.name, fields) ∈ entry.declared ∧
      r.view = .of r.view.name r.view.access fields := hroute.declared
  have htaken : (∃ f, (RegisterView.of r.view.name r.view.access fields).Takes name value f) ↔
      ∃ f, fields.find? (·.name = name) = some f ∧ f.access.getD r.view.access ≠ .readOnly ∧
        value.toNat < 2 ^ f.width := RegisterView.takes_of_iff
  rw [← hview] at htaken
  refine ⟨fields, ⟨entry, hentry, hroute⟩, Definition.mem_declaredIn hentry hdeclared, hview, ?_⟩
  rw [← htaken]
  obtain ⟨f, q, htakes, haccess, hwritten⟩ | ⟨e, word, q, hdenies, hread, hwritten⟩ :=
    writeField_cases (Device.answers_ledger hr) hp name value
  · have hanswer : written.1 = .ok () := congrArg Prod.fst hwritten
    refine ⟨iff_of_true hanswer ⟨⟨f, htakes⟩, haccess⟩, fun h => absurd hanswer h, ?_⟩
    intro _ wordAt hwords hpulse
    have hback := readField_of_writeField (Device.hasWords_ledger hwords) (Device.answers_ledger hr)
      hp hpulse hfits htakes hwritten
    have hfound := htakes.found
    rw [hview, RegisterView.field?_of, Option.map_eq_some_iff] at hfound
    obtain ⟨own, hown, rfl⟩ := hfound
    obtain ⟨bits, signed, hread, hbits, hreadSigned, hsigned⟩ := hback
    rw [show written.2 = q from congrArg Prod.snd hwritten]
    exact ⟨own, bits, signed, hown, hread, hbits, hreadSigned, hsigned⟩
  · have hanswer : written.1 = .error e := congrArg Prod.fst hwritten
    refine ⟨iff_of_false (by simp [hanswer]) fun h => ?_, fun _ => ?_, fun h => ?_⟩
    · obtain ⟨⟨f, htakes⟩, haccess⟩ := h
      exact haccess (hdenies.of_takes htakes).1
    · refine ⟨e, hdenies, hanswer, ?_⟩
      rw [show written.2 = q from congrArg Prod.snd hwritten]
      exact ⟨made_of_read hread, by rw [(kept_of_read hread).rest]⟩
    · exact absurd (hanswer.symm.trans h) nofun

/-- An overlay whose registers can only be written, and a register that can only be read with a
field that says otherwise. -/
def imposed : List Session.Source :=
  [.text "!G\n  *OVERLAY MUX W\n    LOW\n      .F 4\n    HIGH\n  ID R\n    .V 8 RW\n"]

/-- The first register of the overlay of `imposed`, with its mode. -/
def imposedLow : Handle := ⟨0, 0, "LOW", .writeOnly, [⟨"F", 0, 4, false, .writeOnly, []⟩]⟩

/-- The register of `imposed` that can only be read. -/
def imposedId : Handle := ⟨3, 1, "ID", .readOnly, [⟨"V", 0, 8, false, .readWrite, []⟩]⟩

/-- The registers of `imposed` are where paths lead to. -/
theorem exists_imposed :
    ∃ flat g d, ((Session.start false).loadEach imposed).2.flatten = .ok flat ∧ g ∈ flat.groups ∧
      Directory.ofGroup g = .ok d ∧
      d.followAll d.top [.member "MUX", .index 0] = .ok (.register imposedLow) ∧
      d.followAll d.top [.member "ID"] = .ok (.register imposedId) := by
  obtain ⟨flat, g, d, hflat, hg, hd, hfound⟩ := Directory.exists_loaded false imposed
    (fun d => some ((d.followAll d.top [.member "MUX", .index 0]).toOption,
      (d.followAll d.top [.member "ID"]).toOption))
    (a := (some (.register imposedLow), some (.register imposedId))) (by cbv)
  obtain ⟨hlow, hid⟩ := Prod.mk.inj (Option.some.inj hfound)
  exact ⟨flat, g, d, hflat, hg, hd, eq_ok_of_toOption hlow, eq_ok_of_toOption hid⟩

/-- A value of the field in the overlay is read back, as a number and as a signed one.  The field
of the other register has room for a value and can be written, but its register cannot. -/
theorem writeField_imposed :
    ∃ flat g d, ((Session.start false).loadEach imposed).2.flatten = .ok flat ∧ g ∈ flat.groups ∧
      Directory.ofGroup g = .ok d ∧
      d.followAll d.top [.member "MUX", .index 0] = .ok (.register imposedLow) ∧
      d.followAll d.top [.member "ID"] = .ok (.register imposedId) ∧
      let p := ofDirectory d (Ledger.ofDevice (Device.Memory.zeroed "G" 2))
      (∃ bits signed, (p.writeField imposedLow "F" 13).1 = .ok () ∧
        ((p.writeField imposedLow "F" 13).2.readField imposedLow "F").1 = .ok bits ∧
        bits.toNat = 13 ∧
        ((p.writeField imposedLow "F" 13).2.readSigned imposedLow "F").1 = .ok signed ∧
        signed.toInt = -3) ∧
      (p.writeField imposedId "V" 13).1 = .error (.readOnly "ID") ∧
        p.device.Made [.read 1] (p.writeField imposedId "V" 13).2.device := by
  obtain ⟨flat, g, d, hflat, hg, hd, hlow, hid⟩ := exists_imposed
  refine ⟨flat, g, d, hflat, hg, hd, hlow, hid, ?_, ?_⟩
  · obtain ⟨fields, -, -, hview, hanswer, -, hback⟩ := writeField_of_flatten
      (p := ofDirectory d (Ledger.ofDevice (Device.Memory.zeroed "G" 2))) hflat hg hd hlow
      (Device.answers_memory (by decide)) (Eq.refl 2) "F" 13
    have htakes : imposedLow.view.Takes "F" 13 ⟨"F", 0, 4, false, .writeOnly, []⟩ :=
      ⟨rfl, by decide, by decide⟩
    rw [hview] at htakes
    have hwritten := hanswer.mpr ⟨RegisterView.takes_of_iff.mp ⟨_, htakes⟩, by decide⟩
    obtain ⟨f, bits, signed, hf, hread, hbits, hreadSigned, hsigned⟩ :=
      hback hwritten _ Device.hasWords_memory (by decide)
    have hfound := htakes.found
    rw [RegisterView.field?_of, hf, Option.map_some, Option.some_inj] at hfound
    have hwidth : f.width = 4 := congrArg FieldView.width hfound
    rw [hwidth] at hsigned
    exact ⟨bits, signed, hwritten, hread, hbits, hreadSigned, hsigned.trans (by decide)⟩
  · obtain ⟨fields, -, -, -, hanswer, hdenied, -⟩ := writeField_of_flatten
      (p := ofDirectory d (Ledger.ofDevice (Device.Memory.zeroed "G" 2))) hflat hg hd hid
      (Device.answers_memory (by decide)) (Eq.refl 2) "V" 13
    have htakes : imposedId.view.Takes "V" 13 ⟨"V", 0, 8, false, .readWrite, []⟩ :=
      ⟨rfl, by decide, by decide⟩
    obtain ⟨e, hdenies, herror, hmade, -⟩ := hdenied fun h => (hanswer.mp h).2 rfl
    obtain ⟨-, rfl⟩ := hdenies.of_takes htakes
    exact ⟨herror, hmade⟩

end Peripheral
end DeviceRegisters
