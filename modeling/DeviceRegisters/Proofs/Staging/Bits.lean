import Mathlib
import DeviceRegisters.Proofs.Device.Words
import DeviceRegisters.Proofs.Packing.Bits
import DeviceRegisters.Proofs.Staging.Fields

/-!
# DeviceRegisters.Proofs.Staging.Bits

What a write to a field does to the bits of registers.

In live mode the words are those of a device that echoes, in cached mode what is known
counts.  In either mode a read of a register answers its word and a write replaces it
(`readRegister_word`, `writeRegister_word`), so that `writeParts` puts a value into the
slices of the field as `Packing.insertAll` says, and `readParts` takes it out again like
`Packing.extractAll`.  So a write that is not refused gives each bit of the field the bit of
the value that belongs to it (`write_field`).
-/

namespace DeviceRegisters.Staging

open Device (Backend Echoes Memory echoes_memory echoes_nowhere)
open Packing (Assembly Item Part Slice fieldBit? insertAll extractAll slicesWidth)

variable {β : Type} [Backend β] {wordAt : β → Nat → UInt32} {holds : β → Nat → Prop}
  {s t u : Staging β} {words words' : Nat → UInt32}

/-! ## words -/

/-- The word of a register: the device's in live mode, else what is known of it. -/
def word (wordAt : β → Nat → UInt32) (s : Staging β) (register : Nat) : UInt32 :=
  if s.live then wordAt s.device register else s.cache.getOrZero register

/-- Accesses to a register succeed: in live mode the device holds it. -/
def Serves (holds : β → Nat → Prop) (s : Staging β) (register : Nat) : Prop :=
  s.live = true → holds s.device register

/-- What becomes of an area when registers that it serves are accessed: the words change. -/
structure Becomes (wordAt : β → Nat → UInt32) (holds : β → Nat → Prop) (s : Staging β)
    (words : Nat → UInt32) (t : Staging β) : Prop where
  live : t.live = s.live
  fields : t.fields = s.fields
  word : t.word wordAt = words
  serves : ∀ register, s.Serves holds register → t.Serves holds register

omit [Backend β] in
theorem Becomes.rfl : Becomes wordAt holds s (s.word wordAt) s :=
  ⟨.refl _, .refl _, .refl _, fun _ h => h⟩

omit [Backend β] in
/-- What becomes of an area in two steps becomes of it in all. -/
theorem Becomes.trans (hst : Becomes wordAt holds s words t)
    (htu : Becomes wordAt holds t words' u) : Becomes wordAt holds s words' u where
  live := htu.live.trans hst.live
  fields := htu.fields.trans hst.fields
  word := htu.word
  serves register h := htu.serves register (hst.serves register h)

/-- Reading a register answers its word, and changes no word. -/
theorem readRegister_word (hecho : Echoes wordAt holds) {register : Nat}
    (h : s.Serves holds register) :
    ∃ t, s.readRegister register = (.ok (s.word wordAt register), t) ∧
      Becomes wordAt holds s (s.word wordAt) t := by
  cases hlive : s.live with
  | false =>
      obtain ⟨cache, hread, hcache⟩ := readRegister_cached hlive register
      have hword : ∀ a, s.word wordAt a = s.cache.getOrZero a := fun a => by simp [word, hlive]
      rw [hword]
      refine ⟨_, hread, rfl, rfl, funext fun a => ?_, fun _ ha => ha⟩
      rw [hword, ← getOrZero_of_known hcache a]
      simp [word, hlive]
  | true =>
      obtain ⟨device, hread, hwords, hholds⟩ := hecho.read (h hlive)
      have hword : ∀ a, s.word wordAt a = wordAt s.device a := fun a => by simp [word, hlive]
      rw [hword]
      refine ⟨_, readRegister_ok hlive hread, rfl, rfl, funext fun a => ?_,
        fun a ha _ => hholds a (ha hlive)⟩
      rw [hword, ← hwords a]
      simp [word, hlive]

/-- Writing a register replaces its word, and no other. -/
theorem writeRegister_word (hecho : Echoes wordAt holds) {register : Nat}
    (h : s.Serves holds register) (w : UInt32) :
    ∃ t, s.writeRegister register w = (.ok (), t) ∧
      Becomes wordAt holds s (Function.update (s.word wordAt) register w) t := by
  cases hlive : s.live with
  | false =>
      refine ⟨_, writeRegister_cached hlive register w, rfl, rfl, funext fun a => ?_,
        fun _ _ hmode => absurd (hlive.symm.trans hmode) nofun⟩
      simp [word, hlive, Function.update_apply]
  | true =>
      obtain ⟨device, hwrite, hwords, hholds⟩ := hecho.write w (h hlive)
      refine ⟨_, writeRegister_ok hlive hwrite, rfl, rfl, funext fun a => ?_,
        fun a ha _ => hholds a (ha hlive)⟩
      simp [word, hlive, hwords, Function.update_apply]

/-! ## slices -/

/-- What comes after some parts gets the bits of the value above theirs. -/
theorem writeParts_append {value : UInt64} {first : List Part}
    (h : s.writeParts value first = (.ok (), t)) (later : List Part) :
    s.writeParts value (first ++ later) =
      t.writeParts (Word.shiftDown value (Assembly.partsWidth first)) later := by
  induction first generalizing s value with
  | nil =>
      obtain rfl := (Prod.mk.inj h).2
      simp [Assembly.partsWidth]
  | cons part first ih =>
      rw [writeParts] at h
      rw [List.cons_append, writeParts, Assembly.partsWidth, ← Word.shiftDown_shiftDown]
      rcases hread : s.readRegister part.register with ⟨e | word, s₁⟩
      · simp [hread] at h
      · simp only [hread] at h ⊢
        rcases hwrite : s₁.writeRegister part.register
          (Word.insert word part.offset part.width value) with ⟨e | _, s₂⟩
        · simp [hwrite] at h
        · simp only [hwrite] at h ⊢
          exact ih h

/-- Writing the parts of a field puts the value into its slices. -/
theorem writeParts_ofSlices (hecho : Echoes wordAt holds) (value : UInt64) {slices : List Slice}
    (h : ∀ slice ∈ slices, s.Serves holds slice.register) :
    ∃ t, s.writeParts value (Assembly.ofSlices slices).parts = (.ok (), t) ∧
      Becomes wordAt holds s (insertAll value (s.word wordAt) slices) t := by
  induction slices with
  | nil => exact ⟨s, .refl _, .rfl⟩
  | cons slice below ih =>
      obtain ⟨hslice, hbelow⟩ := List.forall_mem_cons.mp h
      obtain ⟨t, hwrite, ht⟩ := ih hbelow
      obtain ⟨u, hread, hu⟩ := readRegister_word hecho (ht.serves _ hslice)
      have hsu := ht.trans hu
      obtain ⟨v, hlast, hv⟩ := writeRegister_word hecho (hsu.serves _ hslice)
        (Word.insert (t.word wordAt slice.register) slice.offset slice.width
          (Word.shiftDown value (slicesWidth below)))
      refine ⟨v, ?_, ?_⟩
      · rw [Packing.parts_ofSlices_cons, writeParts_append hwrite, ← Assembly.width,
          Packing.width_ofSlices]
        simp only [writeParts, hread, hlast]
      · have hsv := hsu.trans hv
        rwa [hu.word, ht.word] at hsv

/-- Reading the parts of a field takes out what its slices hold. -/
theorem readParts_ofSlices (hecho : Echoes wordAt holds) (before : UInt64) {slices : List Slice}
    (h : ∀ slice ∈ slices, s.Serves holds slice.register) :
    ∃ t, s.readParts before (Assembly.ofSlices slices).parts.reverse =
        (.ok (extractAll (s.word wordAt) before slices), t) ∧
      Becomes wordAt holds s (s.word wordAt) t := by
  induction slices generalizing s before with
  | nil => exact ⟨s, .refl _, .rfl⟩
  | cons slice below ih =>
      obtain ⟨hslice, hbelow⟩ := List.forall_mem_cons.mp h
      obtain ⟨t, hread, ht⟩ := readRegister_word hecho hslice
      obtain ⟨u, hrest, hu⟩ := ih (Word.shiftUp before slice.width |||
          (Word.extract (s.word wordAt slice.register) slice.offset slice.width).toUInt64)
        fun other hother => ht.serves _ (hbelow other hother)
      rw [ht.word] at hrest hu
      refine ⟨u, ?_, ht.trans hu⟩
      rw [Packing.parts_ofSlices_cons, List.reverse_append, List.reverse_singleton,
        List.singleton_append, readParts]
      simp only [hread]
      exact hrest

/-! ## writes -/

/-- A write to a field, said in terms of its slices. -/
theorem write_ofSlices {name : String} {slices : List Slice}
    (hfield : s.field? name = some (.ofSlices slices)) (value : UInt64) :
    s.write name value =
      if ∃ slice ∈ slices, slice.readOnly = true then (.error (.readOnly name), s)
      else if value.toNat < 2 ^ slicesWidth slices then
        s.writeParts value (Assembly.ofSlices slices).parts
      else (.error (.valueTooWide name value (slicesWidth slices)), s) := by
  simp only [write, hfield, Packing.width_ofSlices, ← Packing.readOnly_ofSlices, ← Word.fits_iff]

/-- An area knows the fields of a list, and no others. -/
structure Describes (items : List Item) (s : Staging β) : Prop where
  found : ∀ {name slices}, (name, .field slices) ∈ items.map Item.content →
    s.field? name = some (.ofSlices slices)
  unknown : ∀ {name}, (∀ slices, (name, .field slices) ∉ items.map Item.content) →
    s.field? name = none

omit [Backend β] in
/-- An area with the same fields is described by the same list. -/
theorem Describes.of_fields_eq {items : List Item} (h : Describes items s)
    (hfields : t.fields = s.fields) : Describes items t := by
  have hsame : t.field? = s.field? := funext fun name => by rw [field?, hfields, field?]
  exact ⟨fun hmem => hsame ▸ h.found hmem, fun hnone => hsame ▸ h.unknown hnone⟩

/-- An area that took in entries of different names knows their fields. -/
theorem describes_defineAll {items : List Item} {device : β}
    (h : (ofDevice device).defineAll items = (.ok (), s))
    (hnames : (items.map Item.name).Nodup) : Describes items s where
  found hmem := (field?_defineAll_of_mem h hnames hmem).1
  unknown hnone := (field?_defineAll_of_not_mem h hnone).trans rfl

/-- A write of a value to a name is refused with an error: there is no such field, or one with a
slice that cannot be written, or one that is too narrow for the value. -/
inductive Refusal (items : List Item) (name : String) (value : UInt64) : Error → Prop where
  | unknown (hnone : ∀ slices, (name, .field slices) ∉ items.map Item.content) :
    Refusal items name value (unknownField name)
  | readOnly {slices : List Slice} (hfield : (name, .field slices) ∈ items.map Item.content)
      (hslice : ∃ slice ∈ slices, slice.readOnly = true) : Refusal items name value (.readOnly name)
  | tooWide {slices : List Slice} (hfield : (name, .field slices) ∈ items.map Item.content)
      (hslices : ∀ slice ∈ slices, slice.readOnly = false)
      (hvalue : 2 ^ slicesWidth slices ≤ value.toNat) :
    Refusal items name value (.valueTooWide name value (slicesWidth slices))

/-- Of entries with different names, one at most is a field of a name. -/
theorem slices_unique {items : List Item} (hnames : (items.map Item.name).Nodup) {name : String}
    {slices others : List Slice} (h : (name, .field slices) ∈ items.map Item.content)
    (hother : (name, .field others) ∈ items.map Item.content) : others = slices := by
  obtain ⟨item, hitem, hcontent⟩ := List.mem_map.mp h
  obtain ⟨other, hmem, hsame⟩ := List.mem_map.mp hother
  have hname : other.name = item.name :=
    (congrArg Prod.fst hsame).trans (congrArg Prod.fst hcontent).symm
  rw [List.inj_on_of_nodup_map hnames hmem hitem hname, hcontent] at hsame
  simpa using hsame.symm

/-- No refusal applies to a value that fits into a field whose slices can be written. -/
theorem not_refusal {items : List Item} (hnames : (items.map Item.name).Nodup) {name : String}
    {slices : List Slice} (h : (name, .field slices) ∈ items.map Item.content)
    (hslices : ∀ slice ∈ slices, slice.readOnly = false) {value : UInt64}
    (hvalue : value.toNat < 2 ^ slicesWidth slices) (e : Error) : ¬ Refusal items name value e := by
  intro hrefusal
  cases hrefusal with
  | unknown hnone => exact hnone slices h
  | readOnly hmem hslice =>
      rw [slices_unique hnames h hmem] at hslice
      obtain ⟨slice, hslice, htrue⟩ := hslice
      simp [hslices slice hslice] at htrue
  | tooWide hmem _ hwide =>
      rw [slices_unique hnames h hmem] at hwide
      exact absurd hvalue (Nat.not_lt.mpr hwide)

/-- A write that has to be refused is refused, and changes nothing. -/
theorem Describes.write_refused {items : List Item} (h : Describes items s) {name : String}
    {value : UInt64} {e : Error} (hrefusal : Refusal items name value e) :
    s.write name value = (.error e, s) := by
  cases hrefusal with
  | unknown hnone => simp only [write, h.unknown hnone]
  | readOnly hmem hslice => rw [write_ofSlices (h.found hmem), if_pos hslice]
  | tooWide hmem hslices hvalue =>
      rw [write_ofSlices (h.found hmem), if_neg (by simpa using hslices),
        if_neg (Nat.not_lt.mpr hvalue)]

/-- Any other write is one to a field, and puts the value into its slices. -/
theorem Describes.write_ok {items : List Item} (h : Describes items s)
    (hecho : Echoes wordAt holds) {name : String} {value : UInt64}
    (hserves : ∀ slices, (name, .field slices) ∈ items.map Item.content →
      ∀ slice ∈ slices, s.Serves holds slice.register)
    (hno : ∀ e, ¬ Refusal items name value e) :
    ∃ slices t, (name, .field slices) ∈ items.map Item.content ∧
      value.toNat < 2 ^ slicesWidth slices ∧ s.write name value = (.ok (), t) ∧
      Becomes wordAt holds s (insertAll value (s.word wordAt) slices) t := by
  obtain ⟨slices, hmem⟩ := not_forall_not.mp fun hnone => hno _ (.unknown hnone)
  have hslices : ¬ ∃ slice ∈ slices, slice.readOnly = true := fun h => hno _ (.readOnly hmem h)
  have hvalue : value.toNat < 2 ^ slicesWidth slices := Nat.lt_of_not_le fun h =>
    hno _ (.tooWide hmem (by simpa using hslices) h)
  obtain ⟨t, hwrite, ht⟩ := writeParts_ofSlices hecho value (hserves slices hmem)
  refine ⟨slices, t, hmem, hvalue, ?_, ht⟩
  rw [write_ofSlices (h.found hmem), if_neg hslices, if_pos hvalue, hwrite]

/-- A write to a field that was taken in is refused if it has to be, and then changes nothing.  If
not, it gives each bit of the field's slices the bit of the value that belongs to it, and no other
bit changes, so that the value is read back unless slices overlap.  In live mode the device has to
echo at the registers of the field; in cached mode nothing is asked of it. -/
theorem write_field {text : String} {items : List Item} {device : β} {known : Staging β}
    (hparse : Packing.parse text = .ok items)
    (hnew : (ofDevice device).defineAll items = (.ok (), known)) (hfields : s.fields = known.fields)
    (hecho : Echoes wordAt holds) {name : String}
    (hserves : ∀ item ∈ items, item.name = name → ∀ r ∈ item.registers, s.Serves holds r)
    (value : UInt64) :
    (∀ e, Refusal items name value e → s.write name value = (.error e, s)) ∧
      ((∀ e, ¬ Refusal items name value e) →
        ∃ slices t, (name, .field slices) ∈ items.map Item.content ∧
          s.write name value = (.ok (), t) ∧ t.live = s.live ∧
          (∀ register bit, (t.word wordAt register).toNat.testBit bit =
            match fieldBit? register bit slices with
            | some k => value.toNat.testBit k
            | none => (s.word wordAt register).toNat.testBit bit) ∧
          (slices.Pairwise Slice.Disjoint → (t.read name).1 = .ok value)) := by
  have hwritable := Packing.writable_of_parse hparse
  have hdescribes := (describes_defineAll hnew hwritable.nodup).of_fields_eq hfields
  have hslices : ∀ slices, (name, .field slices) ∈ items.map Item.content →
      ∀ slice ∈ slices, slice.Writable ∧ s.Serves holds slice.register := by
    intro slices hmem slice hslice
    obtain ⟨item, hitem, hcontent⟩ := List.mem_map.mp hmem
    obtain ⟨hname, hmeaning⟩ := Prod.mk.inj hcontent
    have hfield := (hwritable.each item hitem).meaning
    rw [hmeaning] at hfield
    refine ⟨hfield.2 slice hslice, hserves item hitem hname slice.register ?_⟩
    rw [Item.registers, hmeaning]
    exact List.mem_map_of_mem hslice
  refine ⟨fun e => hdescribes.write_refused, fun hno => ?_⟩
  obtain ⟨slices, t, hmem, hvalue, hwrite, ht⟩ :=
    hdescribes.write_ok hecho (fun slices hmem slice hslice => (hslices slices hmem slice hslice).2) hno
  have hinside : ∀ slice ∈ slices, slice.offset + slice.width ≤ 32 := fun slice hslice =>
    (hslices slices hmem slice hslice).1.inside
  refine ⟨slices, t, hmem, hwrite, ht.live, fun register bit => ?_, fun hdisjoint => ?_⟩
  · rw [ht.word]
    exact Packing.testBit_insertAll value (s.word wordAt) hinside register bit
  · obtain ⟨u, hread, -⟩ := readParts_ofSlices (s := t) hecho 0 fun slice hslice =>
      ht.serves _ (hslices slices hmem slice hslice).2
    simp only [read, (hdescribes.of_fields_eq ht.fields).found hmem, hread, ht.word,
      Packing.extractAll_insertAll (s.word wordAt) hinside hdisjoint hvalue]

/-- A field across two registers, one whose slices overlap, and one that cannot be written. -/
def packedFields : List Item :=
  [⟨"A", .field [⟨1, 4, 8, 0, false⟩, ⟨2, 0, 8, 0, false⟩], 1⟩,
    ⟨"B", .field [⟨2, 0, 4, 0, false⟩, ⟨2, 2, 4, 0, false⟩], 3⟩,
    ⟨"C", .field [⟨3, 0, 1, 0, true⟩], 5⟩]

/-- In live mode the first field is read back, and too large a value refused.  In cached mode the
first slice of the second field wins, and the third field is refused. -/
theorem write_packedFields :
    let known := ((ofDevice (Memory.zeroed "dev" 4)).defineAll packedFields).2
    let s := known.setLive true
    (∃ t, s.write "A" 0xBEEF = (.ok (), t) ∧ (t.read "A").1 = .ok 0xBEEF) ∧
      s.write "A" 0x10000 = (.error (.valueTooWide "A" 0x10000 16), s) ∧
      (∃ t, known.write "B" 0xA5 = (.ok (), t) ∧
        (t.word Memory.wordAt 2).toNat.testBit 3 = true ∧
        (t.word Memory.wordAt 2).toNat.testBit 2 = false) ∧
      known.write "C" 0 = (.error (.readOnly "C"), known) := by
  intro known s
  have hparse : Packing.parse ("A 0x01 11:4 0x0\n  0x02 7:0 0x0\n" ++
      "B 0x02 3:0 0x0\n  0x02 5:2 0x0\nC 0x03 0 0x0 R\n") = .ok packedFields := by
    cbv
  have hnew : (ofDevice (Memory.zeroed "dev" 4)).defineAll packedFields = (.ok (), known) := rfl
  have hholds : ∀ item ∈ packedFields, ∀ r ∈ item.registers, r < 4 := by decide
  have hlive (name : String) := write_field (s := s) hparse hnew rfl echoes_memory
    fun item hitem (_ : item.name = name) r hr _ => hholds item hitem r hr
  have hcached (name : String) := write_field (s := known) hparse hnew rfl
    (echoes_nowhere Memory.wordAt) fun item _ (_ : item.name = name) _ _ hmode =>
      absurd hmode (by decide)
  have hnames : (packedFields.map Item.name).Nodup := by decide
  have hA : ("A", .field [⟨1, 4, 8, 0, false⟩, ⟨2, 0, 8, 0, false⟩]) ∈
      packedFields.map Item.content := by decide
  have hB : ("B", .field [⟨2, 0, 4, 0, false⟩, ⟨2, 2, 4, 0, false⟩]) ∈
      packedFields.map Item.content := by decide
  have hC : ("C", .field [⟨3, 0, 1, 0, true⟩]) ∈ packedFields.map Item.content := by decide
  refine ⟨?_, (hlive "A" 0x10000).1 _ (.tooWide hA (by decide) (by decide)), ?_,
    (hcached "C" 0).1 _ (.readOnly hC (by decide))⟩
  · obtain ⟨slices, t, hmem, hwrite, -, -, hread⟩ :=
      (hlive "A" 0xBEEF).2 (not_refusal hnames hA (by decide) (by decide))
    obtain rfl := slices_unique hnames hA hmem
    refine ⟨t, hwrite, hread ?_⟩
    have hapart : (1 : Nat) ≠ 2 := by decide
    simp only [List.pairwise_pair, Slice.Disjoint, Slice.Covers]
    exact fun _ _ h h' => hapart (h.1.symm.trans h'.1)
  · obtain ⟨slices, t, hmem, hwrite, -, hbits, -⟩ :=
      (hcached "B" 0xA5).2 (not_refusal hnames hB (by decide) (by decide))
    obtain rfl := slices_unique hnames hB hmem
    exact ⟨t, hwrite, (hbits 2 3).trans (by decide), (hbits 2 2).trans (by decide)⟩

end DeviceRegisters.Staging
