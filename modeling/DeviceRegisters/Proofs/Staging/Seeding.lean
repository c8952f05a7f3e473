import Mathlib
import DeviceRegisters.Proofs.Packing.Initial
import DeviceRegisters.Proofs.Staging.Bits
import DeviceRegisters.Proofs.Staging.Cached

/-!
# DeviceRegisters.Proofs.Staging.Seeding

What a staging area knows when it has taken in a field list.

Nothing is asked of the device.  The first field of more than 64 bits is refused, and if there
is none, the area knows just the registers of constants and of fields that can be written, all
of them pending.  Each bit is as the last of these entries says that covers it
(`seeded_of_parse`).  A field that cannot be written says nothing, also where it comes last
(`readOnly_not_seeded`).

`Seeded.define` is that for one entry more, `defineAll_seeded` for a list.
-/

namespace DeviceRegisters.Staging

open Device (Backend Ledger Memory echoes_nowhere)
open Packing (Assembly Item Part Slice fieldBit? insertAll lastBit slicesWidth)

variable {β : Type} [Backend β] {s t : Staging β} {items taken : List Item} {item : Item}

/-! ## writes in cached mode -/

/-- Writing a field in cached mode makes its registers known and pending, and gives each bit of
its slices the bit of the value that belongs to it. -/
theorem writeParts_cached_ofSlices (hcached : s.live = false) (value : UInt64)
    {slices : List Slice} (hinside : ∀ slice ∈ slices, slice.offset + slice.width ≤ 32) :
    ∃ t, s.writeParts value (Assembly.ofSlices slices).parts = (.ok (), t) ∧ t.live = false ∧
      (∀ r, (t.cached r).isSome ↔ (s.cached r).isSome ∨ r ∈ slices.map (·.register)) ∧
      (∀ r, r ∈ t.dirty ↔ r ∈ s.dirty ∨ r ∈ slices.map (·.register)) ∧
      ∀ r bit, (t.cache.getOrZero r).toNat.testBit bit =
        ((fieldBit? r bit slices).map value.toNat.testBit).getD
          ((s.cache.getOrZero r).toNat.testBit bit) := by
  -- in cached mode nothing is read from the device
  have hserves : ∀ slice ∈ slices, s.Serves (fun _ _ => False) slice.register :=
    fun slice _ hmode => absurd (hcached.symm.trans hmode) nofun
  obtain ⟨t, hwrite, ht⟩ := writeParts_ofSlices (echoes_nowhere fun _ _ => 0) value hserves
  obtain ⟨after, hafter, hpending, hknown⟩ :=
    writeParts_cached hcached value (Assembly.ofSlices slices).parts
  obtain rfl := (Prod.mk.inj (hafter.symm.trans hwrite)).2
  have hregisters : ∀ r, r ∈ (Assembly.ofSlices slices).parts.map (·.register) ↔
      r ∈ slices.map (·.register) := fun r => Packing.mem_registers_ofSlices
  have hmode : after.live = false := ht.live.trans hcached
  refine ⟨after, hwrite, hmode, fun r => ?_, fun r => ?_, fun r bit => ?_⟩
  · rw [hknown, hregisters]
  · rw [hpending, hregisters]
  · have hword := congrFun ht.word r
    rw [word, hmode, if_neg Bool.false_ne_true] at hword
    rw [hword, Packing.testBit_insertAll _ _ hinside, word, hcached, if_neg Bool.false_ne_true]
    cases fieldBit? r bit slices <;> rfl

/-! ## taking entries in -/

/-- An area in cached mode that knows the registers of some entries, all of them pending, and
each bit as the last of the entries says. -/
structure Seeded (taken : List Item) (s : Staging β) : Prop where
  live : s.live = false
  known : ∀ r, (s.cached r).isSome ↔ ∃ item ∈ taken, r ∈ item.registers
  pending : ∀ r, r ∈ s.dirty ↔ ∃ item ∈ taken, r ∈ item.registers
  bits : ∀ r bit, (s.cache.getOrZero r).toNat.testBit bit = lastBit taken r bit

omit [Backend β] in
/-- A new area knows nothing, as no entry was taken in. -/
theorem seeded_ofDevice (device : β) : Seeded [] (ofDevice device) where
  live := rfl
  known r := by simp [cached, ofDevice]
  pending r := by simp [ofDevice]
  bits r bit := by simp [ofDevice, WordTable.getOrZero]

omit [Backend β] in
/-- One entry more is taken in when its registers become known and pending, and the bits that it
covers are as it says. -/
theorem Seeded.concat (h : Seeded taken s) (hlive : t.live = false)
    (hknown : ∀ r, (t.cached r).isSome ↔ (s.cached r).isSome ∨ r ∈ item.registers)
    (hpending : ∀ r, r ∈ t.dirty ↔ r ∈ s.dirty ∨ r ∈ item.registers)
    (hbits : ∀ r bit, (t.cache.getOrZero r).toNat.testBit bit =
      (item.bit? r bit).getD ((s.cache.getOrZero r).toNat.testBit bit)) :
    Seeded (taken ++ [item]) t where
  live := hlive
  known r := by
    rw [hknown, h.known]
    simp [or_and_right, exists_or]
  pending r := by
    rw [hpending, h.pending]
    simp [or_and_right, exists_or]
  bits r bit := by rw [hbits, h.bits, Packing.lastBit_concat]

/-- A field of more than 64 bits is refused. -/
theorem define_tooWide (h : item.tooWide = true) :
    s.define item = (.error (.refused (.packing (.fieldTooWide item.name)) item.line), s) := by
  rw [Item.tooWide] at h
  split at h
  · next slices hmeaning =>
    simp only [define, hmeaning, Packing.width_ofSlices]
    exact if_pos (of_decide_eq_true h)
  · exact absurd h Bool.false_ne_true

/-- Any other entry is taken in; one that cannot be written leaves the registers as they are. -/
theorem Seeded.define (h : Seeded taken s) (hitem : item.Writable) (hnarrow : item.tooWide = false) :
    ∃ t, s.define item = (.ok (), t) ∧ Seeded (taken ++ [item].filter Item.seeds) t := by
  have hmeaning := hitem.meaning
  obtain ⟨name, meaning, line⟩ := item
  cases meaning with
  | constant register value =>
      refine ⟨_, writeRegister_cached h.live register value, ?_⟩
      refine h.concat h.live (fun r => ?_) (fun r => ?_) fun r bit => ?_
      · by_cases hr : r = register <;> simp [cached, Item.registers, hr]
      · simp [Item.registers, or_comm]
      · -- bits from 32 on are no bits of the constant, and no bits of a word either
        simp only [WordTable.getOrZero_insert, Item.bit?]
        by_cases hr : r = register
        · by_cases hbit : bit < 32
          · simp [hr, hbit]
          · simp [hr, hbit, Word.testBit_toNat_of_le _ (Nat.le_of_not_lt hbit)]
        · simp [hr]
  | field slices =>
      have hwidth : slicesWidth slices ≤ 64 := by simpa [Item.tooWide] using hnarrow
      have hfits := Packing.initial_lt_of_writable hmeaning.2
      have hinitial := Packing.initial_ofSlices hfits hwidth
      let named : Staging β := { s with
        fields := (name, .ofSlices slices) :: s.fields, names := s.names ++ [name] }
      have hnamed : named.field? name = some (.ofSlices slices) := List.lookup_cons_self
      by_cases hread : ∃ slice ∈ slices, slice.readOnly = true
      · refine ⟨named, ?_, ?_⟩
        · simp only [Staging.define, Packing.width_ofSlices, if_neg (Nat.not_lt.mpr hwidth),
            if_pos (Packing.readOnly_ofSlices.mpr hread), named]
        · have hseeds : Item.seeds ⟨name, .field slices, line⟩ = false := by
            simpa [Item.seeds] using hread
          rw [List.filter_singleton, hseeds]
          simpa using (⟨h.live, h.known, h.pending, h.bits⟩ : Seeded taken named)
      · have hseeds : Item.seeds ⟨name, .field slices, line⟩ = true := by
          simpa [Item.seeds] using hread
        have hvalue : (Assembly.ofSlices slices).initial.toNat < 2 ^ slicesWidth slices :=
          hinitial ▸ Packing.joined_lt hfits
        obtain ⟨t, hwrite, hlive, hknown, hpending, hbits⟩ :=
          writeParts_cached_ofSlices (s := named) h.live (Assembly.ofSlices slices).initial
            fun slice hslice => (hmeaning.2 slice hslice).inside
        refine ⟨t, ?_, ?_⟩
        · simp only [Staging.define, Packing.width_ofSlices, if_neg (Nat.not_lt.mpr hwidth),
            if_neg fun htrue => hread (Packing.readOnly_ofSlices.mp htrue)]
          exact (write_ofSlices hnamed _).trans (by rw [if_neg hread, if_pos hvalue, hwrite])
        · rw [List.filter_singleton, hseeds]
          refine h.concat hlive hknown hpending fun r bit => ?_
          rw [hbits, hinitial]
          rfl

/-- Entries are taken in up to the first field that is too wide. -/
theorem defineAll_seeded (h : Seeded taken s) (hitems : ∀ item ∈ items, item.Writable) :
    (s.defineAll items).1 = (match items.find? (·.tooWide) with
      | none => .ok ()
      | some item => .error (.refused (.packing (.fieldTooWide item.name)) item.line)) ∧
    ((∀ item ∈ items, item.tooWide = false) →
      Seeded (taken ++ items.filter Item.seeds) (s.defineAll items).2) := by
  induction items generalizing taken s with
  | nil => exact ⟨rfl, fun _ => by simpa [Staging.defineAll] using h⟩
  | cons item items ih =>
      obtain ⟨hitem, hitems⟩ := List.forall_mem_cons.mp hitems
      cases hwide : item.tooWide with
      | true =>
          refine ⟨?_, fun hall => ?_⟩
          · simp only [Staging.defineAll, define_tooWide hwide, List.find?_cons_of_pos hwide]
          · exact absurd ((hall item List.mem_cons_self).symm.trans hwide) Bool.false_ne_true
      | false =>
          obtain ⟨next, hdefine, hnext⟩ := h.define hitem hwide
          obtain ⟨hanswer, hseeded⟩ := ih hnext hitems
          simp only [Staging.defineAll, hdefine, List.find?_cons, hwide]
          refine ⟨hanswer, fun hall => ?_⟩
          rw [← List.singleton_append, List.filter_append, ← List.append_assoc]
          exact hseeded fun other hother => hall other (List.mem_cons_of_mem _ hother)

/-- Taking in a field list that was read asks nothing of the device.  The first field of more
than 64 bits is refused as such, and if there is none, all entries are taken in.  Then the area
is in cached mode; the registers it knows and those that are pending are both those of the
constants and of the fields none of whose slices is read only; and each bit of a known register
is as the last of these entries says that covers it, or zero. -/
theorem seeded_of_parse {text : String} (hparse : Packing.parse text = .ok items)
    (device : Ledger β) :
    let run := (ofDevice device).defineAll items
    let seeds := items.filter Item.seeds
    device.Untouched run.2.device ∧
    run.1 = (match items.find? (·.tooWide) with
      | none => .ok ()
      | some item => .error (.refused (.packing (.fieldTooWide item.name)) item.line)) ∧
    ((∀ item ∈ items, item.tooWide = false) →
      run.2.live = false ∧
      (∀ r, (run.2.cached r).isSome ↔ ∃ item ∈ seeds, r ∈ item.registers) ∧
      (∀ r, r ∈ run.2.dirty ↔ ∃ item ∈ seeds, r ∈ item.registers) ∧
      ∀ r word, run.2.cached r = some word → ∀ bit, word.toNat.testBit bit = lastBit seeds r bit) := by
  intro run seeds
  have hwritable := Packing.writable_of_parse hparse
  obtain ⟨hanswer, hseeded⟩ := defineAll_seeded (seeded_ofDevice device) hwritable.each
  refine ⟨?_, hanswer, fun hnarrow => ?_⟩
  · exact (Keeps.defineAll (P := fun s : Staging (Ledger β) => device.Untouched s.device)
      (fun _ _ _ h => h) (fun item _ => keeps_untouched device item.registers item.registers)
      (s := ofDevice device) rfl (.refl _)).1
  · obtain ⟨hlive, hknown, hpending, hbits⟩ := hseeded hnarrow
    refine ⟨hlive, hknown, hpending, fun r word hword bit => ?_⟩
    rw [← WordTable.getOrZero_eq hword]
    exact hbits r bit

/-- A field across two registers, a constant for the second of them, a field that overlaps it in
the first, and a field that cannot be written. -/
def overlappingFields : List Item :=
  [⟨"A", .field [⟨1, 4, 8, 0xAB, false⟩, ⟨2, 0, 8, 0xCD, false⟩], 1⟩,
    ⟨"C", .constant 2 0xFF00FF00, 3⟩,
    ⟨"B", .field [⟨1, 8, 8, 0x11, false⟩], 4⟩,
    ⟨"R", .field [⟨1, 0, 32, 0, true⟩, ⟨3, 0, 1, 1, false⟩], 5⟩]

/-- Of the entries that speak of a bit the last one decides on it. -/
theorem seeded_overlappingFields :
    let run := (ofDevice (Ledger.ofDevice (Memory.zeroed "dev" 4))).defineAll overlappingFields
    run.1 = .ok () ∧ 2 ∈ run.2.dirty ∧ 3 ∉ run.2.dirty ∧
      (∃ word, run.2.cached 1 = some word ∧ word.toNat.testBit 8 = true) ∧
      ∃ word, run.2.cached 2 = some word ∧ word.toNat.testBit 0 = false := by
  intro run
  have hparse : Packing.parse ("A 0x01 11:4 0xAB\n  0x02 7:0 0xCD\nC 0x02 0xFF00FF00\n" ++
      "B 0x01 15:8 0x11\nR 0x01 31:0 0x0 R\n  0x03 0 0x1\n") = .ok overlappingFields := by
    cbv
  obtain ⟨-, hanswer, hseeded⟩ := seeded_of_parse hparse (Ledger.ofDevice (Memory.zeroed "dev" 4))
  obtain ⟨-, hknown, hpending, hbits⟩ := hseeded (by decide)
  obtain ⟨first, hfirst⟩ := Option.isSome_iff_exists.mp ((hknown 1).mpr (by decide))
  obtain ⟨second, hsecond⟩ := Option.isSome_iff_exists.mp ((hknown 2).mpr (by decide))
  exact ⟨hanswer, (hpending 2).mpr (by decide), fun h => absurd ((hpending 3).mp h) (by decide),
    ⟨first, hfirst, (hbits 1 first hfirst 8).trans (by decide)⟩,
    ⟨second, hsecond, (hbits 2 second hsecond 0).trans (by decide)⟩⟩

/-- A field that cannot be written leaves bits as an earlier entry says, although it covers them
and says otherwise. -/
theorem readOnly_not_seeded :
    let items : List Item :=
      [⟨"A", .field [⟨1, 0, 1, 1, false⟩], 1⟩, ⟨"B", .field [⟨1, 0, 1, 0, true⟩], 2⟩]
    let run := (ofDevice (Memory.zeroed "dev" 2)).defineAll items
    Packing.parse "A 0x01 0 0x1\nB 0x01 0 0x0 R\n" = .ok items ∧ run.1 = .ok () ∧
      run.2.cached 1 = some 1 ∧ (1 : UInt32).toNat.testBit 0 = true ∧ lastBit items 1 0 = false := by
  refine ⟨by cbv, by decide, by decide, by decide, by decide⟩

end DeviceRegisters.Staging
