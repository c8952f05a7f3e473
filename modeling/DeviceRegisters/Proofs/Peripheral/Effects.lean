import DeviceRegisters.Proofs.Peripheral.Range

/-!
# DeviceRegisters.Proofs.Peripheral.Effects

What an operation can do to a peripheral (`effect_perform`).

It accesses the address of its register only.  Either the device takes no word, and then
nothing but the device changes (`Kept`); or the device takes one word as the last of the
operation, which is remembered if the register can only be written (`Wrote`).  An
operation that fails is of the first kind.
-/

namespace DeviceRegisters

/-! ## devices that take no word -/

/-- A device comes to another state by accesses at an address of which it takes no word. -/
inductive Device.Quiet {β : Type} [Device.Backend β] (address : Nat) : β → β → Prop where
  | refl (device : β) : Quiet address device device
  | read {device next after : β} {answer : Except Device.Fault UInt32} :
      Quiet address device next → Backend.read next address = (answer, after) →
      Quiet address device after
  | refused {device next after : β} {word : UInt32} {fault : Device.Fault} :
      Quiet address device next → Backend.write next address word = (.error fault, after) →
      Quiet address device after
  | note {device next : β} (line : LogLine) :
      Quiet address device next → Quiet address device (Backend.note next line)

/-- A device that took no word twice took none in all. -/
theorem Device.Quiet.trans {β : Type} [Device.Backend β] {address : Nat} {device next after : β}
    (h : Device.Quiet address device next) (h' : Device.Quiet address next after) :
    Device.Quiet address device after := by
  induction h' with
  | refl => exact h
  | read _ hread ih => exact ih.read hread
  | refused _ hwrite ih => exact ih.refused hwrite
  | note line _ ih => exact ih.note line

namespace Peripheral

open Directory (Handle)
open Device (Backend Quiet)

variable {β : Type} [Backend β] {p q : Peripheral β} {r : Handle}

/-! ## the two kinds of effects -/

/-- Only the device changes, and it takes no word. -/
structure Kept (r : Handle) (p q : Peripheral β) : Prop where
  rest : q = { p with device := q.device }
  device : Quiet r.address p.device q.device

/-- The device takes a word, after accesses of which it took none. -/
structure Wrote (r : Handle) (word : UInt32) (p q : Peripheral β) : Prop where
  writable : r.view.access.isWritable = true
  rest : q = { p with
    device := q.device
    shadow := if r.view.access = .writeOnly then p.shadow.insert r.address word else p.shadow }
  device : ∃ before, Quiet r.address p.device before ∧
    Backend.write before r.address word = (.ok (), q.device)

theorem Kept.refl (r : Handle) (p : Peripheral β) : Kept r p p := ⟨rfl, .refl _⟩

/-- What is kept twice is kept in all. -/
theorem Kept.trans {next : Peripheral β} (h : Kept r p next) (h' : Kept r next q) : Kept r p q := by
  refine ⟨?_, h.device.trans h'.device⟩
  rw [h'.rest, h.rest]

/-- A word may be taken after accesses by which everything is kept. -/
theorem Kept.wrote {next : Peripheral β} {word : UInt32} (h : Kept r p next)
    (h' : Wrote r word next q) : Wrote r word p q := by
  obtain ⟨before, hquiet, hwrite⟩ := h'.device
  refine ⟨h'.writable, ?_, before, h.device.trans hquiet, hwrite⟩
  rw [h'.rest, h.rest]

/-- An attempt to write fails without a word taken, or succeeds with one. -/
inductive Attempt (r : Handle) (p : Peripheral β) : Except Error Unit × Peripheral β → Prop where
  | failed (e : Error) {q : Peripheral β} : Kept r p q → Attempt r p (.error e, q)
  | took (word : UInt32) {q : Peripheral β} : Wrote r word p q → Attempt r p (.ok (), q)

/-- An attempt to write may follow such accesses. -/
theorem Kept.attempt {x : Except Error Unit × Peripheral β} (h : Kept r p q) (h' : Attempt r q x) :
    Attempt r p x := by
  cases h' with
  | failed e hkept => exact .failed e (h.trans hkept)
  | took word hwrote => exact .took word (h.wrote hwrote)

/-! ## reading -/

/-- A register that can only be written gives what is remembered for its address. -/
theorem read_writeOnly (h : r.view.access = .writeOnly) :
    p.read r = (.ok (p.shadow.getOrZero r.address), p) := by
  simp only [read, h]

/-- Reading a register changes nothing but the device, which takes no word. -/
theorem kept_read (p : Peripheral β) (r : Handle) : Kept r p (p.read r).2 := by
  -- what the device does is the same for both modes that are read from it
  have hanswered : ∀ word device, Backend.read p.device r.address = (.ok word, device) →
      Kept r p { p with device := Backend.note device (line r .read word) } :=
    fun _ _ hread => ⟨rfl, ((Quiet.refl _).read hread).note _⟩
  have hfailed : ∀ fault device, Backend.read p.device r.address = (.error fault, device) →
      Kept r p { p with device } := fun _ _ hread => ⟨rfl, (Quiet.refl _).read hread⟩
  simp only [read]
  split
  · split
    · next hread => exact hanswered _ _ hread
    · next hread => exact hfailed _ _ hread
  · split
    · next hread => exact hanswered _ _ hread
    · next hread => exact hfailed _ _ hread
  · exact .refl r p
  · exact .refl r p

/-- So does reading a field. -/
theorem kept_readField (p : Peripheral β) (r : Handle) (name : String) :
    Kept r p (p.readField r name).2 := by
  have hread := kept_read p r
  simp only [readField]
  split
  · exact .refl r p
  · generalize p.read r = first at hread
    obtain ⟨_ | word, q⟩ := first
    · exact hread
    · exact hread

/-- So does reading it as a signed number. -/
theorem kept_readSigned (p : Peripheral β) (r : Handle) (name : String) :
    Kept r p (p.readSigned r name).2 := by
  have hread := kept_readField p r name
  simp only [readSigned]
  split
  · exact .refl r p
  · generalize p.readField r name = first at hread
    obtain ⟨_ | bits, q⟩ := first
    · exact hread
    · exact hread

/-- So does taking a snapshot. -/
theorem kept_snapshot (p : Peripheral β) (r : Handle) (seed : Seed) :
    Kept r p (p.snapshot r seed).2 := by
  cases seed with
  | zero => exact .refl r p
  | current =>
      have hread := kept_read p r
      simp only [snapshot]
      generalize p.read r = first at hread
      obtain ⟨_ | word, q⟩ := first
      · exact hread
      · exact hread

/-- So does describing a register. -/
theorem kept_describe (p : Peripheral β) (r : Handle) : Kept r p (p.describe r).2 := by
  have hsnapshot := kept_snapshot p r .current
  simp only [describe]
  generalize p.snapshot r .current = first at hsnapshot
  obtain ⟨_ | s, q⟩ := first
  · exact hsnapshot
  · exact hsnapshot

/-! ## writing -/

/-- The word that is written is the one that the device takes, if it takes one. -/
theorem write_cases (p : Peripheral β) (r : Handle) (word : UInt32) :
    (∃ e q, p.write r word = (.error e, q) ∧ Kept r p q) ∨
      ∃ q, p.write r word = (.ok (), q) ∧ Wrote r word p q := by
  have hnoted : Quiet r.address p.device (Backend.note p.device (line r .write word)) :=
    (Quiet.refl _).note _
  simp only [write]
  split
  · next hwritable =>
    rcases hwrite : Backend.write (Backend.note p.device (line r .write word)) r.address word with
      ⟨fault | ⟨⟩, device⟩
    · exact .inl ⟨_, _, rfl, rfl, hnoted.refused hwrite⟩
    · exact .inr ⟨_, rfl, hwritable, rfl, _, hnoted, hwrite⟩
  · exact .inl ⟨_, p, rfl, .refl r p⟩

/-- Writing a register is an attempt to write. -/
theorem attempt_write (p : Peripheral β) (r : Handle) (word : UInt32) :
    Attempt r p (p.write r word) := by
  obtain ⟨e, q, hwrite, hkept⟩ | ⟨q, hwrite, hwrote⟩ := write_cases p r word
  · rw [hwrite]
    exact .failed e hkept
  · rw [hwrite]
    exact .took word hwrote

/-- So is writing fields, which may fail before it comes to that. -/
theorem attempt_writeFields (p : Peripheral β) (r : Handle) (seed : Seed)
    (updates : List (String × UInt64)) : Attempt r p (p.writeFields r seed updates) := by
  have hsnapshot := kept_snapshot p r seed
  simp only [writeFields]
  generalize p.snapshot r seed = first at hsnapshot
  obtain ⟨_ | s, q⟩ := first
  · exact .failed _ hsnapshot
  · simp only
    split
    · exact .failed _ hsnapshot
    · exact hsnapshot.attempt (attempt_write q r _)

/-- So is writing one field. -/
theorem attempt_writeField (p : Peripheral β) (r : Handle) (name : String) (value : UInt64) :
    Attempt r p (p.writeField r name value) := by
  have hsnapshot := kept_snapshot p r .current
  simp only [writeField]
  generalize p.snapshot r .current = first at hsnapshot
  obtain ⟨_ | s, q⟩ := first
  · exact .failed _ hsnapshot
  · simp only
    split
    · exact .failed _ hsnapshot
    · exact hsnapshot.attempt (attempt_write q r _)

/-! ## operations -/

/-- What an operation on a register can do. -/
inductive Effect (r : Handle) (p : Peripheral β) : Except Error Answer × Peripheral β → Prop where
  | kept {answer : Except Error Answer} {q : Peripheral β} :
      answer ≠ .ok .done → Kept r p q → Effect r p (answer, q)
  | wrote (word : UInt32) {q : Peripheral β} : Wrote r word p q → Effect r p (.ok .done, q)

/-- An operation that answers with something does not answer that it is done. -/
theorem map_ne_done {α : Type} {f : α → Answer} (hf : ∀ a, f a ≠ .done) (x : Except Error α) :
    x.map f ≠ .ok .done := by
  cases x with
  | error e => exact nofun
  | ok a => exact fun heq => hf a (Except.ok.inj heq)

/-- An operation that only reads has an effect of the first kind. -/
theorem Kept.effect {α : Type} {x : Except Error α × Peripheral β} (h : Kept r p x.2) {f : α → Answer}
    (hf : ∀ a, f a ≠ .done) : Effect r p (x.1.map f, x.2) := .kept (map_ne_done hf x.1) h

/-- An attempt to write has an effect of either kind. -/
theorem Attempt.effect {x : Except Error Unit × Peripheral β} (h : Attempt r p x) :
    Effect r p (x.1.map fun _ => .done, x.2) := by
  cases h with
  | failed e hkept => exact .kept nofun hkept
  | took word hwrote => exact .wrote word hwrote

/-- Every operation has an effect of one of the two kinds. -/
theorem effect_perform (p : Peripheral β) (operation : Operation) :
    Effect operation.register p (p.perform operation) := by
  cases operation with
  | read r => exact (kept_read p r).effect nofun
  | write r word => exact (attempt_write p r word).effect
  | readField r name => exact (kept_readField p r name).effect nofun
  | readSigned r name => exact (kept_readSigned p r name).effect nofun
  | writeField r name value => exact (attempt_writeField p r name value).effect
  | writeFields r seed updates => exact (attempt_writeFields p r seed updates).effect
  | snapshot r seed => exact (kept_snapshot p r seed).effect nofun
  | commit r s => exact (attempt_write p r s.word).effect
  | describe r => exact (kept_describe p r).effect nofun

/-- An operation that does not answer that it is done changes nothing but the device, which takes
no word. -/
theorem kept_of_ne_done {operation : Operation} (h : (p.perform operation).1 ≠ .ok .done) :
    Kept operation.register p (p.perform operation).2 := by
  have heffect := effect_perform p operation
  generalize p.perform operation = outcome at heffect h
  cases heffect with
  | kept _ hkept => exact hkept
  | wrote word _ => exact absurd rfl h

end Peripheral
end DeviceRegisters
