import Mathlib
import DeviceRegisters.Proofs.Peripheral.FieldWrites

/-!
# DeviceRegisters.Proofs.Peripheral.Written

The word that an operation writes, told from what the operation is given.

It is given as it is, or as values for fields of a word to start from, which is zero or what
reading the register gives (`Operation.word?`).  An operation that succeeds in writing made the
device take this word (`wrote_of_perform`).
-/

namespace DeviceRegisters

open Directory (Handle RegisterView)

/-! ## what is given -/

/-- A word with values put into fields one after the other.  A name that is no field changes
nothing. -/
def Directory.RegisterView.put (v : RegisterView) (word : UInt32) : List (String × UInt64) → UInt32
  | [] => word
  | (name, value) :: more =>
    match v.field? name with
    | none => v.put word more
    | some f => v.put (Word.insert word f.offset f.width value) more

/-- The first value is put into the word before the others. -/
theorem Directory.RegisterView.put_cons (v : RegisterView) (word : UInt32) (name : String)
    (value : UInt64) (more : List (String × UInt64)) :
    v.put word ((name, value) :: more) = v.put (v.put word [(name, value)]) more := by
  cases hfound : v.field? name with
  | none => simp only [put, hfound]
  | some f => simp only [put, hfound]

/-- The word to start from, by what reading the register gives. -/
def Seed.word? (current : Option UInt32) : Seed → Option UInt32
  | .zero => some 0
  | .current => current

/-- The word that an operation is to write, by what reading its register gives before. -/
def Peripheral.Operation.word? (current : Option UInt32) : Peripheral.Operation → Option UInt32
  | .write _ word => some word
  | .commit _ s => some s.word
  | .writeField r name value => current.map fun word => r.view.put word [(name, value)]
  | .writeFields r seed updates => (seed.word? current).map fun word => r.view.put word updates
  | .read _ | .readField _ _ | .readSigned _ _ | .snapshot _ _ | .describe _ => none

/-! ## snapshots -/

namespace Snapshot

variable {s after : Snapshot} {name : String} {value : UInt64} {updates : List (String × UInt64)}

/-- A set that is taken puts its value into the word. -/
theorem eq_put_of_set (h : s.set name value = .ok after) :
    after = { s with word := s.view.put s.word [(name, value)] } := by
  obtain ⟨f, htakes⟩ | ⟨e, hrefuses⟩ := s.view.takes_or_refuses name value
  · rw [set_of_takes htakes] at h
    simp only [RegisterView.put, htakes.found]
    exact (Except.ok.inj h).symm
  · rw [set_of_refuses hrefuses] at h
    cases h

/-- Sets that are all taken put their values into the word. -/
theorem eq_put_of_setAll (h : s.setAll updates = .ok after) :
    after = { s with word := s.view.put s.word updates } := by
  induction updates generalizing s with
  | nil => exact (Except.ok.inj h).symm
  | cons update more ih =>
      obtain ⟨name, value⟩ := update
      obtain ⟨next, hset, hmore⟩ := bind_eq_ok_iff.mp h
      obtain rfl := eq_put_of_set hset
      rw [ih hmore, RegisterView.put_cons s.view s.word name value more]

end Snapshot

namespace Peripheral

open Device (Backend)

variable {β : Type} [Backend β] {p q : Peripheral β} {r : Handle} {seed : Seed} {s : Snapshot}
  {updates : List (String × UInt64)} {operation : Operation}

/-! ## operations -/

/-- Writing a field is updating it alone. -/
theorem writeField_eq_writeFields (p : Peripheral β) (r : Handle) (name : String) (value : UInt64) :
    p.writeField r name value = p.writeFields r .current [(name, value)] := by
  rw [writeField, writeFields]
  rcases p.snapshot r .current with ⟨e | s, q⟩
  · rfl
  · simp only [Snapshot.setAll]
    cases s.set name value <;> rfl

/-- A snapshot is one of the word to start from. -/
theorem word?_of_snapshot (h : p.snapshot r seed = (.ok s, q)) :
    seed.word? (p.read r).1.toOption = some s.word ∧ s.view = r.view := by
  cases seed with
  | zero =>
      obtain rfl := Except.ok.inj (Prod.mk.inj h).1
      exact ⟨rfl, rfl⟩
  | current =>
      rcases hread : p.read r with ⟨e | word, next⟩
      · simp [snapshot, hread] at h
      · simp only [snapshot, hread, Prod.mk.injEq, Except.ok.injEq] at h
        obtain ⟨rfl, -⟩ := h
        exact ⟨rfl, rfl⟩

/-- Updates that succeed made the device take the word with all of them. -/
theorem wrote_of_writeFields (h : p.writeFields r seed updates = (.ok (), q)) :
    ∃ word, (Operation.writeFields r seed updates).word? (p.read r).1.toOption = some word ∧
      Wrote r word p q := by
  have hkept := kept_snapshot p r seed
  rcases hsnapshot : p.snapshot r seed with ⟨e | s, next⟩
  · simp [writeFields, hsnapshot] at h
  · rw [hsnapshot] at hkept
    obtain ⟨hword, hview⟩ := word?_of_snapshot hsnapshot
    cases hset : s.setAll updates with
    | error e => simp [writeFields, hsnapshot, hset] at h
    | ok after =>
        simp only [writeFields, hsnapshot, hset] at h
        obtain rfl := Snapshot.eq_put_of_setAll hset
        refine ⟨r.view.put s.word updates, ?_, hkept.wrote ?_⟩
        · rw [Operation.word?, hword, Option.map_some]
        · rw [← hview]
          exact wrote_of_write h

/-- What answers that it is done has succeeded. -/
theorem eq_ok_of_map_done {x : Except Error Unit} (h : x.map (fun _ => Answer.done) = .ok .done) :
    x = .ok () := by
  obtain e | ⟨⟩ := x
  · cases h
  · rfl

/-- An operation that answers that it is done made the device take the word that it was
given. -/
theorem wrote_of_perform (h : (p.perform operation).1 = .ok .done) :
    ∃ word, operation.word? (p.read operation.register).1.toOption = some word ∧
      Wrote operation.register word p (p.perform operation).2 := by
  cases operation with
  | write r word => exact ⟨word, rfl, wrote_of_write (Prod.ext (eq_ok_of_map_done h) rfl)⟩
  | commit r s => exact ⟨s.word, rfl, wrote_of_write (Prod.ext (eq_ok_of_map_done h) rfl)⟩
  | writeFields r seed updates => exact wrote_of_writeFields (Prod.ext (eq_ok_of_map_done h) rfl)
  | writeField r name value =>
      have hwritten : p.writeField r name value = (.ok (), (p.writeField r name value).2) :=
        Prod.ext (eq_ok_of_map_done h) rfl
      rw [writeField_eq_writeFields] at hwritten
      obtain ⟨word, hword, hwrote⟩ := wrote_of_writeFields hwritten
      rw [← writeField_eq_writeFields] at hwrote
      exact ⟨word, hword, hwrote⟩
  | read r => exact absurd h (map_ne_done nofun _)
  | readField r name => exact absurd h (map_ne_done nofun _)
  | readSigned r name => exact absurd h (map_ne_done nofun _)
  | snapshot r seed => exact absurd h (map_ne_done nofun _)
  | describe r => exact absurd h (map_ne_done nofun _)

end Peripheral
end DeviceRegisters
