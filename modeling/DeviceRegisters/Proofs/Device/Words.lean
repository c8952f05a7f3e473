import DeviceRegisters.Device.Memory
import DeviceRegisters.Device.Probe

/-!
# DeviceRegisters.Proofs.Device.Words

Devices that hold words.

`HasWords wordAt` says that `wordAt` tells the words of a device: a read that
succeeds answers one, a write that succeeds replaces one, and nothing else changes
any.  A memory has words (`hasWords_memory`), and so has a device under observation
if the device inside has (`hasWords_probe`), whatever accesses are made to fail.

`Echoes wordAt holds` says more of some addresses: there no access fails.  A memory
echoes inside (`echoes_memory`).
-/

namespace DeviceRegisters.Device

/-- The words of a device, changed only by writes that succeed. -/
structure HasWords {β : Type} [Backend β] (wordAt : β → Nat → UInt32) : Prop where
  read_ok : ∀ {device after a w}, Backend.read device a = (.ok w, after) →
    w = wordAt device a ∧ ∀ b, wordAt after b = wordAt device b
  read_error : ∀ {device after a fault}, Backend.read device a = (.error fault, after) →
    ∀ b, wordAt after b = wordAt device b
  write_ok : ∀ {device after a w}, Backend.write device a w = (.ok (), after) →
    ∀ b, wordAt after b = if b = a then w else wordAt device b
  write_error : ∀ {device after a w fault}, Backend.write device a w = (.error fault, after) →
    ∀ b, wordAt after b = wordAt device b
  note : ∀ (device : β) line b, wordAt (Backend.note device line) b = wordAt device b

/-! ## memories -/

/-- The word at an address, zero outside the memory. -/
def Memory.wordAt (m : Memory) (address : Nat) : UInt32 := (m.peek address).getD 0

/-- A memory starts with zeros. -/
@[simp] theorem Memory.wordAt_zeroed (name : String) (size a : Nat) :
    (Memory.zeroed name size).wordAt a = 0 := by
  rw [wordAt, peek, zeroed, Array.getElem?_replicate]
  split <;> rfl

/-- A memory has the words that are seen in it. -/
theorem hasWords_memory : HasWords Memory.wordAt where
  read_ok {m after a w} h := by
    have hfst := m.fst_read a
    have hpeek := m.peek_read a
    change m.read a = (.ok w, after) at h
    rw [h] at hfst hpeek
    constructor
    · rw [Memory.wordAt]
      cases hword : m.peek a with
      | none => simp [hword] at hfst
      | some word =>
          rw [hword] at hfst
          exact Except.ok.inj hfst
    · intro b
      rw [Memory.wordAt, Memory.wordAt, hpeek b]
  read_error {m after a fault} h b := by
    have hpeek := m.peek_read a b
    change m.read a = (.error fault, after) at h
    rw [h] at hpeek
    rw [Memory.wordAt, Memory.wordAt, hpeek]
  write_ok {m after a w} h b := by
    have hfst := m.fst_write a w
    have hpeek := m.peek_write a b w
    change m.write a w = (.ok (), after) at h
    rw [h] at hfst hpeek
    have ha : a < m.size := by
      by_cases ha : a < m.size
      · exact ha
      · rw [if_neg ha] at hfst
        contradiction
    rw [Memory.wordAt, Memory.wordAt, hpeek]
    by_cases hb : b = a <;> simp [hb, ha]
  write_error {m after a w fault} h b := by
    have hfst := m.fst_write a w
    have hpeek := m.peek_write a b w
    change m.write a w = (.error fault, after) at h
    rw [h] at hfst hpeek
    have ha : ¬ a < m.size := by
      intro ha
      rw [if_pos ha] at hfst
      contradiction
    rw [Memory.wordAt, Memory.wordAt, hpeek, if_neg (fun hb => ha hb.2)]
  note _ _ _ := rfl

/-- Reading inside a memory answers the word. -/
theorem Memory.read_eq_ok {m : Memory} {a : Nat} (h : a < m.size) :
    ∃ after, Backend.read m a = (.ok (m.wordAt a), after) ∧ after.words = m.words := by
  have hword : m.words[a]? = some m.words[a] := Array.getElem?_eq_getElem h
  refine ⟨m.note (traceLine m.name a .read m.words[a]), ?_, rfl⟩
  change m.read a = _
  rw [Memory.read, hword, Memory.wordAt, Memory.peek, hword]
  rfl

/-- Writing inside a memory replaces the word. -/
theorem Memory.write_eq_ok {m : Memory} {a : Nat} (h : a < m.size) (w : UInt32) :
    ∃ after, Backend.write m a w = (.ok (), after) ∧ after.size = m.size ∧
      ∀ b, after.wordAt b = if b = a then w else m.wordAt b := by
  have hanswer : (m.write a w).1 = .ok () := by rw [m.fst_write, if_pos h]
  have hwrite : Backend.write m a w = (.ok (), (m.write a w).2) := Prod.ext hanswer rfl
  exact ⟨_, hwrite, m.size_write a w, hasWords_memory.write_ok hwrite⟩

/-- Outside a memory nothing is read, -/
theorem Memory.read_eq_error {m : Memory} {a : Nat} (h : ¬ a < m.size) :
    Backend.read m a = (.error (.outOfRange a m.size), m) := by
  have hword : m.words[a]? = none := Array.getElem?_eq_none (Nat.le_of_not_lt h)
  change m.read a = _
  rw [Memory.read, hword]

/-- and nothing is written. -/
theorem Memory.write_eq_error {m : Memory} {a : Nat} (h : ¬ a < m.size) (w : UInt32) :
    Backend.write m a w = (.error (.outOfRange a m.size), m) := by
  have hsize : ¬ a < m.words.size := h
  change m.write a w = _
  rw [Memory.write, dif_neg hsize]

/-- No access fails at an address that the device holds; a read answers the word there, a write
replaces it, and what the device holds does not change. -/
structure Echoes {β : Type} [Backend β] (wordAt : β → Nat → UInt32) (holds : β → Nat → Prop) :
    Prop where
  read : ∀ {device a}, holds device a →
    ∃ after, Backend.read device a = (.ok (wordAt device a), after) ∧
      (∀ b, wordAt after b = wordAt device b) ∧ ∀ b, holds device b → holds after b
  write : ∀ {device a} w, holds device a →
    ∃ after, Backend.write device a w = (.ok (), after) ∧
      (∀ b, wordAt after b = if b = a then w else wordAt device b) ∧
      ∀ b, holds device b → holds after b

/-- Nothing is asked of a device that holds nothing. -/
theorem echoes_nowhere {β : Type} [Backend β] (wordAt : β → Nat → UInt32) :
    Echoes wordAt fun _ _ => False where
  read h := h.elim
  write _ h := h.elim

/-- A memory gives back what was written inside its size. -/
theorem echoes_memory : Echoes Memory.wordAt fun m a => a < m.size where
  read {m a} ha := by
    obtain ⟨after, hread, hwords⟩ := m.read_eq_ok ha
    refine ⟨after, hread, (hasWords_memory.read_ok hread).2, fun b hb => ?_⟩
    rwa [Memory.size, hwords]
  write {m a} w ha := by
    obtain ⟨after, hwrite, hsize, hwords⟩ := m.write_eq_ok ha w
    exact ⟨after, hwrite, hwords, fun b hb => hsize.symm ▸ hb⟩

/-- A memory is determined by its size and its words. -/
theorem Memory.words_eq {m m' : Memory} (hsize : m.size = m'.size)
    (hwords : ∀ a, m.wordAt a = m'.wordAt a) : m.words = m'.words := by
  refine Array.ext hsize fun a ha ha' => ?_
  have hword := hwords a
  simp only [Memory.wordAt, Memory.peek] at hword
  rwa [Array.getElem?_eq_getElem ha, Array.getElem?_eq_getElem ha'] at hword

/-! ## devices under observation -/

/-- The word that was last written at an address, whether the device took it or
not. -/
def lastWrite? (transfers : List Transfer) (address : Nat) : Option UInt32 :=
  transfers.foldl (fun last transfer =>
    match transfer with
    | .write a word => if address = a then some word else last
    | .read _ => last) none

/-- A read is no write. -/
@[simp] theorem lastWrite?_append_read (transfers : List Transfer) (a b : Nat) :
    lastWrite? (transfers ++ [.read a]) b = lastWrite? transfers b := by
  rw [lastWrite?, List.foldl_append]
  rfl

/-- The last write at an address decides. -/
@[simp] theorem lastWrite?_append_write (transfers : List Transfer) (a b : Nat) (w : UInt32) :
    lastWrite? (transfers ++ [.write a w]) b = if b = a then some w else lastWrite? transfers b := by
  rw [lastWrite?, List.foldl_append]
  rfl

variable {β : Type} [Backend β]

/-- Every read is recorded, whatever becomes of it. -/
theorem Probe.transfers_of_read {p after : Probe β} {a : Nat} {answer : Except Fault UInt32}
    (h : Backend.read p a = (answer, after)) : after.transfers = p.transfers ++ [.read a] := by
  change p.read a = (answer, after) at h
  rw [Probe.read] at h
  split at h
  all_goals
    obtain ⟨-, rfl⟩ := Prod.mk.inj h
    rfl

/-- So is every write. -/
theorem Probe.transfers_of_write {p after : Probe β} {a : Nat} {w : UInt32}
    {answer : Except Fault Unit} (h : Backend.write p a w = (answer, after)) :
    after.transfers = p.transfers ++ [.write a w] := by
  change p.write a w = (answer, after) at h
  rw [Probe.write] at h
  split at h
  all_goals
    obtain ⟨-, rfl⟩ := Prod.mk.inj h
    rfl

/-- An observer and the failures that are planned change no word. -/
theorem hasWords_probe {wordAt : β → Nat → UInt32} (h : HasWords wordAt) :
    HasWords fun p : Probe β => wordAt p.inner where
  read_ok {p after a w} hread := by
    change p.read a = (.ok w, after) at hread
    rw [Probe.read] at hread
    split at hread
    · simp at hread
    · obtain ⟨hanswer, rfl⟩ := Prod.mk.inj hread
      exact h.read_ok (Prod.ext hanswer rfl)
  read_error {p after a fault} hread b := by
    change p.read a = (.error fault, after) at hread
    rw [Probe.read] at hread
    split at hread
    · obtain ⟨-, rfl⟩ := Prod.mk.inj hread
      rfl
    · obtain ⟨hanswer, rfl⟩ := Prod.mk.inj hread
      exact h.read_error (Prod.ext hanswer rfl) b
  write_ok {p after a w} hwrite b := by
    change p.write a w = (.ok (), after) at hwrite
    rw [Probe.write] at hwrite
    split at hwrite
    · simp at hwrite
    · obtain ⟨hanswer, rfl⟩ := Prod.mk.inj hwrite
      exact h.write_ok (Prod.ext hanswer rfl) b
  write_error {p after a w fault} hwrite b := by
    change p.write a w = (.error fault, after) at hwrite
    rw [Probe.write] at hwrite
    split at hwrite
    · obtain ⟨-, rfl⟩ := Prod.mk.inj hwrite
      rfl
    · obtain ⟨hanswer, rfl⟩ := Prod.mk.inj hwrite
      exact h.write_error (Prod.ext hanswer rfl) b
  note p line b := h.note p.inner line b

end DeviceRegisters.Device
