import Mathlib
import DeviceRegisters.Proofs.Device.Ledger
import DeviceRegisters.Proofs.Device.Words
import DeviceRegisters.Proofs.Peripheral.Effects
import DeviceRegisters.Proofs.Peripheral.Written

/-!
# DeviceRegisters.Proofs.Peripheral.Journal

What a peripheral remembers is what a run asked it to write and made the device take.

The device is entered in a ledger and may fail whenever it likes.  A register that can only be
written reads as the word given to the last operation of the run that succeeded in writing at
its address through a register of this kind, or zero: `lastWritten` tells this word from what
the operations were given and what they answered.  It is also the last word in the list of what
the device performed for such registers (`remembered`).  An operation that fails adds nothing
to either (`reads_after_run`).
-/

namespace DeviceRegisters

namespace Device

/-- Of two runs one after the other the second decides, if it wrote at the address. -/
theorem lastWrite?_append (earlier later : List Transfer) (address : Nat) :
    lastWrite? (earlier ++ later) address =
      (lastWrite? later address).or (lastWrite? earlier address) := by
  induction later using List.reverseRecOn with
  | nil => simp [lastWrite?]
  | append_singleton later transfer ih =>
      rw [← List.append_assoc]
      cases transfer with
      | read a => rw [lastWrite?_append_read, lastWrite?_append_read, ih]
      | write a word =>
          rw [lastWrite?_append_write, lastWrite?_append_write, ih]
          split
          · rfl
          · rfl

namespace Ledger

variable {β : Type} {l later : Ledger β}

/-- What was performed from the earlier state to the later one. -/
def between (earlier later : Ledger β) : List Transfer :=
  later.performed.drop earlier.performed.length

/-- From the earlier state to the later one there was one access, which succeeded or failed. -/
def Accessed (earlier later : Ledger β) (transfer : Transfer) : Prop :=
  later.performed = earlier.performed ++ [transfer] ∧ later.failed = earlier.failed ∨
    later.performed = earlier.performed ∧ later.failed = earlier.failed ++ [transfer]

/-- What was performed since then is what the ledger has in addition. -/
theorem between_eq {transfers : List Transfer} (h : later.performed = l.performed ++ transfers) :
    l.between later = transfers := by
  rw [between, h, List.drop_left]

/-- A device that takes no word performs no write. -/
theorem performed_of_quiet [Backend β] {address : Nat} (h : Quiet address l later) :
    ∃ transfers, later.performed = l.performed ++ transfers ∧
      ∀ b, lastWrite? transfers b = none := by
  induction h with
  | refl => exact ⟨[], by simp, fun _ => rfl⟩
  | @read device next answer _ hread ih =>
      obtain ⟨transfers, hnext, hnone⟩ := ih
      cases answer with
      | error fault => exact ⟨transfers, (enter_error hread).1.trans hnext, hnone⟩
      | ok word =>
          refine ⟨transfers ++ [.read address], ?_, fun b => ?_⟩
          · rw [(enter_ok hread).1, hnext, List.append_assoc]
          · rw [lastWrite?_append_read, hnone]
  | refused _ hwrite ih =>
      obtain ⟨transfers, hnext, hnone⟩ := ih
      exact ⟨transfers, (enter_error hwrite).1.trans hnext, hnone⟩
  | note line _ ih => exact ih

end Ledger
end Device

namespace Peripheral

open Directory (Handle)
open Device (Backend Ledger Transfer lastWrite?)

variable {β : Type} [Backend β] {p q : Peripheral (Ledger β)} {r : Handle}

/-! ## one operation -/

/-- An operation that only touches the device makes it perform no write. -/
theorem Kept.lastWrite?_between (h : Kept r p q) (b : Nat) :
    lastWrite? (p.device.between q.device) b = none := by
  obtain ⟨transfers, hperformed, hnone⟩ := Device.Ledger.performed_of_quiet h.device
  rw [Device.Ledger.between_eq hperformed, hnone]

/-- An operation by which a word is taken makes the device perform that write last. -/
theorem Wrote.lastWrite?_between {word : UInt32} (h : Wrote r word p q) (b : Nat) :
    lastWrite? (p.device.between q.device) b = if b = r.address then some word else none := by
  obtain ⟨before, hquiet, hwrite⟩ := h.device
  obtain ⟨transfers, hperformed, hnone⟩ := Device.Ledger.performed_of_quiet hquiet
  have hall : q.device.performed = p.device.performed ++ (transfers ++ [.write r.address word]) := by
    rw [(Device.Ledger.enter_ok hwrite).1, hperformed, List.append_assoc]
  rw [Device.Ledger.between_eq hall, Device.lastWrite?_append_write, hnone]

/-- What the device performs for an operation, if that is to be remembered. -/
def toRemember (p : Peripheral (Ledger β)) (operation : Operation) : List Transfer :=
  if operation.register.view.access = .writeOnly then
    p.device.between (p.perform operation).2.device
  else []

/-- An operation that only touches the device has nothing that is to be remembered. -/
theorem Kept.lastWrite?_toRemember {operation : Operation}
    (h : Kept operation.register p (p.perform operation).2) (b : Nat) :
    lastWrite? (p.toRemember operation) b = none := by
  rw [toRemember]
  split
  · exact h.lastWrite?_between b
  · rfl

/-- The memory follows the writes that are to be remembered. -/
theorem shadow_perform (p : Peripheral (Ledger β)) (operation : Operation) (b : Nat) :
    (p.perform operation).2.shadow.get? b =
      (lastWrite? (p.toRemember operation) b).or (p.shadow.get? b) := by
  by_cases hdone : (p.perform operation).1 = .ok .done
  · obtain ⟨word, -, hwrote⟩ := wrote_of_perform hdone
    rw [hwrote.rest, toRemember]
    split
    · rw [hwrote.lastWrite?_between, WordTable.get?_insert]
      split
      · rfl
      · rfl
    · rfl
  · have hkept := kept_of_ne_done hdone
    rw [hkept.lastWrite?_toRemember, hkept.rest, Option.none_or]

/-- An operation that fails changes nothing but the device, and performs no write. -/
theorem kept_of_perform_error {operation : Operation} {e : Error}
    (h : (p.perform operation).1 = .error e) : Kept operation.register p (p.perform operation).2 :=
  kept_of_ne_done (by simp [h])

/-! ## what a run made the device take -/

/-- What the device performs in a run for registers that can only be written, in order. -/
def remembered (p : Peripheral (Ledger β)) : List Operation → List Transfer
  | [] => []
  | operation :: operations =>
    p.toRemember operation ++ remembered (p.perform operation).2 operations

/-- After a run the memory holds the last of these writes at each address, or what it held. -/
theorem shadow_performEach (p : Peripheral (Ledger β)) (operations : List Operation) (b : Nat) :
    (p.performEach operations).2.shadow.get? b =
      (lastWrite? (p.remembered operations) b).or (p.shadow.get? b) := by
  induction operations generalizing p with
  | nil => rfl
  | cons operation operations ih =>
      have hlater := ih (p.perform operation).2
      rw [shadow_perform, ← Option.or_assoc] at hlater
      rw [remembered, Device.lastWrite?_append]
      exact hlater

/-! ## what a run was given to write -/

/-- The operations of a run, each with its answer. -/
def history (p : Peripheral (Ledger β)) (operations : List Operation) :
    List (Operation × Except Error Answer) :=
  operations.zip (p.performEach operations).1

/-- The word last written at an address through registers that can only be written, after one more
operation.  An operation that writes fields puts them into the word before. -/
def wordAfter (address : Nat) (word : UInt32) : Operation × Except Error Answer → UInt32
  | (operation, .ok .done) =>
    if operation.register.view.access = .writeOnly ∧ operation.register.address = address then
      (operation.word? (some word)).getD word
    else word
  | _ => word

/-- The word given to the last operation of a history that wrote at an address through a register
that can only be written, or zero. -/
def lastWritten (address : Nat) (history : List (Operation × Except Error Answer)) : UInt32 :=
  history.foldl (wordAfter address) 0

/-- An operation that is not done with writing leaves the word. -/
theorem wordAfter_of_ne {answer : Except Error Answer} (h : answer ≠ .ok .done) (address : Nat)
    (word : UInt32) (operation : Operation) : wordAfter address word (operation, answer) = word := by
  simp only [wordAfter]
  split
  · next heq => exact absurd (Prod.mk.inj heq).2 h
  · rfl

/-- The memory follows what the operation was given to write, if it succeeded. -/
theorem getOrZero_perform (p : Peripheral (Ledger β)) (operation : Operation) (address : Nat) :
    (p.perform operation).2.shadow.getOrZero address =
      wordAfter address (p.shadow.getOrZero address) (operation, (p.perform operation).1) := by
  by_cases hdone : (p.perform operation).1 = .ok .done
  · obtain ⟨word, hword, hwrote⟩ := wrote_of_perform hdone
    rw [hdone, hwrote.rest, wordAfter]
    by_cases haccess : operation.register.view.access = .writeOnly
    · simp only [haccess, if_true, true_and, WordTable.getOrZero_insert]
      by_cases haddress : operation.register.address = address
      · -- reading the register gave the word that is remembered
        have hread : (p.read operation.register).1.toOption = some (p.shadow.getOrZero address) := by
          rw [read_writeOnly haccess, haddress]
          rfl
        rw [if_pos haddress.symm, if_pos haddress, ← hread, hword, Option.getD_some]
      · rw [if_neg haddress, if_neg fun heq => haddress heq.symm]
    · simp only [haccess, if_false, false_and]
  · rw [wordAfter_of_ne hdone, (kept_of_ne_done hdone).rest]

/-- So it does in a run. -/
theorem getOrZero_performEach (p : Peripheral (Ledger β)) (operations : List Operation)
    (address : Nat) :
    (p.performEach operations).2.shadow.getOrZero address =
      (p.history operations).foldl (wordAfter address) (p.shadow.getOrZero address) := by
  induction operations generalizing p with
  | nil => rfl
  | cons operation operations ih =>
      have hlater := ih (p.perform operation).2
      rw [getOrZero_perform] at hlater
      exact hlater

/-! ## operations that fail -/

/-- An operation that fails is not among what the device performed. -/
theorem remembered_of_error {operation : Operation} {e : Error}
    (h : (p.perform operation).1 = .error e) (more : List Operation) (a : Nat) :
    lastWrite? (p.remembered (operation :: more)) a =
      lastWrite? ((p.perform operation).2.remembered more) a := by
  rw [remembered, Device.lastWrite?_append, (kept_of_perform_error h).lastWrite?_toRemember,
    Option.or_none]

/-- The memory at the end of a run is told from the history without it. -/
theorem getOrZero_of_error {operation : Operation} {e : Error}
    (h : (p.perform operation).1 = .error e) (more : List Operation) (address : Nat) :
    (p.performEach (operation :: more)).2.shadow.getOrZero address =
      ((p.perform operation).2.history more).foldl (wordAfter address)
        (p.shadow.getOrZero address) := by
  have hsame : (p.perform operation).2.shadow = p.shadow := by
    rw [(kept_of_perform_error h).rest]
  rw [← hsame]
  exact getOrZero_performEach _ more address

/-! ## reading after a run -/

/-- Reading from the device is one read of the address, and gives what the device answers. -/
theorem accessed_read (p : Peripheral (Ledger β)) {r : Handle}
    (h : r.view.access = .readOnly ∨ r.view.access = .readWrite) :
    p.device.Accessed (p.read r).2.device (.read r.address) ∧
      (p.read r).1 = (Backend.read p.device.inner r.address).1.mapError .device := by
  have hread : ∀ outcome, p.device.enter (.read r.address) outcome = Backend.read p.device r.address →
      p.device.Accessed (p.read r).2.device (.read r.address) ∧
        (p.read r).1 = outcome.1.mapError .device := by
    rintro ⟨answer, inner⟩ houtcome
    cases answer with
    | error fault =>
        rcases h with h | h
        all_goals
          simp only [read, h, ← houtcome]
          exact ⟨.inr ⟨rfl, rfl⟩, rfl⟩
    | ok word =>
        rcases h with h | h
        all_goals
          simp only [read, h, ← houtcome]
          exact ⟨.inl ⟨rfl, rfl⟩, rfl⟩
  exact hread _ rfl

/-- Writing a register that can be written is one write of its address, and fails only if the
device refuses. -/
theorem accessed_write (p : Peripheral (Ledger β)) {r : Handle} (h : r.view.access ≠ .readOnly)
    (word : UInt32) :
    p.device.Accessed (p.write r word).2.device (.write r.address word) ∧
      (p.write r word).1 = (Backend.write (Backend.note p.device.inner (line r .write word))
        r.address word).1.mapError .device := by
  have hwrite : ∀ outcome, (Backend.note p.device (line r .write word)).enter
      (.write r.address word) outcome =
        Backend.write (Backend.note p.device (line r .write word)) r.address word →
      p.device.Accessed (p.write r word).2.device (.write r.address word) ∧
        (p.write r word).1 = outcome.1.mapError .device := by
    rintro ⟨fault | ⟨⟩, inner⟩ houtcome
    · simp only [write, Access.isWritable_iff.mpr h, if_true, ← houtcome]
      exact ⟨.inr ⟨rfl, rfl⟩, rfl⟩
    · simp only [write, Access.isWritable_iff.mpr h, if_true, ← houtcome]
      exact ⟨.inl ⟨rfl, rfl⟩, rfl⟩
  exact hwrite _ rfl

/-- What reading and writing registers does at the end of any run.  A register that can only be
written reads as the word given to the last operation that succeeded in writing at its address
through such a register, which is also what the device last performed for them, and nobody is
asked.  An operation that succeeds in writing makes the device take the word that it was given.
One that fails writes nothing, leaves everything but the device as it was, and what is read later
is told from the history without it. -/
theorem reads_after_run (directory : Directory) (device : Ledger β) (operations : List Operation)
    (r : Handle) :
    let p := ofDirectory directory device
    let q := (p.performEach operations).2
    (r.view.access = .writeOnly →
      q.read r = (.ok (lastWritten r.address (p.history operations)), q) ∧
        lastWritten r.address (p.history operations) =
          (lastWrite? (p.remembered operations) r.address).getD 0) ∧
    (r.view.access = .writePulse → q.read r = (.ok 0, q)) ∧
    (r.view.access = .readOnly ∨ r.view.access = .readWrite →
      q.device.Accessed (q.read r).2.device (.read r.address) ∧
        (q.read r).1 = (Backend.read q.device.inner r.address).1.mapError .device) ∧
    (r.view.access = .readOnly →
      ∀ s : Snapshot, q.write r s.word = (.error (.readOnly r.view.name), q) ∧
        q.commit r s = (.error (.readOnly r.view.name), q)) ∧
    (r.view.access ≠ .readOnly → ∀ word,
      q.device.Accessed (q.write r word).2.device (.write r.address word) ∧
        (q.write r word).1 = (Backend.write (Backend.note q.device.inner (line r .write word))
          r.address word).1.mapError .device) ∧
    (∀ operation, (q.perform operation).1 = .ok .done →
      ∃ word, operation.word? (q.read operation.register).1.toOption = some word ∧
        ∀ a, lastWrite? (q.device.between (q.perform operation).2.device) a =
          if a = operation.register.address then some word else none) ∧
    ∀ operation e, (q.perform operation).1 = .error e →
      let after := (q.perform operation).2
      after = { q with device := after.device } ∧
        (∀ a, lastWrite? (q.device.between after.device) a = none) ∧
        (∀ more a, lastWrite? (q.remembered (operation :: more)) a =
          lastWrite? (after.remembered more) a) ∧
        ∀ more, r.view.access = .writeOnly →
          ((q.performEach (operation :: more)).2.read r).1 =
            .ok (lastWritten r.address (p.history operations ++ after.history more)) := by
  intro p q
  have hempty : p.shadow = .empty := rfl
  have hshadow : q.shadow.get? r.address = lastWrite? (p.remembered operations) r.address := by
    have hshadow := shadow_performEach p operations r.address
    rwa [hempty, WordTable.get?_empty, Option.or_none] at hshadow
  have hword : q.shadow.getOrZero r.address = lastWritten r.address (p.history operations) :=
    getOrZero_performEach p operations r.address
  refine ⟨?writeOnly, ?writePulse, accessed_read q, ?readOnly, accessed_write q, ?done, ?failed⟩
  case writeOnly =>
    intro haccess
    refine ⟨by rw [read_writeOnly haccess, hword], ?_⟩
    rw [← hword, WordTable.getOrZero, hshadow]
  case writePulse =>
    intro haccess
    simp only [read, haccess]
  case readOnly =>
    intro haccess s
    simp [commit, write, haccess, Access.isWritable]
  case done =>
    intro operation hdone
    obtain ⟨word, hgiven, hwrote⟩ := wrote_of_perform hdone
    exact ⟨word, hgiven, hwrote.lastWrite?_between⟩
  case failed =>
    intro operation e he after
    have hkept := kept_of_perform_error he
    refine ⟨hkept.rest, hkept.lastWrite?_between, remembered_of_error he, fun more haccess => ?_⟩
    rw [read_writeOnly haccess, getOrZero_of_error he, hword, lastWritten, lastWritten,
      List.foldl_append]

/-- A memory of one word with its ledger, to which the third access fails. -/
def failingThird : Ledger (Device.Probe Device.Memory) :=
  .ofDevice (.ofDevice (.zeroed "M" 1)
    fun transfers _ _ => if transfers.length = 2 then some (.reported "") else none)

/-- A directory that has nothing but a group in it. -/
def bareDirectory : Directory := ⟨#[.group "G" 0 1 []], ⟨0, by decide⟩⟩

/-- A register at the start of the group, with two fields. -/
def cornerRegister (name : String) (access : Access) : Handle :=
  ⟨0, 0, name, access, [⟨"LOW", 0, 4, false, access, []⟩, ⟨"HIGH", 8, 4, false, access, []⟩]⟩

/-- A field is put into the word that was written, a write that the device refuses is passed over,
and another register at the address goes on from there. -/
theorem reads_after_failed_write :
    let only := cornerRegister "A" .writeOnly
    let other := cornerRegister "B" .writeOnly
    let plain := cornerRegister "C" .readWrite
    let p := ofDirectory bareDirectory failingThird
    let first := (p.performEach [.write only 0x107]).2
    let q := (p.performEach [.write only 0x107, .writeField only "LOW" 5]).2
    let after := (q.perform (.write only 9)).2
    let more := [.write only 9, .writeFields other .current [("HIGH", 3), ("HIGH", 6)]]
    (first.perform (.writeField only "LOW" 5)).1 = .ok .done ∧
      lastWrite? (first.device.between (first.perform (.writeField only "LOW" 5)).2.device) 0 =
        some 0x105 ∧
      q.read only = (.ok 0x105, q) ∧ q.read (cornerRegister "P" .writePulse) = (.ok 0, q) ∧
      q.device.Accessed (q.read plain).2.device (.read 0) ∧
      q.write (cornerRegister "R" .readOnly) 1 = (.error (.readOnly "R"), q) ∧
      q.device.Accessed (q.write plain 1).2.device (.write 0 1) ∧
      (q.perform (.write only 9)).1 = .error (.device (.reported "")) ∧
      after = { q with device := after.device } ∧
      ((q.performEach more).2.read other).1 = .ok 0x605 := by
  intro only other plain p first q after more
  have hfirst := reads_after_run bareDirectory failingThird [.write only 0x107] only
  have hruns := reads_after_run bareDirectory failingThird
    [.write only 0x107, .writeField only "LOW" 5]
  have hdone : (first.perform (.writeField only "LOW" 5)).1 = .ok .done := by rfl
  have hfailed : (q.perform (.write only 9)).1 = .error (.device (.reported "")) := by rfl
  have hbase : (Operation.writeField only "LOW" 5).word? (first.read only).1.toOption =
      some 0x105 := by cbv
  have hword : lastWritten 0 (p.history [.write only 0x107, .writeField only "LOW" 5]) = 0x105 := by
    cbv
  have hlast : lastWritten 0 (p.history [.write only 0x107, .writeField only "LOW" 5] ++
      after.history [.writeFields other .current [("HIGH", 3), ("HIGH", 6)]]) = 0x605 := by cbv
  obtain ⟨-, -, -, -, -, htook, -⟩ := hfirst
  obtain ⟨word, hgiven, hperformed⟩ := htook _ hdone
  obtain rfl : 0x105 = word := Option.some.inj (hbase.symm.trans hgiven)
  obtain ⟨hread, -, -, -, -, -, -⟩ := hruns only
  obtain ⟨-, hpulse, -, -, -, -, -⟩ := hruns (cornerRegister "P" .writePulse)
  obtain ⟨-, -, haccess, -, hwrite, -, -⟩ := hruns plain
  obtain ⟨-, -, -, hrefused, -, -, -⟩ := hruns (cornerRegister "R" .readOnly)
  obtain ⟨-, -, -, -, -, -, herror⟩ := hruns other
  obtain ⟨hsame, -, -, hlater⟩ := herror _ _ hfailed
  refine ⟨hdone, hperformed 0, ?_, hpulse rfl, (haccess (.inr rfl)).1,
    (hrefused rfl ⟨plain.view, 1⟩).1, (hwrite (by decide) 1).1, hfailed, hsame, ?_⟩
  · rw [(hread rfl).1]
    exact congrArg (fun word => (Except.ok word, q)) hword
  · exact (hlater _ rfl).trans (congrArg Except.ok hlast)

end Peripheral
end DeviceRegisters
