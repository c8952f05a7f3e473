import DeviceRegisters.Device.Probe

/-!
# DeviceRegisters.Proofs.Device.Ledger

A device whose accesses are entered in a ledger: those that succeeded and those that
failed.  Both lists only grow (`Since`), so that one can say what was done between two
states of a device.  `Attempts` says how a device is given writes in order: up to the first
that it refuses.
-/

namespace DeviceRegisters.Device

/-- A device with its accesses: those that it performed, and those that failed. -/
structure Ledger (β : Type) where
  inner : β
  performed : List Transfer
  failed : List Transfer

namespace Ledger

variable {β : Type}

/-- Enters an access by its outcome. -/
def enter {α : Type} (l : Ledger β) (transfer : Transfer) :
    Except Fault α × β → Except Fault α × Ledger β
  | (.ok a, inner) => (.ok a, { l with inner, performed := l.performed ++ [transfer] })
  | (.error fault, inner) => (.error fault, { l with inner, failed := l.failed ++ [transfer] })

instance [Backend β] : Backend (Ledger β) where
  read l a := l.enter (.read a) (Backend.read l.inner a)
  write l a w := l.enter (.write a w) (Backend.write l.inner a w)
  note l line := { l with inner := Backend.note l.inner line }

/-- A ledger in which nothing is entered. -/
def ofDevice (inner : β) : Ledger β := ⟨inner, [], []⟩

/-- The later ledger continues the earlier one, in which no failure follows. -/
def Since (earlier later : Ledger β) : Prop :=
  earlier.performed <+: later.performed ∧ earlier.failed <+: later.failed

/-- Nothing failed from the earlier state to the later one. -/
def Unfailing (earlier later : Ledger β) : Prop := later.failed = earlier.failed

/-- No access was made from the earlier state to the later one. -/
def Untouched (earlier later : Ledger β) : Prop :=
  later.performed = earlier.performed ∧ later.failed = earlier.failed

instance (earlier later : Ledger β) : Decidable (earlier.Untouched later) :=
  inferInstanceAs (Decidable (_ ∧ _))

/-- From the earlier state to the later one just these accesses were made, and none failed. -/
structure Made (earlier : Ledger β) (transfers : List Transfer) (later : Ledger β) : Prop where
  performed : later.performed = earlier.performed ++ transfers
  failed : later.failed = earlier.failed

/-- The word was written to the register from the earlier state to the later one. -/
def Wrote (earlier later : Ledger β) (register : Nat) (word : UInt32) : Prop :=
  ∃ transfers, later.performed = earlier.performed ++ transfers ∧ .write register word ∈ transfers

/-! ## growth -/

variable {l later last : Ledger β}

theorem Since.refl (l : Ledger β) : l.Since l := ⟨List.prefix_rfl, List.prefix_rfl⟩

theorem Untouched.refl (l : Ledger β) : l.Untouched l := ⟨rfl, rfl⟩

/-- A device left alone twice was left alone. -/
theorem Untouched.trans (h : l.Untouched later) (h' : later.Untouched last) : l.Untouched last :=
  ⟨h'.1.trans h.1, h'.2.trans h.2⟩

theorem Made.refl (l : Ledger β) : l.Made [] l := ⟨(List.append_nil _).symm, rfl⟩

/-- Accesses made one after the other were made in all. -/
theorem Made.trans {transfers more : List Transfer} (h : l.Made transfers later)
    (h' : later.Made more last) : l.Made (transfers ++ more) last :=
  ⟨by rw [h'.performed, h.performed, List.append_assoc], h'.failed.trans h.failed⟩

/-- A ledger that continues a continuation continues what that continues. -/
theorem Since.trans (h : l.Since later) (h' : later.Since last) : l.Since last :=
  ⟨h.1.trans h'.1, h.2.trans h'.2⟩

/-- If nothing failed in all, nothing failed in a part. -/
theorem Unfailing.of_since (h : l.Unfailing last) (hfirst : l.Since later) (hsecond : later.Since last) :
    l.Unfailing later ∧ later.Unfailing last := by
  have hlast : last.failed = l.failed := h
  have hsame : later.failed = l.failed := by
    have hle := hsecond.2
    rw [hlast] at hle
    exact hle.eq_of_length (Nat.le_antisymm hle.length_le hfirst.2.length_le)
  exact ⟨hsame, hlast.trans hsame.symm⟩

/-- A word that was written stays written. -/
theorem Wrote.of_since {register : Nat} {word : UInt32} (h : l.Wrote later register word)
    (hsince : later.Since last) : l.Wrote last register word := by
  obtain ⟨transfers, hlater, hmem⟩ := h
  obtain ⟨more, hmore⟩ := hsince.1
  refine ⟨transfers ++ more, ?_, List.mem_append_left more hmem⟩
  rw [← hmore, hlater, List.append_assoc]

/-- A word written later was written since any earlier state. -/
theorem Wrote.since {register : Nat} {word : UInt32} (hsince : l.Since later)
    (h : later.Wrote last register word) : l.Wrote last register word := by
  obtain ⟨transfers, hlast, hmem⟩ := h
  obtain ⟨before, hbefore⟩ := hsince.1
  refine ⟨before ++ transfers, ?_, List.mem_append_right before hmem⟩
  rw [hlast, ← hbefore, List.append_assoc]

/-! ## accesses -/

section

variable {α : Type} {transfer : Transfer} {outcome : Except Fault α × β} {a : α} {fault : Fault}

/-- An access that succeeds is entered as performed. -/
theorem enter_ok (h : l.enter transfer outcome = (.ok a, later)) :
    later.performed = l.performed ++ [transfer] ∧ later.failed = l.failed := by
  rw [enter.eq_def] at h
  split at h
  · obtain ⟨-, rfl⟩ := Prod.mk.inj h
    exact ⟨rfl, rfl⟩
  · simp at h

/-- An access that fails is entered as such. -/
theorem enter_error (h : l.enter transfer outcome = (.error fault, later)) :
    later.performed = l.performed ∧ later.failed = l.failed ++ [transfer] := by
  rw [enter.eq_def] at h
  split at h
  · simp at h
  · obtain ⟨-, rfl⟩ := Prod.mk.inj h
    exact ⟨rfl, rfl⟩

/-- An access is answered by the device inside. -/
theorem inner_of_enter {answer : Except Fault α} (h : l.enter transfer outcome = (answer, later)) :
    outcome = (answer, later.inner) := by
  obtain ⟨_ | _, inner⟩ := outcome
  all_goals
    cases h
    rfl

/-- The ledger after an access continues the one before. -/
theorem since_of_enter {answer : Except Fault α} (h : l.enter transfer outcome = (answer, later)) :
    l.Since later := by
  cases answer with
  | error fault =>
      obtain ⟨hperformed, hfailed⟩ := enter_error h
      exact ⟨hperformed ▸ List.prefix_rfl, hfailed ▸ List.prefix_append _ _⟩
  | ok a =>
      obtain ⟨hperformed, hfailed⟩ := enter_ok h
      exact ⟨hperformed ▸ List.prefix_append _ _, hfailed ▸ List.prefix_rfl⟩

/-- After an access that failed one cannot say that nothing failed. -/
theorem not_unfailing_of_enter (h : l.enter transfer outcome = (.error fault, later)) :
    ¬ l.Unfailing later := by
  intro hsame
  have hlength := congrArg List.length ((enter_error h).2.symm.trans hsame)
  simp at hlength

end

end Ledger

/-! ## writes in order -/

/-- A device is given writes in order up to the first that it refuses.  It took the words
of those that were `written`; the first of those that are `left`, if there are any, it
refused. -/
inductive Attempts {β : Type} [Backend β] :
    β → List (Nat × UInt32) → List (Nat × UInt32) → Except Fault Unit → β → Prop where
  | done (device : β) : Attempts device [] [] (.ok ()) device
  | refused {device after : β} {a : Nat} {w : UInt32} {left : List (Nat × UInt32)} {fault : Fault}
      (h : Backend.write device a w = (.error fault, after)) :
      Attempts device [] ((a, w) :: left) (.error fault) after
  | took {device next after : β} {a : Nat} {w : UInt32} {written left : List (Nat × UInt32)}
      {outcome : Except Fault Unit} (h : Backend.write device a w = (.ok (), next))
      (hrest : Attempts next written left outcome after) :
      Attempts device ((a, w) :: written) left outcome after

namespace Attempts

variable {β : Type} [Backend β] {written left : List (Nat × UInt32)} {outcome : Except Fault Unit}

/-- When no write was refused, none is left. -/
theorem left_eq_nil {device after : β} (h : Attempts device written left (.ok ()) after) :
    left = [] := by
  generalize houtcome : (Except.ok () : Except Fault Unit) = outcome at h
  induction h with
  | done => rfl
  | refused _ => contradiction
  | took _ _ ih => exact ih houtcome

/-- The writes that the device took are entered as performed, and nothing else is. -/
theorem performed {l later : Ledger β} (h : Attempts l written left outcome later) :
    later.performed = l.performed ++ written.map fun write => .write write.1 write.2 := by
  induction h with
  | done => simp
  | refused h => simp [(Ledger.enter_error h).1]
  | took h _ ih => simp [ih, (Ledger.enter_ok h).1]

/-- When nothing failed, no write was refused. -/
theorem outcome_eq_ok {l later : Ledger β} (h : Attempts l written left outcome later)
    (hunfailing : l.Unfailing later) : outcome = .ok () := by
  induction h with
  | done => rfl
  | refused h => exact absurd hunfailing (Ledger.not_unfailing_of_enter h)
  | took h _ ih => exact ih (hunfailing.trans (Ledger.enter_ok h).2.symm)

end Attempts
end DeviceRegisters.Device
