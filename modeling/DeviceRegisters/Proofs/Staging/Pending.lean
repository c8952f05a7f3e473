import DeviceRegisters.Proofs.Device.Ledger
import DeviceRegisters.Proofs.Device.Words
import DeviceRegisters.Proofs.Staging.Access

/-!
# DeviceRegisters.Proofs.Staging.Pending

What becomes of a word that waits to be written.

As long as its register is not written again, and not read in live mode before it was
written out, the word is either pending still or has reached the device
(`Guarded`); a flush of everything leaves the second only (`wrote_of_pending`).  Reading
in live mode does matter: the device's word takes the place of the pending one
(`forgotten_by_live_read`).
-/

namespace DeviceRegisters.Staging

open Device (Backend Ledger Memory)

variable {β : Type} [Backend β] {s : Staging (Ledger β)} {start : Ledger β} {r : Nat} {v : UInt32}

/-! ## what accesses leave in the ledger -/

/-- After a read the ledger of the device continues the one before. -/
theorem since_readRegister (s : Staging (Ledger β)) (register : Nat) :
    s.device.Since (s.readRegister register).2.device := by
  cases hlive : s.live with
  | false =>
      obtain ⟨cache, hread, -⟩ := readRegister_cached hlive register
      rw [hread]
      exact .refl _
  | true =>
      rcases hread : Backend.read s.device register with ⟨fault | word, device⟩
      · rw [readRegister_error hlive hread]
        exact Ledger.since_of_enter hread
      · rw [readRegister_ok hlive hread]
        exact Ledger.since_of_enter hread

/-- So it does after a write. -/
theorem since_writeRegister (s : Staging (Ledger β)) (register : Nat) (word : UInt32) :
    s.device.Since (s.writeRegister register word).2.device := by
  cases hlive : s.live with
  | false =>
      rw [writeRegister_cached hlive]
      exact .refl _
  | true =>
      rcases hwrite : Backend.write s.device register word with ⟨fault | ⟨⟩, device⟩
      · rw [writeRegister_error hlive hwrite]
        exact Ledger.since_of_enter hwrite
      · rw [writeRegister_ok hlive hwrite]
        exact Ledger.since_of_enter hwrite

/-- So it does after flushes, changes of the mode and log lines. -/
theorem settled_since (start : Ledger β) : Settled fun s => start.Since s.device where
  writeBack s register _ hs := hs.trans (since_writeRegister s register _)
  setLive _ _ hs := hs
  note _ _ hs := hs

/-! ## pending or written -/

/-- Unless an access failed, the word is pending for the register or was written to
it. -/
structure Guarded (start : Ledger β) (r : Nat) (v : UInt32) (s : Staging (Ledger β)) : Prop where
  since : start.Since s.device
  safe : start.Unfailing s.device → (r ∈ s.dirty ∧ s.cached r = some v) ∨ start.Wrote s.device r v

omit [Backend β] in
/-- A step keeps the word guarded if it does so while the word is pending. -/
theorem Guarded.step {s' : Staging (Ledger β)} (hs : Guarded start r v s)
    (hsince : s.device.Since s'.device)
    (hpending : s.device.Unfailing s'.device → r ∈ s.dirty → s.cached r = some v →
      (r ∈ s'.dirty ∧ s'.cached r = some v) ∨ s.device.Wrote s'.device r v) :
    Guarded start r v s' where
  since := hs.since.trans hsince
  safe hunfailing := by
    obtain ⟨hbefore, hafter⟩ := hunfailing.of_since hs.since hsince
    rcases hs.safe hbefore with ⟨hdirty, hcached⟩ | hwrote
    · rcases hpending hafter hdirty hcached with hpending | hwrote
      · exact .inl hpending
      · exact .inr (hwrote.since hs.since)
    · exact .inr (hwrote.of_since hsince)

/-- Reading another register keeps the word guarded, and in cached mode reading any. -/
theorem Guarded.readRegister (hs : Guarded start r v s) {register : Nat}
    (hother : s.live = true → r ≠ register) : Guarded start r v (s.readRegister register).2 := by
  refine hs.step (since_readRegister s register) fun hunfailing hdirty hcached => .inl ?_
  cases hlive : s.live with
  | false =>
      obtain ⟨cache, hread, hcache⟩ := readRegister_cached hlive register
      rw [hread]
      refine ⟨hdirty, (hcache r).trans ?_⟩
      split
      · next hregister =>
        rw [← hregister, WordTable.getOrZero_eq hcached]
      · exact hcached
  | true =>
      have hne := hother hlive
      rcases hread : Backend.read s.device register with ⟨fault | word, device⟩
      · rw [readRegister_error hlive hread] at hunfailing
        exact absurd hunfailing (Ledger.not_unfailing_of_enter hread)
      · rw [readRegister_ok hlive hread]
        refine ⟨AddressSet.mem_erase.mpr ⟨hdirty, hne⟩, ?_⟩
        rw [cached, WordTable.get?_insert, if_neg hne]
        exact hcached

/-- Writing another register keeps the word guarded. -/
theorem Guarded.writeRegister (hs : Guarded start r v s) {register : Nat} (hne : r ≠ register)
    (word : UInt32) : Guarded start r v (s.writeRegister register word).2 := by
  refine hs.step (since_writeRegister s register word) fun hunfailing hdirty hcached => .inl ?_
  have hknown : (s.cache.insert register word).get? r = some v := by
    rw [WordTable.get?_insert, if_neg hne]
    exact hcached
  cases hlive : s.live with
  | false =>
      rw [writeRegister_cached hlive]
      exact ⟨AddressSet.mem_insert.mpr (.inr hdirty), hknown⟩
  | true =>
      rcases hwrite : Backend.write s.device register word with ⟨fault | ⟨⟩, device⟩
      · rw [writeRegister_error hlive hwrite]
        exact ⟨hdirty, hknown⟩
      · rw [writeRegister_ok hlive hwrite]
        exact ⟨AddressSet.mem_erase.mpr ⟨hdirty, hne⟩, hknown⟩

/-- Writing a pending word out puts it on the device. -/
theorem Guarded.writeBack (hs : Guarded start r v s) (hlive : s.live = true) (register : Nat) :
    Guarded start r v (s.writeRegister register (s.cache.getOrZero register)).2 := by
  by_cases hregister : r = register
  · subst hregister
    refine hs.step (since_writeRegister s r _) fun hunfailing _ hcached => .inr ?_
    rw [WordTable.getOrZero_eq hcached] at hunfailing ⊢
    rcases hwrite : Backend.write s.device r v with ⟨fault | ⟨⟩, device⟩
    · rw [writeRegister_error hlive hwrite] at hunfailing
      exact absurd hunfailing (Ledger.not_unfailing_of_enter hwrite)
    · rw [writeRegister_ok hlive hwrite]
      exact ⟨[.write r v], (Ledger.enter_ok hwrite).1, List.mem_singleton_self _⟩
  · exact hs.writeRegister hregister _

/-- Flushes, changes of the mode and log lines do not lose a pending word. -/
theorem settled_guarded : Settled (Guarded start r v) where
  writeBack _ register hlive hs := hs.writeBack hlive register
  setLive _ _ hs := ⟨hs.since, hs.safe⟩
  note _ _ hs := ⟨hs.since, hs.safe⟩

/-- Nor do accesses that do not write its register, and do not read it in live mode. -/
theorem keeps_guarded {live : Bool} {reads writes : List Nat} (hreads : live = true → r ∉ reads)
    (hwrites : r ∉ writes) : Keeps (Guarded start r v) live reads writes where
  read _ _ hmode hmem hs :=
    hs.readRegister fun hlive heq => hreads (hmode.symm.trans hlive) (heq ▸ hmem)
  write _ _ word _ hmem hs := hs.writeRegister (fun heq => hwrites (heq ▸ hmem)) word

/-- Unless an access failed, the word was written to the register. -/
def Written (start : Ledger β) (r : Nat) (v : UInt32) (s : Staging (Ledger β)) : Prop :=
  start.Since s.device ∧ (start.Unfailing s.device → start.Wrote s.device r v)

/-- A word that was written stays so, whatever is accessed. -/
theorem keeps_written (live : Bool) (reads writes : List Nat) :
    Keeps (Written start r v) live reads writes where
  read s register _ _ hs := by
    have hsince := since_readRegister s register
    exact ⟨hs.1.trans hsince, fun h => (hs.2 (h.of_since hs.1 hsince).1).of_since hsince⟩
  write s register word _ _ hs := by
    have hsince := since_writeRegister s register word
    exact ⟨hs.1.trans hsince, fun h => (hs.2 (h.of_since hs.1 hsince).1).of_since hsince⟩

/-- A word that was written stays written whatever is flushed. -/
theorem settled_written : Settled (Written start r v) where
  writeBack s register hlive hs := (keeps_written true [] [register]).write s register _ hlive
    List.mem_cons_self hs
  setLive _ _ hs := hs
  note _ _ hs := hs

/-! ## runs -/

/-- An operation spares a register: it does not write it, and does not read it in live mode
while it is pending. -/
def Spares (r : Nat) (s : Staging β) (operation : Operation) : Prop :=
  r ∉ s.writeTargets operation ∧ (s.live = true → r ∈ s.dirty → r ∉ s.readTargets operation)

instance (r : Nat) (s : Staging β) (operation : Operation) : Decidable (s.Spares r operation) :=
  inferInstanceAs (Decidable (_ ∧ _))

/-- So do the operations of a run. -/
def SparesEach (r : Nat) : Staging β → List Operation → Prop
  | _, [] => True
  | s, operation :: operations => s.Spares r operation ∧ SparesEach r (s.perform operation).2 operations

instance decidableSparesEach (r : Nat) :
    (s : Staging β) → (operations : List Operation) → Decidable (s.SparesEach r operations)
  | _, [] => inferInstanceAs (Decidable True)
  | s, operation :: operations =>
    have := decidableSparesEach r (s.perform operation).2 operations
    inferInstanceAs (Decidable (_ ∧ _))

/-- An operation that spares the register does not lose its word. -/
theorem Guarded.perform {operation : Operation} (hs : Guarded start r v s)
    (hspares : s.Spares r operation) : Guarded start r v (s.perform operation).2 := by
  by_cases hread : s.live = true → r ∉ s.readTargets operation
  · exact (keeps_guarded hread hspares.1).perform settled_guarded hs
  · -- the register is read in live mode, so that it is not pending any more
    have hclean : r ∉ s.dirty := fun hdirty => hread fun hlive => hspares.2 hlive hdirty
    have hwritten : Written start r v s := by
      refine ⟨hs.since, fun hunfailing => ?_⟩
      exact (hs.safe hunfailing).resolve_left fun hpending => hclean hpending.1
    have hafter : Written start r v (s.perform operation).2 :=
      (keeps_written s.live _ _).perform settled_written hwritten
    exact ⟨hafter.1, fun hunfailing => .inr (hafter.2 hunfailing)⟩

/-- Nor does a run of such operations. -/
theorem Guarded.performEach {operations : List Operation} (hs : Guarded start r v s)
    (hspares : s.SparesEach r operations) : Guarded start r v (s.performEach operations).2 := by
  induction operations generalizing s with
  | nil => exact hs
  | cons operation operations ih => exact ih (hs.perform hspares.1) hspares.2

/-- Registers that were written out without a failure are not pending. -/
theorem not_mem_dirty_of_writeOut {registers : List Nat} (hlive : s.live = true)
    (hunfailing : s.device.Unfailing (s.writeOut registers).2.device) {a : Nat}
    (ha : a ∈ (s.writeOut registers).2.dirty) : a ∈ s.dirty ∧ a ∉ registers := by
  induction registers generalizing s with
  | nil => exact ⟨ha, List.not_mem_nil⟩
  | cons register registers ih =>
      rw [writeOut] at hunfailing ha
      rcases hwrite : Backend.write s.device register (s.cache.getOrZero register) with
        ⟨fault | ⟨⟩, device⟩
      · rw [writeRegister_error hlive hwrite] at hunfailing
        exact absurd hunfailing (Ledger.not_unfailing_of_enter hwrite)
      · rw [writeRegister_ok hlive hwrite] at hunfailing ha
        have hfirst : s.device.Since device := Ledger.since_of_enter hwrite
        obtain ⟨-, hrest⟩ := hunfailing.of_since hfirst
          ((settled_since device).writeOut hlive (Ledger.Since.refl device))
        obtain ⟨hmem, hnot⟩ := ih (s := { s with device, cache := _, dirty := _ }) hlive hrest ha
        obtain ⟨hdirty, hne⟩ := AddressSet.mem_erase.mp hmem
        exact ⟨hdirty, by simp [hne, hnot]⟩

/-- A pending word is written, and is no longer pending, once everything is flushed: unless
an access fails, or an operation before writes its register or reads it in live mode while
it is pending. -/
theorem wrote_of_pending {operations : List Operation} (hdirty : r ∈ s.dirty)
    (hcached : s.cached r = some v) (hr : r ≤ Address.last) (hspares : s.SparesEach r operations)
    (hlive : (s.performEach operations).2.live = true)
    (hunfailing : s.device.Unfailing (s.performEach operations).2.flushAll.2.device) :
    s.device.Wrote (s.performEach operations).2.flushAll.2.device r v ∧
      r ∉ (s.performEach operations).2.flushAll.2.dirty := by
  have hstart : Guarded s.device r v s := ⟨.refl _, fun _ => .inl ⟨hdirty, hcached⟩⟩
  have hrun : Guarded s.device r v (s.performEach operations).2 := hstart.performEach hspares
  generalize (s.performEach operations).2 = t at hlive hunfailing hrun ⊢
  have hflush : t.flushAll = t.writeOut (t.dirty.between 0 Address.last) := by
    rw [flushAll, flush, if_pos hlive]
  have hafter : Guarded s.device r v t.flushAll.2 := settled_guarded.flush 0 Address.last hrun
  have hclean : r ∉ t.flushAll.2.dirty := by
    have hsince : t.device.Since t.flushAll.2.device :=
      (settled_since t.device).flush 0 Address.last (Ledger.Since.refl t.device)
    obtain ⟨-, hlast⟩ := hunfailing.of_since hrun.since hsince
    rw [hflush] at hlast ⊢
    intro hmem
    obtain ⟨hpending, hnot⟩ := not_mem_dirty_of_writeOut hlive hlast hmem
    exact hnot (AddressSet.mem_between.mpr ⟨hpending, Nat.zero_le r, hr⟩)
  exact ⟨(hafter.safe hunfailing).resolve_left fun hpending => hclean hpending.1, hclean⟩

/-- The word 5 waits in register 1 of a memory. -/
def pendingFive : Staging (Ledger Memory) :=
  reached (Ledger.ofDevice (Memory.zeroed "dev" 16)) [⟨"A", .field [⟨1, 0, 8, 5, false⟩], 1⟩] []

/-- The register may be read while live mode is off, and other registers at any time. -/
theorem wrote_pendingFive :
    let operations : List Operation :=
      [.beginBatch, .readRegister 1, .writeRegister 2 7, .commit, .readRegister 1]
    pendingFive.device.Wrote (pendingFive.performEach operations).2.flushAll.2.device 1 5 ∧
      1 ∉ (pendingFive.performEach operations).2.flushAll.2.dirty := by
  intro operations
  have hspares : pendingFive.SparesEach 1 operations := by decide
  have hunfailing : (pendingFive.performEach operations).2.flushAll.2.device.failed = [] := by decide
  exact wrote_of_pending (by decide) (by decide) (by decide) hspares (by decide) hunfailing

/-- A pending word that nothing writes is lost when its register is read in live mode: no
access fails, yet the word is neither written nor pending afterwards. -/
theorem forgotten_by_live_read :
    let operations : List Operation := [.setLive true, .readRegister 1]
    let after := (pendingFive.performEach operations).2.flushAll.2
    1 ∈ pendingFive.dirty ∧ pendingFive.cached 1 = some 5 ∧
      (pendingFive.performEach operations).2.live = true ∧
      pendingFive.device.Unfailing after.device ∧
      ¬ pendingFive.device.Wrote after.device 1 5 ∧ 1 ∉ after.dirty := by
  intro operations after
  have hfailed : after.device.failed = pendingFive.device.failed := by decide
  have hperformed : after.device.performed = pendingFive.device.performed ++ [.read 1] := by decide
  have hunwritten : ¬ pendingFive.device.Wrote after.device 1 5 := by
    rintro ⟨transfers, happended, hmem⟩
    rw [hperformed, List.append_cancel_left_eq] at happended
    simp [← happended] at hmem
  exact ⟨by decide, by decide, by decide, hfailed, hunwritten, by decide⟩

end DeviceRegisters.Staging
