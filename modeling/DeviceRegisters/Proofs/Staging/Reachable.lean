import DeviceRegisters.Proofs.Staging.Fields

/-!
# DeviceRegisters.Proofs.Staging.Reachable

The states of a staging area.

An area `Leads` to those that its owner can take it to: by operations, in any order and
with any outcome, and by handing out its device.  A run leads on (`Leads.performEach`),
and so does a batch if its body does (`Leads.batch`).

`Reachable` are the areas that a field list leads to.  Every register that is pending there
is an address, and its word is known (`Reachable.tracked`).
-/

namespace DeviceRegisters.Staging

open Device (Backend)

variable {β : Type} [Backend β] {s t u : Staging β}

/-- A register that an operation is given is an address. -/
def Operation.Addressed : Operation → Prop
  | .writeRegister register _ | .readRegister register => register ≤ Address.last
  | _ => True

instance : DecidablePred Operation.Addressed
  | .writeRegister _ _ | .readRegister _ => inferInstanceAs (Decidable (_ ≤ _))
  | .write _ _ | .read _ | .setLive _ | .flush _ _ | .beginBatch | .commit | .drop => .isTrue trivial

/-- One area leads to another by operations.  In between anything may be done to the
device. -/
inductive Leads : Staging β → Staging β → Prop where
  | refl (s : Staging β) : Leads s s
  | perform {s t : Staging β} {operation : Operation} (h : Leads s t)
      (haddressed : operation.Addressed) : Leads s (t.perform operation).2
  | device {s t : Staging β} (h : Leads s t) (device : β) : Leads s { t with device }

/-- The areas that a field list leads to, if its registers are addresses. -/
def Reachable (s : Staging β) : Prop :=
  ∃ device items start, (∀ item ∈ items, ∀ r ∈ item.registers, r ≤ Address.last) ∧
    (ofDevice device).defineAll items = (.ok (), start) ∧ Leads start s

/-! ## runs and batches -/

namespace Leads

/-- Leading on twice is leading on. -/
theorem trans (h : Leads s t) (h' : Leads t u) : Leads s u := by
  induction h' with
  | refl => exact h
  | perform _ haddressed ih => exact ih.perform haddressed
  | device _ device ih => exact ih.device device

/-- Operations on addresses lead on. -/
theorem performEach {operations : List Operation} (h : Leads s t)
    (haddressed : ∀ operation ∈ operations, operation.Addressed) :
    Leads s (t.performEach operations).2 := by
  induction operations generalizing t with
  | nil => exact h
  | cons operation operations ih =>
      obtain ⟨hfirst, hrest⟩ := List.forall_mem_cons.mp haddressed
      exact ih (h.perform hfirst) hrest

/-- So they do up to the first failure. -/
theorem performAll {operations : List Operation} (h : Leads s t)
    (haddressed : ∀ operation ∈ operations, operation.Addressed) :
    Leads s (t.performAll operations).2 := by
  obtain ⟨performed, hinitial, hrun⟩ := performAll_eq_performEach t operations
  rw [hrun]
  exact h.performEach fun operation hmem => haddressed operation (hinitial.subset hmem)

theorem setLive (h : Leads s t) (live : Bool) : Leads s (t.setLive live) :=
  h.perform (show (Operation.setLive live).Addressed from trivial)

theorem beginBatch (h : Leads s t) : Leads s t.beginBatch := h.setLive false

theorem commit (h : Leads s t) : Leads s t.commit.2 :=
  h.perform (show Operation.commit.Addressed from trivial)

theorem drop (h : Leads s t) : Leads s t.drop :=
  h.perform (show Operation.drop.Addressed from trivial)

/-- However a batch ends, it leads on if its body does. -/
theorem batch {α : Type} {body : Staging β → Except Error α × Staging β}
    (hbody : Leads s.beginBatch (body s.beginBatch).2) : Leads s (s.batch body).2 := by
  have h : Leads s (body s.beginBatch).2 := (refl s).beginBatch.trans hbody
  rcases hrun : body s.beginBatch with ⟨e | value, t⟩
  · rw [hrun] at h
    simp only [Staging.batch, hrun, close]
    exact h.drop
  · rw [hrun] at h
    have hcommit := h.commit
    simp only [Staging.batch, hrun, close]
    split
    · next heq => rwa [heq] at hcommit
    · next heq => rwa [heq] at hcommit

/-- What an area leads to has its fields. -/
theorem fields_eq (h : Leads s t) : t.fields = s.fields := by
  induction h with
  | refl => rfl
  | perform _ _ ih => exact (fields_perform _ _).trans ih
  | device _ _ ih => exact ih

end Leads

/-- A reachable area leads to reachable ones. -/
theorem Reachable.leads (hs : Reachable s) (h : Leads s t) : Reachable t := by
  obtain ⟨device, items, start, hitems, hdefine, hstart⟩ := hs
  exact ⟨device, items, start, hitems, hdefine, hstart.trans h⟩

/-- A field list and operations on addresses make a reachable area. -/
theorem reachable_reached {device : β} {items : List Packing.Item} {operations : List Operation}
    (hitems : ∀ item ∈ items, ∀ r ∈ item.registers, r ≤ Address.last)
    (hdefine : ((ofDevice device).defineAll items).1 = .ok ())
    (haddressed : ∀ operation ∈ operations, operation.Addressed) :
    Reachable (reached device items operations) :=
  ⟨device, items, _, hitems, Prod.ext hdefine rfl, (Leads.refl _).performEach haddressed⟩

/-! ## what is pending -/

/-- Every pending register is an address, and its word is known. -/
structure Tracked (s : Staging β) : Prop where
  known : ∀ r ∈ s.dirty, ∃ v, s.cached r = some v
  address : ∀ r ∈ s.dirty, r ≤ Address.last

omit [Backend β] in
/-- A register that becomes known stays tracked, and so do the others. -/
theorem Tracked.insert (hs : Tracked s) {register : Nat} {word : UInt32} {device : β}
    {dirty : AddressSet} (hdirty : ∀ r ∈ dirty, r ∈ s.dirty ∨ r = register ∧ r ≤ Address.last) :
    Tracked { s with device, cache := s.cache.insert register word, dirty } where
  known r hr := by
    simp only [cached, WordTable.get?_insert]
    split
    · exact ⟨word, rfl⟩
    · next hne => exact hs.known r ((hdirty r hr).resolve_right fun h => hne h.1)
  address r hr := by
    rcases hdirty r hr with hmem | ⟨-, hle⟩
    · exact hs.address r hmem
    · exact hle

/-- A read leaves every pending register an address with a known word. -/
theorem Tracked.readRegister (hs : Tracked s) (register : Nat) :
    Tracked (s.readRegister register).2 := by
  cases hlive : s.live with
  | false =>
      obtain ⟨cache, hread, hcache⟩ := readRegister_cached hlive register
      rw [hread]
      refine ⟨fun r hr => ?_, hs.address⟩
      simp only [cached, hcache]
      split
      · exact ⟨_, rfl⟩
      · exact hs.known r hr
  | true =>
      rcases hread : Backend.read s.device register with ⟨fault | word, device⟩
      · rw [readRegister_error hlive hread]
        exact ⟨hs.known, hs.address⟩
      · rw [readRegister_ok hlive hread]
        exact hs.insert fun r hr => .inl (AddressSet.mem_erase.mp hr).1

/-- Only in cached mode does a write make its register pending. -/
theorem Tracked.writeRegister (hs : Tracked s) {register : Nat}
    (haddress : s.live = false → register ≤ Address.last) (word : UInt32) :
    Tracked (s.writeRegister register word).2 := by
  cases hlive : s.live with
  | false =>
      rw [writeRegister_cached hlive]
      refine hs.insert fun r hr => ?_
      rcases AddressSet.mem_insert.mp hr with rfl | hmem
      · exact .inr ⟨rfl, haddress hlive⟩
      · exact .inl hmem
  | true =>
      rcases hwrite : Backend.write s.device register word with ⟨fault | ⟨⟩, device⟩
      · rw [writeRegister_error hlive hwrite]
        exact hs.insert fun r hr => .inl hr
      · rw [writeRegister_ok hlive hwrite]
        exact hs.insert fun r hr => .inl (AddressSet.mem_erase.mp hr).1

/-- So do accesses that write addresses. -/
theorem keeps_tracked {live : Bool} {reads writes : List Nat} (h : ∀ r ∈ writes, r ≤ Address.last) :
    Keeps (Tracked (β := β)) live reads writes where
  read _ register _ _ hs := hs.readRegister register
  write _ register word _ hmem hs := hs.writeRegister (fun _ => h register hmem) word

/-- So do flushes, changes of the mode and log lines. -/
theorem settled_tracked : Settled (Tracked (β := β)) where
  writeBack s _ hlive hs := hs.writeRegister (fun hcached => by simp [hlive] at hcached) _
  setLive _ _ hs := ⟨hs.known, hs.address⟩
  note _ _ hs := ⟨hs.known, hs.address⟩

omit [Backend β] in
/-- The registers that an operation gives a word to are addresses, if those of the fields
are. -/
theorem le_last_of_mem_writeTargets {operation : Operation} (haddressed : operation.Addressed)
    (hfields : FieldsIn (· ≤ Address.last) s) :
    ∀ r ∈ s.writeTargets operation, r ≤ Address.last := by
  intro r hr
  cases operation with
  | write name value =>
      simp only [writeTargets] at hr
      split at hr
      · next field hfield =>
        split at hr
        · exact hfields name field hfield r hr
        · exact absurd hr List.not_mem_nil
      · exact absurd hr List.not_mem_nil
  | writeRegister register word => rwa [List.mem_singleton.mp hr]
  | _ => exact absurd hr List.not_mem_nil

/-- So does all that can happen to an area with fields in addresses. -/
theorem Leads.tracked (h : Leads s t) (hfields : FieldsIn (· ≤ Address.last) s) (hs : Tracked s) :
    Tracked t := by
  induction h with
  | refl => exact hs
  | perform h haddressed ih =>
      have htargets := le_last_of_mem_writeTargets haddressed (hfields.of_fields_eq h.fields_eq)
      exact (keeps_tracked htargets).perform settled_tracked ih
  | device _ _ ih => exact ⟨ih.known, ih.address⟩

/-- In every area that a field list leads to, what is pending is tracked. -/
theorem Reachable.tracked (hs : Reachable s) : Tracked s := by
  obtain ⟨device, items, start, hitems, hdefine, hstart⟩ := hs
  have hnone : Tracked (ofDevice device) :=
    ⟨fun r hr => absurd hr (AddressSet.not_mem_empty r), fun r hr => absurd hr (AddressSet.not_mem_empty r)⟩
  have htracked : Tracked ((ofDevice device).defineAll items).2 :=
    (Keeps.defineAll (fun _ _ _ h => ⟨h.known, h.address⟩)
      (fun item hitem => keeps_tracked (hitems item hitem)) rfl hnone).1
  have hfields : FieldsIn (· ≤ Address.last) ((ofDevice device).defineAll items).2 :=
    FieldsIn.defineAll hitems fun name field hfield => by simp [ofDevice, field?] at hfield
  rw [hdefine] at htracked hfields
  exact hstart.tracked hfields htracked

end DeviceRegisters.Staging
