import DeviceRegisters.Proofs.Staging.Flushing

/-!
# DeviceRegisters.Proofs.Staging.Cached

Runs of accesses in cached mode.

They leave the device alone (`untouched_performEach`), and make exactly those registers
pending that are given a word: those of raw writes, and those that hold a field to which a
write was accepted (`mem_dirty_performEach`).  A flush of everything then writes each
pending register once, in ascending order (`staged_then_written`).
-/

namespace DeviceRegisters.Staging

open Device (Backend Ledger Memory)

variable {β : Type} [Backend β] {s : Staging β} {operation : Operation}
  {operations : List Operation}

/-! ## the device -/

/-- No access in cached mode reaches the device. -/
theorem keeps_untouched (start : Ledger β) (reads writes : List Nat) :
    Keeps (fun s : Staging (Ledger β) => start.Untouched s.device) false reads writes where
  read s register hcached _ hs := by
    obtain ⟨cache, hread, -⟩ := readRegister_cached hcached register
    rw [hread]
    exact hs
  write s register word hcached _ hs := by
    rw [writeRegister_cached hcached]
    exact hs

/-- An operation that stays in cached mode: an access, or the beginning of a batch. -/
def Operation.Stays (operation : Operation) : Prop :=
  operation.IsAccess ∨ operation = .beginBatch

/-- Such an operation leaves the device alone. -/
theorem stays_perform {s : Staging (Ledger β)} (hcached : s.live = false) (h : operation.Stays) :
    s.device.Untouched (s.perform operation).2.device ∧ (s.perform operation).2.live = false := by
  rcases h with haccess | rfl
  · have huntouched := keeps_untouched s.device (s.readTargets operation) (s.writeTargets operation)
    have hmode := Keeps.mode (β := Ledger β) s.live (s.readTargets operation)
      (s.writeTargets operation)
    rw [← hcached] at huntouched
    exact ⟨huntouched.access haccess (.refl _), (hmode.access haccess rfl).trans hcached⟩
  · exact ⟨.refl _, rfl⟩

/-- In cached mode a run that stays there leaves the device alone. -/
theorem untouched_performEach {s : Staging (Ledger β)} (hcached : s.live = false)
    (hstays : ∀ operation ∈ operations, operation.Stays) :
    s.device.Untouched (s.performEach operations).2.device := by
  induction operations generalizing s with
  | nil => exact .refl _
  | cons operation operations ih =>
      obtain ⟨hfirst, hrest⟩ := List.forall_mem_cons.mp hstays
      obtain ⟨huntouched, hmode⟩ := stays_perform hcached hfirst
      exact huntouched.trans (ih hmode hrest)

/-! ## one access -/

/-- A register that an operation makes pending in cached mode, given the answer: those
that hold a field make so a write that is accepted, and the register itself a raw write. -/
inductive Stages (fields : List (String × Packing.Assembly)) :
    Operation → Except Error Answer → Nat → Prop where
  | field {name : String} {value : UInt64} {answer : Answer} {field : Packing.Assembly} {r : Nat}
      (hfield : fields.lookup name = some field) (hr : r ∈ field.registers) :
      Stages fields (.write name value) (.ok answer) r
  | register {r : Nat} {word : UInt32} {answer : Except Error Answer} :
      Stages fields (.writeRegister r word) answer r

section Stages

variable {fields : List (String × Packing.Assembly)} {answer : Except Error Answer} {r : Nat}

/-- A write to a field that is accepted makes the registers of the field pending. -/
theorem stages_write_ok {name : String} {value : UInt64} {given : Answer}
    {field : Packing.Assembly} (hfield : fields.lookup name = some field) :
    Stages fields (.write name value) (.ok given) r ↔ r ∈ field.registers := by
  constructor
  · intro h
    cases h with
    | field hfound hr => rwa [Option.some.inj (hfield.symm.trans hfound)]
  · exact .field hfield

/-- A write to a register makes this register pending. -/
theorem stages_writeRegister {register : Nat} {word : UInt32} :
    Stages fields (.writeRegister register word) answer r ↔ r = register := by
  constructor
  · intro h
    cases h
    rfl
  · intro h
    rw [h]
    exact .register

/-- A write that is refused makes nothing pending. -/
theorem not_stages_write_error {name : String} {value : UInt64} {e : Error} :
    ¬ Stages fields (.write name value) (.error e) r := by
  intro h
  cases h

/-- Reading a field makes nothing pending. -/
theorem not_stages_read {name : String} : ¬ Stages fields (.read name) answer r := by
  intro h
  cases h

/-- Nor does reading a register. -/
theorem not_stages_readRegister {register : Nat} :
    ¬ Stages fields (.readRegister register) answer r := by
  intro h
  cases h

end Stages

/-- Reading in cached mode makes nothing pending. -/
theorem keeps_dirty (dirty : AddressSet) (reads : List Nat) :
    Keeps (fun s : Staging β => s.dirty = dirty) false reads [] where
  read s register hcached _ hs := by
    obtain ⟨cache, hread, -⟩ := readRegister_cached hcached register
    rw [hread]
    exact hs
  write _ _ _ _ hmem := absurd hmem List.not_mem_nil

/-- Writing parts in cached mode succeeds, and makes their registers pending and known. -/
theorem writeParts_cached (hcached : s.live = false) (value : UInt64) (parts : List Packing.Part) :
    ∃ after, s.writeParts value parts = (.ok (), after) ∧
      (∀ r, r ∈ after.dirty ↔ r ∈ s.dirty ∨ r ∈ parts.map (·.register)) ∧
      ∀ r, (after.cached r).isSome ↔ (s.cached r).isSome ∨ r ∈ parts.map (·.register) := by
  induction parts generalizing s value with
  | nil => exact ⟨s, rfl, by simp, by simp⟩
  | cons part parts ih =>
      obtain ⟨word, next, hread, hmode, hsame, hknown⟩ : ∃ word next,
          s.readRegister part.register = (.ok word, next) ∧ next.live = false ∧
            next.dirty = s.dirty ∧
            ∀ r, (next.cached r).isSome ↔ r = part.register ∨ (s.cached r).isSome := by
        obtain ⟨cache, hread, hcache⟩ := readRegister_cached hcached part.register
        refine ⟨_, _, hread, hcached, rfl, fun r => ?_⟩
        by_cases hr : r = part.register <;> simp [cached, hcache, hr]
      obtain ⟨last, hwrite, hmode, hmem, hlast⟩ : ∃ last,
          next.writeRegister part.register (Word.insert word part.offset part.width value) =
            (.ok (), last) ∧ last.live = false ∧
            (∀ r, r ∈ last.dirty ↔ r = part.register ∨ r ∈ next.dirty) ∧
            ∀ r, (last.cached r).isSome ↔ r = part.register ∨ (next.cached r).isSome := by
        refine ⟨_, writeRegister_cached hmode _ _, hmode, fun r => AddressSet.mem_insert, fun r => ?_⟩
        by_cases hr : r = part.register <;> simp [cached, hr]
      obtain ⟨after, hrest, hdirty, hcache⟩ := ih hmode (Word.shiftDown value part.width)
      refine ⟨after, by simp only [writeParts, hread, hwrite, hrest], fun r => ?_, fun r => ?_⟩
      · rw [hdirty, hmem, hsame, List.map_cons, List.mem_cons]
        tauto
      · rw [hcache, hlast, hknown, List.map_cons, List.mem_cons]
        tauto

/-- Writing a field in cached mode is refused and changes nothing, or makes the registers
pending that hold it. -/
theorem write_cached (hcached : s.live = false) (name : String) (value : UInt64) :
    (∃ e, s.write name value = (.error e, s)) ∨
      ∃ field after, s.field? name = some field ∧ s.write name value = (.ok (), after) ∧
        ∀ r, r ∈ after.dirty ↔ r ∈ s.dirty ∨ r ∈ field.registers := by
  rw [write]
  cases hfield : s.field? name with
  | none => exact .inl ⟨_, rfl⟩
  | some field =>
      simp only
      split
      · exact .inl ⟨_, rfl⟩
      · split
        · obtain ⟨after, hwrite, hdirty, -⟩ := writeParts_cached hcached value field.parts
          exact .inr ⟨field, after, rfl, hwrite, hdirty⟩
        · exact .inl ⟨_, rfl⟩

/-- What an access in cached mode leaves pending. -/
theorem mem_dirty_perform (hcached : s.live = false) (haccess : operation.IsAccess) (r : Nat) :
    r ∈ (s.perform operation).2.dirty ↔
      r ∈ s.dirty ∨ Stages s.fields operation (s.perform operation).1 r := by
  cases operation with
  | write name value =>
      rcases write_cached hcached name value with ⟨e, hwrite⟩ | ⟨field, after, hfield, hwrite, hdirty⟩
      · simp only [perform, hwrite, Except.map]
        exact (or_iff_left not_stages_write_error).symm
      · simp only [perform, hwrite, Except.map]
        exact (hdirty r).trans (or_congr_right (stages_write_ok hfield).symm)
  | read name =>
      have hsame : (s.perform (.read name)).2.dirty = s.dirty :=
        (hcached ▸ keeps_dirty s.dirty _).readField rfl
      rw [hsame]
      exact (or_iff_left not_stages_read).symm
  | writeRegister register word =>
      simp only [perform, writeRegister_cached hcached]
      rw [stages_writeRegister, AddressSet.mem_insert, or_comm]
  | readRegister register =>
      have hsame : (s.perform (.readRegister register)).2.dirty = s.dirty :=
        (keeps_dirty s.dirty [register]).read s register hcached List.mem_cons_self rfl
      rw [hsame]
      exact (or_iff_left not_stages_readRegister).symm
  | setLive live => exact haccess.elim
  | flush first last => exact haccess.elim
  | beginBatch => exact haccess.elim
  | commit => exact haccess.elim
  | drop => exact haccess.elim

/-! ## runs -/

/-- What a run of accesses in cached mode leaves pending. -/
theorem mem_dirty_performEach (hcached : s.live = false)
    (haccess : ∀ operation ∈ operations, operation.IsAccess) (r : Nat) :
    r ∈ (s.performEach operations).2.dirty ↔ r ∈ s.dirty ∨
      ∃ step ∈ operations.zip (s.performEach operations).1, Stages s.fields step.1 step.2 r := by
  induction operations generalizing s with
  | nil => simp [performEach]
  | cons operation operations ih =>
      obtain ⟨hfirst, hrest⟩ := List.forall_mem_cons.mp haccess
      have hmode : (s.perform operation).2.live = false :=
        ((Keeps.mode s.live _ _).access hfirst rfl).trans hcached
      have hih := ih hmode hrest
      rw [fields_perform] at hih
      simp only [performEach, List.zip_cons_cons, List.exists_mem_cons_iff]
      rw [hih, mem_dirty_perform hcached hfirst, or_assoc]

/-- Accesses in cached mode, accepted or not, leave the device alone.  What is pending
afterwards is what was before, the registers that hold a field to which a write was accepted,
and those of raw writes.  Unless the device refuses a write, a flush of everything then writes
each of them once, in ascending order and with its last known value, and reads nothing; it
leaves nothing pending, and everything known as it was. -/
theorem staged_then_written {s : Staging (Ledger β)} (hs : Reachable s)
    (haccess : ∀ operation ∈ operations, operation.IsAccess)
    (haddressed : ∀ operation ∈ operations, operation.Addressed) :
    let run := (s.setLive false).performEach operations
    let flushed := (run.2.setLive true).flushAll
    s.device.Untouched run.2.device ∧
      (∀ r, r ∈ run.2.dirty ↔ r ∈ s.dirty ∨
        ∃ step ∈ operations.zip run.1, Stages s.fields step.1 step.2 r) ∧
      (∀ r ∈ run.2.dirty, ∃ v, run.2.cached r = some v ∧ run.2.due r = .write r v) ∧
      (run.2.device.Unfailing flushed.2.device →
        flushed.1 = .ok () ∧
        flushed.2.device.performed = run.2.device.performed ++ run.2.dirty.addresses.map run.2.due ∧
        flushed.2.dirty = .empty ∧ ∀ r, flushed.2.cached r = run.2.cached r) := by
  intro run flushed
  have hleads : Leads s run.2 := ((Leads.refl s).setLive false).performEach haddressed
  have htracked : Tracked run.2 := (hs.leads hleads).tracked
  refine ⟨?_, ?_, fun r hr => ?_, ?_⟩
  · exact untouched_performEach rfl fun operation hmem => .inl (haccess operation hmem)
  · exact mem_dirty_performEach rfl haccess
  · obtain ⟨v, hv⟩ := htracked.known r hr
    exact ⟨v, hv, due_eq hv⟩
  · exact commit_of_unfailing htracked

/-- A field across two registers of a memory, another field, and a constant. -/
def threeItems : Staging (Ledger Memory) :=
  reached (.ofDevice (.zeroed "dev" 16))
    [⟨"A", .field [⟨2, 0, 4, 1, false⟩, ⟨1, 4, 4, 2, false⟩], 1⟩,
      ⟨"B", .field [⟨5, 0, 8, 0, true⟩], 3⟩, ⟨"C", .constant 4 7, 4⟩]
    [.setLive true, .flush 0 9]

/-- Of the writes to fields the second is refused for its value, the third because the field
cannot be written. -/
theorem staged_threeItems :
    let operations : List Operation :=
      [.writeRegister 9 3, .write "A" 0x35, .write "A" 0x100, .write "B" 1, .read "B", .write "D" 0]
    let run := (threeItems.setLive false).performEach operations
    let flushed := (run.2.setLive true).flushAll
    run.2.dirty.addresses = [1, 2, 9] ∧
      flushed.2.device.performed =
        run.2.device.performed ++ [.write 1 0x50, .write 2 0x3, .write 9 3] ∧
      flushed.2.dirty = .empty := by
  intro operations run flushed
  have hreachable : Reachable threeItems := reachable_reached (by decide) rfl (by decide)
  have haccess : ∀ operation ∈ operations, operation.IsAccess := by decide
  have haddressed : ∀ operation ∈ operations, operation.Addressed := by decide
  have hunfailing : run.2.device.Unfailing flushed.2.device := rfl
  obtain ⟨-, -, -, hflushed⟩ := staged_then_written hreachable haccess haddressed
  obtain ⟨-, hperformed, hdirty, -⟩ := hflushed hunfailing
  exact ⟨rfl, hperformed, hdirty⟩

end DeviceRegisters.Staging
