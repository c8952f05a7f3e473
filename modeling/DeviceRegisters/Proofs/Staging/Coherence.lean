import DeviceRegisters.Proofs.Device.Words
import DeviceRegisters.Proofs.Staging.Access

/-!
# DeviceRegisters.Proofs.Staging.Coherence

What is known of registers that are not pending.

Over a device that holds words and is changed only through the staging area, such a
register is known by its word, unless the device refused what was last written to it
(`Coherent`).  The exception is real: in live mode a word is remembered before the
device has taken it (`known_despite_refusal`).
-/

namespace DeviceRegisters.Staging

open Device (Backend HasWords Memory Probe FaultPlan lastWrite?)

variable {β : Type} [Backend β] {wordAt : β → Nat → UInt32}

/-- What counts as the word of a register that is not pending is the device's word,
or what was last written there. -/
def Coherent (wordAt : β → Nat → UInt32) (s : Staging (Probe β)) : Prop :=
  ∀ r, r ∉ s.dirty →
    wordAt s.device.inner r = s.cache.getOrZero r ∨
      lastWrite? s.device.transfers r = some (s.cache.getOrZero r)

/-- A read keeps what is not pending the device's word. -/
theorem coherent_readRegister (hwords : HasWords wordAt) {s : Staging (Probe β)} (register : Nat)
    (hs : Coherent wordAt s) : Coherent wordAt (s.readRegister register).2 := by
  have hprobe := Device.hasWords_probe hwords
  intro r hr
  cases hlive : s.live with
  | false =>
      obtain ⟨cache, hread, hcache⟩ := readRegister_cached hlive register
      rw [hread] at hr ⊢
      rw [getOrZero_of_known hcache]
      exact hs r hr
  | true =>
      rcases hread : Backend.read s.device register with ⟨fault | word, device⟩
      · have hsame : wordAt device.inner r = wordAt s.device.inner r := hprobe.read_error hread r
        rw [readRegister_error hlive hread] at hr ⊢
        simp only
        rw [hsame, Probe.transfers_of_read hread, Device.lastWrite?_append_read]
        exact hs r hr
      · obtain ⟨hword, hsame⟩ := hprobe.read_ok hread
        have hsame : wordAt device.inner r = wordAt s.device.inner r := hsame r
        rw [readRegister_ok hlive hread] at hr ⊢
        simp only
        rw [hsame, Probe.transfers_of_read hread, Device.lastWrite?_append_read,
          WordTable.getOrZero_insert]
        by_cases hregister : r = register
        · rw [if_pos hregister, hword, hregister]
          exact .inl rfl
        · rw [if_neg hregister]
          exact hs r fun hmem => hr (AddressSet.mem_erase.mpr ⟨hmem, hregister⟩)

/-- So does a write, which makes its register pending or reaches the device. -/
theorem coherent_writeRegister (hwords : HasWords wordAt) {s : Staging (Probe β)} (register : Nat)
    (word : UInt32) (hs : Coherent wordAt s) : Coherent wordAt (s.writeRegister register word).2 := by
  have hprobe := Device.hasWords_probe hwords
  intro r hr
  cases hlive : s.live with
  | false =>
      rw [writeRegister_cached hlive] at hr ⊢
      have hr : ¬ (r = register ∨ r ∈ s.dirty) := fun h => hr (AddressSet.mem_insert.mpr h)
      have hsame := hprobe.note s.device (stageLine register word) r
      simp only at hsame ⊢
      rw [hsame, WordTable.getOrZero_insert, if_neg (fun h => hr (.inl h))]
      exact hs r fun h => hr (.inr h)
  | true =>
      rcases hwrite : Backend.write s.device register word with ⟨fault | ⟨⟩, device⟩
      · have hsame : wordAt device.inner r = wordAt s.device.inner r := hprobe.write_error hwrite r
        rw [writeRegister_error hlive hwrite] at hr ⊢
        simp only
        rw [hsame, Probe.transfers_of_write hwrite, Device.lastWrite?_append_write,
          WordTable.getOrZero_insert]
        by_cases hregister : r = register
        · rw [if_pos hregister, if_pos hregister]
          exact .inr rfl
        · rw [if_neg hregister, if_neg hregister]
          exact hs r hr
      · have hword : wordAt device.inner r = if r = register then word else wordAt s.device.inner r :=
          hprobe.write_ok hwrite r
        rw [writeRegister_ok hlive hwrite] at hr ⊢
        simp only
        rw [hword, Probe.transfers_of_write hwrite, Device.lastWrite?_append_write,
          WordTable.getOrZero_insert]
        by_cases hregister : r = register
        · rw [if_pos hregister, if_pos hregister]
          exact .inl rfl
        · rw [if_neg hregister, if_neg hregister, if_neg hregister]
          exact hs r fun hmem => hr (AddressSet.mem_erase.mpr ⟨hmem, hregister⟩)

/-- Every access keeps the known words coherent. -/
theorem keeps_coherent (hwords : HasWords wordAt) (live : Bool) (reads writes : List Nat) :
    Keeps (Coherent wordAt) live reads writes where
  read _ register _ _ hs := coherent_readRegister hwords register hs
  write _ register word _ _ hs := coherent_writeRegister hwords register word hs

/-- So do flushes, changes of the mode and log lines. -/
theorem settled_coherent (hwords : HasWords wordAt) : Settled (Coherent wordAt) where
  writeBack s register _ hs := coherent_writeRegister hwords register (s.cache.getOrZero register) hs
  setLive _ _ hs := hs
  note s line hs r hr := by
    have hsame := (Device.hasWords_probe hwords).note s.device line r
    simp only at hsame ⊢
    rw [hsame]
    exact hs r hr

/-- It stays so when a field list is taken in and operations are performed, in either mode
and with any failures. -/
theorem coherent_reached (hwords : HasWords wordAt) {device : β} (hzero : ∀ a, wordAt device a = 0)
    (plan : FaultPlan) (items : List Packing.Item) (operations : List Operation) :
    Coherent wordAt (reached (Probe.ofDevice device plan) items operations) := by
  have hstart : Coherent wordAt (ofDevice (Probe.ofDevice device plan)) := fun r _ => .inl (hzero r)
  refine Keeps.performEach (settled_coherent hwords) (keeps_coherent hwords) operations ?_
  refine (Keeps.defineAll (fun _ _ _ hs => hs) (fun item _ => ?_) rfl hstart).1
  exact keeps_coherent hwords _ item.registers item.registers

/-- Over a device of zeros that is changed only through the staging area, any access to which may
fail: a register that is known and not pending is known by its word, or by what was
last written to it and refused. -/
theorem cached_eq_word_or_refused (hwords : HasWords wordAt) {device : β}
    (hzero : ∀ a, wordAt device a = 0) {plan : FaultPlan} {items : List Packing.Item}
    {operations : List Operation} {r : Nat} {v : UInt32}
    (hcached : (reached (Probe.ofDevice device plan) items operations).cached r = some v)
    (hclean : r ∉ (reached (Probe.ofDevice device plan) items operations).dirty) :
    wordAt (reached (Probe.ofDevice device plan) items operations).device.inner r = v ∨
      lastWrite? (reached (Probe.ofDevice device plan) items operations).device.transfers r =
        some v := by
  have hword := coherent_reached hwords hzero plan items operations r hclean
  rwa [WordTable.getOrZero_eq hcached] at hword

/-- A field in register 2. -/
def bitField : List Packing.Item := [⟨"A", .field [⟨2, 0, 1, 0, false⟩], 1⟩]

/-- A memory in which register 1 refuses to be written. -/
def stuckMemory : Probe Memory :=
  Probe.ofDevice (Memory.zeroed "dev" 16) (.ofLists [] [1] fun _ => .reported "")

/-- A live write that the device refuses leaves the register known by the word that
it does not have, and not pending. -/
theorem known_despite_refusal :
    (reached stuckMemory bitField [.setLive true, .writeRegister 1 9]).cached 1 = some 9 ∧
      1 ∉ (reached stuckMemory bitField [.setLive true, .writeRegister 1 9]).dirty ∧
      (reached stuckMemory bitField [.setLive true, .writeRegister 1 9]).device.inner.wordAt 1 = 0 := by
  decide

/-- What is known of the register was last written to it, although the memory refused it. -/
theorem refused_stuckMemory :
    lastWrite? (reached stuckMemory bitField
      [.setLive true, .writeRegister 1 9]).device.transfers 1 = some 9 := by
  have hcached : (reached stuckMemory bitField
      [.setLive true, .writeRegister 1 9]).cached 1 = some 9 := by decide
  have hclean : 1 ∉ (reached stuckMemory bitField
      [.setLive true, .writeRegister 1 9]).dirty := by decide
  have hword : (reached stuckMemory bitField
      [.setLive true, .writeRegister 1 9]).device.inner.wordAt 1 ≠ 9 := by decide
  have hzero := Memory.wordAt_zeroed "dev" 16
  exact (cached_eq_word_or_refused Device.hasWords_memory hzero hcached hclean).resolve_left hword

end DeviceRegisters.Staging
