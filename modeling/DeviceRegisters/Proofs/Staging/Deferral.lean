import Mathlib
import DeviceRegisters.Proofs.Device.Words
import DeviceRegisters.Proofs.Staging.Fields

/-!
# DeviceRegisters.Proofs.Staging.Deferral

Holding writes back until the end of a batch makes no difference.

Over a memory, `Deferred` relates a staging area in live mode to one in cached mode that
knows the same: what the second has not written yet is pending (`Backed`), and can be
written out.  Reading or writing a register gives the same answer in both and keeps them
related, hence so does every access to a field, and every run.  The end of the batch
writes what is pending, after which the two areas agree (`batch_eq_direct`).
-/

namespace DeviceRegisters.Staging

open Device (Backend Memory)

variable {size : Nat} {s direct batched : Staging Memory}

/-- A register that a memory of a size holds. -/
def Held (size register : Nat) : Prop := register < size ∧ register ≤ Address.last

/-- The registers of all fields are held. -/
def FieldsHeld (size : Nat) (s : Staging Memory) : Prop :=
  ∀ name field, s.field? name = some field → ∀ r ∈ field.registers, Held size r

/-- What counts as the word of a register is the memory's, unless it is pending and can be
written out. -/
structure Backed (size : Nat) (s : Staging Memory) : Prop where
  size_eq : s.device.size = size
  word : ∀ r, r ∉ s.dirty → s.device.wordAt r = s.cache.getOrZero r
  known : ∀ r ∈ s.dirty, (s.cache.get? r).isSome
  held : ∀ r ∈ s.dirty, Held size r

/-- The mode does not matter to what is pending. -/
theorem Backed.setLive (h : Backed size s) (live : Bool) : Backed size (s.setLive live) :=
  ⟨h.size_eq, h.word, h.known, h.held⟩

/-! ## accesses in live mode -/

/-- Reading inside the memory in live mode makes its word known. -/
theorem readRegister_memory {register : Nat} (hlive : s.live = true)
    (hr : register < s.device.size) :
    ∃ device, s.readRegister register = (.ok (s.device.wordAt register), { s with
        device
        cache := s.cache.insert register (s.device.wordAt register)
        dirty := s.dirty.erase register }) ∧ device.words = s.device.words := by
  obtain ⟨device, hread, hwords⟩ := Memory.read_eq_ok hr
  exact ⟨device, readRegister_ok hlive hread, hwords⟩

/-- Writing inside the memory in live mode succeeds. -/
theorem writeRegister_memory {register : Nat} (hlive : s.live = true)
    (hr : register < s.device.size) (word : UInt32) :
    ∃ device, s.writeRegister register word = (.ok (), { s with
        device
        cache := s.cache.insert register word
        dirty := s.dirty.erase register }) ∧ device.size = s.device.size ∧
      ∀ a, device.wordAt a = if a = register then word else s.device.wordAt a := by
  obtain ⟨device, hwrite, hsize, hwords⟩ := Memory.write_eq_ok hr word
  exact ⟨device, writeRegister_ok hlive hwrite, hsize, hwords⟩

/-- Writing back what is known of a register leaves everything known as it was. -/
theorem writeBack_memory {register : Nat} (hlive : s.live = true) (hr : register < s.device.size)
    (hknown : (s.cache.get? register).isSome) :
    ∃ device cache, s.writeRegister register (s.cache.getOrZero register) = (.ok (), { s with
        device, cache, dirty := s.dirty.erase register }) ∧
      (∀ a, cache.get? a = s.cache.get? a) ∧ device.size = s.device.size ∧
      ∀ a, device.wordAt a = if a = register then s.cache.getOrZero a else s.device.wordAt a := by
  obtain ⟨w, hw⟩ := Option.isSome_iff_exists.mp hknown
  obtain ⟨device, hwrite, hsize, hwords⟩ :=
    writeRegister_memory hlive hr (s.cache.getOrZero register)
  refine ⟨device, _, hwrite, WordTable.get?_insert_getOrZero hw, hsize, fun a => ?_⟩
  rw [hwords]
  split
  · next ha => rw [ha]
  · rfl

/-- Writing registers out gives the memory what is known of them, and changes nothing
that is known. -/
theorem writeOut_memory (registers : List Nat) (hlive : s.live = true)
    (hr : ∀ r ∈ registers, r < s.device.size ∧ (s.cache.get? r).isSome) :
    ∃ after, s.writeOut registers = (.ok (), after) ∧
      after.live = true ∧ after.fields = s.fields ∧ after.names = s.names ∧
      (∀ a, after.cached a = s.cached a) ∧ after.device.size = s.device.size ∧
      (∀ a, after.device.wordAt a =
        if a ∈ registers then s.cache.getOrZero a else s.device.wordAt a) ∧
      ∀ a, a ∈ after.dirty ↔ a ∈ s.dirty ∧ a ∉ registers := by
  induction registers generalizing s with
  | nil => exact ⟨s, rfl, hlive, rfl, rfl, fun _ => rfl, rfl, by simp, by simp⟩
  | cons register registers ih =>
      obtain ⟨⟨hregister, hknown⟩, hr⟩ := List.forall_mem_cons.mp hr
      obtain ⟨device, cache, hwrite, hcache, hsize, hwords⟩ :=
        writeBack_memory hlive hregister hknown
      have hzero : ∀ a, cache.getOrZero a = s.cache.getOrZero a := by
        intro a
        rw [WordTable.getOrZero, hcache, WordTable.getOrZero]
      obtain ⟨after, hrest, hlive', hfields, hnames, hcached, hsize', hwords', hdirty⟩ :=
        ih (s := { s with device, cache, dirty := s.dirty.erase register }) hlive
          fun r hmem => ⟨hsize ▸ (hr r hmem).1, (hcache r).symm ▸ (hr r hmem).2⟩
      refine ⟨after, ?_, hlive', hfields, hnames, fun a => (hcached a).trans (hcache a),
        hsize'.trans hsize, ?_, ?_⟩
      · rw [writeOut, hwrite]
        exact hrest
      · intro a
        rw [hwords', hzero, hwords]
        by_cases ha : a = register <;> simp [ha]
      · intro a
        rw [hdirty]
        simp [and_assoc]

/-- Flushing everything leaves nothing pending, and the memory as it is known. -/
theorem flushAll_memory (hlive : s.live = true) (hs : Backed size s) :
    ∃ after, s.flushAll = (.ok (), after) ∧
      after.live = true ∧ after.fields = s.fields ∧ after.names = s.names ∧
      (∀ a, after.cached a = s.cached a) ∧ after.device.size = size ∧ after.dirty = .empty ∧
      ∀ a, after.device.wordAt a = s.cache.getOrZero a := by
  have hpending : ∀ r, r ∈ s.dirty.between 0 Address.last ↔ r ∈ s.dirty := by
    intro r
    rw [AddressSet.mem_between]
    exact ⟨fun h => h.1, fun h => ⟨h, Nat.zero_le r, (hs.held r h).2⟩⟩
  obtain ⟨after, hflush, hafter, hfields, hnames, hcached, hsize, hwords, hdirty⟩ :=
    writeOut_memory (s.dirty.between 0 Address.last) hlive fun r hr =>
      ⟨hs.size_eq ▸ (hs.held r ((hpending r).mp hr)).1, hs.known r ((hpending r).mp hr)⟩
  refine ⟨after, ?_, hafter, hfields, hnames, hcached, hsize.trans hs.size_eq, ?_, ?_⟩
  · rw [flushAll, flush, if_pos hlive, hflush]
  · apply AddressSet.eq_empty
    intro r hr
    obtain ⟨hmem, hnot⟩ := (hdirty r).mp hr
    exact hnot ((hpending r).mpr hmem)
  · intro r
    rw [hwords]
    split
    · rfl
    · next hr => exact hs.word r fun h => hr ((hpending r).mpr h)

/-! ## accesses in cached mode -/

/-- In cached mode a read leaves the words backed by the memory. -/
theorem backed_readRegister (hcached : s.live = false) (register : Nat) (hs : Backed size s) :
    Backed size (s.readRegister register).2 := by
  obtain ⟨cache, hread, hcache⟩ := readRegister_cached hcached register
  rw [hread]
  refine ⟨hs.size_eq, fun r hr => ?_, fun r hr => ?_, hs.held⟩
  · exact (hs.word r hr).trans (getOrZero_of_known hcache r).symm
  · have hknown := hs.known r hr
    simp only [hcache]
    split
    · rfl
    · exact hknown

/-- So does a write to a register that the memory holds. -/
theorem backed_writeRegister (hcached : s.live = false) {register : Nat} (hr : Held size register)
    (word : UInt32) (hs : Backed size s) : Backed size (s.writeRegister register word).2 := by
  rw [writeRegister_cached hcached]
  constructor
  · exact hs.size_eq
  · intro r hclean
    obtain ⟨hne, hclean⟩ := not_or.mp fun h => hclean (AddressSet.mem_insert.mpr h)
    rw [WordTable.getOrZero_insert, if_neg hne]
    exact hs.word r hclean
  · intro r hmem
    rw [WordTable.get?_insert]
    split
    · rfl
    · next hne => exact hs.known r ((AddressSet.mem_insert.mp hmem).resolve_left hne)
  · intro r hmem
    rcases AddressSet.mem_insert.mp hmem with rfl | hmem
    · exact hr
    · exact hs.held r hmem

/-- In cached mode accesses that write such registers leave the words backed. -/
theorem keeps_backed {reads writes : List Nat} (h : ∀ r ∈ writes, Held size r) :
    Keeps (Backed size) false reads writes where
  read _ register hcached _ hs := backed_readRegister hcached register hs
  write _ register word hcached hmem hs := backed_writeRegister hcached (h register hmem) word hs

/-! ## field lists -/

/-- Fields are held if the registers are that their entries speak of. -/
theorem fieldsHeld_defineAll {items : List Packing.Item}
    (hitems : ∀ item ∈ items, ∀ r ∈ item.registers, Held size r) (hs : FieldsHeld size s) :
    FieldsHeld size (s.defineAll items).2 :=
  FieldsIn.defineAll hitems hs

/-- Over a memory of zeros, taking a field list in leaves what is missing there pending. -/
theorem backed_defineAll {name : String} {items : List Packing.Item}
    (hitems : ∀ item ∈ items, ∀ r ∈ item.registers, Held size r) :
    Backed size ((ofDevice (Memory.zeroed name size)).defineAll items).2 := by
  have hstart : Backed size (ofDevice (Memory.zeroed name size)) := by
    refine ⟨?_, fun r _ => ?_, fun r hr => absurd hr (AddressSet.not_mem_empty r),
      fun r hr => absurd hr (AddressSet.not_mem_empty r)⟩
    · simp [ofDevice, Memory.zeroed, Memory.size]
    · simp only [ofDevice, Memory.wordAt_zeroed]
      rfl
  refine (Keeps.defineAll ?_ (fun item hitem => keeps_backed (hitems item hitem)) rfl hstart).1
  exact fun _ _ _ hs => ⟨hs.size_eq, hs.word, hs.known, hs.held⟩

/-! ## live and cached mode side by side -/

/-- An area in live mode with nothing pending, and one in cached mode that knows the
same. -/
structure Deferred (size : Nat) (direct batched : Staging Memory) : Prop where
  live : direct.live = true
  cachedMode : batched.live = false
  fields : batched.fields = direct.fields
  names : batched.names = direct.names
  fieldsHeld : FieldsHeld size direct
  known : ∀ r, batched.cached r = direct.cached r
  flushed : direct.dirty = .empty
  size_eq : direct.device.size = size
  word : ∀ r, direct.device.wordAt r = direct.cache.getOrZero r
  backed : Backed size batched

namespace Deferred

/-- What counts as a register's word is the same in both areas. -/
theorem getOrZero (h : Deferred size direct batched) (r : Nat) :
    batched.cache.getOrZero r = direct.cache.getOrZero r := by
  have hknown : batched.cache.get? r = direct.cache.get? r := h.known r
  rw [WordTable.getOrZero, hknown, WordTable.getOrZero]

/-- The fields are the same in both. -/
theorem field? (h : Deferred size direct batched) (name : String) :
    batched.field? name = direct.field? name := by
  rw [Staging.field?, h.fields, Staging.field?]

/-- Reading a register gives the same word. -/
theorem readRegister (h : Deferred size direct batched) {register : Nat} (hr : Held size register) :
    ∃ word direct' batched', direct.readRegister register = (.ok word, direct') ∧
      batched.readRegister register = (.ok word, batched') ∧ Deferred size direct' batched' := by
  obtain ⟨device, hdirect, hwords⟩ := readRegister_memory h.live (h.size_eq ▸ hr.1)
  obtain ⟨cache, hbatched, hcache⟩ := readRegister_cached h.cachedMode register
  have hbacked := backed_readRegister h.cachedMode register h.backed
  rw [hbatched] at hbacked
  rw [h.word] at hdirect
  rw [h.getOrZero] at hbatched hcache
  have hsame : ∀ a, device.wordAt a = direct.device.wordAt a := by
    intro a
    rw [Memory.wordAt, Memory.peek, hwords, ← Memory.peek, ← Memory.wordAt]
  refine ⟨_, _, _, hdirect, hbatched, h.live, h.cachedMode, h.fields, h.names, h.fieldsHeld,
    fun a => ?_, ?_, ?_, fun a => ?_, hbacked⟩
  · have hknown : batched.cache.get? a = direct.cache.get? a := h.known a
    rw [cached, hcache, cached, WordTable.get?_insert, hknown]
  · simp only [h.flushed]
    rfl
  · rw [Memory.size, hwords]
    exact h.size_eq
  · rw [hsame, h.word, WordTable.getOrZero_insert]
    split
    · next ha => rw [ha]
    · rfl

/-- Writing a register succeeds in both. -/
theorem writeRegister (h : Deferred size direct batched) {register : Nat} (hr : Held size register)
    (word : UInt32) :
    ∃ direct' batched', direct.writeRegister register word = (.ok (), direct') ∧
      batched.writeRegister register word = (.ok (), batched') ∧ Deferred size direct' batched' := by
  obtain ⟨device, hdirect, hsize, hwords⟩ := writeRegister_memory h.live (h.size_eq ▸ hr.1) word
  have hbatched := writeRegister_cached h.cachedMode register word
  have hbacked := backed_writeRegister h.cachedMode hr word h.backed
  rw [hbatched] at hbacked
  refine ⟨_, _, hdirect, hbatched, h.live, h.cachedMode, h.fields, h.names, h.fieldsHeld,
    fun a => ?_, ?_, hsize.trans h.size_eq, fun a => ?_, hbacked⟩
  · have hknown : batched.cache.get? a = direct.cache.get? a := h.known a
    rw [cached, WordTable.get?_insert, cached, WordTable.get?_insert, hknown]
  · simp only [h.flushed]
    rfl
  · rw [hwords, h.word, WordTable.getOrZero_insert]

/-! ## fields -/

/-- Parts are written in both areas, and nothing tells these apart afterwards. -/
theorem writeParts {parts : List Packing.Part} {value : UInt64} (h : Deferred size direct batched)
    (hparts : ∀ part ∈ parts, Held size part.register) :
    ∃ direct' batched', direct.writeParts value parts = (.ok (), direct') ∧
      batched.writeParts value parts = (.ok (), batched') ∧ Deferred size direct' batched' := by
  induction parts generalizing direct batched value with
  | nil => exact ⟨direct, batched, rfl, rfl, h⟩
  | cons part parts ih =>
      obtain ⟨hpart, hparts⟩ := List.forall_mem_cons.mp hparts
      obtain ⟨word, direct₁, batched₁, hread, hread', h₁⟩ := h.readRegister hpart
      obtain ⟨direct₂, batched₂, hwrite, hwrite', h₂⟩ :=
        h₁.writeRegister hpart (Word.insert word part.offset part.width value)
      simp only [Staging.writeParts, hread, hread', hwrite, hwrite']
      exact ih h₂ hparts

/-- Parts are read in both areas with one value. -/
theorem readParts {parts : List Packing.Part} (value : UInt64) (h : Deferred size direct batched)
    (hparts : ∀ part ∈ parts, Held size part.register) :
    ∃ value' direct' batched', direct.readParts value parts = (.ok value', direct') ∧
      batched.readParts value parts = (.ok value', batched') ∧ Deferred size direct' batched' := by
  induction parts generalizing direct batched value with
  | nil => exact ⟨value, direct, batched, rfl, rfl, h⟩
  | cons part parts ih =>
      obtain ⟨hpart, hparts⟩ := List.forall_mem_cons.mp hparts
      obtain ⟨word, direct₁, batched₁, hread, hread', h₁⟩ := h.readRegister hpart
      simp only [Staging.readParts, hread, hread']
      exact ih _ h₁ hparts

/-- Writing a field gives the same answer, whether it is refused or not. -/
theorem write (h : Deferred size direct batched) (name : String) (value : UInt64) :
    ∃ answer direct' batched', direct.write name value = (answer, direct') ∧
      batched.write name value = (answer, batched') ∧ Deferred size direct' batched' := by
  rw [Staging.write, Staging.write, h.field?]
  cases hfield : direct.field? name with
  | none => exact ⟨_, direct, batched, rfl, rfl, h⟩
  | some field =>
      simp only
      split
      · exact ⟨_, direct, batched, rfl, rfl, h⟩
      · split
        · have hparts : ∀ part ∈ field.parts, Held size part.register := fun part hpart =>
            h.fieldsHeld name field hfield part.register (List.mem_map_of_mem hpart)
          exact ⟨_, h.writeParts hparts⟩
        · exact ⟨_, direct, batched, rfl, rfl, h⟩

/-- Reading a field gives the same answer. -/
theorem read (h : Deferred size direct batched) (name : String) :
    ∃ answer direct' batched', direct.read name = (answer, direct') ∧
      batched.read name = (answer, batched') ∧ Deferred size direct' batched' := by
  rw [Staging.read, Staging.read, h.field?]
  cases hfield : direct.field? name with
  | none => exact ⟨_, direct, batched, rfl, rfl, h⟩
  | some field =>
      have hparts : ∀ part ∈ field.parts.reverse, Held size part.register := fun part hpart =>
        h.fieldsHeld name field hfield part.register
          (List.mem_map_of_mem (List.mem_reverse.mp hpart))
      obtain ⟨value, hread⟩ := readParts 0 h hparts
      exact ⟨.ok value, hread⟩

end Deferred

/-! ## runs -/

/-- An operation that accesses a field, or a register that is held. -/
def HeldAccess (size : Nat) : Operation → Prop
  | .write _ _ | .read _ => True
  | .writeRegister register _ | .readRegister register => Held size register
  | _ => False

/-- An access gets one answer in both areas. -/
theorem Deferred.perform (h : Deferred size direct batched) {operation : Operation}
    (hoperation : HeldAccess size operation) :
    ∃ answer direct' batched', direct.perform operation = (answer, direct') ∧
      batched.perform operation = (answer, batched') ∧ Deferred size direct' batched' := by
  cases operation with
  | write name value =>
      obtain ⟨answer, direct', batched', hwrite, hwrite', h'⟩ := h.write name value
      simp only [Staging.perform, hwrite, hwrite']
      exact ⟨_, direct', batched', rfl, rfl, h'⟩
  | read name =>
      obtain ⟨answer, direct', batched', hread, hread', h'⟩ := h.read name
      simp only [Staging.perform, hread, hread']
      exact ⟨_, direct', batched', rfl, rfl, h'⟩
  | writeRegister register word =>
      obtain ⟨direct', batched', hwrite, hwrite', h'⟩ := h.writeRegister hoperation word
      simp only [Staging.perform, hwrite, hwrite']
      exact ⟨_, direct', batched', rfl, rfl, h'⟩
  | readRegister register =>
      obtain ⟨word, direct', batched', hread, hread', h'⟩ := h.readRegister hoperation
      simp only [Staging.perform, hread, hread']
      exact ⟨_, direct', batched', rfl, rfl, h'⟩
  | setLive live => exact hoperation.elim
  | flush first last => exact hoperation.elim
  | beginBatch => exact hoperation.elim
  | commit => exact hoperation.elim
  | drop => exact hoperation.elim

/-- So does a run of accesses. -/
theorem Deferred.performEach {operations : List Operation} (h : Deferred size direct batched)
    (hoperations : ∀ operation ∈ operations, HeldAccess size operation) :
    (batched.performEach operations).1 = (direct.performEach operations).1 ∧
      Deferred size (direct.performEach operations).2 (batched.performEach operations).2 := by
  induction operations generalizing direct batched with
  | nil => exact ⟨rfl, h⟩
  | cons operation operations ih =>
      obtain ⟨hoperation, hoperations⟩ := List.forall_mem_cons.mp hoperations
      obtain ⟨answer, direct', batched', hperform, hperform', h'⟩ := h.perform hoperation
      obtain ⟨hanswers, hend⟩ := ih h' hoperations
      simp only [Staging.performEach, hperform, hperform', hanswers, true_and]
      exact hend

/-- Two areas over memories that differ at most in what was logged. -/
structure Agree (s t : Staging Memory) : Prop where
  live : s.live = t.live
  cached : ∀ r, s.cached r = t.cached r
  dirty : s.dirty = t.dirty
  fields : s.fields = t.fields
  names : s.names = t.names
  words : s.device.words = t.device.words

/-- The end of a batch takes the area in cached mode to the one in live mode. -/
theorem Deferred.commit (h : Deferred size direct batched) :
    batched.commit.1 = .ok () ∧ Agree batched.commit.2 direct := by
  obtain ⟨after, hflush, hlive, hfields, hnames, hcached, hsize, hdirty, hwords⟩ :=
    flushAll_memory rfl (h.backed.setLive true)
  rw [Staging.commit, hflush]
  refine ⟨rfl, hlive.trans h.live.symm, fun r => (hcached r).trans (h.known r),
    hdirty.trans h.flushed.symm, hfields.trans h.fields, hnames.trans h.names, ?_⟩
  apply Memory.words_eq (hsize.trans h.size_eq.symm)
  intro r
  rw [hwords, h.word]
  exact h.getOrZero r

/-- An area in live mode with nothing pending, before and after a batch has begun. -/
theorem deferred_beginBatch (hlive : s.live = true) (hfields : FieldsHeld size s)
    (hflushed : s.dirty = .empty) (hsize : s.device.size = size)
    (hword : ∀ r, s.device.wordAt r = s.cache.getOrZero r) : Deferred size s s.beginBatch where
  live := hlive
  cachedMode := rfl
  fields := rfl
  names := rfl
  fieldsHeld := hfields
  known _ := rfl
  flushed := hflushed
  size_eq := hsize
  word := hword
  backed := by
    have hnone : ∀ r, r ∉ s.dirty := fun r hr => by simp [hflushed] at hr
    exact ⟨hsize, fun r _ => hword r, fun r hr => absurd hr (hnone r), fun r hr => absurd hr (hnone r)⟩

/-- After a field list was taken in over a memory of zeros that holds its registers, and
everything flushed: operations in a batch that is committed give the same answers
as in live mode, and leave the same area and the same words. -/
theorem batch_eq_direct {text name : String} {items : List Packing.Item}
    {operations : List Operation} (hparse : Packing.parse text = .ok items)
    (hnew : (ofDevice (Memory.zeroed name size)).defineAll items = (.ok (), s))
    (hitems : ∀ item ∈ items, ∀ r ∈ item.registers, r < size)
    (hoperations : ∀ operation ∈ operations, HeldAccess size operation) :
    ∃ s₀, (s.setLive true).flushAll = (.ok (), s₀) ∧
      (s₀.beginBatch.performEach operations).1 = (s₀.performEach operations).1 ∧
      (s₀.beginBatch.performEach operations).2.commit.1 = .ok () ∧
      (s₀.performEach operations).2.live = true ∧ (s₀.performEach operations).2.dirty = .empty ∧
      Agree (s₀.beginBatch.performEach operations).2.commit.2 (s₀.performEach operations).2 := by
  have hheld : ∀ item ∈ items, ∀ r ∈ item.registers, Held size r := fun item hitem r hr =>
    ⟨hitems item hitem r hr, Packing.le_last_of_parse hparse item hitem r hr⟩
  have hbacked : Backed size ((ofDevice (Memory.zeroed name size)).defineAll items).2 :=
    backed_defineAll hheld
  have hfields : FieldsHeld size ((ofDevice (Memory.zeroed name size)).defineAll items).2 :=
    fieldsHeld_defineAll hheld (by simp [FieldsHeld, ofDevice, field?])
  rw [hnew] at hbacked hfields
  obtain ⟨s₀, hflush, hlive, hsame, -, hcached, hsize, hdirty, hwords⟩ :=
    flushAll_memory rfl (hbacked.setLive true)
  have hfields₀ : FieldsHeld size s₀ := by
    intro name field hfield
    rw [field?, hsame] at hfield
    exact hfields name field hfield
  have hword : ∀ r, s₀.device.wordAt r = s₀.cache.getOrZero r := by
    intro r
    have hknown : s₀.cache.get? r = s.cache.get? r := hcached r
    rw [hwords, WordTable.getOrZero, WordTable.getOrZero, hknown]
    rfl
  have hstart := deferred_beginBatch hlive hfields₀ hdirty hsize hword
  obtain ⟨hanswers, hend⟩ := hstart.performEach hoperations
  obtain ⟨hcommit, hagree⟩ := hend.commit
  exact ⟨s₀, hflush, hanswers, hcommit, hend.live, hend.flushed, hagree⟩

/-- A field across two registers, and a constant. -/
def splitField : List Packing.Item :=
  [⟨"A", .field [⟨2, 0, 4, 1, false⟩, ⟨1, 4, 4, 2, false⟩], 1⟩, ⟨"B", .constant 3 7, 3⟩]

/-- A run with writes, reads and a write that is refused, in a batch and directly. -/
theorem batch_splitField :
    let s := ((ofDevice (Memory.zeroed "dev" 4)).defineAll splitField).2
    let operations : List Operation :=
      [.write "A" 0x35, .read "A", .writeRegister 3 9, .write "B" 1, .readRegister 0]
    ∃ s₀, (s.setLive true).flushAll = (.ok (), s₀) ∧
      (s₀.beginBatch.performEach operations).1 = (s₀.performEach operations).1 ∧
      (s₀.beginBatch.performEach operations).2.commit.1 = .ok () ∧
      (s₀.performEach operations).2.live = true ∧ (s₀.performEach operations).2.dirty = .empty ∧
      Agree (s₀.beginBatch.performEach operations).2.commit.2 (s₀.performEach operations).2 := by
  intro s operations
  have hparse : Packing.parse "A 0x02 3:0 0x1\n  0x01 7:4 0x2\nB 0x03 0x7\n" = .ok splitField := by
    cbv
  have hnew : (ofDevice (Memory.zeroed "dev" 4)).defineAll splitField = (.ok (), s) := rfl
  have hoperations : ∀ operation ∈ operations, HeldAccess 4 operation := by
    simp [operations, HeldAccess, Held, Address.last]
  exact batch_eq_direct hparse hnew (by decide) hoperations

end DeviceRegisters.Staging
