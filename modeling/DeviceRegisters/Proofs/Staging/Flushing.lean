import DeviceRegisters.Device.Memory
import DeviceRegisters.Proofs.Device.Ledger
import DeviceRegisters.Proofs.Staging.Reachable

/-!
# DeviceRegisters.Proofs.Staging.Flushing

How a flush goes over a device that may refuse any write.

The pending registers are written in order up to the first that the device refuses;
those before it are pending no longer, it and the others stay so, and nothing that is
known changes (`Flushed`).  Hence flushes can be repeated: once everything was flushed,
every register was written once, with the word that waited for it (`Discharged`).
-/

namespace DeviceRegisters.Staging

open Device (Backend Ledger Attempts Memory Probe)

variable {β : Type} [Backend β] {s t after : Staging β} {pending written left : List Nat}
  {answer : Except Error Unit}

/-- Registers with the words that a flush writes to them. -/
def words (s : Staging β) (registers : List Nat) : List (Nat × UInt32) :=
  registers.map fun r => (r, s.cache.getOrZero r)

omit [Backend β] in
/-- The words to be flushed are what is known of the registers. -/
theorem words_eq (h : ∀ r, t.cached r = s.cached r) (registers : List Nat) :
    t.words registers = s.words registers := by
  refine List.map_congr_left fun r _ => ?_
  have hr : t.cache.get? r = s.cache.get? r := h r
  rw [WordTable.getOrZero, hr, WordTable.getOrZero]

/-- The write that a pending register waits for. -/
def due (s : Staging β) (r : Nat) : Device.Transfer := .write r (s.cache.getOrZero r)

omit [Backend β] in
/-- They are flushed by the writes that are due. -/
theorem map_words (s : Staging β) (registers : List Nat) :
    (s.words registers).map (fun write => .write write.1 write.2) = registers.map s.due := by
  rw [words, List.map_map]
  rfl

omit [Backend β] in
/-- The write that is due is of the word that is known. -/
theorem due_eq {r : Nat} {v : UInt32} (h : s.cached r = some v) : s.due r = .write r v := by
  rw [due, WordTable.getOrZero_eq h]

/-- How a flush of pending registers went: some were `written`, and some are `left`. -/
structure Flushed (s : Staging β) (pending written left : List Nat) (answer : Except Error Unit)
    (after : Staging β) : Prop where
  split : written ++ left = pending
  known : ∀ r ∈ pending, ∃ v, s.cached r = some v
  attempts : ∃ outcome, answer = outcome.mapError .device ∧
    Attempts s.device (s.words written) (s.words left) outcome after.device
  clean : ∀ r ∈ written, r ∉ after.dirty
  waiting : ∀ r ∈ left, r ∈ after.dirty
  others : ∀ r ∉ pending, r ∈ after.dirty ↔ r ∈ s.dirty
  cached : ∀ r, after.cached r = s.cached r
  live : after.live = true

/-- Writing a known word back, which the device takes, only ends the register's being
pending. -/
theorem writeBack_ok {register : Nat} {v : UInt32} {device : β} (hlive : s.live = true)
    (hknown : s.cached register = some v)
    (hwrite : Backend.write s.device register (s.cache.getOrZero register) = (.ok (), device)) :
    ∃ next, s.writeRegister register (s.cache.getOrZero register) = (.ok (), next) ∧
      next.device = device ∧ next.live = true ∧ next.dirty = s.dirty.erase register ∧
      ∀ r, next.cached r = s.cached r :=
  ⟨_, writeRegister_ok hlive hwrite, rfl, hlive, rfl, WordTable.get?_insert_getOrZero hknown⟩

/-- Writing a known word back, which the device refuses, changes nothing else. -/
theorem writeBack_error {register : Nat} {v : UInt32} {device : β} {fault : Device.Fault}
    (hlive : s.live = true) (hknown : s.cached register = some v)
    (hwrite : Backend.write s.device register (s.cache.getOrZero register) = (.error fault, device)) :
    ∃ next, s.writeRegister register (s.cache.getOrZero register) = (.error (.device fault), next) ∧
      next.device = device ∧ next.live = true ∧ next.dirty = s.dirty ∧
      ∀ r, next.cached r = s.cached r :=
  ⟨_, writeRegister_error hlive hwrite, rfl, hlive, rfl, WordTable.get?_insert_getOrZero hknown⟩

/-- Pending registers are written out in order up to a first one that is refused. -/
theorem flushed_writeOut (hlive : s.live = true) (hnodup : pending.Nodup)
    (hdirty : ∀ r ∈ pending, r ∈ s.dirty) (hknown : ∀ r ∈ pending, ∃ v, s.cached r = some v) :
    ∃ written left,
      Flushed s pending written left (s.writeOut pending).1 (s.writeOut pending).2 := by
  induction pending generalizing s with
  | nil =>
      refine ⟨[], [], rfl, hknown, ⟨.ok (), rfl, .done _⟩, ?_, ?_, fun _ _ => Iff.rfl,
        fun _ => rfl, hlive⟩
      all_goals exact fun r hr => absurd hr List.not_mem_nil
  | cons register rest ih =>
      obtain ⟨hfresh, hnodup⟩ := List.nodup_cons.mp hnodup
      obtain ⟨v, hv⟩ := hknown register List.mem_cons_self
      rcases hwrite : Backend.write s.device register (s.cache.getOrZero register) with
        ⟨fault | ⟨⟩, device⟩
      · -- the device refuses the first register, so that all are left
        obtain ⟨next, hnext, rfl, hlive, hsame, hcached⟩ := writeBack_error hlive hv hwrite
        rw [writeOut, hnext]
        refine ⟨[], register :: rest, rfl, hknown, ⟨.error fault, rfl, .refused hwrite⟩, ?_, ?_, ?_,
          hcached, hlive⟩
        · exact fun r hr => absurd hr List.not_mem_nil
        · exact fun r hr => hsame ▸ hdirty r hr
        · exact fun r _ => hsame ▸ Iff.rfl
      · obtain ⟨next, hnext, rfl, hlive, herase, hcached⟩ := writeBack_ok hlive hv hwrite
        have hmem : ∀ r, r ∈ next.dirty ↔ r ∈ s.dirty ∧ r ≠ register := fun r => by
          rw [herase, AddressSet.mem_erase]
        obtain ⟨written, left, h⟩ := ih hlive hnodup
          (fun r hr => (hmem r).mpr ⟨hdirty r (List.mem_cons_of_mem _ hr), fun heq => hfresh (heq ▸ hr)⟩)
          fun r hr => by
            rw [hcached]
            exact hknown r (List.mem_cons_of_mem _ hr)
        obtain ⟨outcome, hanswer, hattempts⟩ := h.attempts
        rw [words_eq hcached, words_eq hcached] at hattempts
        rw [writeOut, hnext]
        refine ⟨register :: written, left, by rw [List.cons_append, h.split], hknown,
          ⟨outcome, hanswer, .took hwrite hattempts⟩, ?_, h.waiting, ?_,
          fun r => (h.cached r).trans (hcached r), h.live⟩
        · intro r hr
          rcases List.mem_cons.mp hr with rfl | hr
          · exact fun hafter => ((hmem r).mp ((h.others r hfresh).mp hafter)).2 rfl
          · exact h.clean r hr
        · intro r hr
          obtain ⟨hne, hr⟩ := not_or.mp fun h => hr (List.mem_cons.mpr h)
          rw [h.others r hr, hmem]
          exact and_iff_left hne

/-- A flush writes the pending registers of its range, in ascending order. -/
theorem flushed_flush (hlive : s.live = true) (hs : Tracked s) (first last : Nat) :
    ∃ written left, Flushed s (s.dirty.between first last) written left (s.flush first last).1
      (s.flush first last).2 := by
  have hdirty : ∀ r ∈ s.dirty.between first last, r ∈ s.dirty := fun r hr =>
    (AddressSet.mem_between.mp hr).1
  rw [flush, if_pos hlive]
  exact flushed_writeOut hlive (s.dirty.nodup_between first last) hdirty fun r hr =>
    hs.known r (hdirty r hr)

/-- The end of a batch writes all pending registers, in ascending order. -/
theorem flushed_commit (hs : Tracked s) :
    ∃ written left, Flushed s s.dirty.addresses written left s.commit.1 s.commit.2 := by
  obtain ⟨written, left, h⟩ := flushed_flush (s := s.setLive true) rfl ⟨hs.known, hs.address⟩ 0
    Address.last
  have hall : (s.setLive true).dirty.between 0 Address.last = s.dirty.addresses :=
    AddressSet.between_eq_addresses hs.address
  rw [hall] at h
  exact ⟨written, left, h.split, h.known, h.attempts, h.clean, h.waiting, h.others, h.cached, h.live⟩

/-- What is pending after a flush. -/
theorem Flushed.mem_dirty (h : Flushed s pending written left answer after)
    (hdirty : ∀ r ∈ pending, r ∈ s.dirty) (r : Nat) :
    r ∈ after.dirty ↔ r ∈ s.dirty ∧ r ∉ written := by
  by_cases hr : r ∈ pending
  · have hsplit : r ∈ written ∨ r ∈ left := List.mem_append.mp (h.split ▸ hr)
    constructor
    · exact fun hafter => ⟨hdirty r hr, fun hwritten => h.clean r hwritten hafter⟩
    · exact fun hbefore => h.waiting r (hsplit.resolve_left hbefore.2)
  · have hnot : r ∉ written := fun hwritten => hr (h.split ▸ List.mem_append_left left hwritten)
    rw [h.others r hr, and_iff_left hnot]

/-- A flush that succeeds leaves nothing of its range. -/
theorem Flushed.written_eq (h : Flushed s pending written left (.ok ()) after) :
    written = pending := by
  obtain ⟨outcome, hanswer, hattempts⟩ := h.attempts
  have hleft : left = [] := by
    cases outcome with
    | error fault => contradiction
    | ok => exact List.map_eq_nil_iff.mp hattempts.left_eq_nil
  rw [← h.split, hleft, List.append_nil]

section

variable {β : Type} [Backend β] {s t after : Staging (Ledger β)} {done : List Nat}

/-- Unless the device refuses a write, the end of a batch writes each pending register once,
and makes no other access. -/
theorem commit_of_unfailing (hs : Tracked s) (h : s.device.Unfailing s.commit.2.device) :
    s.commit.1 = .ok () ∧
      s.commit.2.device.performed = s.device.performed ++ s.dirty.addresses.map s.due ∧
      s.commit.2.dirty = .empty ∧ ∀ r, s.commit.2.cached r = s.cached r := by
  obtain ⟨written, left, hflush⟩ := flushed_commit hs
  obtain ⟨outcome, hanswer, hattempts⟩ := hflush.attempts
  rw [hattempts.outcome_eq_ok h] at hanswer
  have hdirty := hflush.mem_dirty fun r hr => hr
  rw [hanswer] at hflush
  refine ⟨hanswer, ?_, AddressSet.eq_empty fun r hr => ?_, hflush.cached⟩
  · rw [hattempts.performed, map_words, hflush.written_eq]
  · obtain ⟨hmem, hnot⟩ := (hdirty r).mp hr
    exact hnot (hflush.written_eq ▸ hmem)

/-! ## flushing again and again -/

/-- Since an earlier state some of its pending registers were `done`: each was written once,
with the word that waited for it.  The others still wait, and nothing else was done. -/
structure Discharged (s t : Staging (Ledger β)) (done : List Nat) : Prop where
  performed : t.device.performed = s.device.performed ++ done.map s.due
  nodup : done.Nodup
  mem : ∀ r, r ∈ done ↔ r ∈ s.dirty ∧ r ∉ t.dirty
  pending : ∀ r ∈ t.dirty, r ∈ s.dirty
  cached : ∀ r, t.cached r = s.cached r
  live : t.live = true

namespace Discharged

omit [Backend β] in
theorem refl (hlive : s.live = true) : Discharged s s [] where
  performed := by simp
  nodup := .nil
  mem r := by simp
  pending _ hr := hr
  cached _ := rfl
  live := hlive

omit [Backend β] in
/-- Discharging some leaves every pending register an address with a known word. -/
theorem tracked (h : Discharged s t done) (hs : Tracked s) : Tracked t where
  known r hr := by
    rw [h.cached]
    exact hs.known r (h.pending r hr)
  address r hr := hs.address r (h.pending r hr)

/-- What a flush writes is done. -/
theorem flush {first last : Nat} (h : Discharged s t done)
    (hflush : Flushed t (t.dirty.between first last) written left answer after) :
    Discharged s after (done ++ written) := by
  have hrange : ∀ r ∈ t.dirty.between first last, r ∈ t.dirty := fun r hr =>
    (AddressSet.mem_between.mp hr).1
  have hdirty := hflush.mem_dirty hrange
  have hwritten : ∀ r ∈ written, r ∈ t.dirty := fun r hr =>
    hrange r (hflush.split ▸ List.mem_append_left left hr)
  have hnodup : (written ++ left).Nodup := hflush.split ▸ t.dirty.nodup_between first last
  obtain ⟨outcome, -, hattempts⟩ := hflush.attempts
  refine ⟨?_, ?_, fun r => ?_, fun r hr => h.pending r ((hdirty r).mp hr).1,
    fun r => (hflush.cached r).trans (h.cached r), hflush.live⟩
  · rw [hattempts.performed, h.performed, words_eq h.cached, map_words, List.map_append,
      List.append_assoc]
  · refine List.nodup_append.mpr ⟨h.nodup, (List.nodup_append.mp hnodup).1, ?_⟩
    rintro r hdone _ hr rfl
    exact ((h.mem r).mp hdone).2 (hwritten r hr)
  · rw [List.mem_append, h.mem, hdirty]
    have hsub := h.pending r
    have hsub' := hwritten r
    tauto

/-- So do flushes of any ranges, however they go. -/
theorem flushes (hs : Tracked s) (h : Discharged s t done) (ranges : List (Nat × Nat)) :
    ∃ done, Discharged s
      (t.performEach (ranges.map fun range => .flush range.1 range.2)).2 done := by
  induction ranges generalizing t done with
  | nil => exact ⟨done, h⟩
  | cons range ranges ih =>
      obtain ⟨written, left, hflush⟩ := flushed_flush h.live (h.tracked hs) range.1 range.2
      exact ih (h.flush hflush)

end Discharged

/-- In live mode a flush writes the pending registers of its range in ascending order, up to
the first that the device refuses, whose fault is the answer.  Those before it are no
longer pending, it and the others are; nothing else that is pending and nothing that is
known changes.  Hence after any flushes, one of everything that succeeds has written each
register that was pending at first, once, with the word that waited for it.  In cached mode
a flush is an error and changes nothing. -/
theorem flush_discharges (hs : Reachable s) :
    (s.live = false → ∀ first last, s.flush first last = (.error .notLive, s)) ∧
    (s.live = true →
      (∀ first last, ∃ written left, Flushed s (s.dirty.between first last) written left
        (s.flush first last).1 (s.flush first last).2) ∧
      ∀ ranges : List (Nat × Nat),
        let t := (s.performEach (ranges.map fun range => .flush range.1 range.2)).2
        t.flushAll.1 = .ok () → ∃ order : List Nat, order.Perm s.dirty.addresses ∧
          t.flushAll.2.device.performed = s.device.performed ++ order.map s.due ∧
          (∀ r ∈ order, ∃ v, s.cached r = some v ∧ s.due r = .write r v) ∧
          t.flushAll.2.dirty = .empty) := by
  have htracked := hs.tracked
  refine ⟨fun hlive first last => by simp [flush, hlive], fun hlive => ⟨?_, ?_⟩⟩
  · exact flushed_flush hlive htracked
  · intro ranges t hok
    obtain ⟨done, hdone⟩ := (Discharged.refl hlive).flushes htracked ranges
    have ht := hdone.tracked htracked
    obtain ⟨written, left, hlast⟩ := flushed_flush hdone.live ht 0 Address.last
    have hfinal := hdone.flush hlast
    have hall : ∀ r, r ∉ t.flushAll.2.dirty := by
      intro r hr
      have hanswer : (t.flush 0 Address.last).1 = .ok () := hok
      rw [hanswer] at hlast
      obtain ⟨hmem, hnot⟩ := (hlast.mem_dirty (fun r hr => (AddressSet.mem_between.mp hr).1) r).mp hr
      rw [hlast.written_eq, AddressSet.between_eq_addresses ht.address] at hnot
      exact hnot hmem
    refine ⟨done ++ written, ?_, hfinal.performed, fun r hr => ?_, AddressSet.eq_empty hall⟩
    · refine (List.perm_ext_iff_of_nodup hfinal.nodup s.dirty.nodup_addresses).mpr fun r => ?_
      exact (hfinal.mem r).trans (and_iff_left (hall r))
    · obtain ⟨v, hv⟩ := htracked.known r ((hfinal.mem r).mp hr).1
      exact ⟨v, hv, due_eq hv⟩

/-- Words wait in registers 1 to 3 of a memory to which the second access fails. -/
def waitingThree : Staging (Ledger (Probe Memory)) :=
  reached
    (.ofDevice (.ofDevice (.zeroed "dev" 16) fun transfers _ _ =>
      if transfers.length = 1 then some (.reported "") else none))
    [⟨"A", .field [⟨1, 0, 8, 5, false⟩], 1⟩, ⟨"B", .constant 3 7, 2⟩, ⟨"C", .constant 2 6, 3⟩]
    [.setLive true]

/-- Two flushes of ranges, of which the second access is refused, and a flush of everything. -/
theorem discharges_waitingThree :
    let t := (waitingThree.performEach [.flush 2 3, .flush 0 2]).2
    t.flushAll.1 = .ok () ∧ ∃ order : List Nat, order.Perm [1, 2, 3] ∧
      t.flushAll.2.device.performed = waitingThree.device.performed ++ order.map waitingThree.due ∧
      (∀ r ∈ order, ∃ v, waitingThree.cached r = some v ∧ waitingThree.due r = .write r v) ∧
      t.flushAll.2.dirty = .empty := by
  intro t
  have hreachable : Reachable waitingThree := reachable_reached (by decide) rfl (by decide)
  have hok : t.flushAll.1 = .ok () := rfl
  exact ⟨hok, ((flush_discharges hreachable).2 rfl).2 [(2, 3), (0, 2)] hok⟩

end

end DeviceRegisters.Staging
