import DeviceRegisters.Proofs.Staging.Cached
import DeviceRegisters.Proofs.Staging.Coherence
import DeviceRegisters.Proofs.Staging.Pending

/-!
# DeviceRegisters.Proofs.Staging.Batches

What batches do to the device, also one inside another.

However a batch ends, everything that is pending then is flushed, and how that goes is
reported or logged (`batch_flushes`).  This holds of a nested batch as well: its end
flushes what the outer batch has staged, and leaves live mode (`touched_by_nested_commit`).
Until some batch ends, and again from the beginning of the next one, nothing reaches the
device (`untouched_until_ended`).
-/

namespace DeviceRegisters.Staging

open Device (Backend Ledger Memory Probe)

variable {β : Type} [Backend β] {s : Staging β}

/-! ## inside a batch -/

/-- What the body of a batch is made of: accesses, and nested batches. -/
def Operation.InBatch : Operation → Prop
  | .setLive _ | .flush _ _ => False
  | _ => True

/-- An operation that ends a batch. -/
def Operation.Ends : Operation → Prop
  | .commit | .drop => True
  | _ => False

instance : DecidablePred Operation.InBatch
  | .setLive _ | .flush _ _ => .isFalse id
  | .write _ _ | .read _ | .writeRegister _ _ | .readRegister _ | .beginBatch | .commit | .drop =>
    .isTrue trivial

/-- What a batch is made of stays in cached mode, unless it ends a batch. -/
theorem Operation.InBatch.stays {operation : Operation} (h : operation.InBatch)
    (hends : ¬ operation.Ends) : operation.Stays := by
  cases operation with
  | write name value => exact .inl trivial
  | read name => exact .inl trivial
  | writeRegister register word => exact .inl trivial
  | readRegister register => exact .inl trivial
  | setLive live => exact h.elim
  | flush first last => exact h.elim
  | beginBatch => exact .inr rfl
  | commit => exact absurd trivial hends
  | drop => exact absurd trivial hends

/-- When live mode is on inside a batch, a nested batch has ended, and none has begun since. -/
theorem ended_of_live {operations : List Operation} (hbody : ∀ operation ∈ operations, operation.InBatch)
    (hlive : (s.performEach operations).2.live = true) :
    (s.live = true ∧ .beginBatch ∉ operations) ∨
      ∃ first ending last, operations = first ++ ending :: last ∧ ending.Ends ∧
        .beginBatch ∉ last := by
  induction operations generalizing s with
  | nil => exact .inl ⟨hlive, List.not_mem_nil⟩
  | cons operation operations ih =>
      obtain ⟨hfirst, hrest⟩ := List.forall_mem_cons.mp hbody
      rcases ih hrest hlive with ⟨hmode, hnone⟩ | ⟨first, ending, last, hsplit, hends, hnone⟩
      · by_cases hends : operation.Ends
        · exact .inr ⟨[], operation, operations, rfl, hends, hnone⟩
        · rcases hfirst.stays hends with haccess | rfl
          · have hsame := (Keeps.mode s.live _ _).access haccess rfl
            refine .inl ⟨hsame.symm.trans hmode, ?_⟩
            rintro hmem
            rcases List.mem_cons.mp hmem with rfl | hmem
            · exact haccess
            · exact hnone hmem
          · exact absurd hmode Bool.false_ne_true
      · exact .inr ⟨operation :: first, ending, last, by rw [hsplit, List.cons_append], hends, hnone⟩

/-- Inside a batch nothing reaches the device before a nested batch ends.  After that, an
operation reaches it only if it ends a nested batch itself, or no other has begun since one
ended. -/
theorem untouched_until_ended {s : Staging (Ledger β)} {body : List Operation}
    (hbody : ∀ operation ∈ body, operation.InBatch) :
    (∀ before rest, body = before ++ rest → (∀ operation ∈ before, ¬ operation.Ends) →
      s.device.Untouched (s.beginBatch.performEach before).2.device) ∧
    ∀ before operation rest, body = before ++ operation :: rest →
      let t := (s.beginBatch.performEach before).2
      ¬ t.device.Untouched (t.perform operation).2.device →
        operation.Ends ∨ ∃ first ending last, before = first ++ ending :: last ∧ ending.Ends ∧
          .beginBatch ∉ last := by
  constructor
  · rintro before rest rfl hends
    refine untouched_performEach (s := s.beginBatch) rfl fun operation hmem => ?_
    exact (hbody operation (List.mem_append_left rest hmem)).stays (hends operation hmem)
  · rintro before operation rest rfl t htouched
    by_cases hends : operation.Ends
    · exact .inl hends
    · have hbefore : ∀ operation ∈ before, operation.InBatch := fun operation hmem =>
        hbody operation (List.mem_append_left _ hmem)
      have hstays := (hbody operation (List.mem_append_right before List.mem_cons_self)).stays hends
      cases hmode : t.live with
      | false => exact absurd (stays_perform hmode hstays).1 htouched
      | true =>
          rcases ended_of_live hbefore hmode with ⟨hlive, -⟩ | hended
          · exact absurd hlive Bool.false_ne_true
          · exact .inr hended

/-- The end of a nested batch flushes what was staged before it began, although the outer
batch has not ended. -/
theorem touched_by_nested_commit :
    let body : List Operation := [.write "A" 7, .beginBatch, .commit]
    (∀ operation ∈ body, operation.InBatch) ∧
      ¬ pendingFive.device.Untouched (pendingFive.beginBatch.performEach body).2.device := by
  decide

/-- A batch inside a batch: after the inner one is committed, a read in the outer one reaches the
device. -/
theorem untouched_pendingFive :
    let staged : List Operation := [.write "A" 7, .beginBatch, .read "A"]
    let body : List Operation := staged ++ [.commit, .readRegister 1, .beginBatch, .writeRegister 2 1]
    let t := (pendingFive.beginBatch.performEach (staged ++ [.commit])).2
    (∀ operation ∈ body, operation.InBatch) ∧
      pendingFive.device.Untouched (pendingFive.beginBatch.performEach staged).2.device ∧
      ¬ t.device.Untouched (t.perform (.readRegister 1)).2.device ∧
      ((Operation.readRegister 1).Ends ∨ ∃ first ending last,
        staged ++ [.commit] = first ++ ending :: last ∧ ending.Ends ∧ .beginBatch ∉ last) := by
  intro staged body t
  have hbody : ∀ operation ∈ body, operation.InBatch := by decide
  obtain ⟨huntouched, hended⟩ := untouched_until_ended (s := pendingFive) hbody
  have htouched : ¬ t.device.Untouched (t.perform (.readRegister 1)).2.device := by decide
  refine ⟨hbody, huntouched staged _ rfl ?_, htouched, hended _ _ _ rfl htouched⟩
  simp [staged, Operation.Ends]

/-! ## the end of a batch -/

/-- However a batch ends, live mode is on afterwards, and the registers that its body left
pending were written in ascending order up to the first that the device refused.  The
failure of that flush is the answer if the batch is committed; if it is dropped, it is only
logged.  A batch around a body is dropped if the body failed, and answers the body's error;
else it is committed. -/
theorem batch_flushes {α : Type} {body : Staging β → Except Error α × Staging β} (hs : Reachable s)
    (hbody : Leads s.beginBatch (body s.beginBatch).2) :
    let result := (body s.beginBatch).1
    let t := (body s.beginBatch).2
    ∃ written left answer after, Flushed t t.dirty.addresses written left answer after ∧
      t.commit = (answer, after) ∧
      (answer = .ok () → t.drop = after) ∧
      (∀ e, answer = .error e →
        t.drop = { after with device := Backend.note after.device (lossLine e) }) ∧
      (∀ e, result = .error e → s.batch body = (.error e, t.drop)) ∧
      (∀ value e, result = .ok value → answer = .error e → s.batch body = (.error e, after)) ∧
      (∀ value, result = .ok value → answer = .ok () → s.batch body = (.ok value, after)) := by
  intro result t
  have htracked : Tracked t := (hs.leads ((Leads.refl s).beginBatch.trans hbody)).tracked
  obtain ⟨written, left, hflushed⟩ := flushed_commit htracked
  have hbatch : s.batch body = t.close result := rfl
  rcases hcommit : t.commit with ⟨answer, after⟩
  rw [hcommit] at hflushed
  refine ⟨written, left, answer, after, hflushed, rfl, ?_, ?_, ?_, ?_, ?_⟩
  · rintro rfl
    rw [drop, hcommit]
  · rintro e rfl
    rw [drop, hcommit]
  · intro e hresult
    rw [hbatch, hresult, close]
  · rintro value e hresult rfl
    rw [hbatch, hresult, close, hcommit]
  · rintro value hresult rfl
    rw [hbatch, hresult, close, hcommit]

/-- Register 1 refuses to be written, in a nested batch and in the outer one.  The body's own
error, for a value that is too wide, is the answer of both. -/
theorem flushes_stuckMemory :
    let s := reached stuckMemory bitField [.setLive true]
    let body := fun t : Staging (Probe Memory) =>
      t.batch (·.performAll [.writeRegister 0 4, .writeRegister 1 9, .write "A" 1, .write "A" 2])
    let t := (body s.beginBatch).2
    t.dirty.addresses = [1, 2] ∧ s.batch body = (.error (.valueTooWide "A" 2 1), t.drop) ∧
      ∃ written left answer after, Flushed t t.dirty.addresses written left answer after ∧
        t.commit = (answer, after) := by
  intro s body t
  have hreachable : Reachable s := reachable_reached (by decide) rfl (by decide)
  have hbody : Leads s.beginBatch (body s.beginBatch).2 :=
    Leads.batch ((Leads.refl _).performAll (by decide))
  obtain ⟨written, left, answer, after, hflushed, hcommit, -, -, herror, -⟩ :=
    batch_flushes hreachable hbody
  exact ⟨rfl, herror _ rfl, written, left, answer, after, hflushed, hcommit⟩

end DeviceRegisters.Staging
