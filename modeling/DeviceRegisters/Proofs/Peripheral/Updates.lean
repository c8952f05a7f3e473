import Mathlib
import DeviceRegisters.Proofs.Peripheral.FieldAnswers

/-!
# DeviceRegisters.Proofs.Peripheral.Updates

Writing several fields of a register at once, and one after the other.

Both store the same word (`stored_writeFields`, `stored_writeEach`): the snapshot's after all
sets.  The peripherals that come out are alike, and peripherals that are alike answer every
operation alike and stay so (`agree_perform`), so that nothing tells them apart.  What differs is
the cost, and what happens when an update is refused: at once, nothing is written
(`writeFields_all_or_none`).
-/

namespace DeviceRegisters.Peripheral

open Device (Answers Backend HasWords Ledger)
open Directory (Handle RegisterView)

variable {β : Type} [Backend β] {wordAt : β → Nat → UInt32} {good : β → Prop}
  {p q t : Peripheral β} {r : Handle} {word : UInt32} {updates : List (String × UInt64)}

/-! ## peripherals that are alike -/

/-- Two peripherals in good states have the same words and remember the same. -/
structure Alike (wordAt : β → Nat → UInt32) (good : β → Prop) (p q : Peripheral β) : Prop where
  left : good p.device
  right : good q.device
  words : ∀ b, wordAt p.device b = wordAt q.device b
  shadow : p.shadow = q.shadow

/-- Two operations answered the same, and left alike what they were performed on. -/
structure Agree {α : Type} (wordAt : β → Nat → UInt32) (good : β → Prop)
    (x y : Except Error α × Peripheral β) : Prop where
  answer : x.1 = y.1
  alike : Alike wordAt good x.2 y.2

omit [Backend β] in
/-- They both failed with one error, or succeeded with one answer. -/
theorem Agree.cases {α : Type} {x y : Except Error α × Peripheral β}
    (h : Agree wordAt good x y) :
    (∃ e p q, x = (.error e, p) ∧ y = (.error e, q) ∧ Alike wordAt good p q) ∨
      ∃ a p q, x = (.ok a, p) ∧ y = (.ok a, q) ∧ Alike wordAt good p q := by
  obtain ⟨answer, p⟩ := x
  obtain ⟨other, q⟩ := y
  obtain rfl : answer = other := h.answer
  cases answer with
  | error e => exact .inl ⟨e, p, q, rfl, rfl, h.alike⟩
  | ok a => exact .inr ⟨a, p, q, rfl, rfl, h.alike⟩

omit [Backend β] in
/-- Answers that agree agree when they are turned into others. -/
theorem Agree.map {α γ : Type} {x y : Except Error α × Peripheral β}
    (h : Agree wordAt good x y) (f : α → γ) :
    Agree wordAt good (x.1.map f, x.2) (y.1.map f, y.2) := ⟨congrArg (Except.map f) h.answer, h.alike⟩

/-- Registers are read alike. -/
theorem agree_read (hwords : HasWords wordAt) (hr : Answers good r.address)
    (h : Alike wordAt good p q) : Agree wordAt good (p.read r) (q.read r) := by
  obtain ⟨word, p', hp, hleft⟩ := read_answered hr h.left
  obtain ⟨other, q', hq, hright⟩ := read_answered hr h.right
  have hkept := kept_of_read hp
  have hkept' := kept_of_read hq
  have hanswer : word = other := by
    by_cases hpulse : r.view.access = .writePulse
    · simp only [read, hpulse, Prod.mk.injEq, Except.ok.injEq] at hp hq
      rw [← hp.1, ← hq.1]
    · rw [held_of_read hwords hpulse hp, held_of_read hwords hpulse hq, held, held, h.shadow, h.words]
  rw [hp, hq, hanswer]
  refine ⟨rfl, hleft, hright, fun b => ?_, ?_⟩
  · rw [hkept.wordAt_eq hwords, hkept'.wordAt_eq hwords, h.words]
  · rw [hkept.rest, hkept'.rest]
    exact h.shadow

/-- They are written alike. -/
theorem agree_write (hwords : HasWords wordAt) (hr : Answers good r.address)
    (h : Alike wordAt good p q) (word : UInt32) :
    Agree wordAt good (p.write r word) (q.write r word) := by
  by_cases haccess : r.view.access = .readOnly
  · rw [write_readOnly haccess, write_readOnly haccess]
    exact ⟨rfl, h⟩
  · obtain ⟨p', hp, hwrote, hleft⟩ := write_answered hr h.left haccess word
    obtain ⟨q', hq, hwrote', hright⟩ := write_answered hr h.right haccess word
    rw [hp, hq]
    refine ⟨rfl, hleft, hright, fun b => ?_, ?_⟩
    · rw [hwrote.wordAt_eq hwords, hwrote'.wordAt_eq hwords, h.words]
    · rw [hwrote.rest, hwrote'.rest, h.shadow]

/-- Fields are read alike. -/
theorem agree_readField (hwords : HasWords wordAt) (hr : Answers good r.address)
    (h : Alike wordAt good p q) (name : String) :
    Agree wordAt good (p.readField r name) (q.readField r name) := by
  simp only [readField]
  split
  · exact ⟨rfl, h⟩
  · obtain ⟨e, p', q', hp, hq, hnext⟩ | ⟨word, p', q', hp, hq, hnext⟩ :=
      (agree_read hwords hr h).cases
    all_goals
      rw [hp, hq]
      exact ⟨rfl, hnext⟩

/-- So are fields as signed numbers. -/
theorem agree_readSigned (hwords : HasWords wordAt) (hr : Answers good r.address)
    (h : Alike wordAt good p q) (name : String) :
    Agree wordAt good (p.readSigned r name) (q.readSigned r name) := by
  simp only [readSigned]
  split
  · exact ⟨rfl, h⟩
  · obtain ⟨e, p', q', hp, hq, hnext⟩ | ⟨word, p', q', hp, hq, hnext⟩ :=
      (agree_readField hwords hr h name).cases
    all_goals
      rw [hp, hq]
      exact ⟨rfl, hnext⟩

/-- Snapshots are taken alike. -/
theorem agree_snapshot (hwords : HasWords wordAt) (hr : Answers good r.address)
    (h : Alike wordAt good p q) (seed : Seed) :
    Agree wordAt good (p.snapshot r seed) (q.snapshot r seed) := by
  cases seed with
  | zero => exact ⟨rfl, h⟩
  | current =>
      obtain ⟨e, p', q', hp, hq, hnext⟩ | ⟨word, p', q', hp, hq, hnext⟩ :=
        (agree_read hwords hr h).cases
      all_goals
        simp only [snapshot, hp, hq]
        exact ⟨rfl, hnext⟩

/-- Registers are described alike. -/
theorem agree_describe (hwords : HasWords wordAt) (hr : Answers good r.address)
    (h : Alike wordAt good p q) : Agree wordAt good (p.describe r) (q.describe r) := by
  obtain ⟨e, p', q', hp, hq, hnext⟩ | ⟨s, p', q', hp, hq, hnext⟩ :=
    (agree_snapshot hwords hr h .current).cases
  all_goals
    simp only [describe, hp, hq]
    exact ⟨rfl, hnext⟩

/-- Fields are written alike, or refused alike. -/
theorem agree_writeFields (hwords : HasWords wordAt) (hr : Answers good r.address)
    (h : Alike wordAt good p q) (seed : Seed) (updates : List (String × UInt64)) :
    Agree wordAt good (p.writeFields r seed updates) (q.writeFields r seed updates) := by
  obtain ⟨e, p', q', hp, hq, hnext⟩ | ⟨s, p', q', hp, hq, hnext⟩ :=
    (agree_snapshot hwords hr h seed).cases
  · simp only [writeFields, hp, hq]
    exact ⟨rfl, hnext⟩
  · simp only [writeFields, hp, hq]
    split
    · exact ⟨rfl, hnext⟩
    · exact agree_write hwords hr hnext _

/-- So is a single field. -/
theorem agree_writeField (hwords : HasWords wordAt) (hr : Answers good r.address)
    (h : Alike wordAt good p q) (name : String) (value : UInt64) :
    Agree wordAt good (p.writeField r name value) (q.writeField r name value) := by
  rw [writeField_eq_writeFields, writeField_eq_writeFields]
  exact agree_writeFields hwords hr h .current _

/-- Peripherals that are alike answer an operation alike, and stay alike. -/
theorem agree_perform (hwords : HasWords wordAt) {operation : Operation}
    (hr : Answers good operation.register.address) (h : Alike wordAt good p q) :
    Agree wordAt good (p.perform operation) (q.perform operation) := by
  cases operation with
  | read r => exact (agree_read hwords hr h).map _
  | write r word => exact (agree_write hwords hr h word).map _
  | readField r name => exact (agree_readField hwords hr h name).map _
  | readSigned r name => exact (agree_readSigned hwords hr h name).map _
  | writeField r name value => exact (agree_writeField hwords hr h name value).map _
  | writeFields r seed updates => exact (agree_writeFields hwords hr h seed updates).map _
  | snapshot r seed => exact (agree_snapshot hwords hr h seed).map _
  | commit r s => exact (agree_write hwords hr h s.word).map _
  | describe r => exact (agree_describe hwords hr h).map _

/-- So do runs of operations. -/
theorem answers_performEach (hwords : HasWords wordAt) {operations : List Operation}
    (hrs : ∀ operation ∈ operations, Answers good operation.register.address)
    (h : Alike wordAt good p q) : (p.performEach operations).1 = (q.performEach operations).1 := by
  induction operations generalizing p q with
  | nil => rfl
  | cons operation operations ih =>
      obtain ⟨hfirst, hlater⟩ := List.forall_mem_cons.mp hrs
      obtain ⟨hanswer, hnext⟩ := agree_perform hwords hfirst h
      simp only [performEach]
      rw [hanswer, ih hlater hnext]

/-! ## updates -/

/-- A snapshot of the word that a register holds, after updates. -/
def updated (wordAt : β → Nat → UInt32) (p : Peripheral β) (r : Handle)
    (updates : List (String × UInt64)) : Snapshot :=
  Snapshot.setEach ⟨r.view, p.held wordAt r⟩ updates

omit [Backend β] in
/-- Of two words stored in a register the second one stays. -/
theorem Stored.trans {later : UInt32} (h : Stored wordAt r word p q)
    (h' : Stored wordAt r later q t) : Stored wordAt r later p t where
  words b := by
    rw [h'.words, h.words]
    split <;> rfl
  shadow := by
    rw [h'.shadow, h.shadow]
    split
    · rw [WordTable.insert_insert]
    · rfl

omit [Backend β] in
/-- Peripherals are alike when one word was stored in a register of one peripheral. -/
theorem Stored.alike (h : Stored wordAt r word p q) (h' : Stored wordAt r word p t)
    (hq : good q.device) (ht : good t.device) : Alike wordAt good q t :=
  ⟨hq, ht, fun b => by rw [h.words, h'.words], by rw [h.shadow, h'.shadow]⟩

/-- Reading a register before a word is stored makes no difference. -/
theorem Kept.stored (hwords : HasWords wordAt) (h : Kept r p q) (h' : Stored wordAt r word q t) :
    Stored wordAt r word p t where
  words b := by rw [h'.words, h.wordAt_eq hwords]
  shadow := by rw [h'.shadow, h.rest]

/-- Updates at once that are all taken store the word of the snapshot. -/
theorem stored_writeFields (hwords : HasWords wordAt) (hr : Answers good r.address)
    (hp : good p.device) (hpulse : r.view.access ≠ .writePulse)
    (hwritable : r.view.access ≠ .readOnly)
    (htakes : ∀ update ∈ updates, ∃ f, r.view.Takes update.1 update.2 f) :
    ∃ next q, p.read r = (.ok (p.held wordAt r), next) ∧
      next.write r (p.updated wordAt r updates).word = (.ok (), q) ∧
      p.writeFields r .current updates = (.ok (), q) ∧
      Stored wordAt r (p.updated wordAt r updates).word p q ∧ good q.device := by
  obtain ⟨word, next, hread, hnext⟩ := read_answered hr hp
  obtain rfl := held_of_read hwords hpulse hread
  obtain ⟨q, hwrite, hwrote, hq⟩ :=
    write_answered hr hnext hwritable (p.updated wordAt r updates).word
  have hset := Snapshot.setAll_of_takes (s := ⟨r.view, p.held wordAt r⟩) htakes
  refine ⟨next, q, hread, hwrite, ?_, (kept_of_read hread).stored hwords (hwrote.stored hwords), hq⟩
  simp only [writeFields, snapshot, hread, hset]
  exact hwrite

/-- Updates one after the other that are all taken store the same word. -/
theorem stored_writeEach (hwords : HasWords wordAt) (hr : Answers good r.address)
    (hp : good p.device) (hpulse : r.view.access ≠ .writePulse)
    (hwritable : r.view.access ≠ .readOnly)
    (htakes : ∀ update ∈ updates, ∃ f, r.view.Takes update.1 update.2 f) (hne : updates ≠ []) :
    let run := p.performEach (updates.map fun update => .writeField r update.1 update.2)
    (∀ answer ∈ run.1, answer = .ok .done) ∧
      Stored wordAt r (p.updated wordAt r updates).word p run.2 ∧ good run.2.device := by
  induction updates generalizing p with
  | nil => exact absurd rfl hne
  | cons update more ih =>
      obtain ⟨name, value⟩ := update
      obtain ⟨hfirst, hmore⟩ := List.forall_mem_cons.mp htakes
      have hone : ∀ update ∈ [(name, value)], ∃ f, r.view.Takes update.1 update.2 f :=
        List.forall_mem_singleton.mpr hfirst
      obtain ⟨-, q, -, -, hwrite, hstored, hq⟩ :=
        stored_writeFields hwords hr hp hpulse hwritable hone
      rw [← writeField_eq_writeFields] at hwrite
      simp only [List.map_cons, performEach, perform, hwrite, List.forall_mem_cons]
      cases more with
      | nil => exact ⟨⟨rfl, by simp [performEach]⟩, hstored, hq⟩
      | cons next more =>
          obtain ⟨hanswers, hlast, hgood⟩ := ih hq hmore (List.cons_ne_nil _ _)
          refine ⟨⟨rfl, hanswers⟩, ?_, hgood⟩
          -- the snapshot goes on from the word that was stored for the first update
          have hword : q.updated wordAt r (next :: more) =
              p.updated wordAt r ((name, value) :: next :: more) := by
            have hview : (p.updated wordAt r [(name, value)]).view = r.view :=
              Snapshot.view_setEach _ _
            rw [updated, hstored.held_eq, ← hview]
            rfl
          rw [hword] at hlast
          exact hstored.trans hlast

/-- Updates at once of which one is refused write nothing. -/
theorem writeFields_of_refuses {q : Peripheral β} {e : Error} {name : String} {value : UInt64}
    {before : List (String × UInt64)} (hread : p.read r = (.ok word, q))
    (hbefore : ∀ update ∈ before, ∃ f, r.view.Takes update.1 update.2 f)
    (hrefuses : r.view.Refuses name value e) (after : List (String × UInt64)) :
    p.writeFields r .current (before ++ (name, value) :: after) = (.error e, q) := by
  have hset := Snapshot.setAll_of_refuses (s := ⟨r.view, word⟩) hbefore hrefuses after
  simp only [writeFields, snapshot, hread, hset]

/-- Of updates either all are taken or a first one is refused. -/
theorem all_take_or_first_refuses (v : RegisterView) (updates : List (String × UInt64)) :
    (∀ update ∈ updates, ∃ f, v.Takes update.1 update.2 f) ∨
      ∃ before name value after e, updates = before ++ (name, value) :: after ∧
        (∀ update ∈ before, ∃ f, v.Takes update.1 update.2 f) ∧ v.Refuses name value e := by
  induction updates with
  | nil => exact .inl fun _ h => absurd h List.not_mem_nil
  | cons update updates ih =>
      obtain ⟨name, value⟩ := update
      obtain htakes | ⟨e, hrefuses⟩ := v.takes_or_refuses name value
      · obtain hall | ⟨before, other, word, after, e, rfl, hbefore, hrefuses⟩ := ih
        · exact .inl (List.forall_mem_cons.mpr ⟨htakes, hall⟩)
        · exact .inr ⟨(name, value) :: before, other, word, after, e, rfl,
            List.forall_mem_cons.mpr ⟨htakes, hbefore⟩, hrefuses⟩
      · exact .inr ⟨[], name, value, updates, e, rfl, fun _ h => absurd h List.not_mem_nil, hrefuses⟩

/-- Updates of a register that is read from the device and written, or only written, on a device
that has words and none of whose accesses fail.  If all of them can be taken, then making them at
once costs the read of the register, if that is one from the device, and a single write; and the
words, what is remembered and all answers to come are as after making them one after the other.
If not, the error is that of the first update that is refused; nothing is written, and words and
memory stay as they were. -/
theorem writeFields_all_or_none {p : Peripheral (Ledger β)} (hwords : HasWords wordAt)
    (hr : Answers good r.address) (hp : good p.device.inner)
    (haccess : r.view.access = .readWrite ∨ r.view.access = .writeOnly)
    (updates : List (String × UInt64)) :
    let together := p.writeFields r .current updates
    let apart := p.performEach (updates.map fun update => .writeField r update.1 update.2)
    ((∀ update ∈ updates, ∃ f, r.view.Takes update.1 update.2 f) →
      together.1 = .ok () ∧
      (∃ word, p.device.Made (asked r ++ [.write r.address word]) together.2.device) ∧
      (updates ≠ [] →
        (∀ answer ∈ apart.1, answer = .ok .done) ∧
        (∀ b, wordAt together.2.device.inner b = wordAt apart.2.device.inner b) ∧
        together.2.shadow = apart.2.shadow ∧
        ∀ operations : List Operation,
          (∀ operation ∈ operations, Answers good operation.register.address) →
          (together.2.performEach operations).1 = (apart.2.performEach operations).1)) ∧
    (¬ (∀ update ∈ updates, ∃ f, r.view.Takes update.1 update.2 f) →
      ∃ before name value after e, updates = before ++ (name, value) :: after ∧
        (∀ update ∈ before, ∃ f, r.view.Takes update.1 update.2 f) ∧
        r.view.Refuses name value e ∧ together.1 = .error e ∧
        p.device.Made (asked r) together.2.device ∧ together.2.shadow = p.shadow ∧
        ∀ b, wordAt together.2.device.inner b = wordAt p.device.inner b) := by
  intro together apart
  have hwords := Device.hasWords_ledger hwords
  have hr' := Device.answers_ledger hr
  have hmode : r.view.access ≠ .writePulse ∧ r.view.access ≠ .readOnly := by
    rcases haccess with haccess | haccess
    all_goals
      rw [haccess]
      exact ⟨nofun, nofun⟩
  obtain ⟨hpulse, hwritable⟩ := hmode
  constructor
  · intro htakes
    obtain ⟨next, q, hread, hwrite, htogether, hstored, hq⟩ :=
      stored_writeFields hwords hr' hp hpulse hwritable htakes
    obtain ⟨hanswer, hafter⟩ : together.1 = .ok () ∧ together.2 = q :=
      ⟨congrArg Prod.fst htogether, congrArg Prod.snd htogether⟩
    rw [hafter]
    refine ⟨hanswer, ⟨_, (made_of_read hread).trans (made_of_write hwrite)⟩, fun hne => ?_⟩
    obtain ⟨hanswers, hlast, hgood⟩ :=
      stored_writeEach hwords hr' hp hpulse hwritable htakes hne
    have halike : Alike (fun l : Ledger β => wordAt l.inner) (fun l => good l.inner) q apart.2 :=
      hstored.alike hlast hq hgood
    exact ⟨hanswers, halike.words, halike.shadow, fun operations hoperations =>
      answers_performEach hwords (fun operation hmem =>
        Device.answers_ledger (hoperations operation hmem)) halike⟩
  · intro hnot
    obtain ⟨before, name, value, after, e, rfl, hbefore, hrefuses⟩ :=
      (all_take_or_first_refuses r.view updates).resolve_left hnot
    obtain ⟨word, q, hread, -⟩ := read_answered hr' hp
    have htogether := writeFields_of_refuses hread hbefore hrefuses after
    obtain ⟨hanswer, hafter⟩ : together.1 = .error e ∧ together.2 = q :=
      ⟨congrArg Prod.fst htogether, congrArg Prod.snd htogether⟩
    have hkept := kept_of_read hread
    rw [hafter]
    exact ⟨before, name, value, after, e, rfl, hbefore, hrefuses, hanswer, made_of_read hread,
      by rw [hkept.rest], hkept.wordAt_eq hwords⟩

/-- Three updates of a register are one read and one write, and leave the words that they leave one
after the other; updates of which the second is refused are the read only. -/
theorem writeFields_mixed :
    ∃ flat g d, ((Session.start false).loadEach Directory.mixed).2.flatten = .ok flat ∧
      g ∈ flat.groups ∧ Directory.ofGroup g = .ok d ∧
      d.Has (.register Directory.mixedRegister) ∧
      let p := ofDirectory d (Ledger.ofDevice (Device.Memory.zeroed "G" 1))
      let r := Directory.mixedRegister
      let apart := p.performEach [.writeField r "F" 3, .writeField r "M" 9, .writeField r "F" 5]
      (∃ word, p.device.Made [.read 0, .write 0 word]
        (p.writeFields r .current [("F", 3), ("M", 9), ("F", 5)]).2.device) ∧
      (∀ b, Device.Memory.wordAt
          (p.writeFields r .current [("F", 3), ("M", 9), ("F", 5)]).2.device.inner b =
        Device.Memory.wordAt apart.2.device.inner b) ∧
      (p.writeFields r .current [("F", 3), ("K", 1), ("M", 16)]).1 = .error (.readOnly "A.K") ∧
      p.device.Made [.read 0]
        (p.writeFields r .current [("F", 3), ("K", 1), ("M", 16)]).2.device := by
  obtain ⟨flat, g, d, hflat, hg, hd, hhas⟩ := Directory.exists_mixed
  have hboth (updates : List (String × UInt64)) := writeFields_all_or_none
    (p := ofDirectory d (Ledger.ofDevice (Device.Memory.zeroed "G" 1)))
    (r := Directory.mixedRegister) Device.hasWords_memory
    (Device.answers_memory (by decide)) (Eq.refl 1) (.inl rfl) updates
  have htakes : ∀ update ∈ [("F", (3 : UInt64)), ("M", 9), ("F", 5)],
      ∃ f, Directory.mixedRegister.view.Takes update.1 update.2 f := by
    simp only [List.forall_mem_cons, ← RegisterView.accepts_iff]
    exact ⟨by decide, by decide, by decide, fun _ h => absurd h List.not_mem_nil⟩
  have hrefuses : Directory.mixedRegister.view.Refuses "K" 1 (.readOnly "A.K") :=
    .readOnly rfl rfl
  have hnot : ¬ ∀ update ∈ [("F", (3 : UInt64)), ("K", 1), ("M", 16)],
      ∃ f, Directory.mixedRegister.view.Takes update.1 update.2 f := fun hall =>
    have ⟨_, hK⟩ := hall ("K", 1) (by decide)
    hrefuses.not_takes hK
  obtain ⟨-, hmade, hapart⟩ := (hboth _).1 htakes
  obtain ⟨before, name, value, after, e, hupdates, hbefore, hfirst, hanswer, hread, -⟩ :=
    (hboth _).2 hnot
  refine ⟨flat, g, d, hflat, hg, hd, hhas, hmade, (hapart (List.cons_ne_nil _ _)).2.1, ?_, hread⟩
  -- `F` takes its value and `K` does not, so that `K` is the one refused first
  rw [hanswer]
  match before, hupdates, hbefore with
  | [], hupdates, _ =>
      simp only [List.nil_append, List.cons.injEq, Prod.mk.injEq] at hupdates
      obtain ⟨⟨rfl, rfl⟩, -⟩ := hupdates
      have ⟨_, hF⟩ := htakes ("F", 3) (by decide)
      exact absurd hF hfirst.not_takes
  | [_], hupdates, _ =>
      simp only [List.cons_append, List.nil_append, List.cons.injEq, Prod.mk.injEq] at hupdates
      obtain ⟨-, ⟨rfl, rfl⟩, -⟩ := hupdates
      exact congrArg (Except.error (α := Unit)) (Snapshot.eq_of_refuses hfirst hrefuses)
  | _ :: second :: _, hupdates, hbefore =>
      simp only [List.cons_append, List.cons.injEq] at hupdates
      obtain ⟨-, rfl, -⟩ := hupdates
      have ⟨_, hK⟩ := hbefore ("K", 1) (by simp)
      exact absurd hK hrefuses.not_takes

end DeviceRegisters.Peripheral
