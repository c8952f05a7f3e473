import Mathlib
import DeviceRegisters.Peripheral.Operation
import DeviceRegisters.Proofs.Directory.Bounds
import DeviceRegisters.Proofs.Session

/-!
# DeviceRegisters.Proofs.Peripheral.Range

Operations on registers that the device has never fail with the device.

An operation accesses the address of its register only; if the device answers
there, it goes on answering (`unharmed_perform`).  A memory answers at the
addresses it has (`answers_memory`), and the registers of a group that was loaded
and expanded are below the group's span.
-/

namespace DeviceRegisters

/-! ## devices that answer -/

/-- In good states of the device every access to the address succeeds and leads to
a good state. -/
structure Device.Answers {β : Type} [Device.Backend β] (good : β → Prop) (address : Nat) : Prop where
  read : ∀ device, good device →
    ∃ word next, Backend.read device address = (.ok word, next) ∧ good next
  write : ∀ device word, good device →
    ∃ next, Backend.write device address word = (.ok (), next) ∧ good next
  note : ∀ (device : β) line, good device → good (Backend.note device line)

/-- A memory answers at the addresses it has. -/
theorem Device.answers_memory {size address : Nat} (h : address < size) :
    Device.Answers (fun m : Device.Memory => m.size = size) address where
  read m hm := by
    have hlt : address < m.words.size := by
      rw [← hm] at h
      exact h
    have hword : m.words[address]? = some m.words[address] := Array.getElem?_eq_getElem hlt
    refine ⟨m.words[address], m.note (traceLine m.name address .read m.words[address]), ?_, hm⟩
    simp only [Backend.read, Memory.read, hword]
  write m word hm := by
    have hlt : address < m.words.size := by
      rw [← hm] at h
      exact h
    have hanswer : (m.write address word).1 = .ok () := by simp only [Memory.write, dif_pos hlt]
    exact ⟨(m.write address word).2, by rw [← hanswer]; rfl, by rw [Memory.size_write, hm]⟩
  note m line hm := hm

namespace Peripheral

open Directory (Handle)
open Device (Answers)

variable {β : Type} {α α' : Type} {good : β → Prop}

/-- An operation did not fail with the device, and left it in a good state. -/
structure Unharmed (good : β → Prop) (x : Except Error α × Peripheral β) : Prop where
  device : good x.2.device
  answer : ∀ e, x.1 = .error e → ∀ fault, e ≠ .device fault

/-- An error stays one in an operation with another kind of answers. -/
theorem Unharmed.error {e : Error} {p : Peripheral β}
    (h : Unharmed good ((.error e, p) : Except Error α × Peripheral β)) :
    Unharmed good ((.error e, p) : Except Error α' × Peripheral β) where
  device := h.device
  answer _ he := h.answer _ (by rw [Except.error.inj he])

theorem Unharmed.ok {a : α} {p : Peripheral β} (h : good p.device) :
    Unharmed good ((.ok a, p) : Except Error α × Peripheral β) := ⟨h, nofun⟩

/-- An answer may be turned into another one. -/
theorem Unharmed.map {x : Except Error α × Peripheral β} (h : Unharmed good x) (f : α → α') :
    Unharmed good (x.1.map f, x.2) := by
  obtain ⟨answer, p⟩ := x
  cases answer with
  | error e => exact h.error
  | ok a => exact .ok h.device

/-- A refusal that is not the device's does no harm. -/
theorem Unharmed.refused {e : Error} {p : Peripheral β} (h : good p.device)
    (he : ∀ fault, e ≠ .device fault) :
    Unharmed good ((.error e, p) : Except Error α × Peripheral β) where
  device := h
  answer _ heq := by
    obtain rfl := Except.error.inj heq
    exact he

section

variable [Device.Backend β] {p : Peripheral β} {r : Handle}

/-! ## registers -/

/-- Where the device answers, reading a register does no harm. -/
theorem unharmed_read (hr : Answers good r.address) (hp : good p.device) :
    Unharmed good (p.read r) := by
  obtain ⟨word, next, hread, hnext⟩ := hr.read p.device hp
  simp only [read]
  split
  · rw [hread]
    exact .ok (hr.note _ _ hnext)
  · rw [hread]
    exact .ok (hr.note _ _ hnext)
  · exact .ok hp
  · exact .ok hp

/-- Nor does writing it. -/
theorem unharmed_write (hr : Answers good r.address) (hp : good p.device) (word : UInt32) :
    Unharmed good (p.write r word) := by
  obtain ⟨next, hwrite, hnext⟩ :=
    hr.write (Device.Backend.note p.device (line r .write word)) word (hr.note _ _ hp)
  simp only [write]
  split
  · rw [hwrite]
    exact .ok hnext
  · exact .refused hp nofun

/-! ## fields -/

/-- Nor does reading a field. -/
theorem unharmed_readField (hr : Answers good r.address) (hp : good p.device) (name : String) :
    Unharmed good (p.readField r name) := by
  have hread := unharmed_read hr hp
  simp only [readField]
  split
  · exact .refused hp nofun
  · generalize p.read r = first at hread
    obtain ⟨_ | word, q⟩ := first
    · exact hread.error
    · exact .ok hread.device

/-- Nor does reading it as a signed number. -/
theorem unharmed_readSigned (hr : Answers good r.address) (hp : good p.device) (name : String) :
    Unharmed good (p.readSigned r name) := by
  have hread := unharmed_readField hr hp name
  simp only [readSigned]
  split
  · exact .refused hp nofun
  · generalize p.readField r name = first at hread
    obtain ⟨_ | bits, q⟩ := first
    · exact hread.error
    · exact .ok hread.device

/-- Nor does taking a snapshot. -/
theorem unharmed_snapshot (hr : Answers good r.address) (hp : good p.device) (seed : Seed) :
    Unharmed good (p.snapshot r seed) := by
  cases seed with
  | zero => exact .ok hp
  | current =>
      have hread := unharmed_read hr hp
      simp only [snapshot]
      generalize p.read r = first at hread
      obtain ⟨_ | word, q⟩ := first
      · exact hread.error
      · exact .ok hread.device

/-- A change to a snapshot does not ask the device. -/
theorem ne_device_of_set {s : Snapshot} {name : String} {value : UInt64} {e : Error}
    (h : s.set name value = .error e) : ∀ fault, e ≠ .device fault := by
  simp only [Snapshot.set] at h
  split at h
  · obtain rfl := Except.error.inj h
    nofun
  · split at h
    · split at h
      · contradiction
      · obtain rfl := Except.error.inj h
        nofun
    · obtain rfl := Except.error.inj h
      nofun

/-- A value that a snapshot refuses is not refused by a device. -/
theorem ne_device_of_setAll {s : Snapshot} {updates : List (String × UInt64)} {e : Error}
    (h : s.setAll updates = .error e) : ∀ fault, e ≠ .device fault := by
  induction updates generalizing s with
  | nil => contradiction
  | cons update updates ih =>
      simp only [Snapshot.setAll] at h
      cases hset : s.set update.1 update.2 with
      | error other =>
          rw [hset] at h
          obtain rfl := Except.error.inj h
          exact ne_device_of_set hset
      | ok next =>
          rw [hset] at h
          exact ih h

/-- Nor does writing fields. -/
theorem unharmed_writeFields (hr : Answers good r.address) (hp : good p.device) (seed : Seed)
    (updates : List (String × UInt64)) : Unharmed good (p.writeFields r seed updates) := by
  have hsnapshot := unharmed_snapshot hr hp seed
  simp only [writeFields]
  generalize p.snapshot r seed = first at hsnapshot
  obtain ⟨_ | s, q⟩ := first
  · exact hsnapshot.error
  · simp only
    split
    · next hset => exact .refused hsnapshot.device (ne_device_of_setAll hset)
    · exact unharmed_write hr hsnapshot.device _

/-- Nor does writing one field. -/
theorem unharmed_writeField (hr : Answers good r.address) (hp : good p.device) (name : String)
    (value : UInt64) : Unharmed good (p.writeField r name value) := by
  have hsnapshot := unharmed_snapshot hr hp .current
  simp only [writeField]
  generalize p.snapshot r .current = first at hsnapshot
  obtain ⟨_ | s, q⟩ := first
  · exact hsnapshot.error
  · simp only
    split
    · next hset => exact .refused hsnapshot.device (ne_device_of_set hset)
    · exact unharmed_write hr hsnapshot.device _

/-- Nor does describing a register. -/
theorem unharmed_describe (hr : Answers good r.address) (hp : good p.device) :
    Unharmed good (p.describe r) := by
  have hsnapshot := unharmed_snapshot hr hp .current
  simp only [describe]
  generalize p.snapshot r .current = first at hsnapshot
  obtain ⟨_ | s, q⟩ := first
  · exact hsnapshot.error
  · exact .ok hsnapshot.device

/-! ## runs of operations -/

/-- The register of an operation. -/
def Operation.register : Operation → Handle
  | .read r => r
  | .write r _ => r
  | .readField r _ => r
  | .readSigned r _ => r
  | .writeField r _ _ => r
  | .writeFields r _ _ => r
  | .snapshot r _ => r
  | .commit r _ => r
  | .describe r => r

/-- An operation at an address where the device answers does not fail with the
device. -/
theorem unharmed_perform (operation : Operation) (hr : Answers good operation.register.address)
    (hp : good p.device) : Unharmed good (p.perform operation) := by
  cases operation with
  | read r => exact (unharmed_read hr hp).map _
  | write r word => exact (unharmed_write hr hp word).map _
  | readField r name => exact (unharmed_readField hr hp name).map _
  | readSigned r name => exact (unharmed_readSigned hr hp name).map _
  | writeField r name value => exact (unharmed_writeField hr hp name value).map _
  | writeFields r seed updates => exact (unharmed_writeFields hr hp seed updates).map _
  | snapshot r seed => exact (unharmed_snapshot hr hp seed).map _
  | commit r s => exact (unharmed_write hr hp s.word).map _
  | describe r => exact (unharmed_describe hr hp).map _

/-- Nor does a run of operations at such addresses. -/
theorem ne_device_of_performEach {operations : List Operation}
    (hrs : ∀ operation ∈ operations, Answers good operation.register.address)
    (hp : good p.device) :
    ∀ answer ∈ (p.performEach operations).1, ∀ fault, answer ≠ .error (.device fault) := by
  induction operations generalizing p with
  | nil => exact fun _ hanswer => absurd hanswer List.not_mem_nil
  | cons operation operations ih =>
      obtain ⟨hfirst, hlater⟩ := List.forall_mem_cons.mp hrs
      have hstep := unharmed_perform operation hfirst hp
      refine List.forall_mem_cons.mpr ⟨?_, ih hlater hstep.device⟩
      exact fun fault hfault => hstep.answer _ hfault fault rfl

end

/-! ## loaded groups -/

/-- The directory of a group leads to registers below the group's span only. -/
structure InRange (g : Definition.Group) (d : Directory) : Prop where
  root : ∃ members, d.rootNode = .group g.name 0 g.head.span members
  /-- Whoever starts at the top and goes on by names and indices is always at a place
  of the directory. -/
  top : d.Has d.top
  follow : ∀ place segment next, d.Has place → d.follow place segment = .ok next → d.Has next
  resolve : ∀ path handle, d.resolve path = .ok (.register handle) →
    d.Has (.register handle) ∧ handle.address < g.head.span
  /-- A path that leads nowhere fails with a name, an index or a kind. -/
  failure : ∀ path e, d.resolve path = .error e → Directory.IsLookup e
  index : ∀ number view base count n, d.node? number = some (.bank view base count) →
    Directory.index (.node number (.bank view base count)) n =
      if count ≤ n then .error (.indexOutOfRange view.name n count)
      else .ok (.register ⟨number, base + n, view⟩)
  /-- On a memory that is large enough no run of operations fails with the device. -/
  run : ∀ (p : Peripheral Device.Memory) operations, p.directory = d →
    g.head.span ≤ p.device.size →
    (∀ operation ∈ operations, d.Has (.register operation.register)) →
    ∀ answer ∈ (p.performEach operations).1, ∀ fault, answer ≠ .error (.device fault)

/-- The directory of a group that is laid out leads to its registers only. -/
theorem inRange_of_ofGroup {library : Definition.Library} {g : Definition.Group} {d : Directory}
    (hg : g.LaidOut library) (h : Directory.ofGroup g = .ok d) : InRange g d := by
  have hbelow := Directory.below_of_ofGroup hg h
  have hlast := hg.span_le
  refine ⟨?root, Directory.has_top, ?follow, ?resolve, ?failure, ?index, ?run⟩
  case root =>
    rw [← hg.content.1]
    exact Directory.rootNode_of_ofGroup h
  case follow =>
    intro place segment next hplace hnext
    exact (Directory.outcome_follow hbelow hlast hplace segment).of_ok hnext
  case resolve =>
    intro path handle hhandle
    have hhas := (Directory.outcome_resolve hbelow hlast path).of_ok hhandle
    exact ⟨hhas, Directory.address_lt_of_has hbelow hhas⟩
  case failure =>
    intro path e he
    exact (Directory.outcome_resolve hbelow hlast path).of_error he
  case index =>
    intro number view base count n hnode
    exact Directory.index_bank hbelow hlast hnode n
  case run =>
    rintro p operations rfl hsize hoperations
    have hanswers : ∀ operation ∈ operations,
        Answers (fun m : Device.Memory => m.size = p.device.size) operation.register.address := by
      intro operation hoperation
      have haddress := Directory.address_lt_of_has hbelow (hoperations operation hoperation)
      exact Device.answers_memory (Nat.lt_of_lt_of_le haddress hsize)
    exact ne_device_of_performEach hanswers rfl

/-- Each group is bound to the device for it. -/
theorem ofGroup_of_bindAll {deviceFor : Definition.Group → β} {groups : List Definition.Group}
    {ps : List (Peripheral β)} {g : Definition.Group} {p : Peripheral β}
    (h : bindAll deviceFor groups = .ok ps) (hgp : (g, p) ∈ groups.zip ps) :
    ofGroup g (deviceFor g) = .ok p := by
  induction groups generalizing ps with
  | nil => simp at hgp
  | cons first groups ih =>
      simp only [bindAll, bind_eq_ok_iff] at h
      obtain ⟨q, hq, qs, hqs, hps⟩ := h
      obtain rfl := Except.ok.inj hps
      rw [List.zip_cons_cons] at hgp
      rcases List.mem_cons.mp hgp with heq | hgp
      · obtain ⟨rfl, rfl⟩ := Prod.mk.inj heq
        exact hq
      · exact ih hqs hgp

/-- Every peripheral that is bound to a group of loaded sources has the registers of
the group's span only. -/
theorem inRange_of_bindAll {warn : Bool} {sources : List Session.Source}
    {flat : Definition.FlatCatalog} {deviceFor : Definition.Group → β} {ps : List (Peripheral β)}
    {g : Definition.Group} {p : Peripheral β}
    (hflat : ((Session.start warn).loadEach sources).2.flatten = .ok flat)
    (hbind : bindAll deviceFor flat.groups = .ok ps) (hgp : (g, p) ∈ flat.groups.zip ps) :
    InRange g p.directory := by
  have hg : g.LaidOut [] := Session.laidOut_of_flatten hflat g (List.of_mem_zip hgp).1
  obtain ⟨directory, hdirectory, hp⟩ := bind_eq_ok_iff.mp (ofGroup_of_bindAll hbind hgp)
  obtain rfl := Except.ok.inj hp
  exact inRange_of_ofGroup hg hdirectory

/-- The group of `Session.sample` on a memory of its six addresses. -/
theorem inRange_sample :
    ∃ flat ps g p, ((Session.start false).loadEach Session.sample).2.flatten = .ok flat ∧
      bindAll (fun g => Device.Memory.zeroed g.name g.head.span) flat.groups = .ok ps ∧
      (g, p) ∈ flat.groups.zip ps ∧ g.head.span = 6 ∧ InRange g p.directory := by
  have hfirst : (((Session.start false).loadEach Session.sample).2.flatten.toOption.bind
      fun flat => (bindAll (fun g => Device.Memory.zeroed g.name g.head.span)
        flat.groups).toOption.bind fun ps => (flat.groups.zip ps)[0]?).map (·.1.head.span) =
      some 6 := by cbv
  obtain ⟨⟨g, p⟩, hfound, hspan⟩ := Option.map_eq_some_iff.mp hfirst
  obtain ⟨flat, hflat, hfound⟩ := Option.bind_eq_some_iff.mp hfound
  obtain ⟨ps, hps, hgp⟩ := Option.bind_eq_some_iff.mp hfound
  have hflatten := eq_ok_of_toOption hflat
  have hbind := eq_ok_of_toOption hps
  have hmem := List.mem_of_getElem? hgp
  exact ⟨flat, ps, g, p, hflatten, hbind, hmem, hspan, inRange_of_bindAll hflatten hbind hmem⟩

end Peripheral
end DeviceRegisters
