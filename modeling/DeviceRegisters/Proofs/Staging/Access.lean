import DeviceRegisters.Proofs.Packing.Registers
import DeviceRegisters.Staging.Operation

/-!
# DeviceRegisters.Proofs.Staging.Access

Everything a staging area does comes down to reading and writing single registers.

The equations of `readRegister` and `writeRegister` say what one access does in
each mode.  `Keeps.perform` lifts a property from accesses to operations: to show
that an operation keeps it, show that the accesses do which the operation may make.
`Keeps.defineAll` does so for the entries of a field list.
-/

namespace DeviceRegisters.Staging

open Device (Backend)

variable {β : Type} [Backend β] {s : Staging β} {register : Nat} {word : UInt32}

/-! ## single accesses -/

/-- In cached mode a read makes the register known, with what counts as its word anyway. -/
theorem readRegister_cached (h : s.live = false) (register : Nat) :
    ∃ cache : WordTable,
      s.readRegister register = (.ok (s.cache.getOrZero register), { s with cache }) ∧
        ∀ a, cache.get? a =
          if a = register then some (s.cache.getOrZero register) else s.cache.get? a := by
  cases hknown : s.cache.get? register with
  | some word =>
      have hread : s.readRegister register = (.ok word, s) := by simp [readRegister, h, hknown]
      refine ⟨s.cache, by rw [hread, WordTable.getOrZero_eq hknown], fun a => ?_⟩
      split
      · next ha => rw [ha, hknown, WordTable.getOrZero_eq hknown]
      · rfl
  | none =>
      refine ⟨s.cache.insert register 0, by simp [readRegister, h, hknown, WordTable.getOrZero], ?_⟩
      simp [WordTable.getOrZero, hknown]

/-- What counts as a register's word does not change when it becomes known. -/
theorem getOrZero_of_known {cache cache' : WordTable}
    (h : ∀ a, cache'.get? a = if a = register then some (cache.getOrZero register) else cache.get? a)
    (a : Nat) : cache'.getOrZero a = cache.getOrZero a := by
  rw [WordTable.getOrZero, h a]
  split
  · next ha => rw [ha, Option.getD_some]
  · rfl

/-- In live mode a read that succeeds makes the word known and pending no more. -/
theorem readRegister_ok (h : s.live = true) {device : β}
    (hread : Backend.read s.device register = (.ok word, device)) :
    s.readRegister register = (.ok word, { s with
      device
      cache := s.cache.insert register word
      dirty := s.dirty.erase register }) := by
  simp [readRegister, h, hread]

/-- One that fails changes nothing but the device. -/
theorem readRegister_error (h : s.live = true) {fault : Device.Fault} {device : β}
    (hread : Backend.read s.device register = (.error fault, device)) :
    s.readRegister register = (.error (.device fault), { s with device }) := by
  simp [readRegister, h, hread]

/-- In cached mode a write makes the word known and pending. -/
theorem writeRegister_cached (h : s.live = false) (register : Nat) (word : UInt32) :
    s.writeRegister register word = (.ok (), { s with
      device := Backend.note s.device (stageLine register word)
      cache := s.cache.insert register word
      dirty := s.dirty.insert register }) := by
  simp [writeRegister, h]

/-- In live mode a write that succeeds makes the word known and pending no more. -/
theorem writeRegister_ok (h : s.live = true) {device : β}
    (hwrite : Backend.write s.device register word = (.ok (), device)) :
    s.writeRegister register word = (.ok (), { s with
      device
      cache := s.cache.insert register word
      dirty := s.dirty.erase register }) := by
  simp [writeRegister, h, hwrite]

/-- One that fails makes the word known all the same. -/
theorem writeRegister_error (h : s.live = true) {fault : Device.Fault} {device : β}
    (hwrite : Backend.write s.device register word = (.error fault, device)) :
    s.writeRegister register word = (.error (.device fault), { s with
      device
      cache := s.cache.insert register word }) := by
  simp [writeRegister, h, hwrite]

/-- An access does not change the mode. -/
theorem live_readRegister (s : Staging β) (register : Nat) :
    (s.readRegister register).2.live = s.live := by
  simp only [readRegister]
  split
  · split <;> rfl
  · split <;> rfl

theorem live_writeRegister (s : Staging β) (register : Nat) (word : UInt32) :
    (s.writeRegister register word).2.live = s.live := by
  simp only [writeRegister]
  split
  · split <;> rfl
  · rfl

/-! ## which registers an operation accesses -/

/-- Whether a value may be written to a field. -/
def accepts (field : Packing.Assembly) (value : UInt64) : Bool :=
  !field.readOnly && Word.fits value field.width

/-- The registers that an operation gives a word to.  A write that is refused gives
none. -/
def writeTargets (s : Staging β) : Operation → List Nat
  | .write name value =>
    match s.field? name with
    | some field => if accepts field value then field.registers else []
    | none => []
  | .writeRegister register _ => [register]
  | _ => []

/-- The registers that an operation asks for their words.  Writing a field asks for
the words in which it stands. -/
def readTargets (s : Staging β) : Operation → List Nat
  | .read name => ((s.field? name).map (·.registers)).getD []
  | .readRegister register => [register]
  | operation => writeTargets s operation

/-- An operation that only reads or writes a field or a register. -/
def Operation.IsAccess : Operation → Prop
  | .write _ _ | .read _ | .writeRegister _ _ | .readRegister _ => True
  | _ => False

instance : DecidablePred Operation.IsAccess
  | .write _ _ | .read _ | .writeRegister _ _ | .readRegister _ => .isTrue trivial
  | .setLive _ | .flush _ _ | .beginBatch | .commit | .drop => .isFalse id

/-! ## properties kept by accesses -/

/-- Accesses in a mode keep a property, if they read and write certain registers
only. -/
structure Keeps (P : Staging β → Prop) (live : Bool) (reads writes : List Nat) : Prop where
  read : ∀ s register, s.live = live → register ∈ reads → P s → P (s.readRegister register).2
  write : ∀ s register word, s.live = live → register ∈ writes → P s →
    P (s.writeRegister register word).2

namespace Keeps

variable {P : Staging β → Prop} {live : Bool} {reads writes reads' writes' : List Nat}

/-- What more accesses keep fewer keep too. -/
theorem mono (h : Keeps P live reads writes) (hreads : reads' ⊆ reads) (hwrites : writes' ⊆ writes) :
    Keeps P live reads' writes' where
  read s register hlive hmem := h.read s register hlive (hreads hmem)
  write s register word hlive hmem := h.write s register word hlive (hwrites hmem)

/-- Accesses keep the mode. -/
theorem mode (live : Bool) (reads writes : List Nat) :
    Keeps (fun s : Staging β => s.live = live) live reads writes where
  read s register _ _ hs := (live_readRegister s register).trans hs
  write s register word _ _ hs := (live_writeRegister s register word).trans hs

/-- Writing parts keeps what reading and writing their registers keeps. -/
theorem writeParts (h : Keeps P live reads writes) {parts : List Packing.Part} {value : UInt64}
    (hreads : ∀ part ∈ parts, part.register ∈ reads)
    (hwrites : ∀ part ∈ parts, part.register ∈ writes) (hlive : s.live = live) (hs : P s) :
    P (s.writeParts value parts).2 := by
  induction parts generalizing s value with
  | nil => exact hs
  | cons part parts ih =>
      obtain ⟨hread, hreads⟩ := List.forall_mem_cons.mp hreads
      obtain ⟨hwrite, hwrites⟩ := List.forall_mem_cons.mp hwrites
      have hfirst := h.read s part.register hlive hread hs
      have hmode := live_readRegister s part.register
      rw [hlive] at hmode
      simp only [Staging.writeParts]
      split
      · next heq => rwa [heq] at hfirst
      · next word s₁ heq =>
        rw [heq] at hfirst hmode
        have hsecond := h.write s₁ part.register (Word.insert word part.offset part.width value)
          hmode hwrite hfirst
        have hmode' := live_writeRegister s₁ part.register
          (Word.insert word part.offset part.width value)
        rw [hmode] at hmode'
        split
        · next heq => rwa [heq] at hsecond
        · next s₂ heq =>
          rw [heq] at hsecond hmode'
          exact ih hreads hwrites hmode' hsecond

/-- Reading parts keeps what reading their registers keeps. -/
theorem readParts (h : Keeps P live reads writes) {parts : List Packing.Part} {value : UInt64}
    (hreads : ∀ part ∈ parts, part.register ∈ reads) (hlive : s.live = live) (hs : P s) :
    P (s.readParts value parts).2 := by
  induction parts generalizing s value with
  | nil => exact hs
  | cons part parts ih =>
      obtain ⟨hread, hreads⟩ := List.forall_mem_cons.mp hreads
      have hfirst := h.read s part.register hlive hread hs
      have hmode := live_readRegister s part.register
      rw [hlive] at hmode
      simp only [Staging.readParts]
      split
      · next heq => rwa [heq] at hfirst
      · next s₁ heq =>
        rw [heq] at hfirst hmode
        exact ih hreads hmode hfirst

/-- Writing a field reads and writes the registers that hold it. -/
theorem writeField {name : String} {value : UInt64}
    (h : Keeps P s.live (s.writeTargets (.write name value)) (s.writeTargets (.write name value)))
    (hs : P s) : P (s.write name value).2 := by
  rw [Staging.write]
  cases hfield : s.field? name with
  | none => exact hs
  | some field =>
      simp only
      split
      · exact hs
      · split
        · next hwritable hfits =>
          have htargets : ∀ part ∈ field.parts,
              part.register ∈ s.writeTargets (.write name value) := by
            intro part hpart
            have haccepts : accepts field value = true := by simp [accepts, hwritable, hfits]
            simp only [writeTargets, hfield, haccepts, if_true]
            exact List.mem_map_of_mem hpart
          exact h.writeParts htargets htargets rfl hs
        · exact hs

/-- Reading a field reads the registers that hold it. -/
theorem readField {name : String} (h : Keeps P s.live (s.readTargets (.read name)) writes) (hs : P s) :
    P (s.read name).2 := by
  rw [Staging.read]
  cases hfield : s.field? name with
  | none => exact hs
  | some field =>
      have htargets : ∀ part ∈ field.parts.reverse, part.register ∈ s.readTargets (.read name) := by
        intro part hpart
        simp only [readTargets, hfield, Option.map_some, Option.getD_some]
        exact List.mem_map_of_mem (List.mem_reverse.mp hpart)
      exact h.readParts htargets rfl hs

end Keeps

/-- A property stays when registers are written out, the mode changes or a line is
logged. -/
structure Settled (P : Staging β → Prop) : Prop where
  writeBack : ∀ s register, s.live = true → P s →
    P (s.writeRegister register (s.cache.getOrZero register)).2
  setLive : ∀ s live, P s → P (s.setLive live)
  note : ∀ s line, P s → P { s with device := Backend.note s.device line }

namespace Settled

variable {P : Staging β → Prop}

/-- What is settled stays when registers are written out, up to the first that is refused. -/
theorem writeOut (h : Settled P) {registers : List Nat} (hlive : s.live = true) (hs : P s) :
    P (s.writeOut registers).2 := by
  induction registers generalizing s with
  | nil => exact hs
  | cons register registers ih =>
      have hfirst := h.writeBack s register hlive hs
      have hmode := live_writeRegister s register (s.cache.getOrZero register)
      rw [hlive] at hmode
      simp only [Staging.writeOut]
      split
      · next heq => rwa [heq] at hfirst
      · next s₁ heq =>
        rw [heq] at hfirst hmode
        exact ih hmode hfirst

/-- So it does in a flush of a range. -/
theorem flush (h : Settled P) (first last : Nat) (hs : P s) : P (s.flush first last).2 := by
  rw [Staging.flush]
  split
  · next hlive => exact h.writeOut hlive hs
  · exact hs

/-- So it does in a commit, which goes live and flushes everything. -/
theorem commit (h : Settled P) (hs : P s) : P s.commit.2 :=
  h.flush 0 Address.last (h.setLive s true hs)

/-- So it does in a drop, which logs a failure. -/
theorem drop (h : Settled P) (hs : P s) : P s.drop := by
  have hcommit := h.commit hs
  rw [Staging.drop]
  split
  · next heq => rwa [heq] at hcommit
  · next heq =>
    rw [heq] at hcommit
    exact h.note _ _ hcommit

end Settled

namespace Keeps

variable {P : Staging β → Prop}

/-- An access to a field or a register keeps what its accesses keep. -/
theorem access {operation : Operation} (haccess : operation.IsAccess)
    (h : Keeps P s.live (s.readTargets operation) (s.writeTargets operation)) (hs : P s) :
    P (s.perform operation).2 := by
  cases operation with
  | write name value => exact h.writeField hs
  | read name => exact h.readField hs
  | writeRegister register word => exact h.write s register word rfl List.mem_cons_self hs
  | readRegister register => exact h.read s register rfl List.mem_cons_self hs
  | setLive live => exact haccess.elim
  | flush first last => exact haccess.elim
  | beginBatch => exact haccess.elim
  | commit => exact haccess.elim
  | drop => exact haccess.elim

/-- An operation keeps what its accesses keep. -/
theorem perform {operation : Operation} (hsettled : Settled P)
    (h : Keeps P s.live (s.readTargets operation) (s.writeTargets operation)) (hs : P s) :
    P (s.perform operation).2 := by
  cases operation with
  | write name value => exact h.access trivial hs
  | read name => exact h.access trivial hs
  | writeRegister register word => exact h.access trivial hs
  | readRegister register => exact h.access trivial hs
  | setLive live => exact hsettled.setLive s live hs
  | flush first last => exact hsettled.flush first last hs
  | beginBatch => exact hsettled.setLive s false hs
  | commit => exact hsettled.commit hs
  | drop => exact hsettled.drop hs

/-- A run keeps what all accesses keep. -/
theorem performEach (hsettled : Settled P) (h : ∀ live reads writes, Keeps P live reads writes)
    (operations : List Operation) (hs : P s) : P (s.performEach operations).2 := by
  induction operations generalizing s with
  | nil => exact hs
  | cons operation operations ih => exact ih ((h _ _ _).perform hsettled hs)

/-! ## field lists -/

/-- Taking an entry in accesses the registers that it speaks of. -/
theorem define {item : Packing.Item} (hnames : ∀ s fields names, P s → P { s with fields, names })
    (h : Keeps P s.live item.registers item.registers) (hs : P s) : P (s.define item).2 := by
  rw [Staging.define]
  split
  · next slices hmeaning =>
    simp only
    split
    · exact hs
    · have hnamed := hnames s ((item.name, .ofSlices slices) :: s.fields) (s.names ++ [item.name]) hs
      split
      · exact hnamed
      · refine writeField (h.mono ?_ ?_) hnamed
        all_goals
          intro register hregister
          simp only [writeTargets, field?, List.lookup_cons_self] at hregister
          split at hregister
          · rw [Packing.mem_registers_ofSlices] at hregister
            simpa only [Packing.Item.registers, hmeaning] using hregister
          · exact absurd hregister List.not_mem_nil
  · next register value hmeaning =>
    refine h.write s register value rfl ?_ hs
    simp [Packing.Item.registers, hmeaning]

/-- Taking entries in accesses the registers that they speak of. -/
theorem defineAll {items : List Packing.Item} {live : Bool}
    (hnames : ∀ s fields names, P s → P { s with fields, names })
    (h : ∀ item ∈ items, Keeps P live item.registers item.registers) (hlive : s.live = live)
    (hs : P s) : P (s.defineAll items).2 ∧ (s.defineAll items).2.live = live := by
  induction items generalizing s with
  | nil => exact ⟨hs, hlive⟩
  | cons item items ih =>
      subst hlive
      obtain ⟨hitem, hitems⟩ := List.forall_mem_cons.mp h
      have hfirst := define hnames hitem hs
      have hmode : (s.define item).2.live = s.live :=
        define (fun _ _ _ h => h) (mode s.live item.registers item.registers) rfl
      simp only [Staging.defineAll]
      split
      · next heq =>
        rw [heq] at hfirst hmode
        exact ⟨hfirst, hmode⟩
      · next s₁ heq =>
        rw [heq] at hfirst hmode
        exact ih hitems hmode hfirst

end Keeps

/-! ## runs -/

/-- The staging area for a device after a field list was taken in and operations were
performed. -/
def reached (device : β) (items : List Packing.Item) (operations : List Operation) : Staging β :=
  (((ofDevice device).defineAll items).2.performEach operations).2

/-- A run up to the first failure is a run of the operations before it and the one that
failed. -/
theorem performAll_eq_performEach (s : Staging β) (operations : List Operation) :
    ∃ performed, performed <+: operations ∧
      (s.performAll operations).2 = (s.performEach performed).2 := by
  induction operations generalizing s with
  | nil => exact ⟨[], List.prefix_rfl, rfl⟩
  | cons operation operations ih =>
      rcases hperform : s.perform operation with ⟨e | answer, s₁⟩
      · refine ⟨[operation], ⟨operations, rfl⟩, ?_⟩
        simp only [performAll, performEach, hperform]
      · obtain ⟨performed, hprefix, hrest⟩ := ih s₁
        refine ⟨operation :: performed, List.cons_prefix_cons.mpr ⟨rfl, hprefix⟩, ?_⟩
        simp only [performAll, performEach, hperform, hrest]

end DeviceRegisters.Staging
