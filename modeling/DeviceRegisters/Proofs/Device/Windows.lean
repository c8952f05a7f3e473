import Mathlib
import DeviceRegisters.Address
import DeviceRegisters.Device.Window
import DeviceRegisters.Proofs.Device.Words

/-!
# DeviceRegisters.Proofs.Device.Windows

Memories behind windows.

An address arrives at each level of a stack, at a window or at last at the memory, increased by
the starts of the windows that it has passed; no sum on the way exceeds the last address
(`arriving_le_last`).  If every level has room for it, the access is one to the word at the sum
(`access_of_admitted`), and if not, the first level that has no room refuses it
(`access_of_refused`).
-/

namespace DeviceRegisters.Device

/-! ## levels -/

namespace Window

/-- A window between two addresses, which may be inverted. -/
def Addressed (w : Window) : Prop :=
  ∃ start stop, start ≤ Address.last ∧ stop ≤ Address.last ∧ w = ofRange start stop

/-- What an address has become when it arrives at a level; the outermost window is level 0. -/
def arriving (windows : List Window) (address level : Nat) : Nat :=
  address + ((windows.take level).map start).sum

/-- The capacity of a level: the length of the window there, or the size of what is behind all
windows. -/
def capacity (windows : List Window) (size level : Nat) : Nat := (windows[level]?.map length).getD size

/-- The level has room for the address as it arrives there. -/
def Admits (windows : List Window) (size address level : Nat) : Prop :=
  arriving windows address level < capacity windows size level

/-- The level is the first that has no room for the address. -/
structure FirstRefusal (windows : List Window) (size address level : Nat) : Prop where
  level_le : level ≤ windows.length
  before : ∀ outer < level, Admits windows size address outer
  refused : ¬ Admits windows size address level

instance (windows : List Window) (size address level : Nat) :
    Decidable (Admits windows size address level) := inferInstanceAs (Decidable (_ < _))

variable {w : Window} {windows : List Window} {size address level : Nat}

@[simp] theorem arriving_zero : arriving windows address 0 = address := by simp [arriving]

@[simp] theorem arriving_succ :
    arriving (w :: windows) address (level + 1) = arriving windows (w.start + address) level := by
  simp only [arriving, List.take_succ_cons, List.map_cons, List.sum_cons]
  omega

@[simp] theorem capacity_zero : capacity (w :: windows) size 0 = w.length := rfl

@[simp] theorem capacity_succ :
    capacity (w :: windows) size (level + 1) = capacity windows size level := by simp [capacity]

/-- The outermost window has room for the addresses below its length. -/
@[simp] theorem admits_zero : Admits (w :: windows) size address 0 ↔ address < w.length := by
  simp [Admits]

/-- Behind a window the levels are those of the other windows. -/
@[simp] theorem admits_succ :
    Admits (w :: windows) size address (level + 1) ↔
      Admits windows size (w.start + address) level := by
  simp [Admits]

/-- Behind all windows the address has become the sum. -/
theorem admits_length :
    Admits windows size address windows.length ↔ address + (windows.map start).sum < size := by
  simp [Admits, arriving, capacity]

/-- There is one first level only. -/
theorem FirstRefusal.unique {other : Nat} (h : FirstRefusal windows size address level)
    (hother : FirstRefusal windows size address other) : level = other := by
  rcases Nat.lt_trichotomy level other with hlt | heq | hgt
  · exact absurd (hother.before level hlt) h.refused
  · exact heq
  · exact absurd (h.before other hgt) hother.refused

/-- An address is refused somewhere unless all levels have room. -/
theorem exists_firstRefusal (h : ¬ ∀ level ≤ windows.length, Admits windows size address level) :
    ∃ level, FirstRefusal windows size address level := by
  have hrefused : ∃ level, level ≤ windows.length ∧ ¬ Admits windows size address level := by
    simpa using h
  obtain ⟨hle, hnot⟩ := Nat.find_spec hrefused
  refine ⟨Nat.find hrefused, hle, fun outer houter => ?_, hnot⟩
  have hmin := Nat.find_min hrefused houter
  have houterLe : outer ≤ windows.length := Nat.le_trans (Nat.le_of_lt houter) hle
  simpa [houterLe] using hmin

/-! ## the way through -/

/-- What is inside a window between two addresses is an address behind it. -/
theorem Addressed.add_le_last (h : w.Addressed) (ha : address < w.length) :
    w.start + address ≤ Address.last := by
  obtain ⟨start, stop, -, hstop, rfl⟩ := h
  simp only [ofRange] at ha ⊢
  omega

/-- As far as the levels have room, an address stays an address. -/
theorem arriving_le_last (hwindows : ∀ w ∈ windows, w.Addressed) (ha : address ≤ Address.last)
    (hlevel : level ≤ windows.length) (h : ∀ outer < level, Admits windows size address outer) :
    arriving windows address level ≤ Address.last := by
  induction windows generalizing address level with
  | nil =>
      obtain rfl : level = 0 := Nat.le_zero.mp hlevel
      rwa [arriving_zero]
  | cons w windows ih =>
      cases level with
      | zero => rwa [arriving_zero]
      | succ level =>
          obtain ⟨hw, hinner⟩ := List.forall_mem_cons.mp hwindows
          have hfirst : address < w.length := admits_zero.mp (h 0 (Nat.zero_lt_succ level))
          rw [arriving_succ]
          refine ih hinner (hw.add_le_last hfirst) (Nat.le_of_succ_le_succ hlevel) fun outer houter => ?_
          exact admits_succ.mp (h (outer + 1) (Nat.succ_lt_succ houter))

/-- Windows that all have room lead an address to the sum. -/
theorem locate_of_admitted (h : ∀ level < windows.length, Admits windows size address level) :
    locate windows address = .ok (address + (windows.map start).sum) := by
  induction windows generalizing address with
  | nil => rfl
  | cons w windows ih =>
      have hfirst : address < w.length := admits_zero.mp (h 0 (Nat.zero_lt_succ _))
      have hrest : locate windows (w.start + address) =
          .ok (w.start + address + (windows.map start).sum) :=
        ih fun level hlevel => admits_succ.mp (h (level + 1) (Nat.succ_lt_succ hlevel))
      rw [locate, if_pos hfirst, hrest, List.map_cons, List.sum_cons, Nat.add_left_comm, Nat.add_assoc]

/-- The first window that has no room refuses the address as it arrives there. -/
theorem locate_of_refused (h : FirstRefusal windows size address level)
    (hlevel : level < windows.length) :
    locate windows address =
      .error (.outOfRange (arriving windows address level) (capacity windows size level)) := by
  induction windows generalizing address level with
  | nil => exact absurd hlevel (Nat.not_lt_zero level)
  | cons w windows ih =>
      cases level with
      | zero =>
          have hfirst : ¬ address < w.length := fun hlt => h.refused (admits_zero.mpr hlt)
          rw [locate, if_neg hfirst, arriving_zero, capacity_zero]
      | succ level =>
          have hfirst : address < w.length := admits_zero.mp (h.before 0 (Nat.zero_lt_succ level))
          have hinner : FirstRefusal windows size (w.start + address) level :=
            ⟨Nat.le_of_succ_le_succ h.level_le,
              fun outer houter => admits_succ.mp (h.before (outer + 1) (Nat.succ_lt_succ houter)),
              fun hadmits => h.refused (admits_succ.mpr hadmits)⟩
          rw [locate, if_pos hfirst, arriving_succ, capacity_succ]
          exact ih hinner (Nat.lt_of_succ_lt_succ hlevel)

end Window

/-! ## accesses -/

namespace Windowed

open Window

section

variable {β : Type} [Backend β] {windows : List Window} {device : β} {address target : Nat}
  {fault : Fault}

/-- A read goes where the windows lead it. -/
theorem read_of_locate (h : locate windows address = .ok target) :
    Backend.read (Windowed.mk windows device) address =
      ((Backend.read device target).1, ⟨windows, (Backend.read device target).2⟩) := by
  change Windowed.read _ _ = _
  simp only [Windowed.read, h]

/-- So does a write. -/
theorem write_of_locate (h : locate windows address = .ok target) (word : UInt32) :
    Backend.write (Windowed.mk windows device) address word =
      ((Backend.write device target word).1, ⟨windows, (Backend.write device target word).2⟩) := by
  change Windowed.write _ _ _ = _
  simp only [Windowed.write, h]

/-- What a window refuses does not reach the device: neither a read -/
theorem read_of_refused (h : locate windows address = .error fault) :
    Backend.read (Windowed.mk windows device) address = (.error fault, ⟨windows, device⟩) := by
  change Windowed.read _ _ = _
  simp only [Windowed.read, h]

/-- nor a write. -/
theorem write_of_refused (h : locate windows address = .error fault) (word : UInt32) :
    Backend.write (Windowed.mk windows device) address word = (.error fault, ⟨windows, device⟩) := by
  change Windowed.write _ _ _ = _
  simp only [Windowed.write, h]

end

/-! ## memories -/

variable {windows : List Window} {m : Memory} {address level : Nat}

/-- What every level has room for is an access to one word of the memory. -/
theorem access_of_admitted (h : ∀ level ≤ windows.length, Admits windows m.size address level) :
    let d : Windowed Memory := ⟨windows, m⟩
    let target := address + (windows.map start).sum
    ∃ word, m.peek target = some word ∧
      (Backend.read d address).1 = .ok word ∧
      (∀ other, (Backend.read d address).2.inner.peek other = m.peek other) ∧
      ∀ new, (Backend.write d address new).1 = .ok () ∧
        ∀ other, (Backend.write d address new).2.inner.peek other =
          if other = target then some new else m.peek other := by
  intro d target
  have htarget : target < m.size := admits_length.mp (h _ (Nat.le_refl _))
  have hlocate : locate windows address = .ok target :=
    locate_of_admitted fun level hlevel => h level (Nat.le_of_lt hlevel)
  have hpeek : m.peek target = some m.words[target] := Array.getElem?_eq_getElem htarget
  refine ⟨m.words[target], hpeek, ?_, fun other => ?_, fun new => ⟨?_, fun other => ?_⟩⟩
  · rw [read_of_locate hlocate]
    exact (m.fst_read target).trans (by rw [hpeek])
  · rw [read_of_locate hlocate]
    exact m.peek_read target other
  · rw [write_of_locate hlocate]
    exact (m.fst_write target new).trans (if_pos htarget)
  · rw [write_of_locate hlocate]
    exact (m.peek_write target other new).trans (by simp [htarget])

/-- What a level has no room for is refused there, and nothing changes. -/
theorem access_of_refused (h : FirstRefusal windows m.size address level) :
    let d : Windowed Memory := ⟨windows, m⟩
    let refusal := Fault.outOfRange (arriving windows address level) (capacity windows m.size level)
    Backend.read d address = (.error refusal, d) ∧
      ∀ new, Backend.write d address new = (.error refusal, d) := by
  intro d refusal
  rcases Nat.lt_or_eq_of_le h.level_le with hlevel | hlevel
  · have hlocate : locate windows address = .error refusal := locate_of_refused h hlevel
    exact ⟨read_of_refused hlocate, write_of_refused hlocate⟩
  · -- the address has passed all windows, and the memory refuses it
    subst hlevel
    have hlocate := locate_of_admitted h.before
    have houtside : ¬ address + (windows.map start).sum < m.size :=
      fun hlt => h.refused (admits_length.mpr hlt)
    have hrefusal : refusal = .outOfRange (address + (windows.map start).sum) m.size := by
      simp [refusal, arriving, capacity]
    rw [hrefusal]
    refine ⟨?_, fun new => ?_⟩
    · rw [read_of_locate hlocate, Memory.read_eq_error houtside]
    · rw [write_of_locate hlocate, Memory.write_eq_error houtside]

/-- An access to a memory behind windows, at an address.  On its way through the windows, from the
outermost inwards, the address never exceeds the last one.  If every level has room for it as it
arrives there, the access is one to the word at the sum of the address and the starts of all
windows: a read answers that word, a write replaces it and no other.  If not, the first level that
has no room refuses it, with the address as it arrives there and the capacity of that level, and
nothing changes. -/
theorem access_cases (hwindows : ∀ w ∈ windows, w.Addressed) (ha : address ≤ Address.last)
    (m : Memory) :
    let d : Windowed Memory := ⟨windows, m⟩
    let target := address + (windows.map start).sum
    (∀ level ≤ windows.length, (∀ outer < level, Admits windows m.size address outer) →
      arriving windows address level ≤ Address.last) ∧
    ((∀ level ≤ windows.length, Admits windows m.size address level) →
      ∃ word, m.peek target = some word ∧
        (Backend.read d address).1 = .ok word ∧
        (∀ other, (Backend.read d address).2.inner.peek other = m.peek other) ∧
        ∀ new, (Backend.write d address new).1 = .ok () ∧
          ∀ other, (Backend.write d address new).2.inner.peek other =
            if other = target then some new else m.peek other) ∧
    ((¬ ∀ level ≤ windows.length, Admits windows m.size address level) →
      ∃ level, FirstRefusal windows m.size address level ∧
        let refusal := Fault.outOfRange (arriving windows address level) (capacity windows m.size level)
        Backend.read d address = (.error refusal, d) ∧
          ∀ new, Backend.write d address new = (.error refusal, d)) := by
  refine ⟨fun level hlevel h => arriving_le_last hwindows ha hlevel h, access_of_admitted, fun h => ?_⟩
  obtain ⟨level, hrefusal⟩ := exists_firstRefusal h
  exact ⟨level, hrefusal, access_of_refused hrefusal⟩

/-- A window of four words around one of three that reaches beyond a memory of six. -/
def sampleWindows : List Window := [.ofRange 1 5, .ofRange 4 7]

/-- Address 0 becomes word 5 of the memory.  Address 3 is in the outer window and becomes 4, which
the inner window refuses. -/
theorem access_sampleWindows :
    let d : Windowed Memory := ⟨sampleWindows, .zeroed "M" 6⟩
    (∀ w ∈ sampleWindows, w.Addressed) ∧
      (Backend.read d 0).1 = .ok 0 ∧ (Backend.write d 0 7).2.inner.peek 5 = some 7 ∧
      Backend.read d 3 = (.error (.outOfRange 4 3), d) ∧
      Backend.write d 3 7 = (.error (.outOfRange 4 3), d) := by
  intro d
  have hwindows : ∀ w ∈ sampleWindows, w.Addressed := by
    refine List.forall_mem_cons.mpr ⟨⟨1, 5, by decide, by decide, rfl⟩, ?_⟩
    exact List.forall_mem_singleton.mpr ⟨4, 7, by decide, by decide, rfl⟩
  have hfirst : 0 ≤ Address.last := by decide
  obtain ⟨-, hadmitted, -⟩ := access_cases hwindows hfirst (.zeroed "M" 6)
  obtain ⟨word, hword, hread, -, hwrite⟩ := hadmitted (by decide)
  obtain rfl : 0 = word := Option.some.inj hword
  have hthird : 3 ≤ Address.last := by decide
  obtain ⟨-, -, hrefused⟩ := access_cases hwindows hthird (.zeroed "M" 6)
  obtain ⟨level, hlevel, hreadRefused, hwriteRefused⟩ := hrefused (by decide)
  obtain rfl : level = 1 := hlevel.unique ⟨by decide, by decide, by decide⟩
  exact ⟨hwindows, hread, (hwrite 7).2 5, hreadRefused, hwriteRefused 7⟩

end Windowed
end DeviceRegisters.Device
