import DeviceRegisters.Address
import DeviceRegisters.Proofs.Packing.Reading

/-!
# DeviceRegisters.Proofs.Packing.Registers

The registers that a field list speaks of.  In a list that was read they are
addresses (`le_last_of_parse`), as in every list that can be written.
-/

namespace DeviceRegisters.Packing

/-- The registers that hold a field. -/
def Assembly.registers (a : Assembly) : List Nat := a.parts.map (·.register)

/-- The registers that an entry speaks of. -/
def Item.registers (item : Item) : List Nat :=
  match item.meaning with
  | .field slices => slices.map (·.register)
  | .constant register _ => [register]

/-- A field is held by the registers of its slices. -/
theorem mem_registers_ofSlices {slices : List Slice} {register : Nat} :
    register ∈ (Assembly.ofSlices slices).registers ↔ register ∈ slices.map (·.register) := by
  simp [Assembly.registers, Assembly.ofSlices]

/-- An entry that can be written speaks of addresses. -/
theorem le_last_of_writable {item : Item} (h : item.Writable) :
    ∀ register ∈ item.registers, register ≤ Address.last := by
  have hmeaning := h.meaning
  obtain ⟨name, meaning, line⟩ := item
  cases meaning with
  | field slices =>
      intro register hregister
      obtain ⟨s, hs, rfl⟩ := List.mem_map.mp hregister
      exact Nat.le_of_lt_succ (hmeaning.2 s hs).register
  | constant register value =>
      intro other hother
      rw [List.mem_singleton.mp hother]
      exact Nat.le_of_lt_succ hmeaning

/-- The registers of a field list that was read are addresses. -/
theorem le_last_of_parse {text : String} {items : List Item} (h : parse text = .ok items) :
    ∀ item ∈ items, ∀ register ∈ item.registers, register ≤ Address.last :=
  fun item hitem => le_last_of_writable ((writable_of_parse h).each item hitem)

end DeviceRegisters.Packing
