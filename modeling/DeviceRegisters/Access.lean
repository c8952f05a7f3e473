/-!
# DeviceRegisters.Access

The access modes of registers and fields.

| mode | read                         | write                     |
|------|------------------------------|---------------------------|
| `R`  | from the device              | refused                   |
| `RW` | from the device              | to the device             |
| `W`  | the last value written, or 0 | to the device, remembered |
| `WP` | always 0                     | to the device             |
-/

namespace DeviceRegisters

/-- How a register or a field may be accessed. -/
inductive Access where
  | readOnly
  | writeOnly
  | readWrite
  | writePulse
  deriving DecidableEq, Repr

namespace Access

/-- The mode as it is written. -/
def text : Access → String
  | .readOnly => "R"
  | .writeOnly => "W"
  | .readWrite => "RW"
  | .writePulse => "WP"

/-- Reads a mode; only the exact upper-case spellings count. -/
def ofText? (text : String) : Option Access :=
  if text = "R" then some .readOnly
  else if text = "W" then some .writeOnly
  else if text = "RW" then some .readWrite
  else if text = "WP" then some .writePulse
  else none

/-- Whether the mode permits writing. -/
def isWritable : Access → Bool
  | .readOnly => false
  | _ => true

theorem isWritable_iff {mode : Access} : mode.isWritable = true ↔ mode ≠ .readOnly := by
  cases mode <;> simp [isWritable]

/-- Reading accepts what is written, and only that. -/
theorem ofText?_eq_some_iff {text : String} {mode : Access} :
    ofText? text = some mode ↔ text = mode.text := by
  constructor
  · intro h
    simp only [ofText?] at h
    split at h
    · cases h; assumption
    split at h
    · cases h; assumption
    split at h
    · cases h; assumption
    split at h
    · cases h; assumption
    · cases h
  · rintro rfl
    cases mode <;> rfl

end Access
end DeviceRegisters
