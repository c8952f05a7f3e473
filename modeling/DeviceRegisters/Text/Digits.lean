/-!
# DeviceRegisters.Text.Digits

Numbers in positional notation: how they are written, and how a run of digits
is read back.
-/

namespace DeviceRegisters.Text

/-! ## writing -/

/-- The number in base ten, without leading zeros. -/
def decimal (n : Nat) : List Char := Nat.toDigits 10 n

/-- The number in base sixteen with the digits `0`–`9`, `a`–`f`. -/
def hexLower (n : Nat) : List Char := Nat.toDigits 16 n

/-- The number in base sixteen with the digits `0`–`9`, `A`–`F`. -/
def hexUpper (n : Nat) : List Char := (hexLower n).map Char.toUpper

/-- Fills the text up to `width` characters, in front. -/
def padStart (fill : Char) (width : Nat) (cs : List Char) : List Char :=
  List.replicate (width - cs.length) fill ++ cs

/-- Fills the text up to `width` characters, behind. -/
def padEnd (fill : Char) (width : Nat) (cs : List Char) : List Char :=
  cs ++ List.replicate (width - cs.length) fill

/-- At least `width` upper-case hexadecimal digits. -/
def hexUpperPadded (width n : Nat) : List Char := padStart '0' width (hexUpper n)

/-! ## reading -/

/-- The value of an ASCII digit: `0`–`9`, then the letters of either case from
ten on. -/
def digitValue? (c : Char) : Option Nat :=
  if '0' ≤ c ∧ c ≤ '9' then some (c.toNat - '0'.toNat)
  else if 'a' ≤ c ∧ c ≤ 'z' then some (c.toNat - 'a'.toNat + 10)
  else if 'A' ≤ c ∧ c ≤ 'Z' then some (c.toNat - 'A'.toNat + 10)
  else none

/-- Reads on from the value `acc` of the digits before. -/
def readDigitsFrom (base acc : Nat) : List Char → Option Nat
  | [] => some acc
  | c :: cs =>
    match digitValue? c with
    | some d => if d < base then readDigitsFrom base (acc * base + d) cs else none
    | none => none

/-- Reads a non-empty run of digits of the base. -/
def readDigits (base : Nat) (cs : List Char) : Option Nat :=
  if cs.isEmpty then none else readDigitsFrom base 0 cs

/-- Reads an unsigned number of at most 64 bits: a non-empty run of digits of
the base, after one optional `+`. -/
def readUnsigned64 (base : Nat) (cs : List Char) : Option UInt64 :=
  let digits := match cs with
    | '+' :: rest => rest
    | _ => cs
  match readDigits base digits with
  | some n => if n < UInt64.size then some (UInt64.ofNat n) else none
  | none => none

end DeviceRegisters.Text
