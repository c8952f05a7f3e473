import DeviceRegisters.Text.Digits

/-!
# DeviceRegisters.Numeral

The tokens that both description formats share: numerals and names.

A numeral is decimal, or hexadecimal, octal or binary after `0x`, `0o` or `0b`;
letter case is free and underscores may stand anywhere.  It denotes a number of
64 bits.
-/

namespace DeviceRegisters

/-! ## numerals -/

namespace Numeral

/-- Why a token is no numeral. -/
inductive Problem where
  | negative
  | noDigits
  | malformed
  deriving DecidableEq, Repr

/-- The problem in words. -/
def Problem.message : Problem → String
  | .negative => "negative values are not supported here"
  | .noDigits => "numeric literal missing digits"
  | .malformed => "invalid numeric literal"

/-- Cuts a lower-case numeral into its base and its digits. -/
def splitBase : List Char → Nat × List Char
  | '0' :: 'x' :: digits => (16, digits)
  | '0' :: 'b' :: digits => (2, digits)
  | '0' :: 'o' :: digits => (8, digits)
  | digits => (10, digits)

/-- The token with its underscores deleted and its ASCII letters in lower
case. -/
def normalize (token : List Char) : List Char :=
  (token.filter (· ≠ '_')).map Char.toLower

/-- Reads a numeral.  A leading minus sign is refused before anything else. -/
def parse (token : List Char) : Except Problem UInt64 :=
  if token.head? = some '-' then .error .negative
  else
    let (base, digits) := splitBase (normalize token)
    if digits.isEmpty then .error .noDigits
    else
      match Text.readUnsigned64 base digits with
      | some n => .ok n
      | none => .error .malformed

/-- Whether a token starts with an ASCII digit: this alone tells a width or a
count from a name or an access mode. -/
def startsLikeOne (token : String) : Bool :=
  match token.toList with
  | c :: _ => '0' ≤ c && c ≤ '9'
  | [] => false

end Numeral

/-! ## names -/

namespace Name

/-- Whether a character is an ASCII letter. -/
def isLetter (c : Char) : Bool := ('a' ≤ c && c ≤ 'z') || ('A' ≤ c && c ≤ 'Z')

/-- Whether a character may stand in a name after its first. -/
def isRest (c : Char) : Bool := isLetter c || ('0' ≤ c && c ≤ '9') || c == '_'

/-- A name is an ASCII letter followed by ASCII letters, digits and
underscores. -/
def isValid (name : String) : Bool :=
  match name.toList with
  | [] => false
  | c :: cs => isLetter c && cs.all isRest

end Name
end DeviceRegisters
