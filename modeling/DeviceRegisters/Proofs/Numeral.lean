import Mathlib
import DeviceRegisters.Proofs.Definition.FieldLines
import DeviceRegisters.Proofs.Packing.Reading
import DeviceRegisters.Proofs.Text.Digits

/-!
# DeviceRegisters.Proofs.Numeral

How numbers are spelled.

`Spells sign token n` is the grammar of numerals: a mark that tells the base, a sign, and digits of
that base, underscores anywhere.  Without a sign, or with a plus sign, the token is read as the
number if that has 64 bits, and no other token is read (`parse_eq_ok_iff`); so it is wherever the
two description formats have a number (`accepts_numerals`).
-/

namespace DeviceRegisters

namespace Numeral

open Text

/-! ## letter case -/

theorem toNat_toLower (c : Char) :
    c.toLower.toNat = if 65 ≤ c.toNat ∧ c.toNat ≤ 90 then c.toNat + 32 else c.toNat := by
  have hupper : c.val ≥ 'A'.val ∧ c.val ≤ 'Z'.val ↔ 65 ≤ c.toNat ∧ c.toNat ≤ 90 := Iff.rfl
  rw [Char.toLower]
  split
  · next h =>
    rw [if_pos (hupper.mp h)]
    have hle := (hupper.mp h).2
    have hsum : (c.val + ('a'.val - 'A'.val)).toNat = (c.toNat + 32) % 2 ^ 32 := UInt32.toNat_add _ _
    exact hsum.trans (Nat.mod_eq_of_lt (by omega))
  · next h => rw [if_neg (fun hc => h (hupper.mpr hc))]

theorem toNat_toUpper (c : Char) :
    c.toUpper.toNat = if 97 ≤ c.toNat ∧ c.toNat ≤ 122 then c.toNat - 32 else c.toNat := by
  have hlower : 'a'.val ≤ c.val ∧ c.val ≤ 'z'.val ↔ 97 ≤ c.toNat ∧ c.toNat ≤ 122 := Iff.rfl
  rw [Char.toUpper]
  split
  · next h =>
    rw [if_pos (hlower.mp h)]
    have hbounds := hlower.mp h
    have hsum : (c.val + ('A'.val - 'a'.val)).toNat = (c.toNat + (2 ^ 32 - 32)) % 2 ^ 32 :=
      UInt32.toNat_add _ _
    exact hsum.trans (by omega)
  · next h => rw [if_neg (fun hc => h (hlower.mpr hc))]

/-- A character that is no capital is the lower case of itself and of its capital only. -/
theorem toLower_eq_iff {c l : Char} (hl : l.toNat < 65 ∨ 90 < l.toNat) :
    c.toLower = l ↔ c = l ∨ c = l.toUpper := by
  simp only [← Char.toNat_inj, toNat_toLower, toNat_toUpper]
  split <;> split <;> omega

/-! ## the grammar -/

/-- What stands in front of the digits of a base. -/
inductive Mark : List Char → Nat → Prop where
  | decimal : Mark [] 10
  | hexadecimal {c : Char} : c = 'x' ∨ c = 'X' → Mark ['0', c] 16
  | octal {c : Char} : c = 'o' ∨ c = 'O' → Mark ['0', c] 8
  | binary {c : Char} : c = 'b' ∨ c = 'B' → Mark ['0', c] 2

/-- A digit of a base and its value; a letter has either case. -/
def IsDigit (base : Nat) (c : Char) (d : Nat) : Prop :=
  d < base ∧ (c = d.digitChar ∨ c = d.digitChar.toUpper)

/-- Digits of a base, one at least, and the number that they denote. -/
def Denotes (base : Nat) (digits : List Char) (n : Nat) : Prop :=
  digits ≠ [] ∧
    ∃ values, List.Forall₂ (IsDigit base) digits values ∧ Nat.ofDigits base values.reverse = n

/-- A token of a number, with a sign between the mark and the digits; underscores do not count. -/
def Spells (sign token : List Char) (n : Nat) : Prop :=
  ∃ mark base digits, Mark mark base ∧ token.filter (· ≠ '_') = mark ++ (sign ++ digits) ∧
    Denotes base digits n

/-- A token of a number: there may be a plus sign between the mark and the digits. -/
def IsNumeral (token : List Char) (n : Nat) : Prop :=
  ∃ sign, (sign = [] ∨ sign = ['+']) ∧ Spells sign token n

variable {base n : Nat} {mark sign token digits : List Char}

theorem Mark.base_le (h : Mark mark base) : base ≤ 16 := by
  cases h <;> decide

theorem Mark.isAlphanum (h : Mark mark base) : mark.all Char.isAlphanum = true := by
  cases h with
  | decimal => rfl
  | hexadecimal hc | octal hc | binary hc => rcases hc with rfl | rfl <;> rfl

/-! ## digits -/

/-- Where the digits of both cases are among the characters. -/
theorem toNat_digitChar : ∀ d < 16,
    (d < 10 ∧ d.digitChar.toNat = 48 + d ∧ d.digitChar.toUpper.toNat = 48 + d) ∨
      (10 ≤ d ∧ d.digitChar.toNat = 87 + d ∧ d.digitChar.toUpper.toNat = 55 + d) := by
  decide

/-- In lower case, the digits of a base are read with their values, and nothing else is. -/
theorem digitValue?_toLower_iff {c : Char} {d : Nat} (hbase : base ≤ 16) :
    digitValue? c.toLower = some d ∧ d < base ↔ IsDigit base c d := by
  rw [and_comm, IsDigit]
  refine and_congr_right fun hd => ?_
  have hplace := toNat_digitChar d (by omega)
  rw [digitValue?_eq_some_iff, toNat_toLower, ← Char.toNat_inj, ← Char.toNat_inj]
  split <;> omega

theorem readDigitsFrom_cons_eq_some_iff {acc : Nat} {c : Char} {cs : List Char} :
    readDigitsFrom base acc (c :: cs) = some n ↔
      ∃ d, (digitValue? c = some d ∧ d < base) ∧ readDigitsFrom base (acc * base + d) cs = some n := by
  rw [readDigitsFrom]
  cases digitValue? c with
  | none => simp
  | some d => by_cases hd : d < base <;> simp [hd]

/-- In lower case, digits are read on from a value. -/
theorem readDigitsFrom_toLower_iff {acc : Nat} (hbase : base ≤ 16) :
    readDigitsFrom base acc (digits.map Char.toLower) = some n ↔
      ∃ values, List.Forall₂ (IsDigit base) digits values ∧
        values.foldl (fun acc d => acc * base + d) acc = n := by
  induction digits generalizing acc with
  | nil => simp [readDigitsFrom]
  | cons c digits ih =>
      simp only [List.map_cons, readDigitsFrom_cons_eq_some_iff, digitValue?_toLower_iff hbase, ih]
      constructor
      · rintro ⟨d, hd, values, hvalues, hfold⟩
        exact ⟨d :: values, .cons hd hvalues, hfold⟩
      · rintro ⟨values, hvalues, hfold⟩
        cases hvalues with
        | cons hd hvalues => exact ⟨_, hd, _, hvalues, hfold⟩

/-- In lower case, digits are read as the number that they denote. -/
theorem readDigits_toLower_iff (hbase : base ≤ 16) :
    readDigits base (digits.map Char.toLower) = some n ↔ Denotes base digits n := by
  have hdigits : ∀ values : List Nat,
      values.foldl (fun acc d => acc * base + d) 0 = Nat.ofDigits base values.reverse := by
    intro values
    rw [Nat.ofDigits_eq_foldr, List.foldl_eq_foldr_reverse]
    refine congrArg (List.foldr · 0 values.reverse) (funext₂ fun d acc => ?_)
    rw [Nat.add_comm, Nat.mul_comm, Nat.cast_id]
  simp only [readDigits_eq_some_iff, ne_eq, List.map_eq_nil_iff, readDigitsFrom_toLower_iff hbase, hdigits,
    Denotes]

/-! ## tokens -/

/-- Every token begins with a mark, which may be empty. -/
theorem exists_mark (cs : List Char) :
    ∃ mark base rest, Mark mark base ∧ cs = mark ++ rest ∧
      splitBase (cs.map Char.toLower) = (base, rest.map Char.toLower) := by
  have hpair : ∀ {l : Char} {digits : List Char}, 90 < l.toNat →
      cs.map Char.toLower = '0' :: l :: digits →
      ∃ c rest, (c = l ∨ c = l.toUpper) ∧ cs = ['0', c] ++ rest ∧ digits = rest.map Char.toLower := by
    intro l digits hl hcs
    obtain ⟨zero, tail, rfl, hzero, htail⟩ := List.map_eq_cons_iff.mp hcs
    obtain ⟨c, rest, rfl, hc, hrest⟩ := List.map_eq_cons_iff.mp htail
    obtain rfl : zero = '0' := by simpa using (toLower_eq_iff (.inl (by decide))).mp hzero
    exact ⟨c, rest, (toLower_eq_iff (.inr hl)).mp hc, rfl, hrest.symm⟩
  unfold splitBase
  split
  · next digits hcs =>
    obtain ⟨c, rest, hc, rfl, rfl⟩ := hpair (by decide) hcs
    exact ⟨['0', c], 16, rest, .hexadecimal hc, rfl, rfl⟩
  · next digits hcs =>
    obtain ⟨c, rest, hc, rfl, rfl⟩ := hpair (by decide) hcs
    exact ⟨['0', c], 2, rest, .binary hc, rfl, rfl⟩
  · next digits hcs =>
    obtain ⟨c, rest, hc, rfl, rfl⟩ := hpair (by decide) hcs
    exact ⟨['0', c], 8, rest, .octal hc, rfl, rfl⟩
  · exact ⟨[], 10, cs, .decimal, rfl, rfl⟩

theorem Denotes.exists_isDigit (h : Denotes base digits n) : ∀ c ∈ digits, ∃ d, IsDigit base c d := by
  obtain ⟨-, values, hvalues, -⟩ := h
  induction hvalues with
  | nil => simp
  | cons hd _ ih => exact List.forall_mem_cons.mpr ⟨⟨_, hd⟩, ih⟩

theorem isAlphanum_digitChar : ∀ d < 16,
    d.digitChar.isAlphanum = true ∧ d.digitChar.toUpper.isAlphanum = true := by
  decide

/-- The characters of a token are letters and digits, but for its sign and its underscores. -/
theorem Spells.not_mem (h : Spells sign token n) {c : Char} (hc : c ≠ '_') (hsign : c ∉ sign)
    (hother : c.isAlphanum = false) : c ∉ token := by
  obtain ⟨mark, base, digits, hmark, hfilter, hdigits⟩ := h
  have hnotMark : c ∉ mark := by
    intro hmem
    have halphanum := List.all_eq_true.mp hmark.isAlphanum c hmem
    simp [hother] at halphanum
  have hnotDigit : c ∉ digits := by
    intro hmem
    obtain ⟨d, hd, hchar⟩ := hdigits.exists_isDigit c hmem
    have halphanum := isAlphanum_digitChar d (hd.trans_le hmark.base_le)
    rcases hchar with rfl | rfl
    · simp [hother] at halphanum
    · simp [hother] at halphanum
  have hnotFilter : c ∉ token.filter (· ≠ '_') := by
    rw [hfilter]
    simp [hnotMark, hsign, hnotDigit]
  exact fun hmem => hnotFilter (List.mem_filter.mpr ⟨hmem, by simpa using hc⟩)

/-- A token that begins with its mark is cut behind it. -/
theorem splitBase_of_mark (hmark : Mark mark base) (hsign : sign = [] ∨ sign = ['+'])
    (hdigits : Denotes base digits n) :
    splitBase ((mark ++ (sign ++ digits)).map Char.toLower) =
      (base, (sign ++ digits).map Char.toLower) := by
  cases hmark with
  | decimal =>
      rw [List.nil_append]
      refine splitBase_of_forall fun c hc => ?_
      obtain ⟨l, hl, rfl⟩ := List.mem_map.mp hc
      rcases List.mem_append.mp hl with hl | hl
      · rcases hsign with rfl | rfl
        · cases hl
        · obtain rfl := List.mem_singleton.mp hl
          decide
      · obtain ⟨d, hd, hchar⟩ := hdigits.exists_isDigit l hl
        obtain ⟨hlower, hletter⟩ := digitChar_of_lt_ten d hd
        have hcase : l.toLower = d.digitChar := by
          rcases hchar with rfl | rfl
          · exact hlower
          · exact toLower_toUpper_digitChar d (by omega)
        rw [hcase]
        exact hletter
  | hexadecimal hc => rcases hc with rfl | rfl <;> rfl
  | octal hc => rcases hc with rfl | rfl <;> rfl
  | binary hc => rcases hc with rfl | rfl <;> rfl

/-- A token is read if it is that of a number of 64 bits. -/
theorem parse_eq_ok_iff {value : UInt64} : parse token = .ok value ↔ IsNumeral token value.toNat := by
  constructor
  · intro hparse
    obtain ⟨mark, base, rest, hmark, hfilter, hsplit⟩ := exists_mark (token.filter (· ≠ '_'))
    rw [parse, normalize] at hparse
    simp only [hsplit] at hparse
    split at hparse
    · contradiction
    split at hparse
    · contradiction
    split at hparse
    · next hread =>
      obtain rfl := Except.ok.inj hparse
      obtain ⟨sign, lower, hrest, hsign, hlower⟩ := readUnsigned64_eq_some_iff.mp hread
      obtain ⟨front, digits, rfl, hfront, rfl⟩ := List.map_eq_append_iff.mp hrest
      refine ⟨front, ?_, mark, base, digits, hmark, hfilter,
        (readDigits_toLower_iff hmark.base_le).mp hlower⟩
      rcases hsign with rfl | rfl
      · exact .inl (List.map_eq_nil_iff.mp hfront)
      · obtain ⟨plus, rfl, hplus⟩ := List.map_eq_singleton_iff.mp hfront
        refine .inr (congrArg ([·]) ?_)
        simpa using (toLower_eq_iff (.inl (by decide))).mp hplus
    · contradiction
  · rintro ⟨sign, hsign, hspells⟩
    have hminus : token.head? ≠ some '-' := by
      intro hhead
      refine hspells.not_mem (by decide) ?_ (by decide) (List.mem_of_mem_head? hhead)
      rcases hsign with rfl | rfl <;> decide
    obtain ⟨mark, base, digits, hmark, hfilter, hdigits⟩ := hspells
    have hread : readUnsigned64 base ((sign ++ digits).map Char.toLower) = some value := by
      refine readUnsigned64_eq_some_iff.mpr ⟨sign, digits.map Char.toLower, ?_, hsign,
        (readDigits_toLower_iff hmark.base_le).mpr hdigits⟩
      rcases hsign with rfl | rfl <;> rfl
    have hne : ((sign ++ digits).map Char.toLower).isEmpty = false := by simp [hdigits.1]
    rw [parse, if_neg hminus, normalize, hfilter, splitBase_of_mark hmark hsign hdigits]
    simp only [hne, hread]
    rfl

/-- No token is spelled both with a plus sign and without any sign. -/
theorem Spells.no_sign (h : Spells ['+'] token n) {other : Nat} : ¬ Spells [] token other := by
  intro hother
  have hplus : '+' ∉ token := hother.not_mem (by decide) (by simp) (by decide)
  obtain ⟨mark, base, digits, -, hfilter, -⟩ := h
  have hmem : '+' ∈ token.filter (· ≠ '_') := by
    rw [hfilter]
    simp
  exact hplus (List.mem_filter.mp hmem).1

/-- A token is a number exactly if it is spelled without a sign, unless it is spelled with a plus
sign. -/
theorem parse_iff_spells_iff :
    (∀ value, parse token = .ok value ↔ Spells [] token value.toNat) ↔
      ∀ value : UInt64, ¬ Spells ['+'] token value.toNat := by
  constructor
  · intro h value hplus
    exact hplus.no_sign ((h value).mp (parse_eq_ok_iff.mpr ⟨['+'], .inr rfl, hplus⟩))
  · intro h value
    rw [parse_eq_ok_iff]
    constructor
    · rintro ⟨sign, rfl | rfl, hspells⟩
      · exact hspells
      · exact absurd hspells (h value)
    · exact fun hspells => ⟨[], .inl rfl, hspells⟩

/-! ## numbers in descriptions -/

theorem exists_parse_iff : (∃ value, parse token = .ok value ∧ value.toNat < UInt32.size ∧
    n = value.toNat) ↔ n < UInt32.size ∧ IsNumeral token n := by
  simp only [parse_eq_ok_iff]
  constructor
  · rintro ⟨value, htoken, hlt, rfl⟩
    exact ⟨hlt, htoken⟩
  · rintro ⟨hlt, htoken⟩
    have hvalue : (UInt64.ofNat n).toNat = n := UInt64.toNat_ofNat_of_lt' (hlt.trans (by decide))
    exact ⟨UInt64.ofNat n, by rwa [hvalue], by rwa [hvalue], hvalue.symm⟩

/-- The text of a constant's value. -/
def constantText (node : Outline.Node) : List Char :=
  Text.trim ((node.text.toList.dropWhile (· ≠ '=')).drop 1)

/-- The value of a constant that is added is a numeral. -/
theorem outcome_addConstant (c : Definition.Catalog) (node : Outline.Node) :
    Outcome (fun next => ∃ name value, next.constants = c.constants ++ [⟨name, value, node.doc⟩] ∧
      IsNumeral (constantText node) value.toNat) (fun _ => True) (c.addConstant node) := by
  simp only [Definition.Catalog.addConstant]
  -- the name must not be looked into
  generalize String.ofList _ = name
  refine .bind_any fun _ => .bind_any fun _ => ?_
  split
  · trivial
  · next value hvalue =>
    split
    · trivial
    · exact .ok ⟨name, value, rfl, parse_eq_ok_iff.mp hvalue⟩

/-- What is accepted as a number, be it in a register description or in a field list, is a numeral,
perhaps one with a plus sign in front of its digits.  If the token is not spelled with a plus sign,
it is a number exactly if it is spelled without any sign. -/
theorem accepts_numerals (token : List Char) (line : Nat) :
    (∀ value, parse token = .ok value ↔ IsNumeral token value.toNat) ∧
    (∀ n, Definition.readNumber (String.ofList token) line = .ok n ↔
      n < UInt32.size ∧ IsNumeral token n) ∧
    (∀ c node, Outcome
      (fun next => ∃ name value, next.constants = c.constants ++ [⟨name, value, node.doc⟩] ∧
        IsNumeral (constantText node) value.toNat)
      (fun _ => True) (Definition.Catalog.addConstant c node)) ∧
    (∀ value, Packing.readNumber (String.ofList token) line = .ok value ↔
      IsNumeral token value.toNat) ∧
    (∀ n, Packing.readWord (String.ofList token) line = .ok n ↔
      n < UInt32.size ∧ IsNumeral token n) ∧
    ((∀ value, parse token = .ok value ↔ Spells [] token value.toNat) ↔
      ∀ value : UInt64, ¬ Spells ['+'] token value.toNat) := by
  refine ⟨fun _ => parse_eq_ok_iff, fun _ => ?_, outcome_addConstant, fun _ => ?_, fun _ => ?_,
    parse_iff_spells_iff⟩
  · rw [Definition.readNumber_eq_ok_iff, ← exists_parse_iff, Definition.Denotes,
      String.toList_ofList]
  · rw [Packing.readNumber_eq_ok_iff, String.toList_ofList, parse_eq_ok_iff]
  · rw [Packing.readWord_eq_ok_iff, String.toList_ofList, exists_parse_iff]

/-- A plus sign is accepted in front of the digits, also behind a mark. -/
theorem plus_sign_accepted :
    Packing.parse "A 1 +5\n" = .ok [⟨"A", .constant 1 5, 1⟩] ∧ parse "0x+5".toList = .ok 5 ∧
      ∀ n, ¬ Spells [] "+5".toList n ∧ ¬ Spells [] "0x+5".toList n := by
  have hplus : ∀ {token n}, Spells [] token n → '+' ∉ token := fun h =>
    h.not_mem (by decide) (by simp) (by decide)
  exact ⟨by cbv, by cbv, fun n => ⟨fun h => hplus h (by decide), fun h => hplus h (by decide)⟩⟩

end Numeral
end DeviceRegisters
