import DeviceRegisters.Numeral

/-!
# DeviceRegisters.Proofs.Text.Digits

Numbers that were written are read back, in every base up to sixteen, with
leading zeros and letters of either case (`parse_hexUpperPadded`,
`parse_decimal`).  What is read is a run of digits after one plus sign or none
(`readUnsigned64_eq_some_iff`), and in base ten the digits are the decimal ones
(`readDigitsFrom_decimal_iff`).
-/

namespace DeviceRegisters.Text

variable {base n : Nat}

/-! ## single digits -/

/-- The characters that stand in numerals as they are written. -/
def numeralChars : List Char := "0123456789abcdefABCDEFx".toList

theorem digitChar_mem_numeralChars : ∀ d < 16,
    d.digitChar ∈ numeralChars ∧ d.digitChar.toUpper ∈ numeralChars := by
  decide

theorem digitValue?_digitChar : ∀ d < 16, digitValue? d.digitChar = some d := by decide

theorem toLower_toUpper_digitChar : ∀ d < 16, d.digitChar.toUpper.toLower = d.digitChar := by
  decide

/-- Decimal digits have no case, and are not the letters that tell a base. -/
theorem digitChar_of_lt_ten : ∀ d < 10,
    d.digitChar.toLower = d.digitChar ∧ d.digitChar ∉ ['x', 'b', 'o'] := by
  decide

/-- A number is written with digits of its base. -/
theorem exists_of_mem_toDigits (hbase : 1 < base) {c : Char} (hc : c ∈ Nat.toDigits base n) :
    ∃ d < base, c = d.digitChar := by
  induction n using Nat.strongRecOn with
  | ind n ih =>
      rw [Nat.toDigits_eq_if hbase] at hc
      split at hc
      · next hlt => exact ⟨n, hlt, List.mem_singleton.mp hc⟩
      · next hle =>
          rcases List.mem_append.mp hc with hc | hc
          · exact ih (n / base) (Nat.div_lt_self (by omega) hbase) hc
          · exact ⟨n % base, Nat.mod_lt n (by omega), List.mem_singleton.mp hc⟩

/-! ## reading what was written -/

theorem readDigitsFrom_append (base acc : Nat) (xs ys : List Char) :
    readDigitsFrom base acc (xs ++ ys) =
      (readDigitsFrom base acc xs).bind fun value => readDigitsFrom base value ys := by
  induction xs generalizing acc with
  | nil => rfl
  | cons c xs ih =>
      simp only [List.cons_append, readDigitsFrom]
      split
      · split
        · exact ih _
        · rfl
      · rfl

theorem readDigitsFrom_digit (hbase : base ≤ 16) (acc : Nat) {d : Nat} (hd : d < base) :
    readDigitsFrom base acc [d.digitChar] = some (acc * base + d) := by
  have hvalue := digitValue?_digitChar d (by omega)
  simp [readDigitsFrom, hvalue, hd]

/-- The digits of a number denote it. -/
theorem readDigitsFrom_toDigits (hone : 1 < base) (hbase : base ≤ 16) (n : Nat) :
    readDigitsFrom base 0 (Nat.toDigits base n) = some n := by
  induction n using Nat.strongRecOn with
  | ind n ih =>
      rw [Nat.toDigits_eq_if hone]
      split
      · next hlt => rw [readDigitsFrom_digit hbase 0 hlt, Nat.zero_mul, Nat.zero_add]
      · next hle =>
          have hlast : n % base < base := Nat.mod_lt n (by omega)
          have hhead := ih (n / base) (Nat.div_lt_self (by omega) hone)
          rw [readDigitsFrom_append, hhead, Option.bind_some, readDigitsFrom_digit hbase _ hlast,
            Nat.div_add_mod' n base]

/-- Zeros in front do not count. -/
theorem readDigitsFrom_padStart (hbase : 0 < base) (width : Nat) (cs : List Char) :
    readDigitsFrom base 0 (padStart '0' width cs) = readDigitsFrom base 0 cs := by
  rw [padStart]
  induction width - cs.length with
  | zero => rfl
  | succ k ih =>
      have hzero : digitValue? '0' = some 0 := by decide
      rw [List.replicate_succ, List.cons_append, readDigitsFrom]
      simp only [hzero, if_pos hbase, Nat.zero_mul, Nat.zero_add]
      exact ih

/-- A run of digits that denotes a number of 64 bits is read as that number. -/
theorem readUnsigned64_of_readDigitsFrom {cs : List Char} (hne : cs ≠ []) (hplus : '+' ∉ cs)
    (hread : readDigitsFrom base 0 cs = some n) (hn : n < UInt64.size) :
    readUnsigned64 base cs = some (UInt64.ofNat n) := by
  cases cs with
  | nil => contradiction
  | cons c cs =>
      have hc : c ≠ '+' := fun h => hplus (h ▸ List.mem_cons_self)
      have hdigits : readDigits base (c :: cs) = some n := by simp [readDigits, hread]
      unfold readUnsigned64
      split
      · next _ rest heq => exact absurd (List.cons.inj heq).1 hc
      · simp only [hdigits, if_pos hn]

/-! ## what is read -/

/-- The values of digits, by their places among the characters. -/
theorem digitValue?_eq_some_iff {c : Char} {d : Nat} :
    digitValue? c = some d ↔ d < 10 ∧ c.toNat = 48 + d ∨
      10 ≤ d ∧ d < 36 ∧ (c.toNat = 87 + d ∨ c.toNat = 55 + d) := by
  have hrange : ∀ low high : Char, low ≤ c ∧ c ≤ high ↔ low.toNat ≤ c.toNat ∧ c.toNat ≤ high.toNat :=
    fun low high => Iff.rfl
  simp only [digitValue?, hrange, Char.reduceToNat]
  split
  · rw [Option.some_inj]
    omega
  · split
    · rw [Option.some_inj]
      omega
    · split
      · rw [Option.some_inj]
        omega
      · refine iff_of_false nofun ?_
        omega

/-- The digits of base ten are the decimal digits. -/
theorem digitValue?_decimal_iff {c : Char} {d : Nat} :
    digitValue? c = some d ∧ d < 10 ↔ c.isDigit = true ∧ d = c.toNat - '0'.toNat := by
  have hdigit : c.isDigit = true ↔ 48 ≤ c.toNat ∧ c.toNat ≤ 57 := by
    simp only [Char.isDigit, Bool.and_eq_true, decide_eq_true_eq]
    rfl
  have hzero : '0'.toNat = 48 := rfl
  rw [digitValue?_eq_some_iff, hdigit]
  omega

/-- Digits are read on from a value if they all are decimal. -/
theorem readDigitsFrom_decimal_iff {acc n : Nat} {cs : List Char} :
    readDigitsFrom 10 acc cs = some n ↔
      (∀ c ∈ cs, c.isDigit = true) ∧ Nat.ofDigitChars 10 cs acc = n := by
  induction cs generalizing acc with
  | nil => simp [readDigitsFrom]
  | cons c cs ih =>
      rw [readDigitsFrom, List.forall_mem_cons, Nat.ofDigitChars_cons]
      by_cases hc : c.isDigit = true
      · obtain ⟨hvalue, hlt⟩ := digitValue?_decimal_iff.mpr ⟨hc, rfl⟩
        simp only [hvalue, if_pos hlt, ih, hc, true_and, Nat.mul_comm 10 acc]
      · refine iff_of_false (fun hread => ?_) fun h => hc h.1.1
        split at hread
        · next d hvalue =>
          split at hread
          · next hlt => exact hc (digitValue?_decimal_iff.mp ⟨hvalue, hlt⟩).1
          · contradiction
        · contradiction

theorem readDigits_eq_some_iff {base n : Nat} {cs : List Char} :
    readDigits base cs = some n ↔ cs ≠ [] ∧ readDigitsFrom base 0 cs = some n := by
  cases cs with
  | nil => simp [readDigits]
  | cons c cs => simp [readDigits]

/-- The number of 64 bits, if it is one. -/
def bounded? (n : Nat) : Option UInt64 :=
  if n < UInt64.size then some (UInt64.ofNat n) else none

theorem bounded?_eq_some_iff {n : Nat} {v : UInt64} : bounded? n = some v ↔ n = v.toNat := by
  rw [bounded?]
  constructor
  · intro h
    split at h
    · next hlt =>
      obtain rfl := Option.some.inj h
      exact (UInt64.toNat_ofNat_of_lt' hlt).symm
    · contradiction
  · rintro rfl
    rw [if_pos v.toNat_lt, UInt64.ofNat_toNat]

theorem readUnsigned64_plus (base : Nat) (cs : List Char) :
    readUnsigned64 base ('+' :: cs) = (readDigits base cs).bind bounded? := by
  simp only [readUnsigned64]
  cases readDigits base cs <;> rfl

theorem readUnsigned64_of_ne_plus (base : Nat) {cs : List Char} (h : ∀ rest, cs ≠ '+' :: rest) :
    readUnsigned64 base cs = (readDigits base cs).bind bounded? := by
  unfold readUnsigned64
  split
  · exact absurd rfl (h _)
  · dsimp only
    cases readDigits base cs <;> rfl

/-- A number of 64 bits is read from its digits, after one plus sign or none. -/
theorem readUnsigned64_eq_some_iff {base : Nat} {cs : List Char} {v : UInt64} :
    readUnsigned64 base cs = some v ↔
      ∃ sign digits, cs = sign ++ digits ∧ (sign = [] ∨ sign = ['+']) ∧
        readDigits base digits = some v.toNat := by
  have hbounded : ∀ digits, (readDigits base digits).bind bounded? = some v ↔
      readDigits base digits = some v.toNat := by
    intro digits
    simp [Option.bind_eq_some_iff, bounded?_eq_some_iff]
  by_cases hplus : ∃ rest, cs = '+' :: rest
  · obtain ⟨rest, rfl⟩ := hplus
    rw [readUnsigned64_plus, hbounded]
    refine ⟨fun h => ⟨['+'], rest, rfl, .inr rfl, h⟩, ?_⟩
    rintro ⟨sign, digits, heq, rfl | rfl, hread⟩
    · -- a plus sign is no digit
      rw [← List.nil_append digits, ← heq] at hread
      have hnone : readDigits base ('+' :: rest) = none := rfl
      rw [hnone] at hread
      contradiction
    · obtain rfl : rest = digits := List.tail_eq_of_cons_eq heq
      exact hread
  · have hne : ∀ rest, cs ≠ '+' :: rest := fun rest h => hplus ⟨rest, h⟩
    rw [readUnsigned64_of_ne_plus base hne, hbounded]
    refine ⟨fun h => ⟨[], cs, rfl, .inl rfl, h⟩, ?_⟩
    rintro ⟨sign, digits, rfl, rfl | rfl, hread⟩
    · exact hread
    · exact absurd rfl (hne digits)

/-! ## characters -/

theorem mem_numeralChars_of_mem_toDigits (hone : 1 < base) (hbase : base ≤ 16) {c : Char}
    (hc : c ∈ Nat.toDigits base n) : c ∈ numeralChars := by
  obtain ⟨d, hd, rfl⟩ := exists_of_mem_toDigits hone hc
  exact (digitChar_mem_numeralChars d (by omega)).1

theorem mem_numeralChars_of_mem_hexUpper {c : Char} (hc : c ∈ hexUpper n) : c ∈ numeralChars := by
  obtain ⟨lower, hlower, rfl⟩ := List.mem_map.mp hc
  obtain ⟨d, hd, rfl⟩ := exists_of_mem_toDigits (by decide) hlower
  exact (digitChar_mem_numeralChars d hd).2

theorem mem_numeralChars_of_mem_padStart {width : Nat} {cs : List Char}
    (h : ∀ c ∈ cs, c ∈ numeralChars) : ∀ c ∈ padStart '0' width cs, c ∈ numeralChars := by
  intro c hc
  rcases List.mem_append.mp hc with hc | hc
  · obtain rfl := List.eq_of_mem_replicate hc
    decide
  · exact h c hc

theorem mem_numeralChars_of_mem_prefixed {width : Nat} :
    ∀ c ∈ '0' :: 'x' :: hexUpperPadded width n, c ∈ numeralChars := by
  intro c hc
  rcases List.mem_cons.mp hc with rfl | hc
  · decide
  rcases List.mem_cons.mp hc with rfl | hc
  · decide
  exact mem_numeralChars_of_mem_padStart (fun _ => mem_numeralChars_of_mem_hexUpper) c hc

/-- Upper-case hexadecimal digits in lower case. -/
theorem map_toLower_hexUpperPadded (width n : Nat) :
    (hexUpperPadded width n).map Char.toLower = padStart '0' width (Nat.toDigits 16 n) := by
  have hdigits : ∀ c ∈ Nat.toDigits 16 n, c.toUpper.toLower = c := by
    intro c hc
    obtain ⟨d, hd, rfl⟩ := exists_of_mem_toDigits (by decide) hc
    exact toLower_toUpper_digitChar d hd
  have hmap : (hexUpper n).map Char.toLower = Nat.toDigits 16 n := by
    rw [hexUpper, hexLower, List.map_map]
    exact (List.map_congr_left hdigits).trans (List.map_id' _)
  have hlength : (hexUpper n).length = (Nat.toDigits 16 n).length := List.length_map _
  rw [hexUpperPadded, padStart, List.map_append, List.map_replicate, hmap, hlength]
  rfl

end DeviceRegisters.Text

namespace DeviceRegisters.Numeral

open Text

variable {n : Nat}

/-! ## numerals -/

/-- Nothing in a numeral that was written is skipped. -/
theorem normalize_eq_map {token : List Char} (h : ∀ c ∈ token, c ∈ numeralChars) :
    normalize token = token.map Char.toLower := by
  have hplain : numeralChars.all (· ≠ '_') = true := by decide
  rw [normalize, List.filter_eq_self.mpr fun c hc => List.all_eq_true.mp hplain c (h c hc)]

/-- A token is read as the number that its digits denote. -/
theorem parse_of_splitBase {token digits : List Char} {base : Nat}
    (htoken : ∀ c ∈ token, c ∈ numeralChars) (hdigits : ∀ c ∈ digits, c ∈ numeralChars)
    (hne : digits ≠ []) (hsplit : splitBase (token.map Char.toLower) = (base, digits))
    (hread : readDigitsFrom base 0 digits = some n) (hn : n < UInt64.size) :
    parse token = .ok (UInt64.ofNat n) := by
  have hminus : token.head? ≠ some '-' := by
    intro hhead
    have hmem := htoken _ (List.mem_of_mem_head? hhead)
    revert hmem
    decide
  have hplus : '+' ∉ digits := by
    intro hplus
    have hmem := hdigits _ hplus
    revert hmem
    decide
  rw [parse, if_neg hminus, normalize_eq_map htoken, hsplit]
  simp [hne, readUnsigned64_of_readDigitsFrom hne hplus hread hn]

/-- A number that was written in base sixteen is read back. -/
theorem parse_hexUpperPadded (width : Nat) (hn : n < UInt64.size) :
    parse ('0' :: 'x' :: hexUpperPadded width n) = .ok (UInt64.ofNat n) := by
  have hdigits : ∀ c ∈ padStart '0' width (Nat.toDigits 16 n), c ∈ numeralChars :=
    mem_numeralChars_of_mem_padStart fun _ => mem_numeralChars_of_mem_toDigits (by decide) (by decide)
  have hne : padStart '0' width (Nat.toDigits 16 n) ≠ [] :=
    List.append_ne_nil_of_right_ne_nil _ Nat.toDigits_ne_nil
  have hsplit : splitBase (('0' :: 'x' :: hexUpperPadded width n).map Char.toLower) =
      (16, padStart '0' width (Nat.toDigits 16 n)) := by
    rw [List.map_cons, List.map_cons, map_toLower_hexUpperPadded]
    rfl
  have hread : readDigitsFrom 16 0 (padStart '0' width (Nat.toDigits 16 n)) = some n := by
    rw [readDigitsFrom_padStart (by decide), readDigitsFrom_toDigits (by decide) (by decide)]
  exact parse_of_splitBase mem_numeralChars_of_mem_prefixed hdigits hne hsplit hread hn

/-- Without a letter that tells a base, all is digits. -/
theorem splitBase_of_forall {cs : List Char} (h : ∀ c ∈ cs, c ∉ ['x', 'b', 'o']) :
    splitBase cs = (10, cs) := by
  unfold splitBase
  split
  · exact absurd (h 'x' (by simp)) (by decide)
  · exact absurd (h 'b' (by simp)) (by decide)
  · exact absurd (h 'o' (by simp)) (by decide)
  · rfl

/-- Decimal digits name no base. -/
theorem splitBase_decimal (n : Nat) : splitBase ((decimal n).map Char.toLower) = (10, decimal n) := by
  have hdigit : ∀ c ∈ decimal n, c.toLower = c ∧ c ∉ ['x', 'b', 'o'] := by
    intro c hc
    obtain ⟨d, hd, rfl⟩ := exists_of_mem_toDigits (by decide) hc
    exact digitChar_of_lt_ten d hd
  have hcase : (decimal n).map Char.toLower = decimal n := by
    rw [List.map_congr_left fun c hc => (hdigit c hc).1, List.map_id']
  rw [hcase]
  exact splitBase_of_forall fun c hc => (hdigit c hc).2

/-- A number that was written in base ten is read back. -/
theorem parse_decimal (hn : n < UInt64.size) : parse (decimal n) = .ok (UInt64.ofNat n) := by
  have hchars : ∀ c ∈ decimal n, c ∈ numeralChars :=
    fun c hc => mem_numeralChars_of_mem_toDigits (by decide) (by decide) hc
  have hread : readDigitsFrom 10 0 (decimal n) = some n :=
    readDigitsFrom_toDigits (by decide) (by decide) n
  exact parse_of_splitBase hchars hchars Nat.toDigits_ne_nil (splitBase_decimal n) hread hn

end DeviceRegisters.Numeral
