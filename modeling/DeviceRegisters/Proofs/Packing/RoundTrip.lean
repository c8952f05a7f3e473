import Mathlib
import DeviceRegisters.Proofs.Packing.Reading

/-!
# DeviceRegisters.Proofs.Packing.RoundTrip

Reading a field list that was written: one lemma for each reader, on the words
that the printer writes for it.  Entries that can be written are read back, with
the numbers of their lines in the text (`parse_render_of_writable`).
-/

namespace DeviceRegisters.Packing

/-! ## numbers -/

theorem lt_size64 {n : Nat} (hn : n < UInt32.size) : n < UInt64.size := by
  simp only [UInt32.size, UInt64.size] at *
  omega

section Reading

variable {token : String} {n line : Nat}

/-- A token is read as the word that its number is. -/
theorem readWord_of_parse (h : Numeral.parse token.toList = .ok (UInt64.ofNat n))
    (hn : n < UInt32.size) : readWord token line = .ok n := by
  have hvalue : (UInt64.ofNat n).toNat = n := UInt64.toNat_ofNat_of_lt' (lt_size64 hn)
  exact readWord_eq_ok_iff.mpr ⟨UInt64.ofNat n, h, by rwa [hvalue], hvalue.symm⟩

/-- A hexadecimal numeral is read as its number, however many digits it is filled up to. -/
theorem parse_hexNumeral (width : Nat) (hn : n < UInt64.size) :
    Numeral.parse (String.ofList (hexNumeral width n)).toList = .ok (UInt64.ofNat n) := by
  rw [String.toList_ofList, hexNumeral, Numeral.parse_hexUpperPadded width hn]

/-- So it is as a word. -/
theorem readWord_hexNumeral (width line : Nat) (hn : n < UInt32.size) :
    readWord (String.ofList (hexNumeral width n)) line = .ok n :=
  readWord_of_parse (parse_hexNumeral width (lt_size64 hn)) hn

/-- A decimal numeral is read as its word. -/
theorem readWord_decimal (line : Nat) (hn : n < UInt32.size) :
    readWord (String.ofList (Text.decimal n)) line = .ok n := by
  have hparse := Numeral.parse_decimal (lt_size64 hn)
  rw [← String.toList_ofList (l := Text.decimal n)] at hparse
  exact readWord_of_parse hparse hn

end Reading

/-! ## slices -/

/-- Decimal digits are no colon. -/
theorem ne_colon_of_mem_decimal {n : Nat} : ∀ c ∈ Text.decimal n, decide (c ≠ ':') = true := by
  have hplain : Text.numeralChars.all (· ≠ ':') = true := by decide
  intro c hc
  exact List.all_eq_true.mp hplain c
    (Text.mem_numeralChars_of_mem_toDigits (by decide) (by decide) hc)

/-- A number alone is read as a single bit. -/
theorem readRange_decimal (line : Nat) {offset : Nat} (h : offset < UInt32.size) :
    readRange (String.ofList (Text.decimal offset)) line = .ok (offset, 1) := by
  have hdrop : (Text.decimal offset).dropWhile (· ≠ ':') = [] :=
    List.dropWhile_eq_nil_iff.mpr ne_colon_of_mem_decimal
  unfold readRange
  simp only [String.toList_ofList, hdrop, readWord_decimal line h, bind, Except.bind]

/-- Two numbers with a colon between them are read as the bits from the second to
the first. -/
theorem readRange_decimals (line : Nat) {high low : Nat} (hhigh : high < UInt32.size)
    (hlow : low ≤ high) :
    readRange (String.ofList (Text.decimal high ++ ':' :: Text.decimal low)) line =
      .ok (low, high - low + 1) := by
  have hdrop : (Text.decimal high ++ ':' :: Text.decimal low).dropWhile (· ≠ ':') =
      ':' :: Text.decimal low := by
    rw [List.dropWhile_append_of_pos ne_colon_of_mem_decimal]
    rfl
  have htake : (Text.decimal high ++ ':' :: Text.decimal low).takeWhile (· ≠ ':') =
      Text.decimal high := by
    rw [List.takeWhile_append_of_pos ne_colon_of_mem_decimal, List.takeWhile_cons_of_neg (by decide),
      List.append_nil]
  unfold readRange
  simp only [String.toList_ofList, hdrop, htake, readWord_decimal line hhigh,
    readWord_decimal line (Nat.lt_of_le_of_lt hlow hhigh), bind, Except.bind,
    if_neg (Nat.not_lt_of_le hlow)]

/-- The bits of a slice are read back. -/
theorem readRange_rangeText (line : Nat) {s : Slice} (h : s.Writable) :
    readRange (String.ofList s.rangeText) line = .ok (s.offset, s.width) := by
  have hwidth := h.width
  have hinside := h.inside
  have hsize : 32 < UInt32.size := by decide
  unfold Slice.rangeText
  split
  · next hmany =>
      rw [readRange_decimals line (by omega) (by omega)]
      congr 2
      omega
  · next hone =>
      rw [readRange_decimal line (by omega), show s.width = 1 by omega]

/-- A slice is read back from its words. -/
theorem readSlice_words (line : Nat) {s : Slice} (h : s.Writable) :
    readSlice line (s.words.map String.ofList) = .ok s := by
  have hregister := readWord_hexNumeral 2 line h.register
  have hrange := readRange_rangeText line h
  have hinitial : readNumber (String.ofList (hexNumeral 1 s.initial.toNat)) line = .ok s.initial := by
    have hparse := parse_hexNumeral 1 s.initial.toNat_lt
    rw [UInt64.ofNat_toNat] at hparse
    exact readNumber_eq_ok_iff.mpr hparse
  have hinside := Nat.not_lt_of_le h.inside
  have hmarker : readMarker ((if s.readOnly then [['R']] else []).map String.ofList) line =
      .ok s.readOnly := by
    cases s.readOnly with
    | false => rfl
    | true => rfl
  simp only [Slice.words, List.map_cons, readSlice, hmarker, hregister, hrange, hinitial,
    if_neg hinside, h.initial, if_true, bind, Except.bind]

/-! ## entries -/

/-- Slices that are written are read back in order. -/
theorem mapM_readSlice_numberRows (seen : Nat) {slices : List Slice} (h : ∀ s ∈ slices, s.Writable) :
    ((numberRows seen (slices.map Slice.words)).mapM fun (line, tokens) => readSlice line tokens) =
      .ok slices := by
  induction slices generalizing seen with
  | nil => rfl
  | cons s slices ih =>
      have hs := readSlice_words (seen + 1) (h s List.mem_cons_self)
      have hslices := ih (seen + 1) fun other hmem => h other (List.mem_cons_of_mem _ hmem)
      simp only [List.map_cons, numberRows, List.mapM_cons, hs, hslices, bind, Except.bind, pure,
        Except.pure]

/-- The words of a slice are not those of a constant. -/
theorem words_ne_pair (s : Slice) (v w : String) : s.words.map String.ofList ≠ [v, w] := by
  intro heq
  have hlength := congrArg List.length heq
  simp [Slice.words] at hlength

/-- What an entry stands for is read back from its block. -/
theorem readMeaning_block (seen : Nat) {item : Item} (h : item.meaning.Writable) :
    readMeaning (item.block seen) = .ok item.meaning := by
  obtain ⟨name, meaning, line⟩ := item
  cases meaning with
  | constant register value =>
      have hregister := readWord_hexNumeral 2 (seen + 1) h
      have hvalue := readWord_hexNumeral 8 (seen + 1) value.toNat_lt
      have hequals : String.ofList (hexNumeral 2 register) ≠ "=" := by
        intro heq
        have hchars := congrArg String.toList heq
        simp [hexNumeral] at hchars
      simp only [Item.block, Meaning.words, numberRows, List.map_cons, List.map_nil, readMeaning,
        readConstant, if_neg hequals, hregister, hvalue, bind, Except.bind, UInt32.ofNat_toNat]
  | field slices =>
      have hslices := mapM_readSlice_numberRows seen h.2
      unfold readMeaning
      split
      · next _ register value heq =>
          obtain ⟨s, more, rfl⟩ := List.exists_cons_of_ne_nil h.1
          have hrow := (Prod.mk.inj (List.cons.inj heq).1).2
          exact absurd hrow (words_ne_pair s register value)
      · simp only [Item.block, Meaning.words, hslices, bind, Except.bind]

/-- Entries with the numbers of their lines in a text, after `seen` other lines. -/
def numberAfter (seen : Nat) : List Item → List Item
  | [] => []
  | item :: items =>
    { item with line := seen + 1 } :: numberAfter (seen + item.meaning.words.length) items

/-- Entries with the numbers of their lines in their text. -/
def numbered (items : List Item) : List Item := numberAfter 0 items

/-- Blocks of items with distinct names are read back in order. -/
theorem readBlocks_blocksAfter (seen : Nat) (names : List String) {items : List Item}
    (heach : ∀ item ∈ items, item.Writable) (hnodup : (items.map Item.name).Nodup)
    (hnew : ∀ item ∈ items, item.name ∉ names) :
    readBlocks names (blocksAfter seen items) = .ok (numberAfter seen items) := by
  induction items generalizing seen names with
  | nil => rfl
  | cons item items ih =>
      rw [List.map_cons, List.nodup_cons] at hnodup
      have hmeaning := readMeaning_block seen (heach item List.mem_cons_self).meaning
      have hothers : ∀ other ∈ items, other.name ∉ item.name :: names := by
        intro other hmem hname
        rcases List.mem_cons.mp hname with hname | hname
        · exact hnodup.1 (List.mem_map.mpr ⟨other, hmem, hname⟩)
        · exact hnew other (List.mem_cons_of_mem _ hmem) hname
      have hitems := ih (seen + item.meaning.words.length) (item.name :: names)
        (fun other hmem => heach other (List.mem_cons_of_mem _ hmem)) hnodup.2 hothers
      have hname : (item.block seen).name ∉ names := hnew item List.mem_cons_self
      simp only [blocksAfter, readBlocks, if_neg hname, hmeaning, bind, Except.bind]
      simp only [Item.block, hitems]
      rfl

/-- Entries that can be written are read back. -/
theorem parse_render_of_writable {items : List Item} (h : Writable items) :
    parse (render items) = .ok (numbered items) := by
  have hblocks := readBlocks_blocksAfter 0 [] h.each h.nodup fun _ _ => List.not_mem_nil
  rw [parse, gather_render h]
  exact hblocks

/-! ## round trip -/

/-- Numbering changes nothing but the numbers. -/
theorem map_content_numberAfter (seen : Nat) (items : List Item) :
    (numberAfter seen items).map Item.content = items.map Item.content := by
  induction items generalizing seen with
  | nil => rfl
  | cons item items ih =>
      rw [numberAfter, List.map_cons, List.map_cons, ih]
      rfl

/-- The number of an entry's line is not written. -/
theorem flatMap_text_numberAfter (seen : Nat) (items : List Item) :
    (numberAfter seen items).flatMap Item.text = items.flatMap Item.text := by
  induction items generalizing seen with
  | nil => rfl
  | cons item items ih =>
      rw [numberAfter, List.flatMap_cons, List.flatMap_cons, ih]
      rfl

/-- **Round trip**: the text of a field list that was read is read again, as the same
names and meanings in the same order, and written again as the same text. -/
theorem parse_render_of_parse {text : String} {items : List Item} (h : parse text = .ok items) :
    Writable items ∧ parse (render items) = .ok (numbered items) ∧
      (numbered items).map Item.content = items.map Item.content ∧
      render (numbered items) = render items := by
  have hwritable := writable_of_parse h
  refine ⟨hwritable, parse_render_of_writable hwritable, map_content_numberAfter 0 items, ?_⟩
  rw [render, render, numbered, flatMap_text_numberAfter]

/-- A field list with a field in two slices, the second of which cannot be written, a whole
register, a long name and constants of both kinds. -/
def sample : String :=
  "# duty cycle\nDUTY 26 7:0 0b11 # low\n\t 0x1B 5:5 1 R\n\nALL 0X10 31:0 0xffff_ffff\n" ++
  "0x4F = 0xA0\na-name-of-more-than-35-columns,(µ)=:/[0] 16 3 0\n= 0x100000 7\n"

/-- A file with slices, markers, constants of both kinds and long names, read and written and read
again. -/
theorem parse_render_sample :
    ∃ items, parse sample = .ok items ∧ items.length = 5 ∧
      parse (render items) = .ok (numbered items) ∧
      (numbered items).map Item.content = items.map Item.content ∧
      render (numbered items) = render items := by
  have hcount : (parse sample).toOption.map List.length = some 5 := by cbv
  obtain ⟨items, hitems, hlength⟩ := Option.map_eq_some_iff.mp hcount
  have hparse := eq_ok_of_toOption hitems
  exact ⟨items, hparse, hlength, (parse_render_of_parse hparse).2⟩

end DeviceRegisters.Packing
