import DeviceRegisters.Text.Pieces

/-!
# DeviceRegisters.Text.Blank

White space: the characters with the Unicode property `White_Space`, and the
two ways text is cut at them.

* `words` — the maximal runs of other characters, in order;
* `trim` — the text without the blanks at its two ends.

`words_append_blank` and `of_mem_words` pin `words` down: a blank separates, and
nothing blank is left in a word.

Indentation is *not* measured with this class: it counts U+0020 alone
(`DeviceRegisters.Outline.Line`).
-/

namespace DeviceRegisters.Text

/-! ## the class -/

/-- Whether a character has the Unicode property `White_Space`. -/
def isBlank (c : Char) : Bool :=
  let n := c.toNat
  (0x09 ≤ n && n ≤ 0x0D) || n == 0x20 || n == 0x85 || n == 0xA0 || n == 0x1680 ||
    (0x2000 ≤ n && n ≤ 0x200A) || n == 0x2028 || n == 0x2029 || n == 0x202F ||
    n == 0x205F || n == 0x3000

/-! ## cutting at blanks -/

/-- The maximal runs of characters that are not blank, in order. -/
def words (cs : List Char) : List (List Char) := (pieces isBlank cs).filter (!·.isEmpty)

/-- A blank belongs to no word and ends the word before it. -/
theorem words_append_blank {c : Char} (hc : isBlank c = true) (x y : List Char) :
    words (x ++ c :: y) = words x ++ words y := by
  simp [words, pieces_append_cons hc]

/-- A word holds some character, and no blank. -/
theorem of_mem_words {cs w : List Char} (h : w ∈ words cs) : w ≠ [] ∧ ∀ c ∈ w, isBlank c = false := by
  obtain ⟨hpiece, hne⟩ := List.mem_filter.mp h
  exact ⟨by simpa using hne, of_mem_pieces hpiece⟩

/-- The words of a string, as strings. -/
def wordsOf (text : String) : List String := (words text.toList).map String.ofList

/-- The text from its first character that is not blank. -/
def trimStart (cs : List Char) : List Char := cs.dropWhile isBlank

/-- The text up to its last character that is not blank. -/
def trimEnd (cs : List Char) : List Char := (cs.reverse.dropWhile isBlank).reverse

/-- The text without the blanks at its two ends. -/
def trim (cs : List Char) : List Char := trimEnd (trimStart cs)

end DeviceRegisters.Text
