import DeviceRegisters.Packing.Printer
import DeviceRegisters.Packing.Reader
import DeviceRegisters.Proofs.Text.Digits
import DeviceRegisters.Proofs.Text.Words
import Mathlib.Data.List.Basic
import Mathlib.Data.List.TakeWhile

/-!
# DeviceRegisters.Proofs.Packing.Written

What `render` writes: which entries can be written so that they can be read
again, the words that each line is written with, and the rows that the lines
are.

* `text_eq_lines` — an entry is written in lines of words;
* `gather_render` — the blocks of the text are the entries, in words.
-/

namespace DeviceRegisters.Packing

open Text (IsWord unwords)

/-! ## what can be written -/

/-- A word in which no comment starts. -/
structure IsToken (w : List Char) : Prop extends IsWord w where
  noMark : '#' ∉ w

/-- A slice with some bits of its register, and an initial value for them. -/
structure Slice.Writable (s : Slice) : Prop where
  register : s.register < UInt32.size
  width : 0 < s.width
  inside : s.offset + s.width ≤ 32
  initial : Word.fits s.initial s.width = true

/-- A field of one slice at least, or a constant of some register. -/
def Meaning.Writable : Meaning → Prop
  | .field slices => slices ≠ [] ∧ ∀ s ∈ slices, s.Writable
  | .constant register _ => register < UInt32.size

/-- An entry that reads as itself when it is written. -/
structure Item.Writable (item : Item) : Prop where
  name : IsToken item.name.toList
  meaning : item.meaning.Writable

/-- Entries that read as themselves when they are written: no two have one
name. -/
structure Writable (items : List Item) : Prop where
  each : ∀ item ∈ items, item.Writable
  nodup : (items.map Item.name).Nodup

/-! ## words -/

/-- What is made of the characters of numerals is a token. -/
theorem isToken_of_numeralChars {w : List Char} (hne : w ≠ [])
    (h : ∀ c ∈ w, c ∈ Text.numeralChars) : IsToken w where
  ne_nil := hne
  noBlank := by
    have hplain : Text.numeralChars.all (!Text.isBlank ·) = true := by decide
    intro c hc
    simpa using List.all_eq_true.mp hplain c (h c hc)
  noMark := by
    intro hmark
    have hmem := h _ hmark
    revert hmem
    decide

/-- Hexadecimal numerals are tokens. -/
theorem isToken_hexNumeral (width n : Nat) : IsToken (hexNumeral width n) :=
  isToken_of_numeralChars (List.cons_ne_nil _ _) Text.mem_numeralChars_of_mem_prefixed

/-- So are decimal numerals. -/
theorem isToken_decimal (n : Nat) : IsToken (Text.decimal n) :=
  isToken_of_numeralChars Nat.toDigits_ne_nil
    fun _ => Text.mem_numeralChars_of_mem_toDigits (by decide) (by decide)

/-- Tokens with a character between them are one, if that is neither white space nor the mark of a
remark. -/
theorem IsToken.append_cons {v w : List Char} {c : Char} (hv : IsToken v) (hw : IsToken w)
    (hblank : Text.isBlank c = false) (hmark : c ≠ '#') : IsToken (v ++ c :: w) where
  ne_nil := List.append_ne_nil_of_left_ne_nil hv.ne_nil _
  noBlank := by
    have hfirst := hv.noBlank
    have hlast := hw.noBlank
    grind
  noMark := by
    have hfirst := hv.noMark
    have hlast := hw.noMark
    grind

/-- The text of a range is a token. -/
theorem isToken_rangeText (s : Slice) : IsToken s.rangeText := by
  unfold Slice.rangeText
  split
  · exact (isToken_decimal _).append_cons (isToken_decimal _) (by decide) (by decide)
  · exact isToken_decimal _

/-- The words that a slice is written with. -/
def Slice.words (s : Slice) : List (List Char) :=
  hexNumeral 2 s.register :: s.rangeText :: hexNumeral 1 s.initial.toNat ::
    if s.readOnly then [['R']] else []

/-- The words that an entry is written with after its name, line by line. -/
def Meaning.words : Meaning → List (List (List Char))
  | .field slices => slices.map Slice.words
  | .constant register value => [[hexNumeral 2 register, hexNumeral 8 value.toNat]]

/-- A line of words: there is at least one, and no comment. -/
structure IsRow (ws : List (List Char)) : Prop where
  ne_nil : ws ≠ []
  tokens : ∀ w ∈ ws, IsToken w

/-- The words of a slice make a row. -/
theorem isRow_slice (s : Slice) : IsRow s.words where
  ne_nil := List.cons_ne_nil _ _
  tokens := by
    have hmarker : IsToken ['R'] :=
      ⟨⟨by decide, List.forall_mem_singleton.mpr (by decide)⟩, by decide⟩
    intro w hw
    simp only [Slice.words, List.mem_cons] at hw
    rcases hw with rfl | rfl | rfl | hw
    · exact isToken_hexNumeral _ _
    · exact isToken_rangeText s
    · exact isToken_hexNumeral _ _
    · split at hw
      · rw [List.mem_singleton.mp hw]
        exact hmarker
      · exact absurd hw List.not_mem_nil

/-- So do those of whatever an item means. -/
theorem isRow_of_mem_words (meaning : Meaning) : ∀ ws ∈ meaning.words, IsRow ws := by
  intro ws hws
  cases meaning with
  | field slices =>
      obtain ⟨s, -, rfl⟩ := List.mem_map.mp hws
      exact isRow_slice s
  | constant register value =>
      rw [List.mem_singleton.mp hws]
      refine ⟨List.cons_ne_nil _ _, ?_⟩
      simp [isToken_hexNumeral]

/-! ## lines -/

/-- The lines that an entry is written in, without their line feeds. -/
def Item.lines (item : Item) : List (List Char) :=
  match item.meaning.words with
  | [] => []
  | ws :: more =>
    (Text.padEnd ' ' nameColumns item.name.toList ++ ' ' :: unwords ws) ::
      more.map (Item.continuation ++ unwords ·)

/-- A slice is written in words. -/
theorem Slice.text_eq_unwords (s : Slice) : s.text = unwords s.words := by
  unfold Slice.text Slice.words
  split <;> simp [unwords]

/-- The slices after the first are written one to a line. -/
theorem Item.moreText_eq_lines (slices : List Slice) :
    Item.moreText slices =
      ((slices.map Slice.words).map (Item.continuation ++ unwords ·)).flatMap (· ++ ['\n']) := by
  rw [Item.moreText, List.map_map, List.flatMap_map]
  simp [Slice.text_eq_unwords]

/-- An entry is written in lines. -/
theorem Item.text_eq_lines {item : Item} (h : item.meaning.Writable) :
    item.text = item.lines.flatMap (· ++ ['\n']) := by
  obtain ⟨name, meaning, line⟩ := item
  cases meaning with
  | constant register value => simp [Item.text, Item.lines, Meaning.words, unwords]
  | field slices =>
      cases slices with
      | nil => exact absurd rfl h.1
      | cons s more =>
          simp [Item.text, Item.lines, Meaning.words, Slice.text_eq_unwords, Item.moreText_eq_lines]

/-- What an entry's first line starts with, and what follows it, up to the space
between them. -/
theorem padEnd_append_space (name : List Char) (cs : List Char) :
    Text.padEnd ' ' nameColumns name ++ ' ' :: cs =
      name ++ ' ' :: (List.replicate (nameColumns - name.length) ' ' ++ cs) := by
  have hspaces : ∀ k, List.replicate k ' ' ++ ' ' :: cs = ' ' :: (List.replicate k ' ' ++ cs) := by
    intro k
    rw [List.append_cons, ← List.replicate_succ', List.replicate_succ, List.cons_append]
  rw [Text.padEnd, List.append_assoc, hspaces]

variable {ws : List (List Char)}

/-- What stands in no word and is no space does not stand in a row. -/
theorem IsRow.not_mem {c : Char} (h : IsRow ws) (hspace : c ≠ ' ') (hword : ∀ w, IsToken w → c ∉ w) :
    c ∉ unwords ws := by
  intro hc
  rcases Text.mem_unwords hc with rfl | ⟨w, hw, hc⟩
  · exact hspace rfl
  · exact hword w (h.tokens w hw) hc

/-- A token holds no line feed. -/
theorem IsToken.noFeed {w : List Char} (h : IsToken w) : '\n' ∉ w := by
  intro hfeed
  have hblank := h.noBlank _ hfeed
  revert hblank
  decide

/-- What stands in no word and is no space does not stand in a line. -/
theorem Item.not_mem_of_mem_lines {item : Item} (h : item.Writable) {c : Char} (hspace : c ≠ ' ')
    (hword : ∀ w, IsToken w → c ∉ w) : ∀ line ∈ item.lines, c ∉ line := by
  intro line hline
  have hrows := isRow_of_mem_words item.meaning
  unfold Item.lines at hline
  split at hline
  · exact absurd hline List.not_mem_nil
  · next ws more hwords =>
      rw [hwords] at hrows
      have hname := hword _ h.name
      rcases List.mem_cons.mp hline with rfl | hline
      · have hrow := (hrows ws List.mem_cons_self).not_mem hspace hword
        simp [padEnd_append_space, hname, hspace, hrow]
      · obtain ⟨vs, hvs, rfl⟩ := List.mem_map.mp hline
        have hrow := (hrows vs (List.mem_cons_of_mem _ hvs)).not_mem hspace hword
        simp [Item.continuation, hspace, hrow]

/-- The lines of the text are those that were written. -/
theorem ofText_render {items : List Item} (h : Writable items) :
    Text.Lines.ofText (render items).toList = ⟨items.flatMap Item.lines, []⟩ := by
  have htext : items.flatMap Item.text = Text.Lines.toText ⟨items.flatMap Item.lines, []⟩ := by
    rw [Text.Lines.toText, List.append_nil, List.flatMap_assoc]
    exact List.flatMap_congr fun item hitem => Item.text_eq_lines (h.each item hitem).meaning
  rw [render, String.toList_ofList, htext]
  refine Text.Lines.ofText_toText (fun line hline => ?_) List.not_mem_nil
  obtain ⟨item, hitem, hline⟩ := List.mem_flatMap.mp hline
  exact Item.not_mem_of_mem_lines (h.each item hitem) (by decide) (fun _ => IsToken.noFeed) line hline

/-! ## rows -/

/-- Nothing of a written line is left out. -/
theorem content_eq_self {front : List Char} (hfront : '#' ∉ front) (hws : IsRow ws) :
    Text.trimEnd ((front ++ unwords ws).takeWhile (· ≠ '#')) = front ++ unwords ws := by
  have hrow := hws.not_mem (c := '#') (by decide) fun _ hw => hw.noMark
  have hmark : ∀ c ∈ front ++ unwords ws, decide (c ≠ '#') = true := by grind
  rw [List.takeWhile_eq_self_iff.mpr hmark]
  exact Text.trimEnd_append_unwords front hws.ne_nil fun w hw => (hws.tokens w hw).toIsWord

/-- An entry's first line is read as such. -/
theorem ofText?_first (line : Nat) {name : String} (hname : IsToken name.toList) (hws : IsRow ws) :
    Row.ofText? line (Text.padEnd ' ' nameColumns name.toList ++ ' ' :: unwords ws) =
      some (.first line name (ws.map String.ofList)) := by
  have hfront : '#' ∉ Text.padEnd ' ' nameColumns name.toList ++ [' '] := by
    have hmark := hname.noMark
    simp [Text.padEnd, hmark]
  have hcontent := content_eq_self hfront hws
  rw [List.append_assoc, List.singleton_append] at hcontent
  have hwords : Text.words (Text.padEnd ' ' nameColumns name.toList ++ ' ' :: unwords ws) =
      name.toList :: ws := by
    rw [padEnd_append_space, Text.words_append_space hname.toIsWord, Text.words_replicate_append,
      Text.words_unwords fun w hw => (hws.tokens w hw).toIsWord]
  obtain ⟨c, cs, hcs⟩ := List.exists_cons_of_ne_nil hname.ne_nil
  have hblank : Text.isBlank c = false := hname.noBlank c (hcs ▸ List.mem_cons_self)
  unfold Row.ofText?
  simp only [hcontent, hwords, List.map_cons, String.ofList_toList]
  simp [Text.padEnd, hcs, hblank]

/-- A line that continues an entry is read as such. -/
theorem ofText?_more (line : Nat) (hws : IsRow ws) :
    Row.ofText? line (Item.continuation ++ unwords ws) = some (.more line (ws.map String.ofList)) := by
  have hfront : '#' ∉ Item.continuation := by decide
  have hwords : Text.words (Item.continuation ++ unwords ws) = ws := by
    rw [Item.continuation, Text.words_replicate_append,
      Text.words_unwords fun w hw => (hws.tokens w hw).toIsWord]
  obtain ⟨w, more, rfl⟩ := List.exists_cons_of_ne_nil hws.ne_nil
  unfold Row.ofText?
  simp only [content_eq_self hfront hws, hwords, List.map_cons]
  exact if_pos rfl

/-- The rows of lines that come after `seen` others. -/
def rowsAfter (seen : Nat) (lines : List (List Char)) : List Row :=
  (lines.zipIdx seen).filterMap fun (cs, index) => Row.ofText? (index + 1) cs

/-- Rows are counted on from one part to the next. -/
theorem rowsAfter_append (seen : Nat) (xs ys : List (List Char)) :
    rowsAfter seen (xs ++ ys) = rowsAfter seen xs ++ rowsAfter (seen + xs.length) ys := by
  rw [rowsAfter, List.zipIdx_append, List.filterMap_append]
  rfl

/-- A line that is a row comes before the rows after it. -/
theorem rowsAfter_cons_of_eq {seen : Nat} {cs : List Char} {row : Row}
    (h : Row.ofText? (seen + 1) cs = some row) (lines : List (List Char)) :
    rowsAfter seen (cs :: lines) = row :: rowsAfter (seen + 1) lines := by
  simp [rowsAfter, h]

/-! ## blocks -/

/-- Lines of words with the numbers that they have after `seen` other lines. -/
def numberRows (seen : Nat) : List (List (List Char)) → List (Nat × List String)
  | [] => []
  | ws :: more => (seen + 1, ws.map String.ofList) :: numberRows (seen + 1) more

/-- The block that an entry is read as after `seen` other lines. -/
def Item.block (seen : Nat) (item : Item) : Block :=
  ⟨item.name, seen + 1, numberRows seen item.meaning.words⟩

/-- The blocks that entries are read as after `seen` other lines. -/
def blocksAfter (seen : Nat) : List Item → List Block
  | [] => []
  | item :: items => item.block seen :: blocksAfter (seen + item.meaning.words.length) items

/-- Lines that continue an entry wait for it. -/
theorem foldr_attach_more (seen : Nat) (blocks : List Block) {rows : List (List (List Char))}
    (h : ∀ ws ∈ rows, IsRow ws) :
    (rowsAfter seen (rows.map (Item.continuation ++ unwords ·))).foldr Block.attach ([], blocks) =
      (numberRows seen rows, blocks) := by
  induction rows generalizing seen with
  | nil => rfl
  | cons ws rows ih =>
      have hrow := ofText?_more (seen + 1) (h ws List.mem_cons_self)
      have hmore := ih (seen + 1) fun vs hvs => h vs (List.mem_cons_of_mem _ hvs)
      rw [List.map_cons, rowsAfter_cons_of_eq hrow, List.foldr_cons, hmore]
      rfl

/-- What can be written has words. -/
theorem Meaning.words_ne_nil {meaning : Meaning} (h : meaning.Writable) : meaning.words ≠ [] := by
  cases meaning with
  | field slices => simpa [Meaning.words] using h.1
  | constant register value => exact List.cons_ne_nil _ _

/-- An item has a line for each row of words. -/
theorem Item.length_lines (item : Item) : item.lines.length = item.meaning.words.length := by
  unfold Item.lines
  split
  · next hwords => simp [hwords]
  · next hwords => simp [hwords]

/-- The lines of an entry are its block. -/
theorem foldr_attach_lines (seen : Nat) (blocks : List Block) {item : Item} (h : item.Writable) :
    (rowsAfter seen item.lines).foldr Block.attach ([], blocks) = ([], item.block seen :: blocks) := by
  obtain ⟨ws, more, hwords⟩ := List.exists_cons_of_ne_nil (Meaning.words_ne_nil h.meaning)
  have hrows : ∀ vs ∈ ws :: more, IsRow vs := hwords ▸ isRow_of_mem_words item.meaning
  have hfirst := ofText?_first (seen + 1) h.name (hrows ws List.mem_cons_self)
  have hmore := foldr_attach_more (seen + 1) blocks fun vs hvs => hrows vs (List.mem_cons_of_mem _ hvs)
  have hlines : item.lines = (Text.padEnd ' ' nameColumns item.name.toList ++ ' ' :: unwords ws) ::
      more.map (Item.continuation ++ unwords ·) := by
    simp only [Item.lines, hwords]
  rw [hlines, rowsAfter_cons_of_eq hfirst, List.foldr_cons, hmore, Item.block, hwords]
  rfl

/-- The lines of items are gathered into a block for each item, and none is left over. -/
theorem foldr_attach_flatMap_lines (seen : Nat) {items : List Item} (h : ∀ item ∈ items, item.Writable) :
    (rowsAfter seen (items.flatMap Item.lines)).foldr Block.attach ([], []) =
      ([], blocksAfter seen items) := by
  induction items generalizing seen with
  | nil => rfl
  | cons item items ih =>
      have hitem := h item List.mem_cons_self
      have hitems := ih (seen + item.meaning.words.length) fun other hmem =>
        h other (List.mem_cons_of_mem _ hmem)
      rw [List.flatMap_cons, rowsAfter_append, List.foldr_append, Item.length_lines, hitems,
        foldr_attach_lines seen _ hitem]
      rfl

/-- The blocks of a text that was written are the entries, in words. -/
theorem gather_render {items : List Item} (h : Writable items) :
    gather (render items) = .ok (blocksAfter 0 items) := by
  have hrows := foldr_attach_flatMap_lines 0 h.each
  rw [rowsAfter] at hrows
  simp only [gather, ofText_render h, hrows, List.isEmpty_nil, if_true]

end DeviceRegisters.Packing
