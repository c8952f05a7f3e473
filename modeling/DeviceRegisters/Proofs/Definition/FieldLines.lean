import Mathlib.Data.List.Forall2
import DeviceRegisters.Proofs.Definition.Fields
import DeviceRegisters.Proofs.Definition.Reading

/-!
# DeviceRegisters.Proofs.Definition.FieldLines

What the lines beneath a register say.

`Placed cursor nodes fields` is the grammar of these lines: from the bit `cursor` on they describe
the fields, each of which stands where its line says or else where the line before it ended.  The
reader accepts the lines that describe fields without a common bit, and answers those fields
(`readFields_eq_ok_iff`).
-/

namespace DeviceRegisters.Definition

open Outline (Node)

/-! ## words -/

/-- The word is a numeral of 32 bits. -/
def Denotes (word : String) (n : Nat) : Prop :=
  ∃ v, Numeral.parse word.toList = .ok v ∧ v.toNat < UInt32.size ∧ n = v.toNat

/-- The words of a width: a number, or none. -/
inductive WidthWords : List String → Option Nat → Prop where
  | omitted : WidthWords [] none
  | given {word : String} {n : Nat} :
      Numeral.startsLikeOne word = true → Denotes word n → WidthWords [word] (some n)

/-- The words of an offset: a number after `@`, or none. -/
inductive OffsetWords : List String → Option Nat → Prop where
  | omitted : OffsetWords [] none
  | given {word number : String} {n : Nat} :
      word.toList = '@' :: number.toList → Denotes number n → OffsetWords [word] (some n)

/-- The words of a mode: its name, or none. -/
inductive AccessWords : List String → Option Access → Prop where
  | omitted : AccessWords [] none
  | given (mode : Access) : AccessWords [mode.text] (some mode)

/-- A word is read as the number that it denotes. -/
theorem readNumber_eq_ok_iff {word : String} {line n : Nat} :
    readNumber word line = .ok n ↔ Denotes word n := by
  rw [readNumber, Denotes]
  cases Numeral.parse word.toList with
  | error problem => simp
  | ok v =>
      simp only [Except.ok.injEq, exists_eq_left']
      split
      · next hv => simp [hv, eq_comm]
      · next hv => simp [hv]

/-- A width is taken off the words in front. -/
theorem widthWords_of_readWidth {words rest : List String} {line : Nat} {width? : Option Nat}
    (h : readWidth words line = .ok (width?, rest)) :
    ∃ front, words = front ++ rest ∧ WidthWords front width? := by
  cases words with
  | nil =>
      cases h
      exact ⟨[], rfl, .omitted⟩
  | cons word words =>
      rw [readWidth] at h
      split at h
      · next hword =>
        obtain ⟨n, hn, h⟩ := bind_eq_ok_iff.mp h
        cases h
        exact ⟨[word], rfl, .given hword (readNumber_eq_ok_iff.mp hn)⟩
      · cases h
        exact ⟨[], rfl, .omitted⟩

/-- A width that is written is read, if no other word can be taken for one. -/
theorem readWidth_of_widthWords {front rest : List String} {width? : Option Nat} (line : Nat)
    (h : WidthWords front width?) (hrest : ∀ word ∈ rest, Numeral.startsLikeOne word = false) :
    readWidth (front ++ rest) line = .ok (width?, rest) := by
  cases h with
  | omitted =>
      cases rest with
      | nil => rfl
      | cons word rest =>
          rw [List.nil_append, readWidth, if_neg (by simp [hrest word List.mem_cons_self])]
  | given hword hn =>
      rw [List.singleton_append, readWidth, if_pos hword, readNumber_eq_ok_iff.mpr hn]
      rfl

/-- So is an offset taken off. -/
theorem offsetWords_of_readOffset {words rest : List String} {line : Nat} {offset? : Option Nat}
    (h : readOffset words line = .ok (offset?, rest)) :
    ∃ front, words = front ++ rest ∧ OffsetWords front offset? := by
  cases words with
  | nil =>
      cases h
      exact ⟨[], rfl, .omitted⟩
  | cons word words =>
      rw [readOffset] at h
      split at h
      · next number hword =>
        obtain ⟨n, hn, h⟩ := bind_eq_ok_iff.mp h
        cases h
        refine ⟨[word], rfl, .given ?_ (readNumber_eq_ok_iff.mp hn)⟩
        rwa [String.toList_ofList]
      · cases h
        exact ⟨[], rfl, .omitted⟩

/-- An offset that is written is read, if no other word can be taken for one. -/
theorem readOffset_of_offsetWords {front rest : List String} {offset? : Option Nat} (line : Nat)
    (h : OffsetWords front offset?) (hrest : ∀ word ∈ rest, word.toList.head? ≠ some '@') :
    readOffset (front ++ rest) line = .ok (offset?, rest) := by
  cases h with
  | omitted =>
      cases rest with
      | nil => rfl
      | cons word rest =>
          have hword := hrest word List.mem_cons_self
          rw [List.nil_append, readOffset]
          split
          · next number hnumber => simp [hnumber] at hword
          · rfl
  | given hword hn =>
      rw [List.singleton_append, readOffset]
      simp only [hword, String.ofList_toList, readNumber_eq_ok_iff.mpr hn]
      rfl

/-- The words after a field are read as the mode that they give it, if they give one. -/
theorem readOwnAccess_eq_ok_iff {words : List String} {line : Nat} {access? : Option Access} :
    readOwnAccess words line = .ok access? ↔ AccessWords words access? := by
  constructor
  · intro h
    obtain ⟨_, hcount, h⟩ := bind_eq_ok_iff.mp h
    rcases words with _ | ⟨word, _ | ⟨other, words⟩⟩
    · cases h
      exact .omitted
    · obtain ⟨mode, hmode, h⟩ := bind_eq_ok_iff.mp h
      cases h
      rw [readAccess] at hmode
      split at hmode
      · next found hfound =>
        cases hmode
        rw [Access.ofText?_eq_some_iff.mp hfound]
        exact .given mode
      · exact absurd hmode refuse_ne_ok
    · exact absurd hcount refuse_ne_ok
  · intro h
    cases h with
    | omitted => rfl
    | given mode =>
        have hmode : readAccess mode.text line = .ok mode := by
          rw [readAccess, Access.ofText?_eq_some_iff.mpr rfl]
        simp only [readOwnAccess, hmode]
        rfl

/-- A mode is taken neither for a width nor for an offset. -/
theorem AccessWords.of_mem {words : List String} {access? : Option Access}
    (h : AccessWords words access?) {word : String} (hword : word ∈ words) :
    Numeral.startsLikeOne word = false ∧ word.toList.head? ≠ some '@' := by
  cases h with
  | omitted => exact absurd hword List.not_mem_nil
  | given mode =>
      obtain rfl := List.mem_singleton.mp hword
      cases mode <;> decide

/-- An offset is not taken for a width. -/
theorem OffsetWords.of_mem {words : List String} {offset? : Option Nat}
    (h : OffsetWords words offset?) {word : String} (hword : word ∈ words) :
    Numeral.startsLikeOne word = false := by
  cases h with
  | omitted => exact absurd hword List.not_mem_nil
  | given hmark _ =>
      obtain rfl := List.mem_singleton.mp hword
      rw [Numeral.startsLikeOne, hmark]
      rfl

/-! ## lines -/

/-- A line that skips bits, one unless it says how many. -/
inductive SkipLine : Node → Nat → Prop where
  | one {line : Nat} {text : String} {doc : List String} :
      Text.wordsOf text = ["-"] → SkipLine ⟨line, text, doc, []⟩ 1
  | many {line n : Nat} {text word : String} {doc : List String} :
      Text.wordsOf text = ["-", word] → Denotes word n → SkipLine ⟨line, text, doc, []⟩ n

/-- A line `.NAME [WIDTH] [@OFFSET] [MODE]` and its field.  Without an offset the field starts at
`cursor`, and without a width it is one bit. -/
inductive FieldLine (cursor : Nat) : Node → Field → Prop where
  | intro {line : Nat} {text word name : String} {doc width offset access : List String}
      {width? offset? : Option Nat} {access? : Option Access} :
      Text.wordsOf text = word :: (width ++ (offset ++ access)) →
      word.toList = '.' :: name.toList → Name.isValid name = true →
      WidthWords width width? → OffsetWords offset offset? → AccessWords access access? →
      FieldLine cursor ⟨line, text, doc, []⟩
        ⟨name, offset?.getD cursor, width?.getD 1, width?.isNone, access?, doc, line⟩

/-- A line passes as a leaf if nothing stands beneath it. -/
theorem checkLeaf_eq_ok_iff {children : List Node} {line : Nat} :
    checkLeaf children line = .ok () ↔ children = [] := by
  cases children with
  | nil => exact iff_of_true rfl rfl
  | cons child children => exact iff_of_false nofun nofun

/-- A name passes if it is valid. -/
theorem checkName_eq_ok_iff {name : String} {line : Nat} :
    checkName name line = .ok () ↔ Name.isValid name = true := by
  rw [checkName]
  split <;> simp_all

/-- A text gives its first word and those after it, if it has any. -/
theorem readTokens_eq_ok_iff {text word : String} {rest : List String} {line : Nat} :
    readTokens text line = .ok (word, rest) ↔ Text.wordsOf text = word :: rest := by
  rw [readTokens]
  split <;> simp_all

/-- A line that starts with a dash is read as the number of bits that it skips. -/
theorem readSkip_eq_ok_iff {text : String} {rest doc : List String} {children : List Node}
    {line n : Nat} (hwords : Text.wordsOf text = "-" :: rest) :
    readSkip rest children line = .ok n ↔ SkipLine ⟨line, text, doc, children⟩ n := by
  constructor
  · intro h
    simp only [readSkip, bind_eq_ok_iff] at h
    obtain ⟨_, hleaf, _, hcount, h⟩ := h
    obtain rfl := checkLeaf_eq_ok_iff.mp hleaf
    rcases rest with _ | ⟨word, _ | ⟨other, rest⟩⟩
    · cases h
      exact .one hwords
    · exact .many hwords (readNumber_eq_ok_iff.mp h)
    · exact absurd hcount refuse_ne_ok
  · intro h
    cases h with
    | one h =>
        obtain rfl : rest = [] := List.tail_eq_of_cons_eq (hwords.symm.trans h)
        rfl
    | many h hn =>
        obtain rfl := List.tail_eq_of_cons_eq (hwords.symm.trans h)
        exact readNumber_eq_ok_iff.mpr hn

/-- A field that is read is described by its line. -/
theorem fieldLine_of_readField {cursor line : Nat} {text word : String} {rest doc : List String}
    {children : List Node} {f : Field} (hwords : Text.wordsOf text = word :: rest)
    (h : readField cursor word rest doc children line = .ok f) :
    FieldLine cursor ⟨line, text, doc, children⟩ f := by
  obtain ⟨_, hleaf, hline⟩ := bind_eq_ok_iff.mp h
  obtain rfl := checkLeaf_eq_ok_iff.mp hleaf
  clear h hleaf
  split at hline
  · next name hword =>
    simp only [bind_eq_ok_iff, Prod.exists] at hline
    obtain ⟨_, hname, width?, afterWidth, hwidth, offset?, afterOffset, hoffset, hline⟩ := hline
    obtain ⟨width, rfl, hwidthWords⟩ := widthWords_of_readWidth hwidth
    obtain ⟨offset, rfl, hoffsetWords⟩ := offsetWords_of_readOffset hoffset
    split at hline
    · exact absurd hline refuse_ne_ok
    split at hline
    · exact absurd hline refuse_ne_ok
    obtain ⟨access?, haccess, hfield⟩ := bind_eq_ok_iff.mp hline
    cases hfield
    exact .intro hwords (by rwa [String.toList_ofList]) (checkName_eq_ok_iff.mp hname) hwidthWords
      hoffsetWords (readOwnAccess_eq_ok_iff.mp haccess)
  · exact absurd hline refuse_ne_ok

/-- A field that its line describes is read if it fits. -/
theorem readField_of_fieldLine {cursor line : Nat} {text word : String} {rest doc : List String}
    {children : List Node} {f : Field} (hwords : Text.wordsOf text = word :: rest)
    (h : FieldLine cursor ⟨line, text, doc, children⟩ f) (hfits : f.Fits) :
    readField cursor word rest doc children line = .ok f := by
  cases h with
  | @intro _ _ first name _ width offset access width? offset? _ hline hword hname hwidth hoffset
      haccess =>
    obtain ⟨rfl, rfl⟩ := List.cons.inj (hwords.symm.trans hline)
    -- the words behind the width cannot be taken for one, nor those behind the offset for that
    have hreadWidth : readWidth (width ++ (offset ++ access)) line = .ok (width?, _) :=
      readWidth_of_widthWords line hwidth fun word hmem =>
        (List.mem_append.mp hmem).elim hoffset.of_mem fun hmem => (haccess.of_mem hmem).1
    have hreadOffset : readOffset (offset ++ access) line = .ok (offset?, _) :=
      readOffset_of_offsetWords line hoffset fun word hmem => (haccess.of_mem hmem).2
    have hnonempty : ¬ width?.getD 1 = 0 := Nat.ne_of_gt hfits.width_pos
    have hinside : ¬ registerBits < offset?.getD cursor + width?.getD 1 :=
      Nat.not_lt.mpr hfits.stop_le
    simp only [readField, hword, String.ofList_toList, checkLeaf_eq_ok_iff.mpr rfl,
      checkName_eq_ok_iff.mpr hname, hreadWidth, hreadOffset, bind, Except.bind, if_neg hnonempty,
      if_neg hinside, readOwnAccess_eq_ok_iff.mpr haccess]

/-! ## lists of lines -/

/-- The lines describe the fields, from the bit `cursor` on.  A skip leads on to the bit behind it,
a field to the bit where it ends. -/
inductive Placed : Nat → List Node → List Field → Prop where
  | nil {cursor : Nat} : Placed cursor [] []
  | skip {cursor n : Nat} {node : Node} {nodes : List Node} {fields : List Field} :
      SkipLine node n → cursor + n ≤ registerBits → Placed (cursor + n) nodes fields →
      Placed cursor (node :: nodes) fields
  | field {cursor : Nat} {node : Node} {f : Field} {nodes : List Node} {fields : List Field} :
      FieldLine cursor node f → Placed f.stop nodes fields →
      Placed cursor (node :: nodes) (f :: fields)

/-- A line is one of a field if its first word starts with a dot. -/
def isFieldLine (node : Node) : Bool :=
  ((Text.wordsOf node.text).head?.bind (·.toList.head?)) = some '.'

/-- The line of a field is taken for one. -/
theorem FieldLine.isFieldLine {cursor : Nat} {node : Node} {f : Field}
    (h : FieldLine cursor node f) : isFieldLine node = true := by
  cases h with
  | intro hwords hword => simp [Definition.isFieldLine, hwords, hword]

/-- A line that skips bits is not taken for a field. -/
theorem SkipLine.isFieldLine {n : Nat} {node : Node} (h : SkipLine node n) :
    isFieldLine node = false := by
  cases h with
  | one hwords => simp [Definition.isFieldLine, hwords]
  | many hwords _ => simp [Definition.isFieldLine, hwords]

/-- There is one field for each line of a field, in the order of the lines. -/
theorem Placed.forall₂ {cursor : Nat} {nodes : List Node} {fields : List Field}
    (h : Placed cursor nodes fields) :
    List.Forall₂ (fun node f => ∃ start, FieldLine start node f) (nodes.filter isFieldLine)
      fields := by
  induction h with
  | nil => exact .nil
  | skip hline _ _ ih => rwa [List.filter_cons_of_neg (by simp [hline.isFieldLine])]
  | field hline _ ih =>
      rw [List.filter_cons_of_pos hline.isFieldLine]
      exact .cons ⟨_, hline⟩ ih

/-- A field is added at the end if it shares no bit with those before. -/
theorem addField_eq_ok_iff {fields all : List Field} {f : Field} :
    addField fields f = .ok all ↔ all = fields ++ [f] ∧ ∀ g ∈ fields, g.overlaps f = false := by
  rw [addField]
  split
  · next g hg =>
    have hoverlaps := List.find?_some hg
    refine iff_of_false refuse_ne_ok fun h => ?_
    exact Bool.false_ne_true ((h.2 g (List.mem_of_find?_eq_some hg)).symm.trans hoverlaps)
  · next hfree =>
    rw [Except.ok.injEq, eq_comm, iff_self_and]
    exact fun _ => by simpa using hfree

/-- Fields that fit go on to do so with one more if that fits and shares no bit with them. -/
theorem FieldsFit.concat_iff {fields : List Field} {f : Field} (h : FieldsFit fields) :
    FieldsFit (fields ++ [f]) ↔ f.Fits ∧ ∀ g ∈ fields, g.overlaps f = false := by
  constructor
  · intro hall
    refine ⟨hall.inside f (by simp), fun g hg => ?_⟩
    exact (List.pairwise_append.mp hall.apart).2.2 g hg f (List.mem_singleton_self f)
  · rintro ⟨hf, hapart⟩
    exact (fit_addField h hf).of_ok (addField_eq_ok_iff.mpr ⟨rfl, hapart⟩)

/-- Of fields that fit the first ones fit. -/
theorem FieldsFit.of_append_left {fields more : List Field} (h : FieldsFit (fields ++ more)) :
    FieldsFit fields where
  inside f hf := h.inside f (List.mem_append_left more hf)
  apart := (List.pairwise_append.mp h.apart).1

/-- A line that skips bits moves the position on, if that stays inside the register. -/
theorem readFieldsFrom_of_skipLine {fields : List Field} {cursor n : Nat} {node : Node}
    {nodes : List Node} (h : SkipLine node n) (hinside : cursor + n ≤ registerBits) :
    readFieldsFrom fields cursor (node :: nodes) = readFieldsFrom fields (cursor + n) nodes := by
  obtain ⟨line, text, doc, children⟩ := node
  have hwords : ∃ rest, Text.wordsOf text = "-" :: rest := by
    cases h with
    | one hwords => exact ⟨_, hwords⟩
    | many hwords _ => exact ⟨_, hwords⟩
  obtain ⟨rest, hwords⟩ := hwords
  simp only [readFieldsFrom, readTokens_eq_ok_iff.mpr hwords, (readSkip_eq_ok_iff hwords).mpr h,
    bind, Except.bind, if_true, if_neg (Nat.not_lt.mpr hinside)]

/-- The line of a field that fits adds the field and moves the position to its end. -/
theorem readFieldsFrom_of_fieldLine {fields : List Field} {cursor : Nat} {node : Node} {f : Field}
    {nodes : List Node} (h : FieldLine cursor node f) (hfits : f.Fits)
    (hapart : ∀ g ∈ fields, g.overlaps f = false) :
    readFieldsFrom fields cursor (node :: nodes) =
      readFieldsFrom (fields ++ [f]) f.stop nodes := by
  obtain ⟨line, text, doc, children⟩ := node
  have hwords : ∃ word rest, Text.wordsOf text = word :: rest ∧ word ≠ "-" := by
    cases h with
    | intro hwords hword =>
      refine ⟨_, _, hwords, ?_⟩
      rintro rfl
      exact absurd hword (by simp)
  obtain ⟨word, rest, hwords, hword⟩ := hwords
  simp only [readFieldsFrom, readTokens_eq_ok_iff.mpr hwords,
    readField_of_fieldLine hwords h hfits, addField_eq_ok_iff.mpr ⟨rfl, hapart⟩, bind,
    Except.bind, if_neg hword]

/-- Lines are read behind fields if they describe more of them and all together fit. -/
theorem readFieldsFrom_eq_ok_iff {fields all : List Field} {cursor : Nat} {nodes : List Node}
    (hfields : FieldsFit fields) :
    readFieldsFrom fields cursor nodes = .ok all ↔
      ∃ more, Placed cursor nodes more ∧ all = fields ++ more ∧ FieldsFit all := by
  induction nodes generalizing fields cursor with
  | nil =>
      constructor
      · intro h
        cases h
        exact ⟨[], .nil, (List.append_nil _).symm, hfields⟩
      · rintro ⟨_, ⟨⟩, rfl, _⟩
        rw [List.append_nil]
        rfl
  | cons node nodes ih =>
      constructor
      · intro h
        have hall : FieldsFit all := (fit_readFieldsFrom cursor (node :: nodes) hfields).of_ok h
        obtain ⟨line, text, doc, children⟩ := node
        obtain ⟨⟨word, rest⟩, htokens, hline⟩ := bind_eq_ok_iff.mp h
        have hwords := readTokens_eq_ok_iff.mp htokens
        dsimp only at hline
        split at hline
        · next hword =>
          obtain rfl : word = "-" := hword
          obtain ⟨n, hskip, hnext⟩ := bind_eq_ok_iff.mp hline
          split at hnext
          · exact absurd hnext refuse_ne_ok
          next hinside =>
          obtain ⟨more, hplaced, hmore⟩ := (ih hfields).mp hnext
          have hskipped : SkipLine ⟨line, text, doc, children⟩ n := (readSkip_eq_ok_iff hwords).mp hskip
          exact ⟨more, .skip hskipped (Nat.le_of_not_lt hinside) hplaced, hmore⟩
        · obtain ⟨f, hfield, hnext⟩ := bind_eq_ok_iff.mp hline
          obtain ⟨_, hadd, hnext⟩ := bind_eq_ok_iff.mp hnext
          have hdescribed := fieldLine_of_readField hwords hfield
          have hf := (fits_readField cursor word rest doc children line).of_ok hfield
          obtain ⟨rfl, hapart⟩ := addField_eq_ok_iff.mp hadd
          obtain ⟨more, hplaced, rfl, -⟩ := (ih (hfields.concat_iff.mpr ⟨hf, hapart⟩)).mp hnext
          exact ⟨f :: more, .field hdescribed hplaced, (List.append_cons ..).symm, hall⟩
      · rintro ⟨more, hplaced, rfl, hall⟩
        cases hplaced with
        | skip hline hinside hlater =>
            rw [readFieldsFrom_of_skipLine hline hinside]
            exact (ih hfields).mpr ⟨_, hlater, rfl, hall⟩
        | @field _ _ f _ more hline hlater =>
            have happend := List.append_cons fields f more
            have hnext : FieldsFit (fields ++ [f]) := (happend ▸ hall).of_append_left
            obtain ⟨hf, hapart⟩ := hfields.concat_iff.mp hnext
            rw [readFieldsFrom_of_fieldLine hline hf hapart]
            exact (ih hnext).mpr ⟨more, hlater, happend, hall⟩

/-- The lines beneath a register are read if they describe fields that fit. -/
theorem readFields_eq_ok_iff {nodes : List Node} {fields : List Field} :
    readFields nodes = .ok fields ↔ Placed 0 nodes fields ∧ FieldsFit fields := by
  rw [readFields, readFieldsFrom_eq_ok_iff fieldsFit_nil]
  simp only [List.nil_append]
  exact ⟨fun ⟨_, hplaced, hfields, hfit⟩ => hfields ▸ ⟨hplaced, hfields ▸ hfit⟩,
    fun ⟨hplaced, hfit⟩ => ⟨fields, hplaced, rfl, hfit⟩⟩

end DeviceRegisters.Definition
