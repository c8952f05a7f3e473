import DeviceRegisters.Directory.Path
import DeviceRegisters.Proofs.Text.Digits
import DeviceRegisters.Proofs.Text.Words
import Mathlib.Data.List.Forall2

/-!
# DeviceRegisters.Proofs.Directory.Spelling

How paths are spelled.

`Spells cs path` is the grammar of paths: parts with dots between them, each a name with indices
behind it, an index being decimal digits in brackets with some tolerance around them.  Reading
accepts what is spelled and nothing else (`parse_eq_ok_iff`).  What is written spells the path that
it was written for (`spells_text`), so the written form of a path is read as that path.
-/

namespace DeviceRegisters

namespace Path

open Text (isBlank)

/-! ## the grammar -/

/-- The text of an index between its brackets: decimal digits that denote a number of 64 bits, after
one plus sign or none, with blanks around them or without. -/
inductive SpellsIndex : List Char → Nat → Prop where
  | intro {before sign digits after : List Char} :
      (∀ c ∈ before, isBlank c = true) → (∀ c ∈ after, isBlank c = true) →
      (sign = [] ∨ sign = ['+']) → digits ≠ [] → (∀ c ∈ digits, c.isDigit = true) →
      Nat.ofDigitChars 10 digits 0 < UInt64.size →
      SpellsIndex (before ++ (sign ++ digits) ++ after) (Nat.ofDigitChars 10 digits 0)

/-- The text of indices, each in brackets. -/
inductive SpellsIndices : List Char → Path → Prop where
  | nil : SpellsIndices [] []
  | cons {inner rest : List Char} {n : Nat} {path : Path} :
      SpellsIndex inner n → SpellsIndices rest path →
      SpellsIndices ('[' :: (inner ++ ']' :: rest)) (.index n :: path)

/-- The text between two dots: a name without an opening bracket, and the indices behind it. -/
inductive SpellsPart : List Char → Path → Prop where
  | intro {name indices : List Char} {path : Path} :
      name ≠ [] → '[' ∉ name → SpellsIndices indices path →
      SpellsPart (name ++ indices) (.member (String.ofList name) :: path)

/-- The text of a path: parts with dots between them. -/
def Spells (cs : List Char) (path : Path) : Prop :=
  ∃ (parts : List (List Char)) (steps : List Path),
    cs = ['.'].intercalate parts ∧ parts ≠ [] ∧ (∀ part ∈ parts, '.' ∉ part) ∧
      List.Forall₂ SpellsPart parts steps ∧ path = steps.flatten

end Path

/-- A segment that can be written: a name that ends where the next segment begins, or an index of 64
bits. -/
def Segment.Writable : Segment → Prop
  | .member name => name ≠ "" ∧ '.' ∉ name.toList ∧ '[' ∉ name.toList
  | .index n => n < UInt64.size

/-- A path that can be written: it begins with a name, and all its segments can. -/
structure Path.Writable (path : Path) : Prop where
  begins : ∃ name rest, path = .member name :: rest
  segments : ∀ segment ∈ path, segment.Writable

namespace Path

open Text (isBlank)

/-! ## indices -/

/-- The text of an index is made of blanks, plus signs and digits. -/
theorem SpellsIndex.notMem {cs : List Char} {n : Nat} (h : SpellsIndex cs n) {c : Char}
    (hblank : isBlank c = false) (hplus : c ≠ '+') (hdigit : c.isDigit = false) : c ∉ cs := by
  obtain ⟨hbefore, hafter, hsign, -, hall, -⟩ := h
  simp only [List.mem_append, not_or]
  refine ⟨⟨fun hc => ?_, fun hc => ?_, fun hc => ?_⟩, fun hc => ?_⟩
  · simp [hbefore c hc] at hblank
  · rcases hsign with rfl | rfl
    · exact List.not_mem_nil hc
    · exact hplus (List.mem_singleton.mp hc)
  · simp [hall c hc] at hdigit
  · simp [hafter c hc] at hblank

/-- An index is read if it is spelled. -/
theorem readIndex_eq_some_iff {cs : List Char} {n : Nat} :
    readIndex cs = some n ↔ SpellsIndex cs n := by
  rw [readIndex, Option.map_eq_some_iff]
  constructor
  · rintro ⟨v, hread, rfl⟩
    obtain ⟨sign, digits, hcore, hsign, hdigits⟩ := Text.readUnsigned64_eq_some_iff.mp hread
    obtain ⟨hne, hdigits⟩ := Text.readDigits_eq_some_iff.mp hdigits
    obtain ⟨hall, hvalue⟩ := Text.readDigitsFrom_decimal_iff.mp hdigits
    obtain ⟨before, after, hcs, hbefore, hafter⟩ := Text.exists_trim cs
    rw [hcs, hcore, ← hvalue]
    exact .intro hbefore hafter hsign hne hall (hvalue ▸ v.toNat_lt)
  · rintro ⟨hbefore, hafter, hsign, hne, hall, hlt⟩
    next before sign digits after =>
    have hword : Text.IsWord (sign ++ digits) := by
      refine ⟨List.append_ne_nil_of_right_ne_nil sign hne, fun c hc => ?_⟩
      rcases List.mem_append.mp hc with hc | hc
      · rcases hsign with rfl | rfl
        · exact absurd hc List.not_mem_nil
        · obtain rfl := List.mem_singleton.mp hc
          decide
      · exact Text.isBlank_of_isDigit (hall c hc)
    refine ⟨UInt64.ofNat (Nat.ofDigitChars 10 digits 0), ?_, UInt64.toNat_ofNat_of_lt' hlt⟩
    rw [Text.trim_append_word hbefore hafter hword, Text.readUnsigned64_eq_some_iff]
    refine ⟨sign, digits, rfl, hsign, Text.readDigits_eq_some_iff.mpr ⟨hne, ?_⟩⟩
    rw [UInt64.toNat_ofNat_of_lt' hlt]
    exact Text.readDigitsFrom_decimal_iff.mpr ⟨hall, rfl⟩

/-- Inside brackets an index is read up to the closing one. -/
theorem readIndices_inside {seen inner rest : List Char} (h : ']' ∉ inner) :
    readIndices (.inside seen) (inner ++ ']' :: rest) =
      (readIndex (seen.reverse ++ inner)).bind fun n => (readIndices .outside rest).map (.index n :: ·) := by
  induction inner generalizing seen with
  | nil =>
      rw [List.nil_append, List.append_nil, readIndices, if_pos rfl]
      cases readIndex seen.reverse <;> rfl
  | cons c inner ih =>
      obtain ⟨hc, hinner⟩ := List.ne_and_not_mem_of_not_mem_cons h
      rw [List.cons_append, readIndices, if_neg (Ne.symm hc), ih hinner, List.reverse_cons, List.append_assoc,
        List.singleton_append]

/-- Without a closing bracket nothing is read. -/
theorem readIndices_inside_eq_none {seen cs : List Char} (h : ']' ∉ cs) :
    readIndices (.inside seen) cs = none := by
  induction cs generalizing seen with
  | nil => rfl
  | cons c cs ih =>
      obtain ⟨hc, hcs⟩ := List.ne_and_not_mem_of_not_mem_cons h
      rw [readIndices, if_neg (Ne.symm hc), ih hcs]

/-- Indices are read if they are spelled. -/
theorem readIndices_eq_some_iff {cs : List Char} {path : Path} :
    readIndices .outside cs = some path ↔ SpellsIndices cs path := by
  constructor
  · -- on the length: what is read behind a closing bracket is shorter
    induction hlength : cs.length using Nat.strongRecOn generalizing cs path with
    | ind length ih =>
        intro hread
        cases cs with
        | nil =>
            obtain rfl := Option.some.inj hread
            exact .nil
        | cons c cs =>
            rw [readIndices] at hread
            split at hread
            · next hc =>
              subst hc
              by_cases hclosed : ']' ∈ cs
              · obtain ⟨inner, rest, rfl, hinner⟩ := List.eq_append_cons_of_mem hclosed
                rw [readIndices_inside hinner, List.reverse_nil, List.nil_append] at hread
                obtain ⟨n, hn, hrest⟩ := Option.bind_eq_some_iff.mp hread
                obtain ⟨more, hmore, rfl⟩ := Option.map_eq_some_iff.mp hrest
                refine .cons (readIndex_eq_some_iff.mp hn) (ih rest.length ?_ rfl hmore)
                simp only [List.length_cons, List.length_append] at hlength
                omega
              · rw [readIndices_inside_eq_none hclosed] at hread
                contradiction
            · contradiction
  · intro h
    induction h with
    | nil => rfl
    | cons hindex _ ih =>
        have hclosed := hindex.notMem (c := ']') (by decide) (by decide) (by decide)
        rw [readIndices, if_pos rfl, readIndices_inside hclosed, List.reverse_nil,
          List.nil_append, readIndex_eq_some_iff.mpr hindex, Option.bind_some, ih, Option.map_some]

/-! ## parts -/

/-- A part is read as what it spells. -/
theorem readPart_eq_some_iff {cs : List Char} {path : Path} :
    readPart cs = some path ↔ SpellsPart cs path := by
  rw [readPart]
  constructor
  · intro h
    split at h
    · contradiction
    · next hne =>
      obtain ⟨indices, hindices, rfl⟩ := Option.map_eq_some_iff.mp h
      have hname : '[' ∉ cs.takeWhile (· ≠ '[') := fun hmem =>
        absurd (List.mem_takeWhile_imp hmem) (by decide)
      have hpart := SpellsPart.intro (by simpa using hne) hname (readIndices_eq_some_iff.mp hindices)
      rwa [List.takeWhile_append_dropWhile] at hpart
  · rintro ⟨hne, hname, hindices⟩
    next name indices rest =>
    have hall : ∀ c ∈ name, decide (c ≠ '[') = true := by
      intro c hc
      exact decide_eq_true fun h => hname (h ▸ hc)
    have hstop : indices.takeWhile (· ≠ '[') = [] ∧ indices.dropWhile (· ≠ '[') = indices := by
      cases hindices with
      | nil => exact ⟨rfl, rfl⟩
      | cons _ _ => simp
    rw [List.takeWhile_append_of_pos hall, List.dropWhile_append_of_pos hall, hstop.1, hstop.2,
      List.append_nil, readIndices_eq_some_iff.mpr hindices]
    simp [hne]

/-- Parts are read if they all are spelled. -/
theorem readParts_eq_some_iff {parts : List (List Char)} {path : Path} :
    readParts parts = some path ↔
      ∃ steps, List.Forall₂ SpellsPart parts steps ∧ path = steps.flatten := by
  induction parts generalizing path with
  | nil =>
      simp [readParts, eq_comm]
  | cons part parts ih =>
      rw [readParts]
      constructor
      · intro h
        split at h
        · contradiction
        · next first hfirst =>
          obtain ⟨more, hmore, rfl⟩ := Option.map_eq_some_iff.mp h
          obtain ⟨steps, hsteps, rfl⟩ := ih.mp hmore
          exact ⟨first :: steps, .cons (readPart_eq_some_iff.mp hfirst) hsteps, rfl⟩
      · rintro ⟨steps, hsteps, rfl⟩
        cases hsteps with
        | cons hfirst hrest =>
            rw [readPart_eq_some_iff.mpr hfirst, ih.mpr ⟨_, hrest, rfl⟩]
            rfl

/-! ## paths -/

/-- A text is read as the path that it spells. -/
theorem parse_eq_ok_iff {text : String} {path : Path} :
    parse text = .ok path ↔ Spells text.toList path := by
  have hread : parse text = .ok path ↔ readParts (Text.pieces (· = '.') text.toList) = some path := by
    rw [parse]
    split <;> simp_all
  rw [hread, readParts_eq_some_iff]
  constructor
  · rintro ⟨steps, hsteps, hpath⟩
    obtain ⟨htext, hne, hparts⟩ := Text.pieces_eq_iff.mp rfl
    exact ⟨_, steps, htext, hne, hparts, hsteps, hpath⟩
  · rintro ⟨parts, steps, htext, hne, hparts, hsteps, hpath⟩
    rw [Text.pieces_eq_iff.mpr ⟨htext, hne, hparts⟩]
    exact ⟨steps, hsteps, hpath⟩

/-! ## writing -/

/-- The digits of a number are a spelling of it. -/
theorem spellsIndex_decimal {n : Nat} (h : n < UInt64.size) : SpellsIndex (Text.decimal n) n := by
  have hvalue : Nat.ofDigitChars 10 (Text.decimal n) 0 = n :=
    Nat.ofDigitChars_toDigits (by decide) (by decide)
  have hdigits : ∀ c ∈ Text.decimal n, c.isDigit = true :=
    fun c hc => Nat.isDigit_of_mem_toDigits (by decide) (by decide) hc
  have hne : Text.decimal n ≠ [] := Nat.toDigits_ne_nil
  have hspells : SpellsIndex ([] ++ ([] ++ Text.decimal n) ++ [])
      (Nat.ofDigitChars 10 (Text.decimal n) 0) :=
    .intro (by simp) (by simp) (.inl rfl) hne hdigits (by rwa [hvalue])
  rwa [hvalue, List.nil_append, List.nil_append, List.append_nil] at hspells

/-- What is written for segments are indices, and then a dot in front of each part. -/
theorem exists_spelling {path : Path} (h : ∀ segment ∈ path, segment.Writable) :
    ∃ indices own parts steps, path.flatMap segmentText = indices ++ parts.flatMap ('.' :: ·) ∧
      SpellsIndices indices own ∧ '.' ∉ indices ∧ List.Forall₂ SpellsPart parts steps ∧
      (∀ part ∈ parts, '.' ∉ part) ∧ path = own ++ steps.flatten := by
  induction path with
  | nil => exact ⟨[], [], [], [], rfl, .nil, List.not_mem_nil, .nil, by simp, rfl⟩
  | cons segment path ih =>
      obtain ⟨hsegment, hpath⟩ := List.forall_mem_cons.mp h
      obtain ⟨indices, own, parts, steps, htext, hindices, hdot, hparts, hdots, rfl⟩ := ih hpath
      cases segment with
      | index n =>
          have hn := spellsIndex_decimal hsegment
          refine ⟨'[' :: (Text.decimal n ++ ']' :: indices), .index n :: own, parts, steps, ?_,
            .cons hn hindices, ?_, hparts, hdots, rfl⟩
          · simp [htext, segmentText]
          · have hinner := hn.notMem (c := '.') (by decide) (by decide) (by decide)
            simp [hinner, hdot]
      | member name =>
          refine ⟨[], [], (name.toList ++ indices) :: parts, (.member name :: own) :: steps, ?_, .nil,
            List.not_mem_nil, .cons ?_ hparts, ?_, rfl⟩
          · simp [htext, segmentText]
          · have hname : SpellsPart (name.toList ++ indices) (.member (String.ofList name.toList) :: own) :=
              .intro (by simpa using hsegment.1) hsegment.2.2 hindices
            rwa [String.ofList_toList] at hname
          · refine List.forall_mem_cons.mpr ⟨?_, hdots⟩
            simp [hdot, hsegment.2.1]

/-- What is written for a path spells it. -/
theorem Writable.spells_text {path : Path} (h : path.Writable) : Spells path.text.toList path := by
  obtain ⟨name, rest, rfl⟩ := h.begins
  obtain ⟨hname, hrest⟩ := List.forall_mem_cons.mp h.segments
  obtain ⟨indices, own, parts, steps, htext, hindices, hdot, hparts, hdots, rfl⟩ := exists_spelling hrest
  have hpart : SpellsPart (name.toList ++ indices) (.member (String.ofList name.toList) :: own) :=
    .intro (by simpa using hname.1) hname.2.2 hindices
  rw [String.ofList_toList] at hpart
  refine ⟨(name.toList ++ indices) :: parts, (.member name :: own) :: steps, ?_, List.cons_ne_nil _ _,
    List.forall_mem_cons.mpr ⟨?_, hdots⟩, .cons hpart hparts, rfl⟩
  · rw [text, String.toList_ofList, htext, Text.intercalate_cons, List.append_assoc]
  · simp [hdot, hname.2.1]

/-! ## what was read -/

/-- Indices that are spelled can be written. -/
theorem SpellsIndices.writable {cs : List Char} {path : Path} (h : SpellsIndices cs path) :
    ∀ segment ∈ path, segment.Writable := by
  induction h with
  | nil => simp
  | cons hindex _ ih =>
      refine List.forall_mem_cons.mpr ⟨?_, ih⟩
      obtain ⟨-, -, -, -, -, hlt⟩ := hindex
      exact hlt

/-- So can a part that has no dot in it. -/
theorem SpellsPart.writable {part : List Char} {path : Path} (h : SpellsPart part path)
    (hdot : '.' ∉ part) : path.Writable := by
  obtain ⟨hne, hname, hindices⟩ := h
  have hdotName := fun hmem => hdot (List.mem_append_left _ hmem)
  refine ⟨⟨_, _, rfl⟩, List.forall_mem_cons.mpr ⟨⟨by simpa using hne, ?_, ?_⟩, hindices.writable⟩⟩
  · rwa [String.toList_ofList]
  · rwa [String.toList_ofList]

/-- What parts without a dot spell can be written again. -/
theorem writable_of_spellsParts {parts : List (List Char)} {steps : List Path}
    (h : List.Forall₂ SpellsPart parts steps) (hdots : ∀ part ∈ parts, '.' ∉ part) :
    ∀ path ∈ steps, path.Writable := by
  induction h with
  | nil => simp
  | cons hpart _ ih =>
      obtain ⟨hdot, hdots⟩ := List.forall_mem_cons.mp hdots
      exact List.forall_mem_cons.mpr ⟨hpart.writable hdot, ih hdots⟩

/-- A path that is spelled can be written. -/
theorem Spells.writable {cs : List Char} {path : Path} (h : Spells cs path) : path.Writable := by
  obtain ⟨parts, steps, -, hne, hdots, hsteps, rfl⟩ := h
  have hwritable := writable_of_spellsParts hsteps hdots
  constructor
  · cases hsteps with
    | nil => contradiction
    | cons _ _ =>
        obtain ⟨name, rest, rfl⟩ := (hwritable _ List.mem_cons_self).begins
        exact ⟨name, _, rfl⟩
  · intro segment hsegment
    obtain ⟨step, hstep, hmem⟩ := List.mem_flatten.mp hsegment
    exact (hwritable step hstep).segments segment hmem

/-- **Paths and their texts.**  A text is read as a path if it spells the path, and refused if it
spells none.  A path that can be written is read back from its written form.  So is every path that
was read, which therefore can be written: its written form is read as the same path, and has itself
for a written form. -/
theorem parse_text :
    (∀ text path, parse text = .ok path ↔ Spells text.toList path) ∧
    (∀ text, (¬ ∃ path, Spells text.toList path) → parse text = .error (.badPath text)) ∧
    (∀ path : Path, path.Writable → parse path.text = .ok path) ∧
    ∀ text path, parse text = .ok path → path.Writable ∧ parse path.text = .ok path := by
  have hback : ∀ path : Path, path.Writable → parse path.text = .ok path :=
    fun path h => parse_eq_ok_iff.mpr h.spells_text
  refine ⟨fun _ _ => parse_eq_ok_iff, fun text h => ?_, hback, fun text path hread => ?_⟩
  · cases hread : parse text with
    | ok path => exact absurd ⟨path, parse_eq_ok_iff.mp hread⟩ h
    | error e =>
        simp only [parse] at hread
        split at hread
        · contradiction
        · rw [← hread]
  · have hwritable := (parse_eq_ok_iff.mp hread).writable
    exact ⟨hwritable, hback path hwritable⟩

/-- A plus sign, blanks and zeros in front are not written again. -/
theorem parse_text_tolerated :
    parse "SYS.T[ +03 ]" = .ok [.member "SYS", .member "T", .index 3] ∧
      parse "SYS.T[3]" = .ok [.member "SYS", .member "T", .index 3] := by
  have hread : parse "SYS.T[ +03 ]" = .ok [.member "SYS", .member "T", .index 3] := by cbv
  exact ⟨hread, (parse_text.2.2.2 _ _ hread).2⟩

end Path
end DeviceRegisters
