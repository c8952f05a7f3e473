import DeviceRegisters.Proofs.Outline.Insertion
import Mathlib

/-!
# DeviceRegisters.Proofs.Outline.Discarding

Documentation that a blank line cuts off.

It is dropped, but the column in which it stands stays settled for the next line.
`parse_insert_discarded` says so of an accepted source into which such documentation is inserted,
directly behind any body line and in the column of that line: if the next line is in this column,
or there is none, the tree is the same but for the numbers of the lines behind; otherwise the
source is refused at that next line, also if it only ends the block
(`refused_after_discarded`).
-/

namespace DeviceRegisters.Outline

namespace Reading

variable {state : State} {level indent seen : Nat} {outer : List Nat} {text note : String}
  {rest : List Char} {lines : List (List Char)}

/-! ## once documentation was dropped -/

/-- If the next line is in the settled column, it does not matter that it was settled. -/
theorem ofLines_gathering_nil
    (hnext : ∀ indent ∈ (lines.map Line.ofText).findSome? Line.indent?, indent = level) :
    ofLines seen (.gathering level outer []) rest lines =
      ofLines seen (.after level outer) rest lines := by
  induction lines generalizing seen with
  | nil => rfl
  | cons line lines ih =>
      rw [List.map_cons, List.findSome?_cons] at hnext
      rw [ofLines, ofLines]
      cases hline : Line.ofText line with
      | blank | remark =>
          rw [hline] at hnext
          exact ih hnext
      | doc indent text | body indent text =>
          rw [hline] at hnext
          obtain rfl := hnext indent rfl
          simp [step, settle, climb]

/-- If the next line is in another column, it is refused. -/
theorem ofLines_gathering_stray (seen : Nat) {skipped later : List Line} {line : Line}
    (hlines : lines.map Line.ofText = skipped ++ line :: later)
    (hskipped : ∀ other ∈ skipped, other.indent? = none) (hindent : line.indent? = some indent)
    (hstray : indent ≠ level) :
    ofLines seen (.gathering level outer []) rest lines =
      failed (if line.doc?.isSome then .strayDoc else .strayLine) (seen + skipped.length + 1) := by
  induction skipped generalizing seen lines with
  | nil =>
      obtain ⟨first, lines, rfl, rfl, -⟩ := List.map_eq_cons_iff.mp hlines
      rw [ofLines]
      cases hline : Line.ofText first with
      | blank | remark =>
          rw [hline] at hindent
          cases hindent
      | doc indent text | body indent text =>
          rw [hline] at hindent
          obtain rfl := Option.some.inj hindent
          simp [step, hstray, Line.doc?]
  | cons passed skipped ih =>
      obtain ⟨first, lines, rfl, rfl, hlater⟩ := List.map_eq_cons_iff.mp hlines
      obtain ⟨hpassed, hskipped⟩ := List.forall_mem_cons.mp hskipped
      have hmore := ih (seen + 1) hlater hskipped
      have hcount : seen + 1 + skipped.length + 1 =
          seen + (Line.ofText first :: skipped).length + 1 := by
        rw [List.length_cons]
        omega
      rw [hcount] at hmore
      rw [ofLines]
      cases hline : Line.ofText first with
      | blank | remark =>
          rw [hline] at hmore
          exact hmore
      | doc indent text | body indent text =>
          rw [hline] at hpassed
          cases hpassed

end Reading

/-! ## inserted documentation -/

/-- A documentation line and a blank line behind it. -/
def discarded (level : Nat) (note : String) (spaces : Nat) : List (List Char) :=
  [List.replicate level ' ' ++ '#' :: note.toList, List.replicate spaces ' ']

theorem ofText_spaces (n : Nat) : Line.ofText (List.replicate n ' ') = .blank := by
  have hcontent : (List.replicate n ' ' ++ []).dropWhile (· = ' ') = [] :=
    dropWhile_replicate_append n (by simp)
  rw [List.append_nil] at hcontent
  rw [Line.ofText, hcontent]

theorem noFeed_of_mem_discarded {level spaces : Nat} {note : String} (hnote : IsDocText note) :
    ∀ line ∈ discarded level note spaces, '\n' ∉ line := by
  have hfeed := hnote.noFeed
  simp [discarded, hfeed]

namespace Reading

variable {level seen : Nat} {outer : List Nat} {note : String} {rest : List Char}

/-- Behind a line, documentation in its column that a blank line cuts off leaves a warning and
the settled column. -/
theorem ofLines_discarded (hnote : IsDocText note) (spaces : Nat) (more : List (List Char)) :
    ofLines seen (.after level outer) rest (discarded level note spaces ++ more) =
      followed ⟨[], [⟨.blankLine, seen + 2⟩], none⟩
        (ofLines (seen + 2) (.gathering level outer []) rest more) := by
  simp [discarded, ofLines, ofText_doc level hnote, ofText_spaces, step, settle, climb, followed]

/-- A body line that is not refused is read at its own level. -/
theorem exists_step_body {state : State} {items : List Item} {before : List Line} {text : String}
    (hfits : state.Fits items before) (hfirst : state = .start → level = 0)
    (haccepted : ∀ problem, step state (.body level text) ≠ .refused problem) :
    ∃ outer doc, step state (.body level text) = .item level outer text doc := by
  have hstep : (step state (.body level text)).Fits items before (.body level text) :=
    hfits.step fun hstart indent hindent => (Option.some.inj hindent).symm.trans (hfirst hstart)
  cases hdoes : step state (.body level text) with
  | item level' outer text' doc =>
      rw [hdoes] at hstep
      obtain ⟨hbody, -⟩ := hstep
      have hitem := Option.some.inj hbody
      obtain ⟨rfl, -, rfl, -⟩ := Item.mk.inj hitem
      exact ⟨outer, doc, rfl⟩
  | on next | drop next =>
      rw [hdoes] at hstep
      cases hstep.1
  | ended =>
      rw [hdoes] at hstep
      exact hstep.elim
  | refused problem => exact absurd hdoes (haccepted problem)

/-- An accepted reading that starts in column 0 comes to a body line and past it. -/
theorem exists_followed_body {lines : List (List Char)} {count level : Nat} {text : String}
    (hfirst : Grounded .start (lines.map Line.ofText))
    (haccepted : (ofLines 0 .start rest lines).failure = none)
    (hbody : (lines.map Line.ofText)[count]? = some (.body level text)) :
    ∃ (first : Reading) (outer : List Nat),
      (∀ item ∈ first.items, item.number ≤ count + 1) ∧
      ∀ rest more, ofLines 0 .start rest (lines.take (count + 1) ++ more) =
        first.followed (ofLines (count + 1) (.after level outer) rest more) := by
  rw [List.getElem?_map, Option.map_eq_some_iff] at hbody
  obtain ⟨line, hline, hbody⟩ := hbody
  obtain ⟨hcount, rfl⟩ := List.getElem?_eq_some_iff.mp hline
  have hsplit : lines = lines.take count ++ lines[count] :: lines.drop (count + 1) := by
    rw [← List.drop_eq_getElem_cons hcount, List.take_append_drop]
  have hlength : (lines.take count).length = count := by
    rw [List.length_take]
    omega
  have hstart : State.start.Fits [] [] := ⟨rfl, docAbove_nil⟩
  rw [hsplit] at hfirst haccepted
  obtain ⟨first, next, items, hnumbers, hfits, hgrounded, hread⟩ :=
    exists_followed (lines.take count) hstart hfirst haccepted
  rw [List.length_nil, Nat.zero_add, hlength] at hnumbers hread
  have hline : ∃ outer doc, step next (.body level text) = .item level outer text doc := by
    refine exists_step_body hfits (fun hnext => ?_) fun problem hrefused => ?_
    · exact hgrounded.head hnext level (by rw [hbody]; rfl)
    · have hfailure : (ofLines count next rest (lines[count] :: lines.drop (count + 1))).failure =
          none := (congrArg Reading.failure (hread _ _)).symm.trans haccepted
      rw [ofLines, hbody, hrefused] at hfailure
      cases hfailure
  obtain ⟨outer, doc, hstep⟩ := hline
  refine ⟨first.followed ⟨[⟨level, count + 1, text, doc⟩], [], none⟩, outer, ?_,
    fun rest more => ?_⟩
  · intro item hitem
    rcases List.mem_append.mp hitem with hitem | hitem
    · exact Nat.le_succ_of_le (hnumbers item hitem)
    · rw [List.mem_singleton.mp hitem]
  · have htake : lines.take (count + 1) = lines.take count ++ [lines[count]] :=
      (List.take_append_getElem hcount).symm
    rw [htake, List.append_assoc, hread, List.singleton_append, ofLines, hbody, hstep]
    simp [followed]

end Reading

/-- Documentation that a blank line cuts off, inserted into an accepted source directly behind a
body line and in its column: if the next line is in this column, or there is none, the tree is the
same but for the numbers of the lines behind; otherwise the source is refused at the next line. -/
theorem parse_insert_discarded {source text note : String} {nodes : List Node}
    {count level spaces : Nat} (haccepted : (parse source).result = .ok nodes)
    (hfirst : ∀ indent ∈ (linesOf source).findSome? Line.indent?, indent = 0)
    (hbody : (linesOf source)[count]? = some (.body level text)) (hnote : IsDocText note) :
    let extended := insertLines source (count + 1) (discarded level note spaces)
    let behind := (linesOf source).drop (count + 1)
    ((∀ indent ∈ behind.findSome? Line.indent?, indent = level) →
      (parse extended).result = .ok (Node.renumberAll (pushed (count + 1) 2) nodes)) ∧
    ∀ skipped line later indent, behind = skipped ++ line :: later →
      (∀ other ∈ skipped, other.indent? = none) → line.indent? = some indent → indent ≠ level →
      (parse extended).result = .error (if line.doc?.isSome then .strayDoc else .strayLine,
        count + skipped.length + 4) := by
  intro extended behind
  obtain ⟨hfailure, rfl⟩ := result_parse_eq_ok_iff.mp haccepted
  have hstart : State.start.Fits [] [] := ⟨rfl, docAbove_nil⟩
  obtain ⟨-, hrest⟩ := Reading.ofLines_account _ hstart (fun _ => hfirst) hfailure
  obtain ⟨first, outer, hnumbers, hread⟩ :=
    Reading.exists_followed_body (fun _ => hfirst) hfailure hbody
  -- both readings, from the inserted lines on
  have hsource : Reading.ofText source = first.followed
      (Reading.ofLines (count + 1) (.after level outer) []
        ((Text.Lines.ofText source.toList).ended.drop (count + 1))) := by
    rw [Reading.ofText, hrest, ← hread, List.take_append_drop]
  have hextended : Reading.ofText extended = first.followed
      (Reading.followed ⟨[], [⟨.blankLine, count + 3⟩], none⟩
        (Reading.ofLines (count + 3) (.gathering level outer []) []
          ((Text.Lines.ofText source.toList).ended.drop (count + 1)))) := by
    rw [Reading.ofText, ofText_insertLines source (count + 1) (noFeed_of_mem_discarded hnote),
      hrest, List.append_assoc]
    simp only
    rw [hread, Reading.ofLines_discarded hnote]
  refine ⟨fun hnext => ?_, fun skipped line later indent hbehind hskipped hindent hstray => ?_⟩
  · rw [Reading.ofLines_gathering_nil (by simpa [behind, linesOf] using hnext),
      Reading.ofLines_add (count + 1) 2] at hextended
    rw [hsource, Reading.failure_followed] at hfailure
    rw [result_parse_eq_ok_iff, ← Node.forest_map_renumber, hsource, hextended]
    constructor
    · simp [hfailure]
    · rw [Reading.items_followed, Reading.items_followed, Reading.items_followed,
        map_renumber_pushed 2 hnumbers Reading.lt_number_of_mem]
      rfl
  · rw [Reading.ofLines_gathering_stray _ (by simpa [behind, linesOf] using hbehind) hskipped hindent
      hstray] at hextended
    have hnumber : count + 3 + skipped.length + 1 = count + skipped.length + 4 := by omega
    simp only [parse, hextended, Reading.followed, Reading.failed, hnumber]

/-- A line beneath another one, and a line beside that one; a line alone. -/
def nested : String := "a\n  b\n\n  c\nd\n"

/-- Behind `b` the next line stands in its column, behind `c` it ends the block. -/
theorem parse_insert_nested :
    (parse (insertLines nested 2 (discarded 2 " note" 1))).result =
        .ok [⟨1, "a", [], [⟨2, "b", [], []⟩, ⟨6, "c", [], []⟩]⟩, ⟨7, "d", [], []⟩] ∧
      (parse (insertLines nested 4 (discarded 2 " note" 1))).result = .error (.strayLine, 7) := by
  have haccepted : (parse nested).result =
      .ok [⟨1, "a", [], [⟨2, "b", [], []⟩, ⟨4, "c", [], []⟩]⟩, ⟨5, "d", [], []⟩] := by cbv
  have hlines : linesOf nested = [.body 0 "a", .body 2 "b", .blank, .body 2 "c", .body 0 "d"] := by
    cbv
  have hground : (linesOf nested).findSome? Line.indent? = some 0 := by rw [hlines]; rfl
  have hfirst : ∀ indent ∈ (linesOf nested).findSome? Line.indent?, indent = 0 := by
    simp [hground]
  have hb : (linesOf nested)[1]? = some (.body 2 "b") := by rw [hlines]; rfl
  have hc : (linesOf nested)[3]? = some (.body 2 "c") := by rw [hlines]; rfl
  have hnext : ((linesOf nested).drop 2).findSome? Line.indent? = some 2 := by rw [hlines]; rfl
  have hend : (linesOf nested).drop 4 = [] ++ .body 0 "d" :: [] := by rw [hlines]; rfl
  have hnote : IsDocText " note" := ⟨by decide, by decide⟩
  constructor
  · exact (parse_insert_discarded haccepted hfirst hb hnote).1 (by simp [hnext])
  · exact (parse_insert_discarded haccepted hfirst hc hnote).2 _ _ _ 0 hend (by simp) rfl
      (by decide)

/-- The documentation that is inserted behind `b` is only dropped, and yet the line that
otherwise ended the block is refused. -/
theorem refused_after_discarded :
    (parse "a\n  b\nc\n").result = .ok [⟨1, "a", [], [⟨2, "b", [], []⟩]⟩, ⟨3, "c", [], []⟩] ∧
      insertLines "a\n  b\nc\n" 2 (discarded 2 " note" 0) = "a\n  b\n  # note\n\nc\n" ∧
      (parse "a\n  b\n  # note\n\nc\n").result = .error (.strayLine, 5) := by
  refine ⟨by cbv, by cbv, by cbv⟩

end DeviceRegisters.Outline
