import DeviceRegisters.Proofs.Outline.Discarding
import Mathlib

/-!
# DeviceRegisters.Proofs.Outline.PassedOver

Lines that are passed over.

A remark leaves every state of the reading as it is, and so does a blank line where no
documentation is pending (`step_of_passedOver`).  Inserted into a source, accepted or not, such a
line pushes the lines behind it down by one and changes nothing else
(`parse_insert_passedOver`).

What is pending is the documentation directly above (`State.doc`, `doc_of_next?`), so that a look
at the lines in front tells where a blank line may be inserted.
-/

namespace DeviceRegisters.Outline

/-! ## one line -/

/-- The documentation that is pending in a state. -/
def State.doc : State → List String
  | .start | .after .. => []
  | .gathering _ _ doc => doc

/-- The state that a step leads to, unless the reading ends. -/
def Step.next? : Step → Option State
  | .on state | .drop state => some state
  | .item level outer _ _ => some (.after level outer)
  | .ended | .refused _ => none

/-- A line that is passed over while documentation is pending, or while none is. -/
def Line.PassedOver (doc : List String) (line : Line) : Prop :=
  line = .remark ∨ line = .blank ∧ doc = []

variable {state next : State} {line : Line} {above : List Line}

/-- A line that is passed over leaves the state as it is. -/
theorem step_of_passedOver (h : line.PassedOver state.doc) : step state line = .on state := by
  obtain rfl | ⟨rfl, hdoc⟩ := h
  · cases state <;> rfl
  · cases state with
    | start | after => rfl
    | gathering level outer doc =>
        obtain rfl : doc = [] := hdoc
        rfl

/-- Pending is the documentation directly above; `above` lists lines, the nearest first. -/
theorem doc_of_next? (h : state.doc = docAbove above) (hnext : (step state line).next? = some next) :
    next.doc = docAbove (line :: above) := by
  match state, line with
  | .start, .remark | .after .., .remark | .gathering .., .remark =>
      obtain rfl := Option.some.inj hnext
      rw [docAbove_remark, h]
  | .start, .blank | .after .., .blank =>
      obtain rfl := Option.some.inj hnext
      rfl
  | .start, .doc indent text =>
      obtain rfl := Option.some.inj hnext
      rw [docAbove_doc, ← h]
      rfl
  | .start, .body indent text =>
      obtain rfl := Option.some.inj hnext
      rfl
  | .after level outer, .doc indent text =>
      rw [step] at hnext
      split at hnext
      · obtain rfl := Option.some.inj hnext
        rw [docAbove_doc, ← h]
        rfl
      · cases hnext
      · cases hnext
  | .after level outer, .body indent text =>
      rw [step] at hnext
      split at hnext
      · obtain rfl := Option.some.inj hnext
        rfl
      · cases hnext
      · cases hnext
  | .gathering level outer doc, .blank =>
      rw [step] at hnext
      split at hnext
      · next hempty =>
        obtain rfl := Option.some.inj hnext
        exact List.isEmpty_iff.mp hempty
      · obtain rfl := Option.some.inj hnext
        rfl
  | .gathering level outer doc, .doc indent text =>
      rw [step] at hnext
      split at hnext
      · obtain rfl := Option.some.inj hnext
        rw [docAbove_doc, ← h]
        rfl
      · cases hnext
  | .gathering level outer doc, .body indent text =>
      rw [step] at hnext
      split at hnext
      · obtain rfl := Option.some.inj hnext
        rfl
      · cases hnext

/-! ## numbers -/

theorem pushed_of_lt {count number : Nat} (h : count < number) :
    pushed count 1 number = number + 1 := if_neg (Nat.not_le.mpr h)

theorem pushed_of_le {count number : Nat} (h : number ≤ count) : pushed count 1 number = number :=
  if_pos h

/-- The warning after a line was inserted behind the first `count` lines: one of the end of the
text counts all lines. -/
def Warning.pushed (count : Nat) (w : Warning) : Warning :=
  match w.loss with
  | .blankLine => { w with number := Outline.pushed count 1 w.number }
  | .endOfText => { w with number := w.number + 1 }

namespace Reading

/-- The reading after a line was inserted behind the first `count` lines. -/
def pushed (count : Nat) (reading : Reading) : Reading :=
  ⟨reading.items.map (Item.renumber (Outline.pushed count 1)),
    reading.warnings.map (Warning.pushed count),
    reading.failure.map fun failure => (failure.1, Outline.pushed count 1 failure.2)⟩

variable {count seen : Nat} {reading : Reading} {rest : List Char} {lines : List (List Char)}

/-- If all is behind the inserted line, all is pushed. -/
theorem Behind.advanced_eq (h : reading.Behind count) : reading.advanced 1 = reading.pushed count := by
  have hitems : reading.items.map (Item.renumber (· + 1)) =
      reading.items.map (Item.renumber (Outline.pushed count 1)) :=
    List.map_congr_left fun item hitem => by
      rw [Item.renumber, Item.renumber, pushed_of_lt (h.items item hitem)]
  have hwarnings : reading.warnings.map (fun w => { w with number := w.number + 1 }) =
      reading.warnings.map (Warning.pushed count) := by
    refine List.map_congr_left fun w hw => ?_
    obtain ⟨loss, number⟩ := w
    cases loss with
    | blankLine =>
        have hnumber : count < number := h.warnings _ hw rfl
        simp only [Warning.pushed, pushed_of_lt hnumber]
    | endOfText => rfl
  have hfailure : reading.failure.map (fun failure => (failure.1, failure.2 + 1)) =
      reading.failure.map fun failure => (failure.1, Outline.pushed count 1 failure.2) :=
    Option.map_congr fun failure hf => by rw [pushed_of_lt (h.failure failure hf)]
  rw [advanced, pushed, hitems, hwarnings, hfailure]

/-- An inserted line that is passed over pushes what is read behind it. -/
theorem ofLines_insert {line : List Char} {first later : List (List Char)}
    (h : state.doc = docAbove above)
    (hline : (Line.ofText line).PassedOver (docAbove ((first.map Line.ofText).reverse ++ above))) :
    ofLines seen state rest (first ++ line :: later) =
      (ofLines seen state rest (first ++ later)).pushed (seen + first.length) := by
  -- what was read moves from `first` to `above`
  induction first generalizing seen state above with
  | nil =>
      have hstep := step_of_passedOver (h.symm ▸ hline)
      rw [List.nil_append, List.nil_append, ofLines, hstep]
      exact (ofLines_add seen 1 state rest later).trans behind_ofLines.advanced_eq
  | cons front first ih =>
      have hcount : seen + 1 + first.length = seen + (front :: first).length := by
        rw [List.length_cons]
        omega
      have hfront : seen + 1 ≤ seen + (front :: first).length := hcount ▸ Nat.le_add_right _ _
      rw [List.map_cons, List.reverse_cons, List.append_assoc, List.singleton_append] at hline
      have hnext : ∀ next, (step state (Line.ofText front)).next? = some next →
          ofLines (seen + 1) next rest (first ++ line :: later) =
            (ofLines (seen + 1) next rest (first ++ later)).pushed (seen + 1 + first.length) :=
        fun _ hnext => ih (doc_of_next? h hnext) hline
      rw [hcount] at hnext
      generalize seen + (front :: first).length = count at hnext hfront
      rw [List.cons_append, List.cons_append, ofLines, ofLines]
      cases hstep : step state (Line.ofText front) with
      | on next => exact hnext next (by rw [hstep]; rfl)
      | item level outer text doc =>
          simp only [hnext (.after level outer) (by rw [hstep]; rfl), pushed, List.map_cons,
            Item.renumber, pushed_of_le hfront]
      | drop next =>
          simp only [hnext next (by rw [hstep]; rfl), pushed, List.map_cons, Warning.pushed,
            pushed_of_le hfront]
      | ended => rfl
      | refused problem =>
          simp only [failed, pushed, List.map_nil, Option.map_some, pushed_of_le hfront]

end Reading

/-! ## a line inserted into a source -/

/-- The outcome after a line was inserted behind the first `count` lines. -/
def Parse.pushed (count : Nat) (outcome : Parse) : Parse where
  warnings := outcome.warnings.map (Warning.pushed count)
  result := match outcome.result with
    | .ok nodes => .ok (Node.renumberAll (Outline.pushed count 1) nodes)
    | .error (problem, number) => .error (problem, Outline.pushed count 1 number)

/-- The outcome depends on the reading alone. -/
theorem parse_of_pushed {source inserted : String} {count : Nat}
    (h : Reading.ofText inserted = (Reading.ofText source).pushed count) :
    parse inserted = (parse source).pushed count := by
  rw [parse, parse, h]
  simp only [Parse.pushed, Reading.pushed, Node.forest_map_renumber]
  cases (Reading.ofText source).failure <;> rfl

/-- A line of two or more `#` is passed over, whatever follows them. -/
theorem ofText_remark (spaces : Nat) (text : List Char) :
    Line.ofText (List.replicate spaces ' ' ++ '#' :: '#' :: text) = .remark := by
  rw [Line.ofText, dropWhile_replicate_append spaces (by simp)]
  rfl

/-- Nothing is pending unless the nearest line above that is no remark is documentation. -/
theorem docAbove_eq_nil {before : List Line}
    (h : ∀ above ∈ before.find? (· ≠ .remark), above.doc? = none) : docAbove before = [] := by
  induction before with
  | nil => rfl
  | cons line before ih =>
      cases line with
      | remark =>
          rw [docAbove_remark]
          exact ih (by simpa using h)
      | blank => exact docAbove_blank before
      | body level text => exact docAbove_body before level text
      | doc level text =>
          have hdoc : (Line.doc level text).doc? = none := h _ rfl
          cases hdoc

/-- A line that is passed over where it is inserted pushes what is behind it, and no more. -/
theorem parse_insertLines {source : String} {count : Nat} {line : List Char}
    (hcount : count ≤ (linesOf source).length) (hfeed : '\n' ∉ line)
    (hline : (Line.ofText line).PassedOver (docAbove ((linesOf source).take count).reverse)) :
    parse (insertLines source count [line]) = (parse source).pushed count := by
  rw [linesOf, List.length_map] at hcount
  rw [linesOf, ← List.map_take, ← List.append_nil (List.reverse _)] at hline
  refine parse_of_pushed ?_
  rw [Reading.ofText, Reading.ofText, ofText_insertLines source count (by simpa using hfeed)]
  generalize Text.Lines.ofText source.toList = lines at hcount hline
  have hread : Reading.ofLines 0 .start lines.rest
        (lines.ended.take count ++ line :: lines.ended.drop count) =
      (Reading.ofLines 0 .start lines.rest (lines.ended.take count ++ lines.ended.drop count)).pushed
        (0 + (lines.ended.take count).length) := Reading.ofLines_insert docAbove_nil.symm hline
  rw [List.length_take, Nat.min_eq_left hcount, Nat.zero_add, List.take_append_drop] at hread
  simpa using hread

/-- Into any source, accepted or not, a line of two or more `#` may be inserted anywhere, and a
blank line wherever the nearest line above that is no such line is no documentation: the numbers
of the lines behind grow by one, and all else stays, the tree or the problem, and the warnings. -/
theorem parse_insert_passedOver {source : String} {count : Nat}
    (hcount : count ≤ (linesOf source).length) :
    (∀ spaces text, '\n' ∉ text →
      parse (insertLines source count [List.replicate spaces ' ' ++ '#' :: '#' :: text]) =
        (parse source).pushed count) ∧
    ((∀ above ∈ ((linesOf source).take count).reverse.find? (· ≠ .remark), above.doc? = none) →
      ∀ spaces, parse (insertLines source count [List.replicate spaces ' ']) =
        (parse source).pushed count) := by
  constructor
  · intro spaces text hfeed
    exact parse_insertLines hcount (by simp [hfeed]) (.inl (ofText_remark spaces text))
  · intro habove spaces
    exact parse_insertLines hcount (by simp) (.inr ⟨ofText_spaces spaces, docAbove_eq_nil habove⟩)

/-- A documented line beneath another one, and documentation that a blank line cuts off. -/
def annotated : String := "a\n  # kept\n  b\n# lost\n\nc\n"

/-- A remark may stand within documentation, and a blank line behind `b`; directly behind
documentation a blank line would cut it off. -/
theorem parse_insert_annotated :
    parse (insertLines annotated 2 [[' ', '#', '#', '!']]) =
        ⟨[⟨.blankLine, 6⟩], .ok [⟨1, "a", [], [⟨4, "b", [" kept"], []⟩]⟩, ⟨7, "c", [], []⟩]⟩ ∧
      parse (insertLines annotated 3 [[' ']]) =
        ⟨[⟨.blankLine, 6⟩], .ok [⟨1, "a", [], [⟨3, "b", [" kept"], []⟩]⟩, ⟨7, "c", [], []⟩]⟩ ∧
      parse (insertLines annotated 2 [[' ']]) =
        ⟨[⟨.blankLine, 3⟩, ⟨.blankLine, 6⟩],
          .ok [⟨1, "a", [], [⟨4, "b", [], []⟩]⟩, ⟨7, "c", [], []⟩]⟩ := by
  have hparse : parse annotated =
      ⟨[⟨.blankLine, 5⟩], .ok [⟨1, "a", [], [⟨3, "b", [" kept"], []⟩]⟩, ⟨6, "c", [], []⟩]⟩ := by
    cbv
  have hlines : linesOf annotated =
      [.body 0 "a", .doc 2 " kept", .body 2 "b", .doc 0 " lost", .blank, .body 0 "c"] := by cbv
  have hcount : 3 ≤ (linesOf annotated).length := by rw [hlines]; decide
  have habove : ∀ above ∈ ((linesOf annotated).take 3).reverse.find? (· ≠ .remark),
      above.doc? = none := by rw [hlines]; decide
  refine ⟨?_, ?_, by cbv⟩
  · have hremark := (parse_insert_passedOver (Nat.le_of_succ_le hcount)).1 1 ['!'] (by decide)
    rw [hparse] at hremark
    exact hremark
  · have hblank := (parse_insert_passedOver hcount).2 habove 1
    rw [hparse] at hblank
    exact hblank

end DeviceRegisters.Outline
