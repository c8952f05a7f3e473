import DeviceRegisters.Proofs.Outline.Account
import Mathlib

/-!
# DeviceRegisters.Proofs.Outline.Placement

Which lines may stand where.

After a body line a line is indented more, or as far as that body line or one that it stands
beneath; after a documentation line it is indented as far (`Placed`).  If no blank line ends
documentation, an outline is refused exactly if a line stands elsewhere, and at the first such
line (`refused_at_first_stray`).

The reading knows the body lines only by its levels.  `Stands.settle_eq_to_iff` says that these
lead where the body lines do, and `State.Fits.heeds` that one step goes on exactly with a line
that is placed.
-/

namespace DeviceRegisters.Outline

/-! ## enclosing items -/

namespace Item

/-- The items that one of the level stands beneath, the nearest first; `before` lists items, the
nearest first. -/
def enclosing (level : Nat) : List Item → List Item
  | [] => []
  | item :: before =>
    if item.level < level then item :: enclosing item.level before else enclosing level before

/-- The nearest of them is the parent. -/
theorem parentIn_eq_head?_enclosing (before : List Item) (level : Nat) :
    parentIn before level = ((enclosing level before).head?).map (·.number) := by
  induction before with
  | nil => rfl
  | cons item before ih =>
      by_cases hlt : item.level < level
      · rw [parentIn_cons_of_lt before hlt, enclosing, if_pos hlt]
        rfl
      · rw [parentIn_cons_of_le before (Nat.le_of_not_lt hlt), enclosing, if_neg hlt, ih]

theorem level_lt_of_mem_enclosing {before : List Item} {level : Nat} :
    ∀ item ∈ enclosing level before, item.level < level := by
  induction before generalizing level with
  | nil => simp [enclosing]
  | cons first before ih =>
      rw [enclosing]
      split
      · next hlt =>
        exact List.forall_mem_cons.mpr ⟨hlt, fun item hitem => Nat.lt_trans (ih item hitem) hlt⟩
      · exact ih

/-- An enclosing item of a column is the nearest one that is indented no further. -/
theorem exists_mem_enclosing_iff {before : List Item} {column level : Nat} (h : column < level) :
    (∃ item ∈ enclosing level before, item.level = column) ↔
      ∃ item ∈ before.find? (·.level ≤ column), item.level = column := by
  induction before generalizing level with
  | nil => simp [enclosing]
  | cons first before ih =>
      rcases Nat.lt_trichotomy first.level column with hless | hsame | hmore
      · -- what encloses `first` is indented less than the column too
        have hlt : first.level < level := Nat.lt_trans hless h
        rw [enclosing, if_pos hlt, List.find?_cons_of_pos (by simpa using Nat.le_of_lt hless)]
        constructor
        · rintro ⟨item, hitem, hlevel⟩
          rcases List.mem_cons.mp hitem with rfl | hitem
          · exact ⟨item, rfl, hlevel⟩
          · have hbelow := level_lt_of_mem_enclosing item hitem
            omega
        · rintro ⟨item, hitem, hlevel⟩
          obtain rfl := Option.some.inj hitem
          exact ⟨first, List.mem_cons_self, hlevel⟩
      · have hlt : first.level < level := hsame ▸ h
        rw [enclosing, if_pos hlt, List.find?_cons_of_pos (by simpa using Nat.le_of_eq hsame)]
        exact iff_of_true ⟨first, List.mem_cons_self, hsame⟩ ⟨first, rfl, hsame⟩
      · have hdeeper : ¬ first.level ≤ column := Nat.not_le.mpr hmore
        rw [enclosing, List.find?_cons_of_neg (by simpa using hdeeper)]
        split
        · rw [← ih hmore, List.exists_mem_cons_iff]
          exact or_iff_right (Nat.ne_of_gt hmore)
        · exact ih h

end Item

/-! ## where a line may stand -/

/-- The nearest line that is not passed over; `before` lists lines, the nearest first. -/
def lineAbove? (before : List Line) : Option Line := before.find? (·.indent?.isSome)

/-- The body lines among lines; both list the nearest first. -/
def bodiesAbove : List Line → List Item
  | [] => []
  | line :: before => (bodyAt before line).toList ++ bodiesAbove before

/-- Whether a line may be indented so far after a line that is not passed over; `items` are the
body lines before it, the nearest first. -/
def Admits (items : List Item) (indent : Nat) : Option Line → Prop
  | some (.doc level _) => indent = level
  | some (.body level _) =>
    level < indent ∨ indent = level ∨ ∃ item ∈ Item.enclosing level items, item.level = indent
  | _ => True

instance (items : List Item) (indent : Nat) : DecidablePred (Admits items indent)
  | some (.doc _ _) => inferInstanceAs (Decidable (_ = _))
  | some (.body _ _) => inferInstanceAs (Decidable (_ ∨ _ ∨ _))
  | none | some .blank | some .remark => .isTrue trivial

/-- A line that may stand where it does. -/
def Placed (before : List Line) (line : Line) : Prop :=
  ∀ indent ∈ line.indent?, Admits (bodiesAbove before) indent (lineAbove? before)

instance (before : List Line) (line : Line) : Decidable (Placed before line) :=
  inferInstanceAs (Decidable (∀ indent ∈ line.indent?, Admits _ indent _))

/-- Whether a line is documentation directly behind documentation. -/
def continuesDoc (before : List Line) (line : Line) : Bool :=
  (lineAbove? before).any (·.doc?.isSome) && line.doc?.isSome

/-- What is wrong with a line that may not stand where it does. -/
def problemOf (before : List Line) (line : Line) : Problem :=
  if continuesDoc before line then .strayDoc else .strayLine

/-- A line that may not stand where it does, with its number. -/
def strayAt (before : List Line) (line : Line) : Option (Problem × Nat) :=
  if Placed before line then none else some (problemOf before line, before.length + 1)

section
variable (before : List Line)

@[simp] theorem lineAbove?_doc (indent : Nat) (text : String) :
    lineAbove? (.doc indent text :: before) = some (.doc indent text) := rfl

@[simp] theorem lineAbove?_body (indent : Nat) (text : String) :
    lineAbove? (.body indent text :: before) = some (.body indent text) := rfl

@[simp] theorem lineAbove?_blank : lineAbove? (.blank :: before) = lineAbove? before := rfl

@[simp] theorem lineAbove?_remark : lineAbove? (.remark :: before) = lineAbove? before := rfl

end

/-! ## one line -/

variable {items : List Item} {level indent : Nat} {outer levels : List Nat}

/-- `climb` leads to the nearest level that is not deeper, if it is the one looked for. -/
theorem climb_eq_to_iff :
    (∃ outer, climb indent levels = .to indent outer) ↔
      levels.find? (· ≤ indent) = some indent := by
  induction levels with
  | nil => simp [climb]
  | cons first levels ih =>
      rcases Nat.lt_trichotomy first indent with hless | rfl | hmore
      · have hne : indent ≠ first := Nat.ne_of_gt hless
        simp [climb, hne, hless, Nat.le_of_lt hless, hne.symm]
      · simp [climb]
      · have hne : indent ≠ first := Nat.ne_of_lt hmore
        have hdeeper : ¬ first ≤ indent := Nat.not_le.mpr hmore
        rw [climb, if_neg hne, if_neg (Nat.lt_asymm hmore), ih,
          List.find?_cons_of_neg (by simpa using hdeeper)]

/-- After the last item, the levels lead on exactly as the items admit it. -/
theorem Stands.settle_eq_to_iff (h : Stands items level outer) :
    (∃ outer', settle indent level outer = .to indent outer') ↔
      level < indent ∨ indent = level ∨
        ∃ item ∈ Item.enclosing level items, item.level = indent := by
  obtain ⟨last, hlast, hlevel⟩ := h.last
  have hfound : (level :: outer).find? (· ≤ indent) = some indent ↔
      ∃ item ∈ items.find? (·.level ≤ indent), item.level = indent := by
    rw [h.ladder (indent + 1) indent (Nat.lt_succ_self indent), Option.map_eq_some_iff]
    rfl
  rw [settle]
  split
  · next hlt => exact iff_of_true ⟨_, rfl⟩ (.inl hlt)
  · next hnot =>
    rw [climb_eq_to_iff, hfound, or_iff_right hnot]
    rcases Nat.eq_or_lt_of_le (Nat.le_of_not_lt hnot) with hsame | hless
    · obtain ⟨older, rfl⟩ := List.head?_eq_some_iff.mp hlast
      have hnearest : (last :: older).find? (·.level ≤ indent) = some last :=
        List.find?_cons_of_pos (by simp [hlevel, hsame])
      exact iff_of_true ⟨last, hnearest, hlevel.trans hsame.symm⟩ (.inl hsame)
    · rw [← Item.exists_mem_enclosing_iff hless]
      exact (or_iff_right (Nat.ne_of_lt hless)).symm

/-- The state knows the nearest line that is not passed over. -/
def State.Recalls (before : List Line) : State → Prop
  | .start => lineAbove? before = none
  | .after level _ => ∃ text, lineAbove? before = some (.body level text)
  | .gathering level _ doc => doc ≠ [] ∧ ∃ text, lineAbove? before = some (.doc level text)

/-- A step that goes on exactly with a line that is placed. -/
def Step.Heeds (before : List Line) (line : Line) : Step → Prop
  | .on state => Placed before line ∧ state.Recalls (line :: before)
  | .item level outer _ _ =>
    Placed before line ∧ (State.after level outer).Recalls (line :: before)
  | .drop _ | .ended => False
  | .refused problem => ¬ Placed before line ∧ problem = problemOf before line

variable {state : State} {before : List Line} {line : Line}

/-- A line that is passed over may stand anywhere. -/
theorem placed_of_indent?_eq_none (h : line.indent? = none) : Placed before line := by
  intro indent hindent
  rw [h] at hindent
  cases hindent

/-- A line with a column is placed if the body lines above and the line right above admit it. -/
theorem placed_iff (h : line.indent? = some indent) :
    Placed before line ↔ Admits (bodiesAbove before) indent (lineAbove? before) := by
  simp [Placed, h]

/-- After a body line the levels lead on exactly with a line that is placed. -/
theorem Stands.settle_placed (h : Stands (bodiesAbove before) level outer) {text : String}
    (habove : lineAbove? before = some (.body level text)) (line : Line)
    (hline : line.indent? = some indent) :
    match settle indent level outer with
    | .to level' _ => level' = indent ∧ Placed before line
    | .below => False
    | .between => ¬ Placed before line ∧ .strayLine = problemOf before line := by
  have hplaced : (∃ outer', settle indent level outer = .to indent outer') ↔ Placed before line := by
    rw [h.settle_eq_to_iff, placed_iff hline, habove, Admits]
  split
  · next hsettle =>
    obtain ⟨rfl, -⟩ := h.awaits hsettle
    exact ⟨rfl, hplaced.mp ⟨_, hsettle⟩⟩
  · next hsettle => exact h.settle_ne_below hsettle
  · next hsettle =>
    refine ⟨fun hnot => ?_, by simp [problemOf, continuesDoc, habove, Line.doc?]⟩
    obtain ⟨outer', hto⟩ := hplaced.mpr hnot
    simp [hsettle] at hto

/-- After documentation a line is placed if it is indented alike. -/
theorem placed_after_doc {text : String} (habove : lineAbove? before = some (.doc level text))
    (line : Line) (hline : line.indent? = some indent) : Placed before line ↔ indent = level := by
  rw [placed_iff hline, habove, Admits]

/-- One line is read exactly if it is placed, unless it is a blank line that ends
documentation. -/
theorem State.Fits.heeds (hfits : state.Fits (bodiesAbove before) before)
    (hrecalls : state.Recalls before) (hclosed : line = .blank → docAbove before = []) :
    (Outline.step state line).Heeds before line := by
  match state, line with
  | .start, .remark | .start, .blank | .after .., .remark | .after .., .blank
  | .gathering .., .remark => exact ⟨placed_of_indent?_eq_none rfl, hrecalls⟩
  | .start, .doc indent text =>
      refine ⟨?_, List.cons_ne_nil _ _, text, rfl⟩
      rw [placed_iff rfl, hrecalls]
      trivial
  | .start, .body indent text =>
      refine ⟨?_, text, rfl⟩
      rw [placed_iff rfl, hrecalls]
      trivial
  | .after level outer, .doc indent text =>
      obtain ⟨above, habove⟩ := hrecalls
      have hplaced := hfits.1.settle_placed habove (.doc indent text) rfl
      rw [Outline.step]
      rcases hsettle : settle indent level outer with ⟨level', outer'⟩ | _ | _
      · rw [hsettle] at hplaced
        obtain ⟨rfl, hplaced⟩ := hplaced
        exact ⟨hplaced, List.cons_ne_nil _ _, text, rfl⟩
      · rwa [hsettle] at hplaced
      · rwa [hsettle] at hplaced
  | .after level outer, .body indent text =>
      obtain ⟨above, habove⟩ := hrecalls
      have hplaced := hfits.1.settle_placed habove (.body indent text) rfl
      rw [Outline.step]
      rcases hsettle : settle indent level outer with ⟨level', outer'⟩ | _ | _
      · rw [hsettle] at hplaced
        obtain ⟨rfl, hplaced⟩ := hplaced
        exact ⟨hplaced, text, rfl⟩
      · rwa [hsettle] at hplaced
      · rwa [hsettle] at hplaced
  | .gathering level outer doc, .blank =>
      exact absurd (hfits.2.symm.trans (hclosed rfl)) hrecalls.1
  | .gathering level outer doc, .doc indent text =>
      obtain ⟨-, above, habove⟩ := hrecalls
      have hplaced := placed_after_doc habove (.doc indent text) rfl
      rw [Outline.step]
      split
      · next hindent => exact ⟨hplaced.mpr hindent, by simp, text, by simp [hindent]⟩
      · next hindent =>
        exact ⟨hplaced.not.mpr hindent, by simp [problemOf, continuesDoc, habove, Line.doc?]⟩
  | .gathering level outer doc, .body indent text =>
      obtain ⟨-, above, habove⟩ := hrecalls
      have hplaced := placed_after_doc habove (.body indent text) rfl
      rw [Outline.step]
      split
      · next hindent => exact ⟨hplaced.mpr hindent, text, by simp [hindent]⟩
      · next hindent =>
        exact ⟨hplaced.not.mpr hindent, by simp [problemOf, continuesDoc, habove, Line.doc?]⟩

/-! ## all lines -/

section
variable {α : Type} {f : List Line → Line → Option α} {lines : List Line}

theorem gather_eq_nil_iff : gather f before lines = [] ↔
    ∀ older line newer, lines = older ++ line :: newer →
      f (older.reverse ++ before) line = none := by
  rw [List.eq_nil_iff_forall_not_mem]
  constructor
  · intro hnone older line newer hlines
    rw [Option.eq_none_iff_forall_ne_some]
    exact fun a ha => hnone a (mem_gather_iff.mpr ⟨older, line, newer, hlines, ha⟩)
  · intro hnone a ha
    obtain ⟨older, line, newer, hlines, hline⟩ := mem_gather_iff.mp ha
    rw [hnone older line newer hlines] at hline
    cases hline

/-- What is found first is found where nothing was before. -/
theorem exists_of_head?_gather {a : α} (h : (gather f before lines).head? = some a) :
    ∃ older line newer, lines = older ++ line :: newer ∧
      f (older.reverse ++ before) line = some a ∧ gather f before older = [] := by
  induction lines generalizing before with
  | nil => cases h
  | cons line lines ih =>
      rw [gather] at h
      cases hline : f before line with
      | some found =>
          rw [hline] at h
          obtain rfl := Option.some.inj h
          exact ⟨[], line, lines, rfl, hline, rfl⟩
      | none =>
          rw [hline] at h
          obtain ⟨older, other, newer, rfl, hother, hnone⟩ := ih h
          refine ⟨line :: older, other, newer, rfl, by simpa using hother, ?_⟩
          rw [gather, hline, hnone]
          rfl

end

namespace Reading

theorem failure_finish (number : Nat) (state : State) : (finish number state).failure = none := by
  unfold finish
  split <;> rfl

/-- If no blank line ends documentation, the reading fails at the first line that may not stand
where it does. -/
theorem failure_ofLines (lines : List (List Char)) (hfits : state.Fits (bodiesAbove before) before)
    (hrecalls : state.Recalls before) (hfirst : Grounded state (lines.map Line.ofText))
    (hclosed : ∀ older newer, lines.map Line.ofText = older ++ .blank :: newer →
      docAbove (older.reverse ++ before) = []) :
    (ofLines before.length state [] lines).failure =
      (gather strayAt before (lines.map Line.ofText)).head? := by
  -- what was read moves from `lines` to `before`
  induction lines generalizing state before with
  | nil => exact failure_finish before.length state
  | cons line lines ih =>
      rw [List.map_cons] at hfirst hclosed ⊢
      have hstep := hfits.step hfirst.head
      have hheeds : (step state (Line.ofText line)).Heeds before (Line.ofText line) :=
        hfits.heeds hrecalls fun hblank => hclosed [] (lines.map Line.ofText) (by rw [hblank]; rfl)
      have hlater : ∀ older newer, lines.map Line.ofText = older ++ .blank :: newer →
          docAbove (older.reverse ++ Line.ofText line :: before) = [] := by
        intro older newer hlines
        simpa using hclosed (Line.ofText line :: older) newer (by rw [hlines]; rfl)
      rw [ofLines, gather]
      cases hdoes : step state (Line.ofText line) with
      | on next =>
          rw [hdoes] at hstep hheeds
          obtain ⟨hbody, -, hnext⟩ := hstep
          obtain ⟨hplaced, hrecalls⟩ := hheeds
          rw [strayAt, if_pos hplaced]
          exact ih (by rwa [bodiesAbove, hbody]) hrecalls (hfirst.tail (.inl hdoes)) hlater
      | item level outer text doc =>
          rw [hdoes] at hstep hheeds
          obtain ⟨hbody, -, -, hnext⟩ := hstep
          obtain ⟨hplaced, hrecalls⟩ := hheeds
          rw [strayAt, if_pos hplaced]
          exact ih (by rwa [bodiesAbove, hbody]) hrecalls (fun hstart => by cases hstart) hlater
      | drop next =>
          rw [hdoes] at hheeds
          exact hheeds.elim
      | ended =>
          rw [hdoes] at hheeds
          exact hheeds.elim
      | refused problem =>
          rw [hdoes] at hheeds
          obtain ⟨hstray, rfl⟩ := hheeds
          rw [strayAt, if_neg hstray]
          rfl

end Reading

/-- Every line may stand where it does. -/
def Arranged (lines : List Line) : Prop :=
  ∀ before line after, lines = before ++ line :: after → Placed before.reverse line

/-- The line of the number is the first that may not stand where it does, and the message says
what is wrong with it. -/
def FirstStray (lines : List Line) (message : String) (number : Nat) : Prop :=
  ∃ before line after, lines = before ++ line :: after ∧ number = before.length + 1 ∧
    Arranged before ∧ ¬ Placed before.reverse line ∧
    message = if continuesDoc before.reverse line then "bad comment indentation"
      else "invalid indentation"

/-- An outline is arranged if no line of it is astray. -/
theorem arranged_iff {lines : List Line} : Arranged lines ↔ gather strayAt [] lines = [] := by
  simp only [gather_eq_nil_iff, Arranged, strayAt, List.append_nil, ite_eq_left_iff, reduceCtorEq,
    imp_false, not_not]

theorem firstStray_of_head? {lines : List Line} {problem : Problem} {number : Nat}
    (h : (gather strayAt [] lines).head? = some (problem, number)) :
    FirstStray lines problem.message number := by
  obtain ⟨before, line, after, hlines, hline, hnone⟩ := exists_of_head?_gather h
  rw [List.append_nil, strayAt] at hline
  split at hline
  · cases hline
  · next hstray =>
    obtain ⟨rfl, rfl⟩ := Prod.mk.inj (Option.some.inj hline)
    refine ⟨before, line, after, hlines, by simp, arranged_iff.mpr hnone, hstray, ?_⟩
    rw [problemOf]
    split <;> rfl

/-- Among sources whose lines all end, whose first line starts in column 0 and in which no blank
line ends documentation, those are accepted whose lines all may stand where they do.  The others
are refused at the first line that may not. -/
theorem refused_at_first_stray {source : String}
    (hended : (Text.Lines.ofText source.toList).rest = [])
    (hfirst : ∀ indent ∈ (linesOf source).findSome? Line.indent?, indent = 0)
    (hclosed : ∀ before after, linesOf source = before ++ .blank :: after →
      docAbove before.reverse = []) :
    ((∃ nodes, (parse source).result = .ok nodes) ↔ Arranged (linesOf source)) ∧
      ∀ problem number, (parse source).result = .error (problem, number) →
        FirstStray (linesOf source) problem.message number := by
  have hstart : State.start.Fits (bodiesAbove []) [] := ⟨rfl, docAbove_nil⟩
  have hfailure : (Reading.ofText source).failure = (gather strayAt [] (linesOf source)).head? := by
    rw [Reading.ofText, hended]
    exact Reading.failure_ofLines _ hstart rfl (fun _ => hfirst)
      fun older newer hlines => by simpa using hclosed older newer hlines
  rw [arranged_iff, ← List.head?_eq_none_iff, ← hfailure, parse]
  cases hresult : (Reading.ofText source).failure with
  | none => simp
  | some failure =>
      refine ⟨by simp, fun problem number hsame => ?_⟩
      obtain rfl := Except.error.inj hsame
      exact firstStray_of_head? (hfailure ▸ hresult)

/-- Documentation that goes on in another column than it began. -/
def brokenDoc : String := "a\n\n    # one\n  ## aside\n  # two\n    b\n"

/-- Documentation that is indented in two ways, and the line at which it is refused. -/
theorem refused_brokenDoc :
    (parse brokenDoc).result = .error (.strayDoc, 5) ∧ ¬ Arranged (linesOf brokenDoc) ∧
      FirstStray (linesOf brokenDoc) "bad comment indentation" 5 := by
  have hresult : (parse brokenDoc).result = .error (.strayDoc, 5) := by cbv
  have hended : (Text.Lines.ofText brokenDoc.toList).rest = [] := by cbv
  have hground : (linesOf brokenDoc).findSome? Line.indent? = some 0 := by cbv
  have hlost : gather lossAt [] (linesOf brokenDoc) = [] := by cbv
  have hfirst : ∀ indent ∈ (linesOf brokenDoc).findSome? Line.indent?, indent = 0 := by
    simp [hground]
  have hclosed : ∀ before after, linesOf brokenDoc = before ++ .blank :: after →
      docAbove before.reverse = [] := by
    intro before after hlines
    simpa [lossAt] using gather_eq_nil_iff.mp hlost before .blank after hlines
  obtain ⟨haccepted, hrefused⟩ := refused_at_first_stray hended hfirst hclosed
  refine ⟨hresult, fun harranged => ?_, hrefused _ _ hresult⟩
  obtain ⟨nodes, hnodes⟩ := haccepted.mpr harranged
  rw [hresult] at hnodes
  cases hnodes

end DeviceRegisters.Outline
