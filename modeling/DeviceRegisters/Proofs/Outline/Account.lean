import DeviceRegisters.Proofs.Outline.Family
import DeviceRegisters.Proofs.Outline.Runs
import DeviceRegisters.Session
import Mathlib

/-!
# DeviceRegisters.Proofs.Outline.Account

An accepted outline accounts for every line of its source.

The invariant of the reading (`State.Fits`) ties its state to the lines that were read: the
levels that are kept give the nearest body line that is indented no further than any given
column (`Ladder`), and the documentation that is kept is what stands directly above.  One line
keeps it (`State.Fits.step`); from it, what a whole reading gives is what the lines say
(`ofLines_account`).

`Session.outline_accounts` is for sources whose first line starts in column 0.  Such a reading
does not end before the source does: no line is indented less than the first.
-/

namespace DeviceRegisters.Outline

open Item (Settled SettledAfter rowsAfter)

/-! ## levels -/

/-- The levels lead to the nearest item that is indented no further than a column below the
bound; both list the nearest first. -/
def Ladder (bound : Nat) (items : List Item) (levels : List Nat) : Prop :=
  ∀ column < bound, levels.find? (· ≤ column) =
    (items.find? (·.level ≤ column)).map (·.level)

/-- What the reading keeps of the items once the level of the next one is settled: an item of
that level can follow, and for columns below it `outer` is a ladder. -/
structure Awaits (items : List Item) (level : Nat) (outer : List Nat) : Prop where
  settled : Settled items level
  ladder : Ladder level items outer
  ground : level = 0 ∨ ∃ item ∈ items, item.level = 0

/-- What the reading keeps of the items after a body line: the last of them has the current level,
and all levels are a ladder. -/
structure Stands (items : List Item) (level : Nat) (outer : List Nat) : Prop where
  last : ∃ item ∈ items.head?, item.level = level
  ladder : ∀ bound, Ladder bound items (level :: outer)
  ground : ∃ item ∈ items, item.level = 0

variable {items : List Item} {level indent : Nat} {outer levels : List Nat}

/-- An item of the settled level becomes the last one. -/
theorem Awaits.stands (h : Awaits items level outer) {item : Item} (hlevel : item.level = level) :
    Stands (item :: items) level outer where
  last := ⟨item, rfl, hlevel⟩
  ladder := by
    intro bound column _
    -- from its own column on the new item is the nearest, before it nothing changes
    rcases Nat.lt_or_ge column level with hlt | hge
    · simp [hlevel, Nat.not_le.mpr hlt, h.ladder column hlt]
    · simp [hlevel, hge]
  ground := by
    rcases h.ground with hground | ⟨other, hother, hground⟩
    · exact ⟨item, List.mem_cons_self, hlevel.trans hground⟩
    · exact ⟨other, List.mem_cons_of_mem item hother, hground⟩

/-- `climb` stops at the nearest level that is not deeper, and for smaller columns the levels
behind it lead where all of them do. -/
theorem climb_eq_to (h : climb indent levels = .to level outer) :
    level = indent ∧ levels.find? (· ≤ indent) = some indent ∧
      ∀ column < indent, outer.find? (· ≤ column) = levels.find? (· ≤ column) := by
  induction levels with
  | nil => simp [climb] at h
  | cons first levels ih =>
      rw [climb] at h
      split at h
      · next hfirst =>
        obtain ⟨rfl, rfl⟩ := Return.to.inj h
        refine ⟨hfirst.symm, by simp [hfirst], fun column hcolumn => ?_⟩
        have hdeeper : ¬ first ≤ column := by omega
        simp [hdeeper]
      · split at h
        · cases h
        · obtain ⟨hlevel, hfound, houter⟩ := ih h
          refine ⟨hlevel, ?_, fun column hcolumn => ?_⟩
          · have hdeeper : ¬ first ≤ indent := by omega
            simpa [hdeeper] using hfound
          · have hdeeper : ¬ first ≤ column := by omega
            simpa [hdeeper] using houter column hcolumn

/-- `climb` leads below the levels if all of them are deeper. -/
theorem lt_of_climb_eq_below (h : climb indent levels = .below) :
    ∀ level ∈ levels, indent < level := by
  induction levels with
  | nil => simp
  | cons first levels ih =>
      rw [climb] at h
      split at h
      · cases h
      · split at h
        · cases h
        · have hdeeper := ih h
          have hfirst : indent < first := by omega
          simpa [hfirst] using hdeeper

/-- Where an indentation leads after the last item, an item can follow. -/
theorem Stands.awaits (h : Stands items level outer) {next : Nat} {outer' : List Nat}
    (hsettle : settle indent level outer = .to next outer') :
    next = indent ∧ Awaits items indent outer' := by
  rw [settle] at hsettle
  split at hsettle
  · next hlt =>
    obtain ⟨rfl, rfl⟩ := Return.to.inj hsettle
    obtain ⟨last, hlast, hlevel⟩ := h.last
    exact ⟨rfl, .inr (.inl ⟨last, hlast, hlevel ▸ hlt⟩), h.ladder _, .inr h.ground⟩
  · obtain ⟨hnext, hfound, houter⟩ := climb_eq_to hsettle
    have hnearest := h.ladder (indent + 1) indent (Nat.lt_succ_self indent)
    rw [hfound] at hnearest
    obtain ⟨found, hitem, hlevel⟩ := Option.map_eq_some_iff.mp hnearest.symm
    refine ⟨hnext, .inr (.inr ⟨found, hitem, hlevel⟩), fun column hcolumn => ?_, .inr h.ground⟩
    rw [houter column hcolumn, h.ladder indent column hcolumn]

/-- No indentation leads below the ground. -/
theorem Stands.settle_ne_below (h : Stands items level outer) :
    settle indent level outer ≠ .below := by
  intro hbelow
  rw [settle] at hbelow
  split at hbelow
  · cases hbelow
  · obtain ⟨item, hitem, hground⟩ := h.ground
    have hnone : (level :: outer).find? (· ≤ indent) = none := by
      rw [List.find?_eq_none]
      intro deeper hmem
      simpa using lt_of_climb_eq_below hbelow deeper hmem
    rw [h.ladder (indent + 1) indent (Nat.lt_succ_self indent), Option.map_eq_none_iff,
      List.find?_eq_none] at hnone
    have hdeeper := hnone item hitem
    simp [hground] at hdeeper

/-! ## one line -/

/-- A state that the lines that were read lead to; `items` are the body lines among them, the
nearest first. -/
def State.Fits (items : List Item) (before : List Line) : State → Prop
  | .start => items = [] ∧ docAbove before = []
  | .after level outer => Stands items level outer ∧ docAbove before = []
  | .gathering level outer doc => Awaits items level outer ∧ docAbove before = doc

/-- A step that does with a line what the line says. -/
def Step.Fits (items : List Item) (before : List Line) (line : Line) : Step → Prop
  | .on state => bodyAt before line = none ∧ lossAt before line = none ∧
      state.Fits items (line :: before)
  | .item level outer text doc =>
    let item : Item := ⟨level, before.length + 1, text, doc⟩
    bodyAt before line = some item ∧ lossAt before line = none ∧ Settled items level ∧
      (State.after level outer).Fits (item :: items) (line :: before)
  | .drop state => bodyAt before line = none ∧
      lossAt before line = some ⟨.blankLine, before.length + 1⟩ ∧
      state.Fits items (line :: before)
  | .ended => False
  | .refused _ => True

variable {state : State} {before : List Line} {line : Line} {doc : List String}

/-- A body line of the settled level is taken with the documentation above it. -/
theorem Awaits.item (h : Awaits items level outer) (habove : docAbove before = doc)
    (text : String) :
    (Step.item level outer text doc).Fits items before (.body level text) :=
  ⟨by rw [bodyAt, habove], rfl, h.settled, h.stands rfl, docAbove_body before level text⟩

/-- A documentation line of the settled level is added to those above it. -/
theorem Awaits.on_doc (h : Awaits items level outer) (habove : docAbove before = doc)
    (text : String) :
    (Step.on (.gathering level outer (doc ++ [text]))).Fits items before (.doc level text) :=
  ⟨rfl, rfl, h, by rw [docAbove_doc, habove]⟩

/-- The first line settles the ground. -/
theorem awaits_ground : Awaits [] 0 [] where
  settled := .inl rfl
  ladder := fun _ hcolumn => absurd hcolumn (Nat.not_lt_zero _)
  ground := .inl rfl

/-- One line keeps the invariant and does what the line says. -/
theorem State.Fits.step (h : state.Fits items before)
    (hfirst : state = .start → ∀ indent ∈ line.indent?, indent = 0) :
    (step state line).Fits items before line := by
  match state, line with
  -- a remark is passed over, also by the documentation above
  | .start, .remark | .after .., .remark | .gathering .., .remark =>
      exact ⟨rfl, rfl, by simpa [State.Fits] using h⟩
  | .start, .blank => exact ⟨rfl, by simp [lossAt, h.2], h.1, docAbove_blank before⟩
  | .start, .doc indent text =>
      obtain ⟨rfl, habove⟩ := h
      obtain rfl : indent = 0 := hfirst rfl indent rfl
      exact awaits_ground.on_doc habove text
  | .start, .body indent text =>
      obtain ⟨rfl, habove⟩ := h
      obtain rfl : indent = 0 := hfirst rfl indent rfl
      exact awaits_ground.item habove text
  | .after level outer, .blank => exact ⟨rfl, by simp [lossAt, h.2], h.1, docAbove_blank before⟩
  | .after level outer, .doc indent text =>
      obtain ⟨hstands, habove⟩ := h
      rw [Outline.step]
      split
      · next hsettle =>
        obtain ⟨rfl, hawaits⟩ := hstands.awaits hsettle
        exact hawaits.on_doc habove text
      · next hsettle => exact hstands.settle_ne_below hsettle
      · trivial
  | .after level outer, .body indent text =>
      obtain ⟨hstands, habove⟩ := h
      rw [Outline.step]
      split
      · next hsettle =>
        obtain ⟨rfl, hawaits⟩ := hstands.awaits hsettle
        exact hawaits.item habove text
      · next hsettle => exact hstands.settle_ne_below hsettle
      · trivial
  | .gathering level outer doc, .blank =>
      obtain ⟨hawaits, habove⟩ := h
      rw [Outline.step]
      split
      · next hempty =>
        obtain rfl := List.isEmpty_iff.mp hempty
        exact ⟨rfl, by simp [lossAt, habove], hawaits, docAbove_blank before⟩
      · next hdoc =>
        rw [List.isEmpty_iff, ← habove] at hdoc
        exact ⟨rfl, by simp [lossAt, hdoc], hawaits, docAbove_blank before⟩
  | .gathering level outer doc, .doc indent text =>
      obtain ⟨hawaits, habove⟩ := h
      rw [Outline.step]
      split
      · next hindent =>
        subst hindent
        exact hawaits.on_doc habove text
      · trivial
  | .gathering level outer doc, .body indent text =>
      obtain ⟨hawaits, habove⟩ := h
      rw [Outline.step]
      split
      · next hindent =>
        subst hindent
        exact hawaits.item habove text
      · trivial

/-! ## all lines -/

namespace Reading

/-- The end of the text in a state. -/
theorem finish_eq (h : state.Fits items before) :
    finish before.length state = { done with warnings := (lossAtEnd before).toList } := by
  match state with
  | .start | .after .. => simp [finish, lossAtEnd, h.2, done]
  | .gathering level outer doc =>
      obtain ⟨-, rfl⟩ := h
      cases habove : docAbove before <;> simp [finish, lossAtEnd, habove, done]

/-- A reading gives the body lines, each of which can follow those before it, and the losses of
the lines to come. -/
structure Tells (reading : Reading) (items : List Item) (before lines : List Line) : Prop where
  items_eq : reading.items = gather bodyAt before lines
  warnings_eq : reading.warnings =
    gather lossAt before lines ++ (lossAtEnd (lines.reverse ++ before)).toList
  settled : SettledAfter items (gather bodyAt before lines)

/-- A reading that does with one line what it says, and goes on so. -/
theorem Tells.cons {later : Reading} {lines : List Line} {found : Option Item}
    {lost : Option Warning} (h : later.Tells (found.toList ++ items) (line :: before) lines)
    (hbody : bodyAt before line = found) (hloss : lossAt before line = lost)
    (hsettled : ∀ item ∈ found, Settled items item.level) :
    Tells ⟨found.toList ++ later.items, lost.toList ++ later.warnings, later.failure⟩ items before
      (line :: lines) where
  items_eq := by rw [h.items_eq, gather, hbody]
  warnings_eq := by simp [h.warnings_eq, gather, hloss]
  settled := by
    rw [gather, hbody]
    cases found with
    | none => exact h.settled
    | some item => exact ⟨hsettled item rfl, h.settled⟩

/-- If nothing is settled yet, the first line that is not passed over starts in column 0. -/
def Grounded (state : State) (lines : List Line) : Prop :=
  state = .start → ∀ indent ∈ lines.findSome? Line.indent?, indent = 0

theorem Grounded.head {lines : List Line} (h : Grounded state (line :: lines)) :
    state = .start → ∀ indent ∈ line.indent?, indent = 0 := by
  intro hstart indent hindent
  refine h hstart indent ?_
  rw [List.findSome?_cons, hindent]
  rfl

/-- Only lines that are passed over lead back to the start. -/
theorem start_of_step {next : State}
    (h : step state line = .on next ∨ step state line = .drop next) (hnext : next = .start) :
    state = .start ∧ line.indent? = none := by
  subst hnext
  cases state <;> cases line <;> grind [step, Line.indent?]

theorem Grounded.tail {lines : List Line} (h : Grounded state (line :: lines)) {next : State}
    (hstep : step state line = .on next ∨ step state line = .drop next) :
    Grounded next lines := by
  intro hnext indent hindent
  obtain ⟨hstart, hnone⟩ := start_of_step hstep hnext
  refine h hstart indent ?_
  rwa [List.findSome?_cons, hnone]

/-- An accepted reading gives what the lines say, and the text has ended with its last line. -/
theorem ofLines_account {rest : List Char} (lines : List (List Char))
    (hfits : state.Fits items before) (hfirst : Grounded state (lines.map Line.ofText))
    (haccepted : (ofLines before.length state rest lines).failure = none) :
    (ofLines before.length state rest lines).Tells items before (lines.map Line.ofText) ∧
      rest = [] := by
  -- what was read moves from `lines` to `before`, its body lines to `items`
  induction lines generalizing state items before with
  | nil =>
      rw [ofLines] at haccepted ⊢
      split at haccepted
      · next hrest =>
        rw [if_pos hrest, finish_eq hfits]
        exact ⟨⟨rfl, rfl, trivial⟩, List.isEmpty_iff.mp hrest⟩
      · cases haccepted
  | cons line lines ih =>
      have hstep := hfits.step hfirst.head
      rw [ofLines] at haccepted ⊢
      rw [List.map_cons]
      cases hdoes : step state (Line.ofText line) with
      | on next =>
          rw [hdoes] at hstep haccepted
          obtain ⟨hbody, hloss, hnext⟩ := hstep
          obtain ⟨htells, hrest⟩ := ih hnext (hfirst.tail (.inl hdoes)) haccepted
          exact ⟨htells.cons hbody hloss (by simp), hrest⟩
      | item level outer text doc =>
          rw [hdoes] at hstep haccepted
          obtain ⟨hbody, hloss, hsettled, hnext⟩ := hstep
          obtain ⟨htells, hrest⟩ := ih hnext (fun hstart => by cases hstart) haccepted
          exact ⟨htells.cons hbody hloss (by simpa using hsettled), hrest⟩
      | drop next =>
          rw [hdoes] at hstep haccepted
          obtain ⟨hbody, hloss, hnext⟩ := hstep
          obtain ⟨htells, hrest⟩ := ih hnext (hfirst.tail (.inr hdoes)) haccepted
          exact ⟨htells.cons hbody hloss (by simp), hrest⟩
      | ended =>
          rw [hdoes] at hstep
          exact hstep.elim
      | refused problem =>
          rw [hdoes] at haccepted
          cases haccepted

end Reading

/-! ## the tree -/

/-- A tree and its warnings account for the lines of a source. -/
structure Accounts (source : String) (nodes : List Node) (warnings : List Warning) : Prop where
  /-- Every line of the source is ended. -/
  ended : (Text.Lines.ofText source.toList).rest = []
  /-- In text order the tree lists the body lines, each beneath the nearest one before it that is
  indented less. -/
  rows : Node.rowsBelow none nodes = rowsAfter [] (bodies (linesOf source))
  /-- Body lines beneath the same one are indented equally. -/
  siblings : ∀ x ∈ (bodies (linesOf source)).zip (Node.rowsBelow none nodes),
    ∀ y ∈ (bodies (linesOf source)).zip (Node.rowsBelow none nodes),
      x.2.parent = y.2.parent → x.1.level = y.1.level
  /-- A documentation line is in the documentation of the body line at the end of its run, or
  there is a warning of that end. -/
  docs : ∀ before indent text run after,
    linesOf source = before ++ .doc indent text :: (run ++ after) → run.all Line.isAside →
    (∀ line ∈ after.head?, line.isAside = false) →
    (∃ depth, ∃ row ∈ Node.rowsBelow none nodes, after.head? = some (.body depth row.text) ∧
      row.number = before.length + run.length + 2 ∧
      row.doc = docAbove before.reverse ++ text :: run.filterMap Line.doc?) ∨
    (after.head? = some .blank ∧ ⟨.blankLine, before.length + run.length + 2⟩ ∈ warnings) ∨
    (after = [] ∧ ⟨.endOfText, before.length + run.length + 1⟩ ∈ warnings)
  /-- There are no warnings but of the ends of runs where no body line stands. -/
  lost : ∀ w, w ∈ warnings ↔ Lost (linesOf source) w
  /-- No warning is given twice. -/
  once : warnings.Nodup

/-- A source is accepted if its reading does not fail. -/
theorem result_parse_eq_ok_iff {source : String} {nodes : List Node} :
    (parse source).result = .ok nodes ↔
      (Reading.ofText source).failure = none ∧ Node.forest (Reading.ofText source).items = nodes := by
  cases hfailure : (Reading.ofText source).failure with
  | none => simp [parse, hfailure]
  | some failure => simp [parse, hfailure]

/-- An accepted source whose first line starts in column 0 is accounted for. -/
theorem accounts_of_parse {source : String} {nodes : List Node}
    (haccepted : (parse source).result = .ok nodes)
    (hfirst : ∀ indent ∈ (linesOf source).findSome? Line.indent?, indent = 0) :
    Accounts source nodes (parse source).warnings := by
  obtain ⟨hfailure, hnodes⟩ := result_parse_eq_ok_iff.mp haccepted
  have hstart : State.start.Fits [] [] := ⟨rfl, docAbove_nil⟩
  obtain ⟨⟨hitems, hwarnings, hsettled⟩, hrest⟩ :=
    Reading.ofLines_account _ hstart (fun _ => hfirst) hfailure
  rw [List.append_nil] at hwarnings
  have hrows : Node.rowsBelow none nodes = rowsAfter [] (bodies (linesOf source)) := by
    rw [← hnodes, rowsBelow_forest]
    exact congrArg _ hitems
  have hlosses : (parse source).warnings = losses (linesOf source) := hwarnings
  refine ⟨hrest, hrows, ?_, ?_, ?_, ?_⟩
  · rw [hrows]
    exact Item.level_eq_of_mem_zip hsettled (pairwise_bodies _)
  · intro before indent text run after hlines hrun hafter
    rw [hrows, hlosses, mem_losses_iff, mem_losses_iff, hlines]
    rcases doc_mem_or_lost hrun hafter with ⟨depth, line, hbody, hitem⟩ | hlost
    · obtain ⟨older, hrow⟩ := Item.exists_row_mem [] hitem
      exact .inl ⟨depth, _, hrow, hbody, rfl, rfl⟩
    · exact .inr hlost
  · intro w
    rw [hlosses, mem_losses_iff]
  · rw [hlosses]
    exact nodup_losses _

end DeviceRegisters.Outline

namespace DeviceRegisters.Session

open Outline (Node Warning Line linesOf Accounts)

/-- The outline of a source whose first line starts in column 0 accounts for its lines, and its
warnings are reported if any are. -/
theorem outline_accounts (s : Session) {source : String} {nodes : List Node}
    {reported : List String} (haccepted : s.outline source = (reported, .ok nodes))
    (hfirst : ∀ indent ∈ (linesOf source).findSome? Line.indent?, indent = 0) :
    ∃ warnings, Accounts source nodes warnings ∧
      reported = if s.warn then warnings.map Warning.message else [] := by
  obtain ⟨hreported, hresult⟩ := Prod.mk.inj haccepted
  have hparsed : (Outline.parse source).result = .ok nodes := by
    split at hresult
    · next hok => rw [hok, Except.ok.inj hresult]
    · cases hresult
  exact ⟨_, Outline.accounts_of_parse hparsed hfirst, hreported.symm⟩

/-- Documentation above three lines, and in two places where no line follows it. -/
def documented : String :=
  "# top\na\n  # one\n  ## aside\n  # two\n  b\n\n# lost\n\nc\n# end\n"

/-- Two lines at the top, the first with a line beneath it. -/
def documentedNodes : List Node :=
  [⟨2, "a", [" top"], [⟨6, "b", [" one", " two"], []⟩]⟩, ⟨10, "c", [], []⟩]

/-- What is reported of the documentation that no line follows. -/
def documentedLosses : List String :=
  ["discarding documentation lines on line 9", "discarding documentation at end of file on line 11"]

/-- An outline with documentation, some of which is lost, and where it is lost. -/
theorem outline_accounts_documented :
    (start true).outline documented = (documentedLosses, .ok documentedNodes) ∧
      (∀ indent ∈ (linesOf documented).findSome? Line.indent?, indent = 0) ∧
      ∃ warnings, Accounts documented documentedNodes warnings ∧
        documentedLosses = if (start true).warn then warnings.map Warning.message else [] := by
  have haccepted : (start true).outline documented = (documentedLosses, .ok documentedNodes) := by
    cbv
  have hground : (linesOf documented).findSome? Line.indent? = some 0 := by cbv
  have hfirst : ∀ indent ∈ (linesOf documented).findSome? Line.indent?, indent = 0 := by
    simp [hground]
  exact ⟨haccepted, hfirst, outline_accounts _ haccepted hfirst⟩

end DeviceRegisters.Session
