import DeviceRegisters.Proofs.Outline.Account
import DeviceRegisters.Proofs.Outline.RoundTrip

/-!
# DeviceRegisters.Proofs.Outline.Insertion

What becomes of an outline when lines are inserted into its source (`insertLines`).

The reading comes through the lines in front of the inserted ones as before
(`Reading.exists_followed`); behind them it may be in another state, and it counts more lines,
which changes nothing but numbers (`Reading.ofLines_add`).  Where an item stands in the tree does
not depend on its number (`Node.forest_map_renumber`).
-/

namespace DeviceRegisters.Outline

open Node (attach forest)

/-! ## numbers -/

/-- The item with another number. -/
def Item.renumber (f : Nat → Nat) (item : Item) : Item := { item with number := f item.number }

namespace Node

mutual
/-- The node with other numbers, also beneath it. -/
def renumber (f : Nat → Nat) : Node → Node
  | ⟨number, text, doc, children⟩ => ⟨f number, text, doc, renumberAll f children⟩

/-- The nodes with other numbers, also beneath them. -/
def renumberAll (f : Nat → Nat) : List Node → List Node
  | [] => []
  | node :: nodes => renumber f node :: renumberAll f nodes
end

variable (f : Nat → Nat)

theorem renumberAll_eq_map (nodes : List Node) : renumberAll f nodes = nodes.map (renumber f) := by
  induction nodes with
  | nil => rfl
  | cons node nodes ih => rw [renumberAll, ih, List.map_cons]

/-- What an item is attached to does not depend on numbers. -/
theorem attach_renumber (item : Item) (roots : List (Nat × Node)) :
    attach (item.renumber f) (roots.map (Prod.map id (renumber f))) =
      (attach item roots).map (Prod.map id (renumber f)) := by
  simp only [attach, Item.renumber, List.takeWhile_map, List.dropWhile_map, Function.comp_def,
    Prod.map_fst, id_eq, List.map_cons, List.map_map, Prod.map_snd, Prod.map_apply, renumber,
    renumberAll_eq_map]
  rfl

/-- The forest of items with other numbers. -/
theorem forest_map_renumber (items : List Item) :
    forest (items.map (Item.renumber f)) = renumberAll f (forest items) := by
  have hroots : (items.map (Item.renumber f)).foldr attach [] =
      (items.foldr attach []).map (Prod.map id (renumber f)) := by
    induction items with
    | nil => rfl
    | cons item items ih =>
        rw [List.map_cons, List.foldr_cons, ih, attach_renumber, List.foldr_cons]
  rw [forest, hroots, renumberAll_eq_map, forest, List.map_map, List.map_map]
  rfl

end Node

/-- The number that a line has when `added` lines are inserted behind the first `count`. -/
def pushed (count added number : Nat) : Nat := if number ≤ count then number else number + added

/-- Items in front of inserted lines keep their numbers, and those behind are pushed. -/
theorem map_renumber_pushed {first later : List Item} {count : Nat} (added : Nat)
    (hfirst : ∀ item ∈ first, item.number ≤ count) (hlater : ∀ item ∈ later, count < item.number) :
    (first ++ later).map (Item.renumber (pushed count added)) =
      first ++ later.map (Item.renumber (· + added)) := by
  have hkept : first.map (Item.renumber (pushed count added)) = first := by
    refine (List.map_congr_left fun item hitem => ?_).trans (List.map_id first)
    rw [Item.renumber, pushed, if_pos (hfirst item hitem)]
    rfl
  have hpushed : later.map (Item.renumber (pushed count added)) =
      later.map (Item.renumber (· + added)) := by
    refine List.map_congr_left fun item hitem => ?_
    rw [Item.renumber, Item.renumber, pushed, if_neg (Nat.not_le.mpr (hlater item hitem))]
  rw [List.map_append, hkept, hpushed]

/-! ## a reading in two parts -/

namespace Reading

/-- A reading that goes on with a later one. -/
def followed (first later : Reading) : Reading :=
  ⟨first.items ++ later.items, first.warnings ++ later.warnings, later.failure⟩

/-- A reading whose lines are counted from another one. -/
def advanced (count : Nat) (reading : Reading) : Reading :=
  ⟨reading.items.map (Item.renumber (· + count)),
    reading.warnings.map fun w => { w with number := w.number + count },
    reading.failure.map fun failure => (failure.1, failure.2 + count)⟩

section
variable (first later reading : Reading) (count : Nat)

@[simp] theorem items_followed : (first.followed later).items = first.items ++ later.items := rfl

@[simp] theorem failure_followed : (first.followed later).failure = later.failure := rfl

@[simp] theorem items_advanced :
    (reading.advanced count).items = reading.items.map (Item.renumber (· + count)) := rfl

@[simp] theorem failure_advanced : (reading.advanced count).failure =
    reading.failure.map fun failure => (failure.1, failure.2 + count) := rfl

end

theorem finish_add (number count : Nat) (state : State) :
    finish (number + count) state = (finish number state).advanced count := by
  unfold finish
  split <;> rfl

/-- More lines before change nothing but the numbers. -/
theorem ofLines_add (seen count : Nat) (state : State) (rest : List Char)
    (lines : List (List Char)) :
    ofLines (seen + count) state rest lines = (ofLines seen state rest lines).advanced count := by
  induction lines generalizing seen state with
  | nil =>
      rw [ofLines, ofLines, finish_add]
      split
      · rfl
      · rw [Nat.add_right_comm]
        rfl
  | cons line lines ih =>
      have hnumber : seen + count + 1 = seen + 1 + count := Nat.add_right_comm seen count 1
      rw [ofLines, ofLines, hnumber]
      cases step state (Line.ofText line) with
      | on next => exact ih (seen + 1) next
      | item level outer text doc =>
          simp only [ih]
          rfl
      | drop next =>
          simp only [ih]
          rfl
      | ended => rfl
      | refused problem => rfl

variable {state : State} {items : List Item} {before : List Line} {count seen : Nat}
  {reading : Reading} {rest : List Char} {lines : List (List Char)}

/-- All that a reading tells is behind the first `count` lines. -/
structure Behind (count : Nat) (reading : Reading) : Prop where
  items : ∀ item ∈ reading.items, count < item.number
  warnings : ∀ w ∈ reading.warnings, w.loss = .blankLine → count < w.number
  failure : ∀ failure ∈ reading.failure, count < failure.2

theorem Behind.mono {earlier : Nat} (h : reading.Behind count) (hle : earlier ≤ count) :
    reading.Behind earlier where
  items item hitem := hle.trans_lt (h.items item hitem)
  warnings w hw hloss := hle.trans_lt (h.warnings w hw hloss)
  failure failure hf := hle.trans_lt (h.failure failure hf)

theorem behind_done : done.Behind count := by
  constructor <;> simp [done]

theorem behind_failed {problem : Problem} {number : Nat} (h : count < number) :
    (failed problem number).Behind count := by
  constructor <;> simp [failed, h]

/-- The end of the text drops no documentation by a blank line. -/
theorem behind_finish (number : Nat) (state : State) : (finish number state).Behind count := by
  unfold finish
  split
  · constructor <;> simp [done]
  · exact behind_done

/-- What a reading tells is behind the lines that were read before. -/
theorem behind_ofLines : (ofLines seen state rest lines).Behind seen := by
  induction lines generalizing seen state with
  | nil =>
      rw [ofLines]
      split
      · exact behind_finish seen state
      · exact behind_failed (Nat.lt_succ_self seen)
  | cons line lines ih =>
      rw [ofLines]
      split
      · exact ih.mono (Nat.le_succ seen)
      · next level outer text doc _ =>
        have hlater : (ofLines (seen + 1) (.after level outer) rest lines).Behind seen :=
          ih.mono (Nat.le_succ seen)
        exact ⟨List.forall_mem_cons.mpr ⟨Nat.lt_succ_self seen, hlater.items⟩, hlater.warnings,
          hlater.failure⟩
      · next next _ =>
        have hlater : (ofLines (seen + 1) next rest lines).Behind seen := ih.mono (Nat.le_succ seen)
        exact ⟨hlater.items, List.forall_mem_cons.mpr ⟨fun _ => Nat.lt_succ_self seen, hlater.warnings⟩,
          hlater.failure⟩
      · exact behind_done
      · exact behind_failed (Nat.lt_succ_self seen)

/-- Every item has the number of a line that was read. -/
theorem lt_number_of_mem : ∀ item ∈ (ofLines seen state rest lines).items, seen < item.number :=
  behind_ofLines.items

/-- An accepted reading that starts in column 0 comes through its first lines, and through them
also when others follow. -/
theorem exists_followed (lines : List (List Char)) {rest : List Char} {more : List (List Char)}
    (hfits : state.Fits items before) (hfirst : Grounded state ((lines ++ more).map Line.ofText))
    (haccepted : (ofLines before.length state rest (lines ++ more)).failure = none) :
    ∃ (first : Reading) (next : State) (items' : List Item),
      (∀ item ∈ first.items, item.number ≤ before.length + lines.length) ∧
      next.Fits items' ((lines.map Line.ofText).reverse ++ before) ∧
      Grounded next (more.map Line.ofText) ∧
      ∀ rest more, ofLines before.length state rest (lines ++ more) =
        first.followed (ofLines (before.length + lines.length) next rest more) := by
  induction lines generalizing state items before with
  | nil => exact ⟨done, state, items, nofun, hfits, hfirst, fun _ _ => rfl⟩
  | cons line lines ih =>
      rw [List.cons_append, List.map_cons] at hfirst
      have hstep := hfits.step hfirst.head
      rw [List.cons_append, ofLines] at haccepted
      have hcount : before.length + 1 + lines.length = before.length + (line :: lines).length := by
        rw [List.length_cons]
        omega
      have hbefore : ((line :: lines).map Line.ofText).reverse ++ before =
          (lines.map Line.ofText).reverse ++ Line.ofText line :: before := by simp
      rw [hbefore, ← hcount]
      cases hdoes : step state (Line.ofText line) with
      | on next =>
          rw [hdoes] at hstep haccepted
          obtain ⟨first, last, items', hnumbers, hlast, hgrounded, hread⟩ :=
            ih hstep.2.2 (hfirst.tail (.inl hdoes)) haccepted
          refine ⟨first, last, items', hnumbers, hlast, hgrounded, fun rest more => ?_⟩
          rw [List.cons_append, ofLines, hdoes]
          exact hread rest more
      | item level outer text doc =>
          rw [hdoes] at hstep haccepted
          obtain ⟨first, last, items', hnumbers, hlast, hgrounded, hread⟩ :=
            ih hstep.2.2.2 (fun hstart => by cases hstart) haccepted
          refine ⟨{ first with items := ⟨level, before.length + 1, text, doc⟩ :: first.items }, last,
            items', ?_, hlast, hgrounded, fun rest more => ?_⟩
          · exact List.forall_mem_cons.mpr ⟨Nat.le_add_right _ _, hnumbers⟩
          · have hmore := hread rest more
            rw [List.length_cons] at hmore
            rw [List.cons_append, ofLines, hdoes]
            simp only [hmore]
            rfl
      | drop next =>
          rw [hdoes] at hstep haccepted
          obtain ⟨first, last, items', hnumbers, hlast, hgrounded, hread⟩ :=
            ih hstep.2.2 (hfirst.tail (.inr hdoes)) haccepted
          refine ⟨{ first with warnings := ⟨.blankLine, before.length + 1⟩ :: first.warnings }, last,
            items', hnumbers, hlast, hgrounded, fun rest more => ?_⟩
          have hmore := hread rest more
          rw [List.length_cons] at hmore
          rw [List.cons_append, ofLines, hdoes]
          simp only [hmore]
          rfl
      | ended =>
          rw [hdoes] at hstep
          exact hstep.elim
      | refused problem =>
          rw [hdoes] at haccepted
          cases haccepted

end Reading
/-! ## inserted lines -/

/-- A source with more lines behind its first `count` lines. -/
def insertLines (source : String) (count : Nat) (more : List (List Char)) : String :=
  let lines := Text.Lines.ofText source.toList
  String.ofList
    (Text.Lines.toText ⟨lines.ended.take count ++ more ++ lines.ended.drop count, lines.rest⟩)

/-- The lines of a source into which lines were inserted. -/
theorem ofText_insertLines (source : String) (count : Nat) {more : List (List Char)}
    (hmore : ∀ line ∈ more, '\n' ∉ line) :
    Text.Lines.ofText (insertLines source count more).toList =
      ⟨(Text.Lines.ofText source.toList).ended.take count ++ more ++
        (Text.Lines.ofText source.toList).ended.drop count,
        (Text.Lines.ofText source.toList).rest⟩ := by
  obtain ⟨hended, hrest⟩ := Text.Lines.not_mem_ofText source.toList
  rw [insertLines, String.toList_ofList]
  refine Text.Lines.ofText_toText (fun line hline => ?_) hrest
  simp only [List.mem_append] at hline
  rcases hline with (hline | hline) | hline
  · exact hended line (List.mem_of_mem_take hline)
  · exact hmore line hline
  · exact hended line (List.mem_of_mem_drop hline)

end DeviceRegisters.Outline
