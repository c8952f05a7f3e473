import DeviceRegisters.Outline.Reading
import DeviceRegisters.Proofs.Outline.Forest
import DeviceRegisters.Proofs.Outline.Written

/-!
# DeviceRegisters.Proofs.Outline.RoundTrip

Reading what was written.

In a text that `render` wrote, every line stands at a multiple of `columns`, and
the levels that are open after it are all the multiples below: the `ladder`.  So
the states at the ends of lines are few (`standing`), and from each of them a
line can be read at every depth that is open there or one further.

* `ofLines_linesBelow` — reading the lines of nodes gives their items, whatever
  follows;
* `parse_render_of_writable` — nodes that can be written are read back;
* `writable_of_parse` — nodes that have been read can be written.
-/

namespace DeviceRegisters.Outline

open Node (columns lines linesBelow itemsFrom itemsBelow numberFrom numberBelow numbered toItems)

/-! ## single lines -/

/-- Indentation is measured and taken off. -/
theorem dropWhile_replicate_append {cs : List Char} (n : Nat) (h : cs.head? ≠ some ' ') :
    (List.replicate n ' ' ++ cs).dropWhile (· = ' ') = cs := by
  rw [List.dropWhile_append_of_pos (by simp)]
  cases cs with
  | nil => rfl
  | cons c cs =>
      have hc : c ≠ ' ' := by simpa using h
      simp [hc]

/-- A documentation line is read as such. -/
theorem ofText_doc (n : Nat) {text : String} (h : IsDocText text) :
    Line.ofText (List.replicate n ' ' ++ '#' :: text.toList) = .doc n text := by
  have hnext := h.noMark
  rw [Line.ofText, dropWhile_replicate_append n (by simp)]
  cases hcs : text.toList with
  | nil =>
      have htext : text = String.ofList [] := by rw [← hcs, String.ofList_toList]
      simp [htext]
  | cons c cs =>
      have hc : c ≠ '#' := by simpa [hcs] using hnext
      have htext : text = String.ofList (c :: cs) := by rw [← hcs, String.ofList_toList]
      simp [htext, hc]

/-- A line of text is read as such. -/
theorem ofText_body (n : Nat) {text : String} (h : IsLineText text) :
    Line.ofText (List.replicate n ' ' ++ text.toList) = .body n text := by
  have hmark := h.noMark
  rw [Line.ofText, dropWhile_replicate_append n h.noSpace]
  cases hcs : text.toList with
  | nil => exact absurd hcs h.ne_nil
  | cons c cs =>
      have hc : c ≠ '#' := by simpa [hcs] using hmark
      have htext : text = String.ofList (c :: cs) := by rw [← hcs, String.ofList_toList]
      simp [htext, hc]

/-! ## states between lines -/

/-- The levels around a depth, innermost first. -/
def ladder : Nat → List Nat
  | 0 => []
  | depth + 1 => depth * columns :: ladder depth

/-- The state of a reading to which all depths up to the given one are open. -/
def standing : Nat → State
  | 0 => .start
  | depth + 1 => .after (depth * columns) (ladder depth)

/-- From any depth one comes back to a smaller one. -/
theorem climb_ladder {depth top : Nat} (h : depth < top) :
    climb (depth * columns) (ladder top) = .to (depth * columns) (ladder depth) := by
  induction top with
  | zero => contradiction
  | succ top ih =>
      rw [ladder, climb]
      by_cases heq : depth = top
      · subst heq
        simp
      · have hlt : depth < top := by omega
        have hne : depth * columns ≠ top * columns := by simp only [columns]; omega
        have hnot : ¬ top * columns < depth * columns := by simp only [columns]; omega
        rw [if_neg hne, if_neg hnot, ih hlt]

/-- From the depth of the last line one can go to any depth up to the next. -/
theorem settle_ladder {depth top : Nat} (h : depth ≤ top + 1) :
    settle (depth * columns) (top * columns) (ladder top) = .to (depth * columns) (ladder depth) := by
  rw [settle]
  by_cases heq : depth = top + 1
  · subst heq
    have hlt : top * columns < (top + 1) * columns := by simp only [columns]; omega
    rw [if_pos hlt, ladder]
  · have hnot : ¬ top * columns < depth * columns := by simp only [columns]; omega
    have hladder : top * columns :: ladder top = ladder (top + 1) := rfl
    rw [if_neg hnot, hladder, climb_ladder (by omega)]

theorem step_standing_doc {depth top : Nat} (h : depth ≤ top) (text : String) :
    step (standing top) (.doc (depth * columns) text) =
      .on (.gathering (depth * columns) (ladder depth) [text]) := by
  cases top with
  | zero =>
      obtain rfl : depth = 0 := by omega
      rfl
  | succ top => simp only [standing, step, settle_ladder h]

theorem step_standing_body {depth top : Nat} (h : depth ≤ top) (text : String) :
    step (standing top) (.body (depth * columns) text) =
      .item (depth * columns) (ladder depth) text [] := by
  cases top with
  | zero =>
      obtain rfl : depth = 0 := by omega
      rfl
  | succ top => simp only [standing, step, settle_ladder h]

/-! ## the lines of nodes -/

namespace Reading

variable {depth seen top : Nat} {rest : List Char} {more : List (List Char)}

/-- A reading with more items in front. -/
def preceded (items : List Item) (later : Reading) : Reading :=
  { later with items := items ++ later.items }

/-- Documentation is gathered until its line comes. -/
theorem ofLines_gathering (indent seen : Nat) (outer : List Nat) {text : String}
    (htext : IsLineText text) (rest : List Char) (more : List (List Char)) (doc : List String) :
    (gathered : List String) → (∀ line ∈ doc, IsDocText line) →
    ofLines seen (.gathering indent outer gathered) rest
        (doc.map (List.replicate indent ' ' ++ '#' :: ·.toList) ++
          (List.replicate indent ' ' ++ text.toList) :: more) =
      preceded [⟨indent, seen + doc.length + 1, text, gathered ++ doc⟩]
        (ofLines (seen + doc.length + 1) (.after indent outer) rest more) := by
  induction doc generalizing seen with
  | nil =>
      intro gathered _
      simp [ofLines, ofText_body indent htext, step, preceded]
  | cons line doc ih =>
      intro gathered hdoc
      have hline := hdoc line List.mem_cons_self
      have hmore := ih (seen + 1) (gathered ++ [line])
        (fun other hmem => hdoc other (List.mem_cons_of_mem _ hmem))
      simp only [List.map_cons, List.cons_append, ofLines, ofText_doc indent hline, step, if_true]
      rw [hmore]
      have hcount : seen + 1 + doc.length = seen + (line :: doc).length := by
        simp only [List.length_cons]; omega
      rw [hcount, List.append_assoc, List.singleton_append]

/-- A line with its documentation is read at every depth that is open. -/
theorem ofLines_documented (hdepth : depth ≤ top) {text : String} (htext : IsLineText text)
    {doc : List String} (hdoc : ∀ line ∈ doc, IsDocText line) :
    ofLines seen (standing top) rest
        (doc.map (List.replicate (depth * columns) ' ' ++ '#' :: ·.toList) ++
          (List.replicate (depth * columns) ' ' ++ text.toList) :: more) =
      preceded [⟨depth * columns, seen + doc.length + 1, text, doc⟩]
        (ofLines (seen + doc.length + 1) (standing (depth + 1)) rest more) := by
  cases doc with
  | nil =>
      simp only [List.map_nil, List.nil_append, ofLines, ofText_body _ htext,
        step_standing_body hdepth]
      rfl
  | cons line doc =>
      have hline := hdoc line List.mem_cons_self
      have hmore := ofLines_gathering (depth * columns) (seen + 1) (ladder depth) htext rest more
        doc [line]
        (fun other hmem => hdoc other (List.mem_cons_of_mem _ hmem))
      simp only [List.map_cons, List.cons_append, ofLines, ofText_doc _ hline,
        step_standing_doc hdepth]
      rw [hmore]
      have hcount : seen + 1 + doc.length = seen + (line :: doc).length := by
        simp only [List.length_cons]; omega
      rw [hcount]
      rfl

/-- Items as they are read: their levels count columns. -/
def inColumns (items : List Item) : List Item := items.map (Item.relevel (· * columns))

theorem preceded_append (xs ys : List Item) (later : Reading) :
    preceded (inColumns (xs ++ ys)) later =
      preceded (inColumns xs) (preceded (inColumns ys) later) := by
  simp [preceded, inColumns]

mutual
/-- The lines of a node are read at every depth that is open, and leave the next
depth open. -/
theorem ofLines_lines (depth seen top : Nat) (hdepth : depth ≤ top) : (node : Node) →
    (∀ item ∈ itemsFrom depth node, item.Writable) →
    ∃ top', depth < top' ∧ ∀ rest more,
      ofLines seen (standing top) rest (lines depth node ++ more) =
        preceded (inColumns (itemsFrom depth (numberFrom depth seen node)))
          (ofLines (seen + (lines depth node).length) (standing top') rest more)
  | ⟨number, text, doc, children⟩, h => by
      have hitem : Item.Writable ⟨depth, number, text, doc⟩ := h _ (by simp [itemsFrom])
      have hbelow : ∀ item ∈ itemsBelow (depth + 1) children, item.Writable :=
        fun item hmem => h item (by simp [itemsFrom, hmem])
      obtain ⟨top', htop', hread⟩ := ofLines_linesBelow (depth + 1) (seen + doc.length + 1)
        (depth + 1) (Nat.le_refl _) children hbelow
      refine ⟨top', htop', fun rest more => ?_⟩
      have hcount : seen + doc.length + 1 + (linesBelow (depth + 1) children).length =
          seen + (lines depth ⟨number, text, doc, children⟩).length := by
        simp only [lines, List.length_append, List.length_map, List.length_cons]; omega
      rw [← hcount]
      simp only [lines, List.append_assoc, List.cons_append]
      rw [ofLines_documented hdepth hitem.text hitem.doc, hread rest more]
      rfl

/-- The lines of nodes are read at every depth that is open, and leave it
open. -/
theorem ofLines_linesBelow (depth seen top : Nat) (hdepth : depth ≤ top) : (nodes : List Node) →
    (∀ item ∈ itemsBelow depth nodes, item.Writable) →
    ∃ top', depth ≤ top' ∧ ∀ rest more,
      ofLines seen (standing top) rest (linesBelow depth nodes ++ more) =
        preceded (inColumns (itemsBelow depth (numberBelow depth seen nodes)))
          (ofLines (seen + (linesBelow depth nodes).length) (standing top') rest more)
  | [], _ => ⟨top, hdepth, fun _ _ => rfl⟩
  | node :: nodes, h => by
      obtain ⟨top₁, htop₁, hfirst⟩ := ofLines_lines depth seen top hdepth node
        (fun item hmem => h item (by simp [itemsBelow, hmem]))
      obtain ⟨top₂, htop₂, hothers⟩ := ofLines_linesBelow depth
        (seen + (lines depth node).length) top₁ (Nat.le_of_lt htop₁) nodes
        (fun item hmem => h item (by simp [itemsBelow, hmem]))
      refine ⟨top₂, htop₂, fun rest more => ?_⟩
      simp only [linesBelow, numberBelow, itemsBelow, List.append_assoc, List.length_append]
      rw [hfirst, hothers, preceded_append, Nat.add_assoc]
end

end Reading

/-! ## what is read can be written -/

/-- A line that can be written as it was read. -/
def Line.Writable : Line → Prop
  | .doc _ text => IsDocText text
  | .body _ text => IsLineText text
  | .blank | .remark => True

/-- What is left of a line without its indentation does not begin with a space. -/
theorem head?_dropWhile_space (cs : List Char) :
    (cs.dropWhile (· = ' ')).head? ≠ some ' ' := by
  intro hspace
  have hnot := List.head?_dropWhile_not (fun c : Char => decide (c = ' ')) cs
  rw [hspace] at hnot
  simp at hnot

/-- A line without a line feed can be written as it was read. -/
theorem writable_ofText {cs : List Char} (h : '\n' ∉ cs) : (Line.ofText cs).Writable := by
  have hfeed : '\n' ∉ cs.dropWhile (· = ' ') :=
    fun hmem => h ((List.dropWhile_suffix _).subset hmem)
  have hspace := head?_dropWhile_space cs
  simp only [Line.ofText]
  split
  · trivial
  · trivial
  · next text hmark hcontent =>
      rw [hcontent] at hfeed
      refine ⟨?_, ?_⟩
      · rw [String.toList_ofList]
        exact fun hmem => hfeed (List.mem_cons_of_mem _ hmem)
      · rw [String.toList_ofList]
        intro hhead
        obtain ⟨tail, htail⟩ := List.head?_eq_some_iff.mp hhead
        exact hmark tail htail
  · next hnil _ hmark =>
      refine ⟨?_, ?_, ?_, ?_⟩
      · rw [String.toList_ofList]
        exact hnil
      · rw [String.toList_ofList]
        exact hfeed
      · rw [String.toList_ofList]
        exact hspace
      · rw [String.toList_ofList]
        intro hhead
        obtain ⟨tail, htail⟩ := List.head?_eq_some_iff.mp hhead
        exact hmark tail htail

/-- A state that has gathered only documentation that can be written. -/
def State.Writable : State → Prop
  | .gathering _ _ doc => ∀ line ∈ doc, IsDocText line
  | .start | .after _ _ => True

/-- A step that keeps to what can be written. -/
def Step.Writable : Step → Prop
  | .on state | .drop state => state.Writable
  | .item _ _ text doc => IsLineText text ∧ ∀ line ∈ doc, IsDocText line
  | .ended | .refused _ => True

/-- One line keeps to what can be written. -/
theorem writable_step {state : State} {line : Line} (hstate : state.Writable)
    (hline : line.Writable) : (step state line).Writable := by
  cases state with
  | start =>
      cases line with
      | blank | remark => trivial
      | doc indent text =>
          simp only [step, Step.Writable, State.Writable, List.mem_singleton, forall_eq]
          exact hline
      | body indent text => exact ⟨hline, by simp⟩
  | after level outer =>
      cases line with
      | blank | remark => trivial
      | doc indent text =>
          simp only [step]
          split
          · simp only [Step.Writable, State.Writable, List.mem_singleton, forall_eq]
            exact hline
          · trivial
          · trivial
      | body indent text =>
          simp only [step]
          split
          · exact ⟨hline, by simp⟩
          · trivial
          · trivial
  | gathering level outer doc =>
      cases line with
      | remark => exact hstate
      | blank =>
          simp only [step]
          split
          · exact hstate
          · simp [Step.Writable, State.Writable]
      | doc indent text =>
          simp only [step]
          split
          · simp only [Step.Writable, State.Writable, List.mem_append, List.mem_singleton]
            rintro other (hmem | rfl)
            · exact hstate other hmem
            · exact hline
          · trivial
      | body indent text =>
          simp only [step]
          split
          · exact ⟨hline, hstate⟩
          · trivial

namespace Reading

/-- What ends a reading gives no items. -/
theorem items_finish (number : Nat) (state : State) : (finish number state).items = [] := by
  unfold finish
  split <;> rfl

/-- Every item that is read can be written. -/
theorem writable_of_mem_ofLines (rest : List Char) : (textLines : List (List Char)) →
    (seen : Nat) → (state : State) → state.Writable → (∀ line ∈ textLines, '\n' ∉ line) →
    ∀ item ∈ (ofLines seen state rest textLines).items, item.Writable
  | [], seen, state, _, _, item, hitem => by
      simp only [ofLines] at hitem
      split at hitem
      · simp [items_finish] at hitem
      · simp [failed] at hitem
  | line :: textLines, seen, state, hstate, hfeed, item, hitem => by
      have hstep := writable_step hstate (writable_ofText (hfeed line List.mem_cons_self))
      have hothers : ∀ other ∈ textLines, '\n' ∉ other :=
        fun other hmem => hfeed other (List.mem_cons_of_mem _ hmem)
      simp only [ofLines] at hitem
      split at hitem
      · next next hnext =>
          rw [hnext] at hstep
          exact writable_of_mem_ofLines rest textLines (seen + 1) next hstep hothers item hitem
      · next level outer text doc hnext =>
          rw [hnext] at hstep
          rcases List.mem_cons.mp hitem with rfl | hitem
          · exact ⟨hstep.1, hstep.2⟩
          · exact writable_of_mem_ofLines rest textLines (seen + 1) (.after level outer) trivial
              hothers item hitem
      · next next hnext =>
          rw [hnext] at hstep
          exact writable_of_mem_ofLines rest textLines (seen + 1) next hstep hothers item hitem
      · simp [done] at hitem
      · simp [failed] at hitem

end Reading

/-- Whether an item can be written does not depend on its level. -/
theorem writable_bare (item : Item) : item.bare.Writable ↔ item.Writable :=
  ⟨fun h => ⟨h.text, h.doc⟩, fun h => ⟨h.text, h.doc⟩⟩

/-- The nodes of an outline that was read can be written. -/
theorem writable_of_parse {source : String} {nodes : List Node}
    (h : (parse source).result = .ok nodes) : ∀ item ∈ toItems nodes, item.Writable := by
  intro item hitem
  simp only [parse] at h
  split at h
  · obtain rfl := Except.ok.inj h
    have hbare : item.bare ∈ (Reading.ofText source).items.map Item.bare := by
      rw [← Node.map_bare_toItems_forest]
      exact List.mem_map_of_mem hitem
    obtain ⟨read, hread, heq⟩ := List.mem_map.mp hbare
    rw [← writable_bare, ← heq, writable_bare]
    exact Reading.writable_of_mem_ofLines _ _ 0 .start trivial
      (Text.Lines.not_mem_ofText source.toList).1 read hread
  · contradiction

/-! ## round trip -/

/-- At the end of a written text nothing is pending. -/
theorem finish_standing (number top : Nat) : Reading.finish number (standing top) = Reading.done := by
  cases top <;> rfl

/-- Nodes that can be written are read back, with the numbers of their lines. -/
theorem parse_render_of_writable {nodes : List Node} (h : ∀ item ∈ toItems nodes, item.Writable) :
    parse (Node.render nodes) = ⟨[], .ok (numbered nodes)⟩ := by
  have hread : Reading.ofText (Node.render nodes) =
      ⟨Reading.inColumns (toItems (numbered nodes)), [], none⟩ := by
    obtain ⟨top, -, hlines⟩ := Reading.ofLines_linesBelow 0 0 0 (Nat.le_refl 0) nodes h
    have hall := hlines [] []
    rw [List.append_nil] at hall
    rw [Reading.ofText, Node.ofText_render h]
    simp only
    change Reading.ofLines 0 (standing 0) [] (linesBelow 0 nodes) = _
    rw [hall]
    simp [Reading.ofLines, finish_standing, Reading.preceded, Reading.done, toItems, numbered]
  have horder : ∀ a b : Nat, a * columns < b * columns ↔ a < b := by
    intro a b
    simp only [columns]
    omega
  simp only [parse, hread, Reading.inColumns]
  rw [Node.forest_map_relevel horder, Node.forest_toItems]

/-- **Round trip**: nodes that can be written are read back from their text,
without a warning and changed in nothing but the numbers, which are those of
their lines in the text; and the nodes of every outline that was read can be
written, so they are read back as well. -/
theorem parse_render :
    (∀ nodes, (∀ item ∈ toItems nodes, item.Writable) →
      parse (Node.render nodes) = ⟨[], .ok (numbered nodes)⟩ ∧
      (toItems (numbered nodes)).map Item.unnumbered = (toItems nodes).map Item.unnumbered ∧
      ∀ item ∈ toItems (numbered nodes), 0 < item.number ∧
        (Text.Lines.ofText (Node.render nodes).toList).ended[item.number - 1]? =
          some (Node.lineOf item)) ∧
    ∀ source nodes, (parse source).result = .ok nodes →
      (∀ item ∈ toItems nodes, item.Writable) ∧
      parse (Node.render nodes) = ⟨[], .ok (numbered nodes)⟩ := by
  refine ⟨fun nodes h => ⟨parse_render_of_writable h, ?_, ?_⟩, fun source nodes h => ?_⟩
  · exact Node.map_unnumbered_numberBelow 0 0 nodes
  · intro item hitem
    obtain ⟨k, hnumber, hline⟩ := Node.getElem?_linesBelow_of_mem 0 0 nodes item hitem
    have hk : item.number - 1 = k := by omega
    rw [Node.ofText_render h, hk]
    exact ⟨by omega, hline⟩
  · have hwritable := writable_of_parse h
    exact ⟨hwritable, parse_render_of_writable hwritable⟩

end DeviceRegisters.Outline
