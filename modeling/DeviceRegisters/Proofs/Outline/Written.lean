import DeviceRegisters.Outline.Printer

/-!
# DeviceRegisters.Proofs.Outline.Written

What `render` writes: which nodes can be written so that they can be read again,
and which line of the text each of them gets.

* `ofText_render` — the lines of the text are those that were written;
* `map_unnumbered_numberBelow`, `getElem?_linesBelow_of_mem` — `numberBelow`
  changes the numbers only, and gives every node that of its line.
-/

namespace DeviceRegisters.Outline

/-! ## what can be written -/

/-- A text that fills a line: there is something in it, it has no line feed, and
it begins neither like indentation nor like documentation. -/
structure IsLineText (text : String) : Prop where
  ne_nil : text.toList ≠ []
  noFeed : '\n' ∉ text.toList
  noSpace : text.toList.head? ≠ some ' '
  noMark : text.toList.head? ≠ some '#'

/-- A text that can stand after the mark of a documentation line: it has no line
feed, and with the mark it does not become a remark. -/
structure IsDocText (text : String) : Prop where
  noFeed : '\n' ∉ text.toList
  noMark : text.toList.head? ≠ some '#'

/-- An item that reads as itself when it is written. -/
structure Item.Writable (item : Item) : Prop where
  text : IsLineText item.text
  doc : ∀ line ∈ item.doc, IsDocText line

/-- The item as it is whatever its number. -/
def Item.unnumbered (item : Item) : Item := { item with number := 0 }

namespace Node

/-! ## lines without line feeds -/

mutual
/-- The lines of a writable node hold no line feed. -/
theorem noFeed_of_mem_lines (depth : Nat) : (node : Node) →
    (∀ item ∈ itemsFrom depth node, item.Writable) → ∀ line ∈ lines depth node, '\n' ∉ line
  | ⟨number, text, doc, children⟩, h, line, hline => by
      have hitem : Item.Writable ⟨depth, number, text, doc⟩ := h _ (by simp [itemsFrom])
      have hbelow : ∀ item ∈ itemsBelow (depth + 1) children, item.Writable :=
        fun item hmem => h item (by simp [itemsFrom, hmem])
      simp only [lines, List.mem_append, List.mem_map, List.mem_cons] at hline
      rcases hline with ⟨words, hwords, rfl⟩ | rfl | hline
      · have hdoc := (hitem.doc words hwords).noFeed
        simp [hdoc]
      · have htext := hitem.text.noFeed
        simp [htext]
      · exact noFeed_of_mem_linesBelow (depth + 1) children hbelow line hline

/-- The lines of writable nodes hold no line feed. -/
theorem noFeed_of_mem_linesBelow (depth : Nat) : (nodes : List Node) →
    (∀ item ∈ itemsBelow depth nodes, item.Writable) → ∀ line ∈ linesBelow depth nodes, '\n' ∉ line
  | [], _, line, hline => by simp [linesBelow] at hline
  | node :: nodes, h, line, hline => by
      simp only [linesBelow, List.mem_append] at hline
      rcases hline with hline | hline
      · exact noFeed_of_mem_lines depth node
          (fun item hmem => h item (by simp [itemsBelow, hmem])) line hline
      · exact noFeed_of_mem_linesBelow depth nodes
          (fun item hmem => h item (by simp [itemsBelow, hmem])) line hline
end

/-- The text of writable nodes has the lines that were written, and nothing after
them. -/
theorem ofText_render {nodes : List Node} (h : ∀ item ∈ toItems nodes, item.Writable) :
    Text.Lines.ofText (render nodes).toList = ⟨linesBelow 0 nodes, []⟩ := by
  rw [render, String.toList_ofList]
  exact Text.Lines.ofText_toText (noFeed_of_mem_linesBelow 0 nodes h) (by simp)

/-! ## the numbers of the lines -/

mutual
/-- The node with the numbers that its lines have when they are written at a
depth, after `seen` other lines. -/
def numberFrom (depth seen : Nat) : Node → Node
  | ⟨_, text, doc, children⟩ =>
    let number := seen + doc.length + 1
    ⟨number, text, doc, numberBelow (depth + 1) number children⟩

/-- The nodes with the numbers that their lines have when they are written at a
depth, after `seen` other lines. -/
def numberBelow (depth seen : Nat) : List Node → List Node
  | [] => []
  | node :: nodes =>
    numberFrom depth seen node :: numberBelow depth (seen + (lines depth node).length) nodes
end

/-- The forest with the numbers that its lines have in its text. -/
def numbered (nodes : List Node) : List Node := numberBelow 0 0 nodes

mutual
/-- Numbering changes nothing but the numbers. -/
theorem map_unnumbered_numberFrom (depth seen : Nat) : (node : Node) →
    (itemsFrom depth (numberFrom depth seen node)).map Item.unnumbered =
      (itemsFrom depth node).map Item.unnumbered
  | ⟨number, text, doc, children⟩ => by
      simp only [numberFrom, itemsFrom, List.map_cons]
      rw [map_unnumbered_numberBelow]
      rfl

/-- Numbering changes nothing but the numbers. -/
theorem map_unnumbered_numberBelow (depth seen : Nat) : (nodes : List Node) →
    (itemsBelow depth (numberBelow depth seen nodes)).map Item.unnumbered =
      (itemsBelow depth nodes).map Item.unnumbered
  | [] => rfl
  | node :: nodes => by
      simp only [numberBelow, itemsBelow, List.map_append]
      rw [map_unnumbered_numberFrom, map_unnumbered_numberBelow]
end

/-- The line that is written for an item, documentation apart. -/
def lineOf (item : Item) : List Char :=
  List.replicate (item.level * columns) ' ' ++ item.text.toList

mutual
/-- Each item of a numbered node stands in the line of its number. -/
theorem getElem?_lines_of_mem (depth seen : Nat) : (node : Node) →
    ∀ item ∈ itemsFrom depth (numberFrom depth seen node),
      ∃ k, item.number = seen + k + 1 ∧ (lines depth node)[k]? = some (lineOf item)
  | ⟨_, text, doc, children⟩, item, hitem => by
      simp only [numberFrom, itemsFrom, List.mem_cons] at hitem
      rcases hitem with rfl | hitem
      · refine ⟨doc.length, rfl, ?_⟩
        simp [lines, lineOf]
      · obtain ⟨k, hnumber, hline⟩ :=
          getElem?_linesBelow_of_mem (depth + 1) (seen + doc.length + 1) children item hitem
        refine ⟨doc.length + (k + 1), by omega, ?_⟩
        rw [lines, List.getElem?_append_right (by simp)]
        simpa using hline

/-- Each item of numbered nodes stands in the line of its number. -/
theorem getElem?_linesBelow_of_mem (depth seen : Nat) : (nodes : List Node) →
    ∀ item ∈ itemsBelow depth (numberBelow depth seen nodes),
      ∃ k, item.number = seen + k + 1 ∧ (linesBelow depth nodes)[k]? = some (lineOf item)
  | [], item, hitem => by simp [numberBelow, itemsBelow] at hitem
  | node :: nodes, item, hitem => by
      simp only [numberBelow, itemsBelow, List.mem_append] at hitem
      rcases hitem with hitem | hitem
      · obtain ⟨k, hnumber, hline⟩ := getElem?_lines_of_mem depth seen node item hitem
        have hk : k < (lines depth node).length := (List.getElem?_eq_some_iff.mp hline).1
        refine ⟨k, hnumber, ?_⟩
        rw [linesBelow, List.getElem?_append_left hk, hline]
      · obtain ⟨k, hnumber, hline⟩ := getElem?_linesBelow_of_mem depth
          (seen + (lines depth node).length) nodes item hitem
        refine ⟨(lines depth node).length + k, by omega, ?_⟩
        rw [linesBelow, List.getElem?_append_right (by omega)]
        simpa using hline
end

end Node
end DeviceRegisters.Outline
