import DeviceRegisters.Outline.Basic

/-!
# DeviceRegisters.Proofs.Outline.Forest

Forests and their items.

* `forest_toItems` — a forest is put together again from its own items;
* `forest_map_relevel` — for putting items together only the order of their
  levels counts;
* `map_bare_toItems_forest` — no item is lost, added or moved when items are put
  together: in text order they come back as they were, but for their levels.
-/

namespace DeviceRegisters.Outline

/-! ## levels -/

namespace Item

/-- The item at another level. -/
def relevel (f : Nat → Nat) (item : Item) : Item := { item with level := f item.level }

/-- The item as it is whatever its level. -/
def bare (item : Item) : Item := item.relevel fun _ => 0

end Item

namespace Node

/-! ## from a forest to its items and back -/

/-- The items of an appended list follow those of the list. -/
theorem itemsBelow_append (depth : Nat) (xs ys : List Node) :
    itemsBelow depth (xs ++ ys) = itemsBelow depth xs ++ itemsBelow depth ys := by
  induction xs with
  | nil => rfl
  | cons x xs ih => simp [itemsBelow, ih]

/-- Roots that begin with none that is deeper give an item no children. -/
theorem takeWhile_dropWhile_deeper {roots : List (Nat × Node)} {level : Nat}
    (h : ∀ root ∈ roots.head?, root.1 ≤ level) :
    roots.takeWhile (fun root => level < root.1) = [] ∧
      roots.dropWhile (fun root => level < root.1) = roots := by
  cases roots with
  | nil => exact ⟨rfl, rfl⟩
  | cons root roots =>
      have hroot : ¬ level < root.1 := Nat.not_lt.mpr (h root rfl)
      simp [hroot]

mutual
/-- The items of a node are put together to the node, in front of roots that
begin with none that is deeper. -/
theorem foldr_attach_itemsFrom (depth : Nat) : (node : Node) → (roots : List (Nat × Node)) →
    (∀ root ∈ roots.head?, root.1 ≤ depth) →
    (itemsFrom depth node).foldr attach roots = (depth, node) :: roots
  | ⟨number, text, doc, children⟩, roots, h => by
      have hbelow : (itemsBelow (depth + 1) children).foldr attach roots =
          children.map (depth + 1, ·) ++ roots :=
        foldr_attach_itemsBelow (depth + 1) children roots
          (fun root hroot => Nat.le_succ_of_le (h root hroot))
      have hdeeper : ∀ root ∈ children.map (depth + 1, ·),
          decide (depth < root.1) = true := by simp
      obtain ⟨htake, hdrop⟩ := takeWhile_dropWhile_deeper h
      rw [itemsFrom, List.foldr_cons, hbelow, attach]
      rw [List.takeWhile_append_of_pos hdeeper, List.dropWhile_append_of_pos hdeeper, htake, hdrop]
      simp [Function.comp_def]

/-- The items of a list of nodes are put together to the nodes, in front of
roots that begin with none that is deeper. -/
theorem foldr_attach_itemsBelow (depth : Nat) : (nodes : List Node) →
    (roots : List (Nat × Node)) → (∀ root ∈ roots.head?, root.1 ≤ depth) →
    (itemsBelow depth nodes).foldr attach roots = nodes.map (depth, ·) ++ roots
  | [], _, _ => rfl
  | node :: nodes, roots, h => by
      rw [itemsBelow, List.foldr_append, foldr_attach_itemsBelow depth nodes roots h]
      rw [foldr_attach_itemsFrom depth node]
      · rfl
      · cases nodes with
        | nil => simpa using h
        | cons other nodes => simp
end

/-- A forest is put together again from its own items. -/
theorem forest_toItems (nodes : List Node) : forest (toItems nodes) = nodes := by
  rw [forest, toItems, foldr_attach_itemsBelow 0 nodes [] (by simp)]
  simp [Function.comp_def]

/-! ## the order of levels -/

section
variable {f : Nat → Nat} (hf : ∀ a b, f a < f b ↔ a < b)
include hf

/-- Attaching an item depends on the order of levels only. -/
theorem attach_relevel (item : Item) (roots : List (Nat × Node)) :
    attach (item.relevel f) (roots.map (Prod.map f id)) =
      (attach item roots).map (Prod.map f id) := by
  simp only [attach, Item.relevel, List.takeWhile_map, List.dropWhile_map, Function.comp_def,
    Prod.map_fst, hf, List.map_cons, List.map_map, Prod.map_snd, id_eq]
  rfl

/-- Moving all items to other levels keeps the forest if it keeps the order of
levels. -/
theorem forest_map_relevel (items : List Item) :
    forest (items.map (Item.relevel f)) = forest items := by
  have hroots : (items.map (Item.relevel f)).foldr attach [] =
      (items.foldr attach []).map (Prod.map f id) := by
    induction items with
    | nil => rfl
    | cons item items ih =>
        rw [List.map_cons, List.foldr_cons, ih, attach_relevel hf, List.foldr_cons]
  rw [forest, hroots, List.map_map]
  rfl

end

/-! ## nothing is lost -/

mutual
/-- But for the levels, the items of a node are the same at every depth. -/
theorem map_bare_itemsFrom (depth other : Nat) : (node : Node) →
    (itemsFrom depth node).map Item.bare = (itemsFrom other node).map Item.bare
  | ⟨number, text, doc, children⟩ => by
      simp only [itemsFrom, List.map_cons]
      rw [map_bare_itemsBelow (depth + 1) (other + 1) children]
      rfl

/-- But for the levels, the items of a list of nodes are the same at every
depth. -/
theorem map_bare_itemsBelow (depth other : Nat) : (nodes : List Node) →
    (itemsBelow depth nodes).map Item.bare = (itemsBelow other nodes).map Item.bare
  | [] => rfl
  | node :: nodes => by
      simp only [itemsBelow, List.map_append]
      rw [map_bare_itemsFrom depth other node, map_bare_itemsBelow depth other nodes]
end

/-- But for the levels, an attached item comes first and the items of the roots
follow as they were. -/
theorem map_bare_attach (item : Item) (roots : List (Nat × Node)) :
    (toItems ((attach item roots).map (·.2))).map Item.bare =
      item.bare :: (toItems (roots.map (·.2))).map Item.bare := by
  have hsplit : roots.map (·.2) =
      (roots.takeWhile fun root => item.level < root.1).map (·.2) ++
        (roots.dropWhile fun root => item.level < root.1).map (·.2) := by
    rw [← List.map_append, List.takeWhile_append_dropWhile]
  rw [hsplit]
  simp only [toItems, attach, List.map_cons, itemsBelow, itemsFrom, List.cons_append,
    itemsBelow_append, List.map_append]
  rw [map_bare_itemsBelow (0 + 1) 0]
  rfl

/-- But for the levels, the items of the forest that items make up are those
items. -/
theorem map_bare_toItems_forest (items : List Item) :
    (toItems (forest items)).map Item.bare = items.map Item.bare := by
  induction items with
  | nil => rfl
  | cons item items ih =>
      rw [forest, List.foldr_cons, map_bare_attach, List.map_cons, ← ih, forest]

end Node
end DeviceRegisters.Outline
