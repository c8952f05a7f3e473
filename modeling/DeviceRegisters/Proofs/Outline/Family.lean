import DeviceRegisters.Proofs.Outline.Forest
import Mathlib.Data.List.Basic
import Mathlib.Data.List.TakeWhile

/-!
# DeviceRegisters.Proofs.Outline.Family

Which line stands beneath which.

In the forest of any items, an item stands beneath the nearest one before it that is
indented less (`rowsBelow_forest`).  If every item is indented more than the one before it,
or as far as the nearest one that is not indented more (`Item.Settled`), then items that
stand beneath the same one are indented equally (`level_eq_of_mem_zip`).
-/

namespace DeviceRegisters.Outline

/-- A line of a tree with the number of the line that it stands beneath, if there is
one. -/
structure Row where
  number : Nat
  text : String
  doc : List String
  parent : Option Nat
  deriving DecidableEq, Repr

namespace Node

mutual
/-- A node and the nodes beneath it in text order. -/
def rowsFrom (parent : Option Nat) : Node → List Row
  | ⟨number, text, doc, children⟩ => ⟨number, text, doc, parent⟩ :: rowsBelow (some number) children

/-- The nodes of a list and those beneath them, in text order. -/
def rowsBelow (parent : Option Nat) : List Node → List Row
  | [] => []
  | node :: nodes => rowsFrom parent node ++ rowsBelow parent nodes
end

end Node

namespace Item

/-- The nearest item that is indented less than the level; `before` lists items, the nearest
first. -/
def parentIn (before : List Item) (level : Nat) : Option Nat :=
  (before.find? (·.level < level)).map (·.number)

/-- An item after others as a row. -/
def row (before : List Item) (item : Item) : Row :=
  ⟨item.number, item.text, item.doc, parentIn before item.level⟩

/-- Items in text order as rows, after others. -/
def rowsAfter (before : List Item) : List Item → List Row
  | [] => []
  | item :: items => item.row before :: rowsAfter (item :: before) items

end Item

open Node (attach forest rowsFrom rowsBelow)
open Item (parentIn rowsAfter)

/-! ## the nearest item that is indented less -/

theorem rowsBelow_eq_flatMap (parent : Option Nat) (nodes : List Node) :
    rowsBelow parent nodes = nodes.flatMap (rowsFrom parent) := by
  induction nodes with
  | nil => rfl
  | cons node nodes ih => rw [rowsBelow, ih, List.flatMap_cons]

/-- An item behind which nothing is indented less comes after those that are. -/
theorem parentIn_cons_of_lt (before : List Item) {item : Item} {level : Nat}
    (h : item.level < level) : parentIn (item :: before) level = some item.number := by
  simp [parentIn, h]

theorem parentIn_cons_of_le (before : List Item) {item : Item} {level : Nat}
    (h : level ≤ item.level) : parentIn (item :: before) level = parentIn before level := by
  simp [parentIn, Nat.not_lt.mpr h]

/-- Where roots that are indented less and less are no longer deeper, none of them is. -/
theorem le_of_mem_dropWhile {level : Nat} {roots : List (Nat × Node)}
    (h : roots.Pairwise fun first later => later.1 ≤ first.1) :
    ∀ root ∈ roots.dropWhile (fun root => level < root.1), root.1 ≤ level := by
  induction roots with
  | nil => simp
  | cons first roots ih =>
      obtain ⟨hfirst, hroots⟩ := List.pairwise_cons.mp h
      by_cases hdeeper : level < first.1
      · rw [List.dropWhile_cons_of_pos (by simpa using hdeeper)]
        exact ih hroots
      · rw [List.dropWhile_cons_of_neg (by simpa using hdeeper)]
        have hlevel : first.1 ≤ level := Nat.le_of_not_lt hdeeper
        exact List.forall_mem_cons.mpr
          ⟨hlevel, fun root hroot => Nat.le_trans (hfirst root hroot) hlevel⟩

/-- The roots of a forest are indented less and less. -/
theorem pairwise_foldr_attach (items : List Item) :
    (items.foldr attach []).Pairwise fun first later => later.1 ≤ first.1 := by
  induction items with
  | nil => exact .nil
  | cons item items ih =>
      rw [List.foldr_cons, attach]
      exact List.pairwise_cons.mpr ⟨le_of_mem_dropWhile ih, ih.sublist (List.dropWhile_sublist _)⟩

/-- The rows of a forest whose roots stand after other items. -/
theorem flatMap_rowsFrom_foldr_attach (before items : List Item) :
    ((items.foldr attach []).flatMap fun root => rowsFrom (parentIn before root.1) root.2) =
      rowsAfter before items := by
  induction items generalizing before with
  | nil => rfl
  | cons item items ih =>
      have hroots := pairwise_foldr_attach (item :: items)
      rw [List.foldr_cons, attach, List.pairwise_cons] at hroots
      rw [rowsAfter, ← ih (item :: before), List.foldr_cons, attach]
      generalize items.foldr attach [] = roots at hroots
      have hdeeper : ∀ root ∈ roots.takeWhile (fun root => decide (item.level < root.1)),
          rowsFrom (parentIn (item :: before) root.1) root.2 =
            rowsFrom (some item.number) root.2 := by
        intro root hroot
        have hlt : item.level < root.1 := by simpa using List.mem_takeWhile_imp hroot
        rw [parentIn_cons_of_lt before hlt]
      have hother : ∀ root ∈ roots.dropWhile (fun root => decide (item.level < root.1)),
          rowsFrom (parentIn (item :: before) root.1) root.2 =
            rowsFrom (parentIn before root.1) root.2 := by
        intro root hroot
        rw [parentIn_cons_of_le before (hroots.1 root hroot)]
      have hsplit := List.takeWhile_append_dropWhile
        (p := fun root : Nat × Node => decide (item.level < root.1)) (l := roots)
      rw [List.flatMap_cons, rowsFrom, rowsBelow_eq_flatMap, List.flatMap_map, Item.row,
        List.cons_append, ← List.flatMap_congr hdeeper, ← List.flatMap_congr hother,
        ← List.flatMap_append, hsplit]

/-- In the forest of items, each item stands beneath the nearest one before it that is
indented less. -/
theorem rowsBelow_forest (items : List Item) :
    rowsBelow none (forest items) = rowsAfter [] items := by
  rw [← flatMap_rowsFrom_foldr_attach, forest, rowsBelow_eq_flatMap, List.flatMap_map]
  rfl

/-! ## items beneath the same one -/

namespace Item

/-- An item of the level can follow: it is the first one, or indented more than the last one,
or as far as the nearest one that is not indented more. -/
def Settled (before : List Item) (level : Nat) : Prop :=
  before = [] ∨ (∃ last ∈ before.head?, last.level < level) ∨
    ∃ found ∈ before.find? (·.level ≤ level), found.level = level

/-- Each of the items can follow those before it. -/
def SettledAfter (before : List Item) : List Item → Prop
  | [] => True
  | item :: items => Settled before item.level ∧ SettledAfter (item :: before) items

/-- Items beneath the same one are indented equally; `before` lists items, the nearest first. -/
def Aligned (before : List Item) : Prop :=
  ∀ x xs y ys, x :: xs <:+ before → y :: ys <:+ before →
    parentIn xs x.level = parentIn ys y.level → x.level = y.level

variable {before : List Item} {item : Item}

/-- An item that can follow is indented as far as those beneath the same one. -/
theorem Aligned.eq_of_settled (h : Aligned before) (hsettled : Settled before item.level)
    (hnumbers : before.Pairwise fun later earlier => earlier.number < later.number) {x : Item}
    {xs : List Item} (hx : x :: xs <:+ before)
    (hparent : parentIn before item.level = parentIn xs x.level) : item.level = x.level := by
  rcases hsettled with rfl | ⟨last, hlast, hlt⟩ | ⟨found, hfound, hlevel⟩
  · simp at hx
  · -- beneath the last item nothing stands yet
    obtain ⟨older, rfl⟩ := List.head?_eq_some_iff.mp hlast
    rw [parentIn_cons_of_lt older hlt, parentIn] at hparent
    obtain ⟨other, hother, hnumber⟩ := Option.map_eq_some_iff.mp hparent.symm
    have hmem : other ∈ older := by
      have htail : xs <:+ older := by
        rcases List.suffix_cons_iff.mp hx with heq | hsuffix
        · obtain ⟨-, rfl⟩ := List.cons.inj heq
          exact List.suffix_rfl
        · exact (List.suffix_cons x xs).trans hsuffix
      exact htail.subset (List.mem_of_find?_eq_some hother)
    have hsmaller := (List.pairwise_cons.mp hnumbers).1 other hmem
    omega
  · -- the item found stands beneath the same one
    obtain ⟨-, newer, older, rfl, hnewer⟩ := List.find?_eq_some_iff_append.mp hfound
    have hpassed : parentIn (newer ++ found :: older) item.level = parentIn older found.level := by
      rw [parentIn, List.find?_append, List.find?_eq_none.mpr, Option.none_or, hlevel, ← parentIn,
        parentIn_cons_of_le older (Nat.le_of_eq hlevel.symm)]
      intro other hother
      have hdeeper := hnewer other hother
      simp only [Bool.not_eq_true', decide_eq_false_iff_not, Nat.not_le] at hdeeper
      simp only [decide_eq_true_eq, Nat.not_lt]
      exact Nat.le_of_lt hdeeper
    have hsame := h found older x xs (List.suffix_append newer _) hx (hpassed.symm.trans hparent)
    rw [← hlevel, hsame]

theorem Aligned.cons (h : Aligned before) (hsettled : Settled before item.level)
    (hnumbers : before.Pairwise fun later earlier => earlier.number < later.number) :
    Aligned (item :: before) := by
  intro x xs y ys hx hy hparent
  rcases List.suffix_cons_iff.mp hx with hfirst | hx <;>
    rcases List.suffix_cons_iff.mp hy with hsecond | hy
  · rw [(List.cons.inj hfirst).1, (List.cons.inj hsecond).1]
  · rw [(List.cons.inj hfirst).1, (List.cons.inj hfirst).2] at hparent
    rw [(List.cons.inj hfirst).1]
    exact h.eq_of_settled hsettled hnumbers hy hparent
  · rw [(List.cons.inj hsecond).1, (List.cons.inj hsecond).2] at hparent
    rw [(List.cons.inj hsecond).1]
    exact (h.eq_of_settled hsettled hnumbers hx hparent.symm).symm
  · exact h x xs y ys hx hy hparent

theorem Aligned.append_reverse {items : List Item} (h : Aligned before)
    (hsettled : SettledAfter before items)
    (hnumbers : (items.reverse ++ before).Pairwise fun later earlier =>
      earlier.number < later.number) :
    Aligned (items.reverse ++ before) := by
  induction items generalizing before with
  | nil => exact h
  | cons item items ih =>
      rw [List.reverse_cons, List.append_assoc, List.singleton_append] at hnumbers ⊢
      have hbefore := hnumbers.sublist
        ((List.sublist_cons_self item before).trans (List.sublist_append_right items.reverse _))
      exact ih (h.cons hsettled.1 hbefore) hsettled.2 hnumbers

/-- Each item has its row. -/
theorem exists_row_mem (before : List Item) {items : List Item} (h : item ∈ items) :
    ∃ older, item.row older ∈ rowsAfter before items := by
  induction items generalizing before with
  | nil => simp at h
  | cons first items ih =>
      rcases List.mem_cons.mp h with rfl | h
      · exact ⟨before, List.mem_cons_self⟩
      · obtain ⟨older, hrow⟩ := ih (first :: before) h
        exact ⟨older, List.mem_cons_of_mem _ hrow⟩

/-- A row stands for its item. -/
theorem eq_row_of_mem_zip {items : List Item} {x : Item} {row : Row}
    (h : (x, row) ∈ items.zip (rowsAfter before items)) :
    ∃ xs, x :: xs <:+ items.reverse ++ before ∧ row = x.row xs := by
  induction items generalizing before with
  | nil => simp at h
  | cons item items ih =>
      rw [rowsAfter, List.zip_cons_cons] at h
      rw [List.reverse_cons, List.append_assoc, List.singleton_append]
      rcases List.mem_cons.mp h with heq | h
      · obtain ⟨rfl, rfl⟩ := Prod.mk.inj heq
        exact ⟨before, List.suffix_append _ _, rfl⟩
      · exact ih h

/-- Items that can follow each other and stand beneath the same one are indented equally. -/
theorem level_eq_of_mem_zip {items : List Item} (hsettled : SettledAfter [] items)
    (hnumbers : items.Pairwise fun earlier later => earlier.number < later.number) :
    ∀ x ∈ items.zip (rowsAfter [] items), ∀ y ∈ items.zip (rowsAfter [] items),
      x.2.parent = y.2.parent → x.1.level = y.1.level := by
  have haligned : Aligned (items.reverse ++ []) := by
    refine Aligned.append_reverse (fun x xs _ _ hx => ?_) hsettled ?_
    · simp at hx
    · rw [List.append_nil]
      exact List.pairwise_reverse.mpr hnumbers
  rintro ⟨x, xrow⟩ hx ⟨y, yrow⟩ hy hparent
  obtain ⟨xs, hxs, rfl⟩ := eq_row_of_mem_zip hx
  obtain ⟨ys, hys, rfl⟩ := eq_row_of_mem_zip hy
  exact haligned x xs y ys hxs hys hparent

end Item
end DeviceRegisters.Outline
