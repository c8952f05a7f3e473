/-!
# DeviceRegisters.Text.Pieces

Text cut at certain characters: the pieces between them, empty ones included.

`pieces_append_cons` and `of_mem_pieces` pin the pieces down: every such
character cuts once, and none is left in a piece.
-/

namespace DeviceRegisters.Text

/-- The pieces of a text between the characters where it is cut. -/
def pieces (isCut : Char → Bool) : List Char → List (List Char)
  | [] => [[]]
  | c :: cs =>
    if isCut c then [] :: pieces isCut cs else (pieces isCut cs).modifyHead (c :: ·)

variable {isCut : Char → Bool}

/-- Every text has a piece. -/
theorem pieces_ne_nil (cs : List Char) : pieces isCut cs ≠ [] := by
  induction cs with
  | nil => simp [pieces]
  | cons c cs ih =>
      rw [pieces]
      split
      · simp
      · simpa using ih

/-- The text is cut where it should be. -/
theorem pieces_append_cons {c : Char} (hc : isCut c = true) (x y : List Char) :
    pieces isCut (x ++ c :: y) = pieces isCut x ++ pieces isCut y := by
  induction x with
  | nil => simp [pieces, hc]
  | cons d ds ih =>
      rw [List.cons_append, pieces, pieces, ih]
      split
      · rfl
      · cases h : pieces isCut ds with
        | nil => exact absurd h (pieces_ne_nil ds)
        | cons p ps => rfl

/-- A text is its only piece when it is cut nowhere. -/
theorem pieces_of_forall {cs : List Char} (h : ∀ c ∈ cs, isCut c = false) :
    pieces isCut cs = [cs] := by
  induction cs with
  | nil => rfl
  | cons c cs ih =>
      simp [pieces, h c List.mem_cons_self, ih fun d hd => h d (List.mem_cons_of_mem _ hd)]

/-- No piece holds a character where the text is cut. -/
theorem of_mem_pieces {cs p : List Char} (h : p ∈ pieces isCut cs) : ∀ c ∈ p, isCut c = false := by
  induction cs generalizing p with
  | nil => simp_all [pieces]
  | cons d ds ih =>
      rw [pieces] at h
      split at h
      · rcases List.mem_cons.mp h with rfl | h
        · simp
        · exact ih h
      · next hd =>
          cases hds : pieces isCut ds with
          | nil => exact absurd hds (pieces_ne_nil ds)
          | cons q qs =>
              rw [hds] at h ih
              rcases List.mem_cons.mp h with rfl | h
              · have hq := ih List.mem_cons_self
                simp_all
              · exact ih (List.mem_cons_of_mem _ h)

end DeviceRegisters.Text
