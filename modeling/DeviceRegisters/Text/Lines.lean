/-!
# DeviceRegisters.Text.Lines

Text cut into lines at U+000A alone.  A carriage return belongs to the line it
stands in, and a text that does not end with a line feed leaves a last piece
that is no line.

`ofText` and `toText` undo each other: `toText_ofText` for every text, and
`ofText_toText` for lines that hold no line feed, as those of a text never do
(`not_mem_ofText`).
-/

namespace DeviceRegisters.Text

/-- A text in lines: those that a line feed ends, without it, and what is left
after the last line feed. -/
structure Lines where
  ended : List (List Char)
  rest : List Char
  deriving DecidableEq, Repr

namespace Lines

/-- Puts one character in front of a text in lines. -/
def cons (c : Char) (ls : Lines) : Lines :=
  if c = '\n' then { ls with ended := [] :: ls.ended }
  else
    match ls.ended with
    | [] => { ls with rest := c :: ls.rest }
    | l :: more => { ls with ended := (c :: l) :: more }

/-- The lines of a text. -/
def ofText (cs : List Char) : Lines := cs.foldr cons ⟨[], []⟩

/-- The text that the lines make up. -/
def toText (ls : Lines) : List Char := ls.ended.flatMap (· ++ ['\n']) ++ ls.rest

theorem toText_cons (c : Char) (ls : Lines) : (cons c ls).toText = c :: ls.toText := by
  obtain ⟨ended, rest⟩ := ls
  by_cases h : c = '\n'
  · simp [cons, toText, h]
  · cases ended <;> simp [cons, toText, h]

/-- Cutting into lines loses nothing. -/
theorem toText_ofText (cs : List Char) : (ofText cs).toText = cs := by
  induction cs with
  | nil => rfl
  | cons c cs ih =>
      have hfold : ofText (c :: cs) = cons c (ofText cs) := rfl
      rw [hfold, toText_cons, ih]

/-- A text without a line feed has no line. -/
theorem ofText_of_not_mem {cs : List Char} (h : '\n' ∉ cs) : ofText cs = ⟨[], cs⟩ := by
  induction cs with
  | nil => rfl
  | cons c cs ih => grind [ofText, cons]

/-- A text up to its first line feed is its first line. -/
theorem ofText_append_cons {l : List Char} (h : '\n' ∉ l) (cs : List Char) :
    ofText (l ++ '\n' :: cs) = ⟨l :: (ofText cs).ended, (ofText cs).rest⟩ := by
  induction l with
  | nil => rfl
  | cons c l ih => grind [ofText, cons]

/-- Lines that hold no line feed are read back from their text. -/
theorem ofText_toText {ls : Lines} (hended : ∀ l ∈ ls.ended, '\n' ∉ l) (hrest : '\n' ∉ ls.rest) :
    ofText ls.toText = ls := by
  obtain ⟨ended, rest⟩ := ls
  induction ended with
  | nil => simpa [toText] using ofText_of_not_mem hrest
  | cons l ended ih =>
      have hmore := ih (fun k hk => hended k (List.mem_cons_of_mem _ hk)) hrest
      have hcut : toText ⟨l :: ended, rest⟩ = l ++ '\n' :: toText ⟨ended, rest⟩ := by simp [toText]
      rw [hcut, ofText_append_cons (hended l List.mem_cons_self), hmore]

/-- No line of a text holds a line feed, nor does what is left after them. -/
theorem not_mem_ofText (cs : List Char) :
    (∀ l ∈ (ofText cs).ended, '\n' ∉ l) ∧ '\n' ∉ (ofText cs).rest := by
  induction cs with
  | nil => simp [ofText]
  | cons c cs ih =>
      have hfold : ofText (c :: cs) = cons c (ofText cs) := rfl
      rw [hfold, cons]
      grind

end Lines
end DeviceRegisters.Text
