import DeviceRegisters.Text.Blank
import Mathlib.Data.List.TakeWhile

/-!
# DeviceRegisters.Proofs.Text.Words

Words that were written one after the other are the words of the text
(`words_unwords`), a word between blanks is the text trimmed
(`trim_append_word`), and the pieces of a text are the parts that were joined
(`pieces_eq_iff`).
-/

namespace DeviceRegisters.Text

/-- A word: there is something in it, and none of it is blank. -/
structure IsWord (w : List Char) : Prop where
  ne_nil : w ≠ []
  noBlank : ∀ c ∈ w, isBlank c = false

/-- Words as a text, with a space between any two. -/
def unwords : List (List Char) → List Char
  | [] => []
  | [w] => w
  | w :: v :: ws => w ++ ' ' :: unwords (v :: ws)

variable {w : List Char} {ws : List (List Char)}

theorem words_of_isWord (h : IsWord w) : words w = [w] := by
  rw [words, pieces_of_forall h.noBlank]
  simp [h.ne_nil]

theorem words_cons_blank {c : Char} (hc : isBlank c = true) (cs : List Char) :
    words (c :: cs) = words cs := words_append_blank hc [] cs

theorem words_append_space (h : IsWord w) (cs : List Char) : words (w ++ ' ' :: cs) = w :: words cs := by
  rw [words_append_blank (by decide), words_of_isWord h, List.singleton_append]

theorem words_replicate_append (n : Nat) (cs : List Char) :
    words (List.replicate n ' ' ++ cs) = words cs := by
  induction n with
  | zero => rfl
  | succ n ih => rw [List.replicate_succ, List.cons_append, words_cons_blank (by decide), ih]

/-- The words of a text are those that it was written with. -/
theorem words_unwords (h : ∀ w ∈ ws, IsWord w) : words (unwords ws) = ws := by
  induction ws with
  | nil => rfl
  | cons w ws ih =>
      have hw := h w List.mem_cons_self
      cases ws with
      | nil => exact words_of_isWord hw
      | cons v ws =>
          rw [unwords, words_append_space hw, ih fun u hu => h u (List.mem_cons_of_mem _ hu)]

/-- What is written with words is their characters and spaces. -/
theorem mem_unwords {c : Char} (h : c ∈ unwords ws) : c = ' ' ∨ ∃ w ∈ ws, c ∈ w := by
  induction ws with
  | nil => exact absurd h List.not_mem_nil
  | cons w ws ih =>
      cases ws with
      | nil => exact .inr ⟨w, List.mem_cons_self, h⟩
      | cons v ws =>
          rw [unwords, List.mem_append, List.mem_cons] at h
          rcases h with h | rfl | h
          · exact .inr ⟨w, List.mem_cons_self, h⟩
          · exact .inl rfl
          · rcases ih h with hspace | ⟨u, hu, hc⟩
            · exact .inl hspace
            · exact .inr ⟨u, List.mem_cons_of_mem _ hu, hc⟩

/-- A text that ends in a word has no blanks at its end. -/
theorem trimEnd_append_word (cs : List Char) (h : IsWord w) : trimEnd (cs ++ w) = cs ++ w := by
  have hne : w.reverse ≠ [] := fun hnil => h.ne_nil (List.reverse_eq_nil_iff.mp hnil)
  obtain ⟨last, front, hlast⟩ := List.exists_cons_of_ne_nil hne
  have hblank : isBlank last = false :=
    h.noBlank last (List.mem_reverse.mp (hlast ▸ List.mem_cons_self))
  rw [trimEnd, List.reverse_append, hlast, List.cons_append, List.dropWhile_cons_of_neg (by simp [hblank]),
    ← List.cons_append, ← hlast, ← List.reverse_append, List.reverse_reverse]

theorem trimEnd_append_unwords (cs : List Char) (hne : ws ≠ []) (h : ∀ w ∈ ws, IsWord w) :
    trimEnd (cs ++ unwords ws) = cs ++ unwords ws := by
  induction ws generalizing cs with
  | nil => contradiction
  | cons w ws ih =>
      cases ws with
      | nil => exact trimEnd_append_word cs (h w List.mem_cons_self)
      | cons v ws =>
          have hrest := ih (cs ++ w ++ [' ']) (List.cons_ne_nil v ws)
            fun u hu => h u (List.mem_cons_of_mem _ hu)
          simpa [unwords] using hrest

/-! ## trimming -/

/-- Trimming takes blanks off both ends. -/
theorem exists_trim (cs : List Char) :
    ∃ before after, cs = before ++ trim cs ++ after ∧ (∀ c ∈ before, isBlank c = true) ∧
      ∀ c ∈ after, isBlank c = true := by
  have hend : trimStart cs = trim cs ++ ((trimStart cs).reverse.takeWhile isBlank).reverse := by
    rw [trim, trimEnd, ← List.reverse_append, List.takeWhile_append_dropWhile, List.reverse_reverse]
  refine ⟨cs.takeWhile isBlank, ((trimStart cs).reverse.takeWhile isBlank).reverse, ?_, ?_, ?_⟩
  · rw [List.append_assoc, ← hend, trimStart, List.takeWhile_append_dropWhile]
  · exact fun c hc => List.mem_takeWhile_imp hc
  · exact fun c hc => List.mem_takeWhile_imp (List.mem_reverse.mp hc)

/-- Between blanks a word is left. -/
theorem trim_append_word {before after w : List Char} (hbefore : ∀ c ∈ before, isBlank c = true)
    (hafter : ∀ c ∈ after, isBlank c = true) (hw : IsWord w) : trim (before ++ w ++ after) = w := by
  obtain ⟨first, tail, rfl⟩ := List.exists_cons_of_ne_nil hw.ne_nil
  have hfirst : isBlank first = false := hw.noBlank first List.mem_cons_self
  have hstart : trimStart (before ++ (first :: tail) ++ after) = first :: tail ++ after := by
    rw [trimStart, List.append_assoc, List.dropWhile_append_of_pos hbefore, List.cons_append,
      List.dropWhile_cons_of_neg (by simp [hfirst])]
  have hreverse : ∀ c ∈ after.reverse, isBlank c = true :=
    fun c hc => hafter c (List.mem_reverse.mp hc)
  have hend := trimEnd_append_word [] hw
  rw [trim, hstart, trimEnd, List.reverse_append, List.dropWhile_append_of_pos hreverse]
  exact hend

/-! ## pieces -/

theorem pieces_eq_splitOnP (isCut : Char → Bool) (cs : List Char) :
    pieces isCut cs = cs.splitOnP isCut := by
  induction cs with
  | nil => simp [pieces]
  | cons c cs ih => rw [pieces, List.splitOnP_cons_eq_if_modifyHead, ih]

/-- The pieces of a text are the parts that are joined to give it. -/
theorem pieces_eq_iff {x : Char} {cs : List Char} {parts : List (List Char)} :
    pieces (· = x) cs = parts ↔
      cs = [x].intercalate parts ∧ parts ≠ [] ∧ ∀ part ∈ parts, x ∉ part := by
  have hsplit : pieces (· = x) cs = cs.splitOn x := by
    rw [pieces_eq_splitOnP, List.splitOn_eq_splitOnP]
    rfl
  constructor
  · rintro rfl
    refine ⟨?_, pieces_ne_nil cs, fun part hpart hx => ?_⟩
    · rw [hsplit, List.intercalate_splitOn]
    · exact absurd (of_mem_pieces hpart x hx) (by simp)
  · rintro ⟨rfl, hne, hparts⟩
    rw [hsplit, List.splitOn_intercalate x hparts hne]

/-- Parts are joined by putting the character in front of each but the first. -/
theorem intercalate_cons (x : Char) (part : List Char) (parts : List (List Char)) :
    [x].intercalate (part :: parts) = part ++ parts.flatMap (x :: ·) := by
  induction parts generalizing part with
  | nil => simp [List.intercalate]
  | cons next parts ih =>
      rw [List.intercalate_cons_cons, ih]
      simp

/-! ## characters -/

/-- A digit is not blank. -/
theorem isBlank_of_isDigit {c : Char} (h : c.isDigit = true) : isBlank c = false := by
  have hrange : 48 ≤ c.toNat ∧ c.toNat ≤ 57 := by
    simpa [Char.isDigit, UInt32.le_iff_toNat_le] using h
  simp only [isBlank, Bool.or_eq_false_iff, Bool.and_eq_false_iff, decide_eq_false_iff_not,
    beq_eq_false_iff_ne]
  omega

/-- Pieces are made of the characters of the text. -/
theorem mem_of_mem_pieces {isCut : Char → Bool} {cs p : List Char} {c : Char}
    (hp : p ∈ pieces isCut cs) (hc : c ∈ p) : c ∈ cs := by
  induction cs generalizing p with
  | nil =>
      rw [pieces, List.mem_singleton] at hp
      exact hp ▸ hc
  | cons d ds ih =>
      rw [pieces] at hp
      split at hp
      · rcases List.mem_cons.mp hp with rfl | hp
        · exact absurd hc List.not_mem_nil
        · exact List.mem_cons_of_mem d (ih hp hc)
      · have hne : pieces isCut ds ≠ [] := pieces_ne_nil ds
        obtain ⟨q, qs, hqs⟩ := List.exists_cons_of_ne_nil hne
        rw [hqs] at hp ih
        rcases List.mem_cons.mp hp with rfl | hp
        · rcases List.mem_cons.mp hc with rfl | hc
          · exact List.mem_cons_self
          · exact List.mem_cons_of_mem d (ih List.mem_cons_self hc)
        · exact List.mem_cons_of_mem d (ih (List.mem_cons_of_mem q hp) hc)

theorem mem_of_mem_words {cs : List Char} {c : Char} (hw : w ∈ words cs) (hc : c ∈ w) : c ∈ cs :=
  mem_of_mem_pieces (List.mem_filter.mp hw).1 hc

theorem mem_of_mem_trimEnd {cs : List Char} {c : Char} (hc : c ∈ trimEnd cs) : c ∈ cs := by
  rw [trimEnd, List.mem_reverse] at hc
  exact List.mem_reverse.mp ((List.dropWhile_suffix _).subset hc)

end DeviceRegisters.Text
