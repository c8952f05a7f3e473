import DeviceRegisters.Proofs.Outcome
import DeviceRegisters.Proofs.Packing.Written

/-!
# DeviceRegisters.Proofs.Packing.Reading

What was read can be written (`writable_of_parse`): one lemma for each reader,
each citing the one before it.
-/

namespace DeviceRegisters.Packing

@[simp] theorem refuse_ne_ok {α : Type} {problem : Problem} {line : Nat} {a : α} :
    refuse problem line ≠ .ok a := nofun

/-! ## numbers -/

/-- A token is read as the number that its characters denote. -/
theorem readNumber_eq_ok_iff {token : String} {line : Nat} {value : UInt64} :
    readNumber token line = .ok value ↔ Numeral.parse token.toList = .ok value := by
  rw [readNumber]
  cases Numeral.parse token.toList with
  | ok found => simp
  | error problem => exact iff_of_false nofun nofun

/-- A token is read as a word if its number fits into one. -/
theorem readWord_eq_ok_iff {token : String} {line n : Nat} :
    readWord token line = .ok n ↔
      ∃ value, Numeral.parse token.toList = .ok value ∧ value.toNat < UInt32.size ∧
        n = value.toNat := by
  rw [readWord, bind_eq_ok_iff]
  refine exists_congr fun value => and_congr readNumber_eq_ok_iff ?_
  split
  · next hlt => simp [hlt, eq_comm]
  · next hlt => exact iff_of_false nofun fun h => hlt h.1

/-! ## slices -/

/-- A word that was read fits into 32 bits. -/
theorem lt_size_of_readWord {token : String} {line n : Nat} (h : readWord token line = .ok n) :
    n < UInt32.size := by
  obtain ⟨value, -, hlt, rfl⟩ := readWord_eq_ok_iff.mp h
  exact hlt

/-- A range that was read has at least one bit. -/
theorem width_pos_of_readRange {token : String} {line offset width : Nat}
    (h : readRange token line = .ok (offset, width)) : 0 < width := by
  unfold readRange at h
  simp only at h
  split at h
  · obtain ⟨_, -, h⟩ := bind_eq_ok_iff.mp h
    cases h
    decide
  · obtain ⟨_, -, h⟩ := bind_eq_ok_iff.mp h
    obtain ⟨_, -, h⟩ := bind_eq_ok_iff.mp h
    split at h
    · exact absurd h refuse_ne_ok
    · cases h
      exact Nat.succ_pos _

/-- A slice that was read can be written. -/
theorem writable_of_readSlice {line : Nat} {tokens : List String} {s : Slice}
    (h : readSlice line tokens = .ok s) : s.Writable := by
  unfold readSlice at h
  split at h
  · simp only [bind_eq_ok_iff] at h
    obtain ⟨_, -, register, hregister, ⟨offset, width⟩, hrange, h⟩ := h
    split at h
    · exact absurd h refuse_ne_ok
    · next hinside =>
        obtain ⟨_, -, h⟩ := bind_eq_ok_iff.mp h
        split at h
        · next hfits =>
            obtain rfl := Except.ok.inj h
            exact ⟨lt_size_of_readWord hregister, width_pos_of_readRange hrange,
              Nat.le_of_not_lt hinside, hfits⟩
        · exact absurd h refuse_ne_ok
  · exact absurd h refuse_ne_ok

/-- So can slices that were read in order, and there is one for each row. -/
theorem writable_of_readSlices {rows : List (Nat × List String)} {slices : List Slice}
    (h : (rows.mapM fun (line, tokens) => readSlice line tokens) = .ok slices) :
    slices.length = rows.length ∧ ∀ s ∈ slices, s.Writable := by
  induction rows generalizing slices with
  | nil =>
      obtain rfl := Except.ok.inj h
      simp
  | cons row rows ih =>
      simp only [List.mapM_cons, bind_eq_ok_iff] at h
      obtain ⟨s, hs, rest, hrest, h⟩ := h
      obtain rfl := Except.ok.inj h
      obtain ⟨hlength, hwritable⟩ := ih hrest
      exact ⟨congrArg (· + 1) hlength, List.forall_mem_cons.mpr ⟨writable_of_readSlice hs, hwritable⟩⟩

/-- What was read of a block with rows can be written. -/
theorem writable_of_readMeaning {block : Block} {meaning : Meaning} (hrows : block.rows ≠ [])
    (h : readMeaning block = .ok meaning) : meaning.Writable := by
  unfold readMeaning at h
  split at h
  · simp only [readConstant, bind_eq_ok_iff] at h
    obtain ⟨register, hregister, _, -, h⟩ := h
    obtain rfl := Except.ok.inj h
    exact lt_size_of_readWord hregister
  · obtain ⟨slices, hslices, h⟩ := bind_eq_ok_iff.mp h
    obtain rfl := Except.ok.inj h
    obtain ⟨hlength, hwritable⟩ := writable_of_readSlices hslices
    have hpos : 0 < slices.length := hlength ▸ List.length_pos_iff.mpr hrows
    exact ⟨List.ne_nil_of_length_pos hpos, hwritable⟩

/-! ## names -/

/-- A row whose name, if it has one, can be written. -/
def Row.Named : Row → Prop
  | .first _ name _ => IsToken name.toList
  | .more _ _ => True

/-- A row that was read from a line has a name that can be written, if it has one. -/
theorem named_of_ofText? {line : Nat} {cs : List Char} {row : Row} (h : Row.ofText? line cs = some row) :
    row.Named := by
  unfold Row.ofText? at h
  simp only at h
  split at h
  · contradiction
  · next name rest htokens =>
      obtain ⟨w, hw, rfl⟩ := List.mem_map.mp (htokens ▸ List.mem_cons_self)
      have hmark : '#' ∉ w := by
        intro hc
        have hkept := Text.mem_of_mem_trimEnd (Text.mem_of_mem_words hw hc)
        exact absurd (List.mem_takeWhile_imp hkept) (by decide)
      obtain ⟨hne, hblank⟩ := Text.of_mem_words hw
      have htoken : IsToken (String.ofList w).toList := by
        rw [String.toList_ofList]
        exact ⟨⟨hne, hblank⟩, hmark⟩
      split at h
      · cases h
        trivial
      · cases h
        exact htoken

/-- A block with a name that can be written and at least one row. -/
structure Block.Named (block : Block) : Prop where
  name : IsToken block.name.toList
  rows : block.rows ≠ []

/-- Blocks that are gathered from such rows have such names, and at least one row each. -/
theorem named_of_foldr_attach {rows : List Row} (h : ∀ row ∈ rows, row.Named) :
    ∀ block ∈ (rows.foldr Block.attach ([], [])).2, block.Named := by
  induction rows with
  | nil => exact fun _ hmem => absurd hmem List.not_mem_nil
  | cons row rows ih =>
      have hrow := h row List.mem_cons_self
      have hrows := ih fun other hmem => h other (List.mem_cons_of_mem _ hmem)
      rw [List.foldr_cons]
      cases row with
      | more line tokens => exact hrows
      | first line name tokens =>
          exact List.forall_mem_cons.mpr ⟨⟨hrow, List.cons_ne_nil _ _⟩, hrows⟩

/-- So have all blocks of a text. -/
theorem named_of_gather {text : String} {blocks : List Block} (h : gather text = .ok blocks) :
    ∀ block ∈ blocks, block.Named := by
  have hrows : ∀ row ∈ rowsAfter 0 (Text.Lines.ofText text.toList).ended, row.Named := by
    intro row hrow
    obtain ⟨⟨cs, index⟩, -, hrow⟩ := List.mem_filterMap.mp hrow
    exact named_of_ofText? hrow
  have hfold := named_of_foldr_attach hrows
  unfold rowsAfter at hfold
  unfold gather at h
  simp only at h
  split at h
  · exact absurd h refuse_ne_ok
  · next blocks' heq =>
      rw [heq] at hfold
      split at h
      · obtain rfl := Except.ok.inj h
        exact hfold
      · exact absurd h refuse_ne_ok

/-! ## entries -/

/-- Items that were read from such blocks can be written, and their names are new. -/
theorem writable_of_readBlocks {names : List String} {blocks : List Block} {items : List Item}
    (hblocks : ∀ block ∈ blocks, block.Named) (h : readBlocks names blocks = .ok items) :
    Writable items ∧ ∀ item ∈ items, item.name ∉ names := by
  induction blocks generalizing names items with
  | nil =>
      obtain rfl := Except.ok.inj h
      exact ⟨⟨by simp, by simp⟩, by simp⟩
  | cons block blocks ih =>
      have hblock := hblocks block List.mem_cons_self
      unfold readBlocks at h
      split at h
      · exact absurd h refuse_ne_ok
      · next hname =>
          simp only [bind_eq_ok_iff] at h
          obtain ⟨meaning, hmeaning, rest, hrest, h⟩ := h
          obtain rfl := Except.ok.inj h
          obtain ⟨hwritable, hnew⟩ := ih (fun other hmem => hblocks other (List.mem_cons_of_mem _ hmem)) hrest
          have hitem := writable_of_readMeaning hblock.rows hmeaning
          refine ⟨⟨List.forall_mem_cons.mpr ⟨⟨hblock.name, hitem⟩, hwritable.each⟩, ?_⟩, ?_⟩
          · rw [List.map_cons, List.nodup_cons]
            refine ⟨fun hmem => ?_, hwritable.nodup⟩
            obtain ⟨item, hitem, hsame⟩ := List.mem_map.mp hmem
            exact hnew item hitem (hsame ▸ List.mem_cons_self)
          · refine List.forall_mem_cons.mpr ⟨hname, fun item hitem hseen => ?_⟩
            exact hnew item hitem (List.mem_cons_of_mem _ hseen)

/-- The entries of a field list that was read can be written. -/
theorem writable_of_parse {text : String} {items : List Item} (h : parse text = .ok items) :
    Writable items := by
  obtain ⟨blocks, hblocks, h⟩ := bind_eq_ok_iff.mp h
  exact (writable_of_readBlocks (named_of_gather hblocks) h).1

end DeviceRegisters.Packing
