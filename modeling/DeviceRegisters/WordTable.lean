/-!
# DeviceRegisters.WordTable

Words known by their addresses, and sets of addresses in ascending order.
-/

namespace DeviceRegisters

/-! ## words by address -/

/-- Words known by their addresses; of two entries for one address the first
counts. -/
structure WordTable where
  entries : List (Nat × UInt32)
  deriving DecidableEq, Repr

namespace WordTable

/-- The table that knows nothing. -/
def empty : WordTable := ⟨[]⟩

/-- The word known for an address. -/
def get? (t : WordTable) (address : Nat) : Option UInt32 := t.entries.lookup address

/-- The word known for an address, or zero. -/
def getOrZero (t : WordTable) (address : Nat) : UInt32 := (t.get? address).getD 0

/-- The table that knows a word for one address and is the same elsewhere. -/
def insert (t : WordTable) (address : Nat) (word : UInt32) : WordTable :=
  ⟨(address, word) :: t.entries.filter (·.1 ≠ address)⟩

@[simp] theorem get?_empty (a : Nat) : empty.get? a = none := rfl

theorem lookup_filter_ne {a b : Nat} (h : a ≠ b) (l : List (Nat × UInt32)) :
    (l.filter (·.1 ≠ b)).lookup a = l.lookup a := by
  induction l with
  | nil => rfl
  | cons e l ih =>
      obtain ⟨c, w⟩ := e
      by_cases hc : c = b
      · subst hc
        have hb : (a == c) = false := by simpa using h
        simpa [List.lookup_cons, hb] using ih
      · by_cases hac : a = c
        · subst hac; simp [hc]
        · have hb : (a == c) = false := by simpa using hac
          simpa [List.lookup_cons, hc, hb] using ih

@[simp] theorem get?_insert (t : WordTable) (a b : Nat) (w : UInt32) :
    (t.insert a w).get? b = if b = a then some w else t.get? b := by
  by_cases h : b = a
  · subst h; simp [get?, insert]
  · have hb : (b == a) = false := by simpa using h
    simp only [get?, insert, List.lookup_cons, hb, if_neg h]
    exact lookup_filter_ne h t.entries

@[simp] theorem getOrZero_insert (t : WordTable) (a b : Nat) (w : UInt32) :
    (t.insert a w).getOrZero b = if b = a then w else t.getOrZero b := by
  simp only [getOrZero, get?_insert]
  split <;> rfl

theorem getOrZero_eq {t : WordTable} {a : Nat} {w : UInt32} (h : t.get? a = some w) :
    t.getOrZero a = w := by
  rw [getOrZero, h]
  rfl

/-- Of two words for one address the second counts. -/
theorem insert_insert (t : WordTable) (a : Nat) (v w : UInt32) :
    (t.insert a v).insert a w = t.insert a w := by
  simp [insert]

/-- Making a known word known again changes nothing. -/
theorem get?_insert_getOrZero {t : WordTable} {a : Nat} {w : UInt32} (h : t.get? a = some w)
    (b : Nat) : (t.insert a (t.getOrZero a)).get? b = t.get? b := by
  rw [get?_insert, getOrZero_eq h]
  split
  · next hb => rw [hb, h]
  · rfl

end WordTable

/-! ## sets of addresses -/

/-- A set of addresses, listed in ascending order. -/
structure AddressSet where
  addresses : List Nat
  ascending : addresses.Pairwise (· < ·)
  deriving DecidableEq

namespace AddressSet

/-- Puts an address in its place in an ascending list. -/
def insertInto (a : Nat) : List Nat → List Nat
  | [] => [a]
  | b :: bs => if a < b then a :: b :: bs else if a = b then b :: bs else b :: insertInto a bs

theorem mem_insertInto {a x : Nat} {l : List Nat} : x ∈ insertInto a l ↔ x = a ∨ x ∈ l := by
  induction l with
  | nil => simp [insertInto]
  | cons b bs ih => grind [insertInto]

theorem pairwise_insertInto {a : Nat} {l : List Nat} (h : l.Pairwise (· < ·)) :
    (insertInto a l).Pairwise (· < ·) := by
  induction l with
  | nil => simp [insertInto]
  | cons b bs ih =>
      have hb := (List.pairwise_cons.mp h).1
      have hbs := ih (List.pairwise_cons.mp h).2
      simp only [insertInto]
      split
      · next hlt =>
          refine List.pairwise_cons.mpr ⟨fun x hx => ?_, h⟩
          rcases List.mem_cons.mp hx with rfl | hx
          · exact hlt
          · exact Nat.lt_trans hlt (hb x hx)
      · split
        · exact h
        · next hlt hne =>
            refine List.pairwise_cons.mpr ⟨fun x hx => ?_, hbs⟩
            rcases mem_insertInto.mp hx with rfl | hx
            · omega
            · exact hb x hx

/-- The set without addresses. -/
def empty : AddressSet := ⟨[], .nil⟩

instance : Membership Nat AddressSet where
  mem s a := a ∈ s.addresses

instance (a : Nat) (s : AddressSet) : Decidable (a ∈ s) :=
  inferInstanceAs (Decidable (a ∈ s.addresses))

/-- The set with one more address. -/
def insert (s : AddressSet) (a : Nat) : AddressSet :=
  ⟨insertInto a s.addresses, pairwise_insertInto s.ascending⟩

/-- The set without an address. -/
def erase (s : AddressSet) (a : Nat) : AddressSet :=
  ⟨s.addresses.filter (· ≠ a), s.ascending.filter _⟩

/-- The addresses from `first` to `last`, both included, in ascending order. -/
def between (s : AddressSet) (first last : Nat) : List Nat :=
  s.addresses.filter fun a => first ≤ a && a ≤ last

@[simp] theorem not_mem_empty (x : Nat) : x ∉ empty := fun h => nomatch h

theorem eq_empty {s : AddressSet} (h : ∀ x, x ∉ s) : s = empty := by
  obtain ⟨addresses, ascending⟩ := s
  obtain rfl : addresses = [] := List.eq_nil_iff_forall_not_mem.mpr h
  rfl

@[simp] theorem mem_insert {s : AddressSet} {a x : Nat} : x ∈ s.insert a ↔ x = a ∨ x ∈ s :=
  mem_insertInto

@[simp] theorem mem_erase {s : AddressSet} {a x : Nat} : x ∈ s.erase a ↔ x ∈ s ∧ x ≠ a := by
  change x ∈ s.addresses.filter _ ↔ x ∈ s.addresses ∧ x ≠ a
  simp [List.mem_filter]

theorem mem_between {s : AddressSet} {first last x : Nat} :
    x ∈ s.between first last ↔ x ∈ s ∧ first ≤ x ∧ x ≤ last := by
  change x ∈ s.addresses.filter _ ↔ x ∈ s.addresses ∧ first ≤ x ∧ x ≤ last
  simp [List.mem_filter]

theorem nodup_addresses (s : AddressSet) : s.addresses.Nodup :=
  s.ascending.imp Nat.ne_of_lt

theorem nodup_between (s : AddressSet) (first last : Nat) : (s.between first last).Nodup :=
  s.nodup_addresses.filter _

/-- All addresses of a set are listed when none lies outside the range. -/
theorem between_eq_addresses {s : AddressSet} {last : Nat} (h : ∀ a ∈ s, a ≤ last) :
    s.between 0 last = s.addresses := by
  refine List.filter_eq_self.mpr fun a ha => ?_
  simpa using h a ha

end AddressSet
end DeviceRegisters
