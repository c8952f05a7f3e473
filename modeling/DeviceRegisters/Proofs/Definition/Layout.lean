import DeviceRegisters.Proofs.Definition.Parts

/-!
# DeviceRegisters.Proofs.Definition.Layout

Where entries are.

`Entry.LaidAt library base entry` says that the entry starts at `base` and that
everything in it is where it should be: the entries of a group follow one another
without gaps, those of a union all start where the union does, and both heads
state the addresses that are taken.  A use of a template has the span of its
template, which the library holds.  With the empty library there are no uses, so
that `LaidAt []` speaks of entries that are spelled out to the end.

* `laidAt_of_at?` — the layout holds at every depth;
* `leaf_bounds` — a leaf lies within its entry;
* `exists_shared_of_leaf_eq` — leaves at one address part at an entry that shares
  its address;
* `Group.LaidOut.tiled` — what all of this says about a group that stands by
  itself.
-/

namespace DeviceRegisters.Definition

/-! ## layout -/

/-- A register that is spelled out or uses a register of the library. -/
def Register.Known (library : Library) (r : Register) : Prop :=
  ∀ n, r.template = some n → ∃ t, library.get? n = some (.register t)

/-- A group that is spelled out or uses a group of the library. -/
def GroupHead.Known (library : Library) (head : GroupHead) : Prop :=
  ∀ n, head.template = some n → ∃ g, library.get? n = some (.group g)

/-- A register that is spelled out is known to every library. -/
theorem Register.known_of_template_eq_none {library : Library} {r : Register}
    (h : r.template = none) : r.Known library := by
  intro n hn
  rw [h] at hn
  contradiction

/-- A group that is spelled out is known to every library. -/
theorem GroupHead.known_of_template_eq_none {library : Library} {head : GroupHead}
    (h : head.template = none) : head.Known library := by
  intro n hn
  rw [h] at hn
  contradiction

mutual
/-- The entry starts at the address and is laid out from there. -/
def Entry.LaidAt (library : Library) (base : Nat) : Entry → Prop
  | .register r => r.offset = base ∧ r.Known library
  | .bank b => b.base = base
  | .pair p =>
    (p.read.offset = base ∧ p.read.Known library) ∧
      (p.write.offset = base ∧ p.write.Known library)
  | .overlay o =>
    o.offset = base ∧ ∀ r ∈ o.registers, r.offset ≤ Address.last ∧ r.Known library
  | .group head content =>
    head.base = base ∧
      match head.template with
      | none => head.span = totalSpan content ∧ InSequence library base content
      | some n => content = [] ∧ ∃ g, library.get? n = some (.group g) ∧ head.span = g.head.span
  | .union head content =>
    head.base = base ∧ head.size = greatestSpan content ∧ InParallel library base content

/-- The entries follow one another from the address on. -/
def InSequence (library : Library) (base : Nat) : List Entry → Prop
  | [] => True
  | entry :: entries =>
    entry.LaidAt library base ∧ InSequence library (base + entry.span) entries

/-- The entries all start at the address. -/
def InParallel (library : Library) (base : Nat) : List Entry → Prop
  | [] => True
  | entry :: entries => entry.LaidAt library base ∧ InParallel library base entries
end

variable {library : Library} {base : Nat}

/-- An entry starts at the address where it is laid. -/
theorem Entry.LaidAt.start_eq {entry : Entry} (h : entry.LaidAt library base) :
    entry.start = base := by
  cases entry with
  | register r => exact h.1
  | bank b => exact h
  | pair p => exact h.1.1
  | overlay o => exact h.1
  | group head content => exact h.1
  | union head content => exact h.1

/-! ## more templates -/

/-- Every template of a library is one of a larger one, under its number. -/
def Library.Within (library larger : Library) : Prop :=
  ∀ n t, library.get? n = some t → larger.get? n = some t

variable {larger : Library}

theorem Register.Known.mono (hlarger : library.Within larger) {r : Register}
    (h : r.Known library) : r.Known larger := by
  intro n hn
  obtain ⟨t, ht⟩ := h n hn
  exact ⟨t, hlarger n _ ht⟩

mutual
/-- A layout stays one when there are more templates. -/
theorem Entry.LaidAt.mono (hlarger : library.Within larger) : {base : Nat} → (entry : Entry) →
    entry.LaidAt library base → entry.LaidAt larger base
  | _, .register r, h => ⟨h.1, h.2.mono hlarger⟩
  | _, .bank b, h => h
  | _, .pair p, h => ⟨⟨h.1.1, h.1.2.mono hlarger⟩, h.2.1, h.2.2.mono hlarger⟩
  | _, .overlay o, h => ⟨h.1, fun r hr => ⟨(h.2 r hr).1, (h.2 r hr).2.mono hlarger⟩⟩
  | _, .group head content, h => by
      simp only [Entry.LaidAt] at h ⊢
      refine ⟨h.1, ?_⟩
      cases htemplate : head.template with
      | none =>
          simp only [htemplate] at h ⊢
          exact ⟨h.2.1, InSequence.mono hlarger content h.2.2⟩
      | some n =>
          simp only [htemplate] at h ⊢
          obtain ⟨-, hcontent, g, hg, hspan⟩ := h
          exact ⟨hcontent, g, hlarger n _ hg, hspan⟩
  | _, .union head content, h => ⟨h.1, h.2.1, InParallel.mono hlarger content h.2.2⟩

/-- A layout stays one when there are more templates. -/
theorem InSequence.mono (hlarger : library.Within larger) : {base : Nat} →
    (entries : List Entry) → InSequence library base entries → InSequence larger base entries
  | _, [], _ => trivial
  | _, entry :: entries, h =>
      ⟨Entry.LaidAt.mono hlarger entry h.1, InSequence.mono hlarger entries h.2⟩

/-- A layout stays one when there are more templates. -/
theorem InParallel.mono (hlarger : library.Within larger) : {base : Nat} →
    (entries : List Entry) → InParallel library base entries → InParallel larger base entries
  | _, [], _ => trivial
  | _, entry :: entries, h =>
      ⟨Entry.LaidAt.mono hlarger entry h.1, InParallel.mono hlarger entries h.2⟩
end

/-! ## everything in an entry is known -/

/-- Registers and groups that are spelled out or use templates of the library. -/
structure AllKnown (library : Library) (registers : List Register) (heads : List GroupHead) :
    Prop where
  registers : ∀ r ∈ registers, r.Known library
  heads : ∀ head ∈ heads, head.Known library

theorem AllKnown.append {rs rs' : List Register} {heads heads' : List GroupHead}
    (h : AllKnown library rs heads) (h' : AllKnown library rs' heads') :
    AllKnown library (rs ++ rs') (heads ++ heads') where
  registers r hr := (List.mem_append.mp hr).elim (h.registers r) (h'.registers r)
  heads head hhead := (List.mem_append.mp hhead).elim (h.heads head) (h'.heads head)

mutual
/-- What an entry that is laid out uses is in the library. -/
theorem Entry.LaidAt.known : {base : Nat} → (entry : Entry) → entry.LaidAt library base →
    AllKnown library entry.registers entry.heads
  | _, .register r, h => ⟨by simpa [Entry.registers] using h.2, by simp [Entry.heads]⟩
  | _, .bank b, _ => ⟨by simp [Entry.registers], by simp [Entry.heads]⟩
  | _, .pair p, h => ⟨by simpa [Entry.registers] using ⟨h.1.2, h.2.2⟩, by simp [Entry.heads]⟩
  | _, .overlay o, h => ⟨fun r hr => (h.2 r hr).2, by simp [Entry.heads]⟩
  | _, .group head content, h => by
      simp only [Entry.LaidAt] at h
      cases htemplate : head.template with
      | none =>
          simp only [htemplate] at h
          have hcontent := InSequence.known content h.2.2
          have hhead : head.Known library := GroupHead.known_of_template_eq_none htemplate
          exact ⟨hcontent.registers, List.forall_mem_cons.mpr ⟨hhead, hcontent.heads⟩⟩
      | some number =>
          simp only [htemplate] at h
          obtain ⟨-, rfl, g, hg, -⟩ := h
          have hhead : head.Known library := by
            intro n hn
            rw [htemplate] at hn
            obtain rfl := Option.some.inj hn
            exact ⟨g, hg⟩
          exact ⟨by simp [Entry.registers, registersIn], by simpa [Entry.heads, headsIn] using hhead⟩
  | _, .union head content, h => InParallel.known content h.2.2

/-- What entries that are laid out use is in the library. -/
theorem InSequence.known : {base : Nat} → (entries : List Entry) →
    InSequence library base entries → AllKnown library (registersIn entries) (headsIn entries)
  | _, [], _ => ⟨by simp [registersIn], by simp [headsIn]⟩
  | _, entry :: entries, h => (Entry.LaidAt.known entry h.1).append (InSequence.known entries h.2)

/-- What entries that are laid out use is in the library. -/
theorem InParallel.known : {base : Nat} → (entries : List Entry) →
    InParallel library base entries → AllKnown library (registersIn entries) (headsIn entries)
  | _, [], _ => ⟨by simp [registersIn], by simp [headsIn]⟩
  | _, entry :: entries, h => (Entry.LaidAt.known entry h.1).append (InParallel.known entries h.2)
end

/-- Without a library there are no uses. -/
theorem AllKnown.template_eq_none {rs : List Register} {heads : List GroupHead}
    (h : AllKnown [] rs heads) :
    (∀ r ∈ rs, r.template = none) ∧ ∀ head ∈ heads, head.template = none := by
  refine ⟨fun r hr => ?_, fun head hhead => ?_⟩
  · cases htemplate : r.template with
    | none => rfl
    | some n =>
        obtain ⟨t, ht⟩ := h.registers r hr n htemplate
        simp [Library.get?] at ht
  · cases htemplate : head.template with
    | none => rfl
    | some n =>
        obtain ⟨g, hg⟩ := h.heads head hhead n htemplate
        simp [Library.get?] at hg

/-! ## entries by their index -/

/-- The k-th of entries that follow one another starts after those before it. -/
theorem InSequence.laidAt_of_getElem? {entries : List Entry} {k : Nat} {entry : Entry}
    (h : InSequence library base entries) (hk : entries[k]? = some entry) :
    entry.LaidAt library (base + totalSpan (entries.take k)) ∧
      totalSpan (entries.take k) + entry.span ≤ totalSpan entries := by
  induction entries generalizing base k with
  | nil => simp at hk
  | cons first entries ih =>
      cases k with
      | zero =>
          obtain rfl : first = entry := by simpa using hk
          simpa [totalSpan] using h.1
      | succ k =>
          have hlater := ih h.2 (by simpa using hk)
          simp only [List.take_succ_cons, totalSpan]
          rw [← Nat.add_assoc]
          exact ⟨hlater.1, by omega⟩

/-- Of entries that follow one another, an earlier one ends before a later one
starts. -/
theorem totalSpan_take_le {entries : List Entry} {j k : Nat} {entry : Entry} (hjk : j < k)
    (hj : entries[j]? = some entry) :
    totalSpan (entries.take j) + entry.span ≤ totalSpan (entries.take k) := by
  induction entries generalizing j k with
  | nil => simp at hj
  | cons first entries ih =>
      cases k with
      | zero => contradiction
      | succ k =>
          cases j with
          | zero =>
              obtain rfl : first = entry := by simpa using hj
              simp [totalSpan]
          | succ j =>
              have hlater := ih (Nat.lt_of_succ_lt_succ hjk) (by simpa using hj)
              simp only [List.take_succ_cons, totalSpan]
              omega

/-- Each of entries at one address starts there, and takes no more than the
greatest of them. -/
theorem InParallel.laidAt_of_mem {entries : List Entry} {entry : Entry}
    (h : InParallel library base entries) (hmem : entry ∈ entries) :
    entry.LaidAt library base ∧ entry.span ≤ greatestSpan entries := by
  induction entries with
  | nil => simp at hmem
  | cons first entries ih =>
      simp only [greatestSpan]
      rcases List.mem_cons.mp hmem with rfl | hmem
      · exact ⟨h.1, by omega⟩
      · have hlater := ih h.2 hmem
        exact ⟨hlater.1, by omega⟩

/-! ## positions -/

/-- What an entry consists of is laid out within it. -/
theorem laidAt_of_content {entry child : Entry} {k : Nat} (h : entry.LaidAt library base)
    (hk : entry.content[k]? = some child) :
    child.LaidAt library child.start ∧ base ≤ child.start ∧
      child.start + child.span ≤ base + entry.span := by
  cases entry with
  | register r => simp [Entry.content] at hk
  | bank b => simp [Entry.content] at hk
  | pair p => simp [Entry.content] at hk
  | overlay o => simp [Entry.content] at hk
  | group head content =>
      simp only [Entry.LaidAt] at h
      simp only [Entry.content] at hk
      cases htemplate : head.template with
      | some n =>
          simp only [htemplate] at h
          simp [h.2.1] at hk
      | none =>
          simp only [htemplate] at h
          have hchild := h.2.2.laidAt_of_getElem? hk
          rw [hchild.1.start_eq]
          refine ⟨hchild.1, by omega, ?_⟩
          rw [Entry.span_group, h.2.1]
          omega
  | union head content =>
      simp only [Entry.content] at hk
      have hchild := h.2.2.laidAt_of_mem (List.mem_of_getElem? hk)
      rw [hchild.1.start_eq]
      refine ⟨hchild.1, Nat.le_refl base, ?_⟩
      rw [Entry.span_union, h.2.1]
      omega

/-- The layout holds at every depth. -/
theorem laidAt_of_at? {entry part : Entry} {position : List Nat} (h : entry.LaidAt library base)
    (hpart : entry.at? position = some part) :
    part.LaidAt library part.start ∧ base ≤ part.start ∧
      part.start + part.span ≤ base + entry.span := by
  induction position generalizing entry base with
  | nil =>
      obtain rfl : entry = part := by simpa [Entry.at?] using hpart
      rw [h.start_eq]
      exact ⟨h, Nat.le_refl _, Nat.le_refl _⟩
  | cons k position ih =>
      obtain ⟨child, hk, hrest⟩ := Option.bind_eq_some_iff.mp hpart
      have hchild := laidAt_of_content h hk
      have hdeeper := ih hchild.1 hrest
      exact ⟨hdeeper.1, by omega, by omega⟩

/-! ## leaves -/

/-- A leaf lies within its entry. -/
theorem leaf_bounds {entry : Entry} {position : List Nat} {address : Nat}
    (h : entry.LaidAt library base) (hleaf : entry.leaf? position = some address) :
    base ≤ address ∧ address < base + entry.span := by
  fun_induction Entry.leaf? entry position generalizing base with
  | case1 r =>
      obtain rfl := Option.some.inj hleaf
      rw [h.1]
      exact ⟨Nat.le_refl base, Nat.lt_succ_self base⟩
  | case2 b i hi =>
      obtain rfl := Option.some.inj hleaf
      have hbase : b.base = base := h
      rw [hbase]
      exact ⟨Nat.le_add_right base i, Nat.add_lt_add_left hi base⟩
  | case4 p i =>
      have haddress : address = base := by
        have hmem := List.mem_of_getElem? hleaf
        simpa [h.1.1, h.2.1] using hmem
      rw [haddress]
      exact ⟨Nat.le_refl base, Nat.lt_succ_self base⟩
  | case5 o i hi =>
      obtain rfl := Option.some.inj hleaf
      rw [h.1]
      exact ⟨Nat.le_refl base, Nat.lt_succ_self base⟩
  | case7 head content k position ih | case8 head content k position ih =>
      obtain ⟨child, hk, hchild⟩ := Option.bind_eq_some_iff.mp hleaf
      have hwithin := laidAt_of_content h hk
      have hbounds := ih child hwithin.1 hchild
      omega
  | case3 | case6 | case9 => contradiction

/-- Leaves in different entries of a group are apart. -/
theorem leaf_lt_leaf {head : GroupHead} {content : List Entry} {j k : Nat} {first second : Entry}
    {p q : List Nat} {a b : Nat} (h : (Entry.group head content).LaidAt library base)
    (hjk : j < k) (hj : content[j]? = some first) (hk : content[k]? = some second)
    (hp : first.leaf? p = some a) (hq : second.leaf? q = some b) : a < b := by
  simp only [Entry.LaidAt] at h
  cases htemplate : head.template with
  | some n =>
      simp only [htemplate] at h
      simp [h.2.1] at hj
  | none =>
      simp only [htemplate] at h
      have hfirst := leaf_bounds (h.2.2.laidAt_of_getElem? hj).1 hp
      have hsecond := leaf_bounds (h.2.2.laidAt_of_getElem? hk).1 hq
      have hspan := totalSpan_take_le hjk hj
      omega

/-- Two positions part at an entry: they are the same down to it and go on to
different things in it. -/
def PartAt (entry : Entry) (p q : List Nat) (shared : Entry) : Prop :=
  ∃ above j k below below', j ≠ k ∧ p = above ++ j :: below ∧ q = above ++ k :: below' ∧
    entry.at? above = some shared

theorem PartAt.here {entry : Entry} {j k : Nat} {p q : List Nat} (h : j ≠ k) :
    PartAt entry (j :: p) (k :: q) entry := ⟨[], j, k, p, q, h, rfl, rfl, rfl⟩

theorem PartAt.deeper {entry child shared : Entry} {k : Nat} {p q : List Nat}
    (hk : entry.content[k]? = some child) (h : PartAt child p q shared) :
    PartAt entry (k :: p) (k :: q) shared := by
  obtain ⟨above, i, j, below, below', hne, rfl, rfl, hshared⟩ := h
  refine ⟨k :: above, i, j, below, below', hne, rfl, rfl, ?_⟩
  simp [Entry.at?, hk, hshared]

/-- Different leaves at one address part at an entry that shares its address. -/
theorem exists_shared_of_leaf_eq {entry : Entry} {p q : List Nat} {address : Nat}
    (h : entry.LaidAt library base) (hp : entry.leaf? p = some address)
    (hq : entry.leaf? q = some address) (hne : p ≠ q) :
    ∃ shared, PartAt entry p q shared ∧ shared.SharesAddress := by
  fun_induction Entry.leaf? entry p generalizing base q with
  | case1 r =>
      cases q with
      | nil => contradiction
      | cons k q => simp [Entry.leaf?] at hq
  | case2 b i hi =>
      rcases q with _ | ⟨j, _ | ⟨_, _⟩⟩
      · simp [Entry.leaf?] at hq
      · simp only [Entry.leaf?] at hq
        split at hq
        · have hij : i = j := by
            have := hp.trans hq.symm
            simpa using this
          exact absurd (by rw [hij]) hne
        · contradiction
      · simp [Entry.leaf?] at hq
  | case4 pair i =>
      rcases q with _ | ⟨j, _ | ⟨_, _⟩⟩
      · simp [Entry.leaf?] at hq
      · exact ⟨.pair pair, .here (by simpa using hne), trivial⟩
      · simp [Entry.leaf?] at hq
  | case5 o i hi =>
      rcases q with _ | ⟨j, _ | ⟨_, _⟩⟩
      · simp [Entry.leaf?] at hq
      · exact ⟨.overlay o, .here (by simpa using hne), trivial⟩
      · simp [Entry.leaf?] at hq
  | case7 head content j p ih =>
      cases q with
      | nil => simp [Entry.leaf?] at hq
      | cons k q =>
          obtain ⟨first, hj, hfirst⟩ := Option.bind_eq_some_iff.mp hp
          obtain ⟨second, hk, hsecond⟩ := Option.bind_eq_some_iff.mp hq
          rcases Nat.lt_trichotomy j k with hlt | rfl | hlt
          · exact absurd (leaf_lt_leaf h hlt hj hk hfirst hsecond) (Nat.lt_irrefl _)
          · obtain rfl : first = second := Option.some.inj (hj.symm.trans hk)
            have hchild := laidAt_of_content h hj
            obtain ⟨shared, hpart, hshares⟩ :=
              ih first hchild.1 hfirst hsecond (fun heq => hne (by rw [heq]))
            exact ⟨shared, hpart.deeper hj, hshares⟩
          · exact absurd (leaf_lt_leaf h hlt hk hj hsecond hfirst) (Nat.lt_irrefl _)
  | case8 head content j p ih =>
      cases q with
      | nil => simp [Entry.leaf?] at hq
      | cons k q =>
          by_cases hjk : j = k
          · subst hjk
            obtain ⟨first, hj, hfirst⟩ := Option.bind_eq_some_iff.mp hp
            obtain ⟨second, hk, hsecond⟩ := Option.bind_eq_some_iff.mp hq
            obtain rfl : first = second := Option.some.inj (hj.symm.trans hk)
            have hchild := laidAt_of_content h hj
            obtain ⟨shared, hpart, hshares⟩ :=
              ih first hchild.1 hfirst hsecond (fun heq => hne (by rw [heq]))
            exact ⟨shared, hpart.deeper hj, hshares⟩
          · exact ⟨.union head content, .here hjk, trivial⟩
  | case3 | case6 | case9 => contradiction

/-! ## groups that stand by themselves -/

/-- A group that stands by itself, spelled out from address 0 and laid out. -/
structure Group.LaidOut (library : Library) (g : Group) : Prop where
  template : g.head.template = none
  laid : g.entry.LaidAt library 0
  span_le : g.head.span ≤ Address.last

theorem Group.LaidOut.mono {g : Group} (h : g.LaidOut library)
    (hlarger : library.Within larger) : g.LaidOut larger :=
  ⟨h.template, h.laid.mono hlarger, h.span_le⟩

/-- The entries of a group that is laid out follow one another from address 0. -/
theorem Group.LaidOut.content {g : Group} (h : g.LaidOut library) :
    g.head.base = 0 ∧ g.head.span = totalSpan g.content ∧ InSequence library 0 g.content := by
  have hlaid := h.laid
  simp only [Group.entry, Entry.LaidAt, h.template] at hlaid
  exact hlaid

/-- A group whose entries have addresses as if each was put right behind the one
before it. -/
structure Group.Tiled (g : Group) : Prop where
  /-- In each group every entry starts after those before it, and the group ends
  with its last entry, no later than at the last address. -/
  groups : ∀ position head content, g.entry.at? position = some (.group head content) →
    (∀ k entry, content[k]? = some entry →
      entry.start = head.base + totalSpan (content.take k)) ∧
      head.span = totalSpan content ∧ head.base + head.span ≤ Address.last
  /-- In each union every entry starts with the union, which ends with its
  greatest. -/
  unions : ∀ position head content, g.entry.at? position = some (.union head content) →
    (∀ entry ∈ content, entry.start = head.base) ∧ head.size = greatestSpan content
  /-- The registers of each pair are at one address. -/
  pairs : ∀ position p, g.entry.at? position = some (.pair p) → p.write.offset = p.read.offset
  /-- Different leaves are at one address only if they part at a pair, an overlay
  or a union. -/
  leaves : ∀ p q address, g.entry.leaf? p = some address → g.entry.leaf? q = some address →
    p ≠ q → ∃ shared, PartAt g.entry p q shared ∧ shared.SharesAddress

/-- A group that is laid out without templates is tiled. -/
theorem Group.LaidOut.tiled {g : Group} (h : g.LaidOut []) : g.Tiled where
  groups position head content hpart := by
    obtain ⟨hlaid, -, hend⟩ := laidAt_of_at? h.laid hpart
    have hlast := h.span_le
    simp only [Entry.LaidAt, Entry.start] at hlaid
    cases htemplate : head.template with
    | some n =>
        simp only [htemplate] at hlaid
        obtain ⟨-, -, t, ht, -⟩ := hlaid
        simp [Library.get?] at ht
    | none =>
        simp only [htemplate] at hlaid
        obtain ⟨-, hspan, hcontent⟩ := hlaid
        refine ⟨fun k entry hk => (hcontent.laidAt_of_getElem? hk).1.start_eq, hspan, ?_⟩
        simp only [Entry.start, Entry.span_group, Group.entry] at hend
        omega
  unions position head content hpart := by
    obtain ⟨⟨-, hsize, hcontent⟩, -⟩ := laidAt_of_at? h.laid hpart
    exact ⟨fun entry hentry => (hcontent.laidAt_of_mem hentry).1.start_eq, hsize⟩
  pairs position p hpart := by
    obtain ⟨⟨-, hwrite, -⟩, -⟩ := laidAt_of_at? h.laid hpart
    exact hwrite
  leaves p q address hp hq hne := exists_shared_of_leaf_eq h.laid hp hq hne

end DeviceRegisters.Definition
