import DeviceRegisters.Definition.Expansion
import DeviceRegisters.Proofs.Definition.Catalog

/-!
# DeviceRegisters.Proofs.Definition.Expansion

What expansion gives.

* `WellFormed.instance?_unique` — the instances of a well-formed library are the
  one solution of the equation by which every use looks its template up in the
  whole library;
* `outcome_expandEntry` — an entry that is laid out and fits at its new address
  is laid out there with nothing left to fill in, unless a use adds a field that
  overlaps one of its register's;
* `outcome_flatten` — the same for catalogs, in which everything fits.
-/

namespace DeviceRegisters.Definition

variable {library : Library} {find find' : Nat → Option Instance} {bound shift base : Nat}

/-! ## what expansion looks up -/

theorem UsesBelow.of_subset {registers registers' : List Register} {heads heads' : List GroupHead}
    (h : UsesBelow library bound registers heads) (hregisters : registers' ⊆ registers)
    (hheads : heads' ⊆ heads) : UsesBelow library bound registers' heads' where
  registers r hr := h.registers r (hregisters hr)
  heads head hhead := h.heads head (hheads hhead)

/-- A register looks up its own template only. -/
theorem expandRegister_congr {r : Register} (hfind : ∀ n, r.template = some n → find n = find' n) :
    expandRegister find shift r = expandRegister find' shift r := by
  cases htemplate : r.template with
  | none => simp only [expandRegister, htemplate]
  | some n => simp only [expandRegister, htemplate, hfind n htemplate]

/-- Registers expand alike where their templates are found alike. -/
theorem expandRegisters_congr {rs : List Register}
    (hfind : ∀ r ∈ rs, ∀ n, r.template = some n → find n = find' n) :
    expandRegisters find shift rs = expandRegisters find' shift rs := by
  induction rs with
  | nil => rfl
  | cons r rs ih =>
      obtain ⟨hr, hrs⟩ := List.forall_mem_cons.mp hfind
      simp only [expandRegisters, expandRegister_congr hr, ih hrs]

mutual
/-- An entry looks up only templates that are used in it. -/
theorem expandEntry_congr (hfind : ∀ n < bound, find n = find' n) : (shift : Nat) →
    (entry : Entry) → UsesBelow library bound entry.registers entry.heads →
    expandEntry find shift entry = expandEntry find' shift entry
  | shift, .register r, h => by
      have hr : ∀ n, r.template = some n → find n = find' n :=
        fun n hn => hfind n (h.registers r (by simp [Entry.registers]) n hn).1
      simp only [expandEntry, expandRegister_congr hr]
  | shift, .bank b, _ => by simp only [expandEntry]
  | shift, .pair p, h => by
      have hread : ∀ n, p.read.template = some n → find n = find' n :=
        fun n hn => hfind n (h.registers p.read (by simp [Entry.registers]) n hn).1
      have hwrite : ∀ n, p.write.template = some n → find n = find' n :=
        fun n hn => hfind n (h.registers p.write (by simp [Entry.registers]) n hn).1
      simp only [expandEntry, expandRegister_congr hread, expandRegister_congr hwrite]
  | shift, .overlay o, h => by
      have hrs : ∀ r ∈ o.registers, ∀ n, r.template = some n → find n = find' n :=
        fun r hr n hn => hfind n (h.registers r hr n hn).1
      simp only [expandEntry, expandRegisters_congr hrs]
  | shift, .group head content, h => by
      cases htemplate : head.template with
      | none =>
          have hcontent := h.of_subset (List.Subset.refl _) (List.subset_cons_self head _)
          simp only [expandEntry, htemplate, expandEntries_congr hfind shift content hcontent]
      | some n =>
          have hn : n < bound := (h.heads head List.mem_cons_self n htemplate).1
          simp only [expandEntry, htemplate, hfind n hn]
  | shift, .union head content, h => by
      simp only [expandEntry, expandEntries_congr hfind shift content h]

/-- Entries look up only templates that are used in them. -/
theorem expandEntries_congr (hfind : ∀ n < bound, find n = find' n) : (shift : Nat) →
    (entries : List Entry) → UsesBelow library bound (registersIn entries) (headsIn entries) →
    expandEntries find shift entries = expandEntries find' shift entries
  | _, [], _ => by simp only [expandEntries]
  | shift, entry :: entries, h => by
      have hentry := h.of_subset (List.subset_append_left _ _) (List.subset_append_left _ _)
      have hentries := h.of_subset (List.subset_append_right _ _) (List.subset_append_right _ _)
      simp only [expandEntries, expandEntry_congr hfind shift entry hentry,
        expandEntries_congr hfind shift entries hentries]
end

/-- A template as its uses see it depends only on the templates that it uses. -/
theorem Template.toInstance_congr {t : Template} (h : UsesBelow library bound t.registers t.heads)
    (hfind : ∀ n < bound, find n = find' n) : t.toInstance find = t.toInstance find' := by
  cases t with
  | register r => rfl
  | group g =>
      have hcontent := h.of_subset (List.Subset.refl _) (List.subset_cons_self g.head _)
      have heq : ∀ base, expandEntries find base g.content = expandEntries find' base g.content :=
        fun base => expandEntries_congr hfind base g.content hcontent
      simp only [Template.toInstance, heq]

namespace Library

/-- Each template is expanded with the whole library, not only the older part. -/
theorem WellFormed.instance?_eq (h : library.WellFormed) (number : Nat) :
    library.instance? number = (library.get? number).map (·.toInstance library.instance?) := by
  induction h with
  | nil => rfl
  | @cons t older hlaid _ hwell ih =>
      have hagree : ∀ n < older.length, older.instance? n = instance? (t :: older) n := by
        intro n hn
        simp only [instance?]
        rw [if_neg (Nat.ne_of_lt hn)]
      by_cases hnumber : number = older.length
      · have huses := hlaid.known.usesBelow (within_cons t older)
        have hinstance : instance? (t :: older) number = some (t.toInstance older.instance?) := by
          simp only [instance?, if_pos hnumber]
        have hget : get? number (t :: older) = some t := by simp only [get?, if_pos hnumber]
        rw [hinstance, hget, Option.map_some, Template.toInstance_congr huses hagree]
      · cases hget : older.get? number with
        | none =>
            simp only [instance?, get?, if_neg hnumber, ih, hget, Option.map_none]
        | some found =>
            have hlt : number < older.length := lt_length_of_get? hget
            have huses := hwell.usesBelow hget
            have hbelow : ∀ n < number, older.instance? n = instance? (t :: older) n :=
              fun n hn => hagree n (Nat.lt_trans hn hlt)
            rw [← hagree number hlt, ih, hget]
            simp only [get?, if_neg hnumber, hget, Option.map_some]
            rw [Template.toInstance_congr huses hbelow]

/-- There is only one way to expand the templates of a well-formed library, as
what a template uses is older. -/
theorem WellFormed.instance?_unique (h : library.WellFormed)
    (hfind : ∀ n, find n = (library.get? n).map (·.toInstance find)) :
    find = library.instance? := by
  funext number
  induction number using Nat.strongRecOn with
  | ind number ih =>
      rw [hfind, h.instance?_eq]
      cases hget : library.get? number with
      | none => rfl
      | some t => rw [Option.map_some, Option.map_some, Template.toInstance_congr (h.usesBelow hget) ih]

end Library

/-! ## fields and registers -/

/-- The error of adding a field that shares a bit with one before it. -/
def OverlapError (fields more : List Field) (e : Error) : Prop :=
  ∃ before field after other, more = before ++ field :: after ∧ other ∈ fields ++ before ∧
    other.overlaps field ∧
      e = .refused (.definition (.overlap field.name other.name)) field.line

/-- Fields can be added unless one of them overlaps another. -/
theorem outcome_addFields (fields more : List Field) :
    Outcome (fun _ => True) (OverlapError fields more) (addFields fields more) := by
  induction more generalizing fields with
  | nil => trivial
  | cons field more ih =>
      simp only [addFields, addField]
      split
      · next other hother =>
        have hoverlaps := List.find?_some hother
        exact ⟨[], field, more, other, rfl, by simpa using List.mem_of_find?_eq_some hother,
          hoverlaps, rfl⟩
      · have hmore := ih (fields ++ [field])
        show Outcome _ _ (addFields (fields ++ [field]) more)
        cases hadd : addFields (fields ++ [field]) more with
        | ok all => trivial
        | error e =>
            obtain ⟨before, later, after, other, rfl, hmem, hoverlaps, rfl⟩ := hmore.of_error hadd
            exact ⟨field :: before, later, after, other, rfl, by simpa using hmem, hoverlaps, rfl⟩

/-- The error of a use of a register that adds a field over one of the
register's own or of those added before. -/
def Register.OverlapError (library : Library) (r : Register) (e : Error) : Prop :=
  ∃ n t, r.template = some n ∧ library.get? n = some (.register t) ∧
    Definition.OverlapError t.fields r.fields e

/-- An overlap stays one when templates are added. -/
theorem Register.OverlapError.mono {larger : Library} (hlarger : library.Within larger)
    {r : Register} {e : Error} (h : r.OverlapError library e) : r.OverlapError larger e := by
  obtain ⟨n, t, hn, ht, hoverlap⟩ := h
  exact ⟨n, t, hn, hlarger n _ ht, hoverlap⟩

/-- `find` gives the registers of the library, and of its groups what is laid out
wherever it fits; an error in a group has the property. -/
structure Serves (library : Library) (Q : Error → Prop) (find : Nat → Option Instance) : Prop where
  register : ∀ n t, library.get? n = some (.register t) → find n = some (.register t)
  group : ∀ n g, library.get? n = some (.group g) →
    ∃ doc contentAt, find n = some (.group doc contentAt) ∧
      ∀ base, base + g.head.span ≤ Address.last →
        Outcome (fun content => InSequence [] base content ∧ totalSpan content = g.head.span) Q
          (contentAt base)

variable {Q : Error → Prop}

/-- An address can be moved within the addresses. -/
theorem outcome_rebase {address : Nat} {name : String} (hfits : shift + address ≤ Address.last) :
    Outcome (fun moved => moved = shift + address) Q (rebase shift address name) := by
  simp only [rebase, if_neg (Nat.not_lt.mpr hfits)]
  exact .ok rfl

/-- A register moves by the shift and is filled in. -/
theorem outcome_expandRegister (shift : Nat) (hfind : Serves library Q find) {r : Register}
    (hknown : r.Known library) (hfits : shift + r.offset ≤ Address.last)
    (hQ : ∀ e, r.OverlapError library e → Q e) :
    Outcome (fun flat => flat.offset = shift + r.offset ∧ flat.template = none) Q
      (expandRegister find shift r) := by
  simp only [expandRegister]
  refine (outcome_rebase hfits).bind ?_
  rintro _ rfl
  split
  · next htemplate => exact .ok ⟨rfl, htemplate⟩
  · next n htemplate =>
    obtain ⟨t, ht⟩ := hknown n htemplate
    rw [hfind.register n t ht]
    refine Outcome.bind (P := fun _ => True) ?_ (fun _ _ => .ok ⟨rfl, rfl⟩)
    cases hadd : addFields t.fields r.fields with
    | ok fields => trivial
    | error e => exact hQ e ⟨n, t, htemplate, ht, (outcome_addFields _ _).of_error hadd⟩

/-- The registers of an overlay keep their indices and are filled in. -/
theorem outcome_expandRegisters (hfind : Serves library Q find) {rs : List Register}
    (hrs : ∀ r ∈ rs, r.offset ≤ Address.last ∧ r.Known library)
    (hQ : ∀ r ∈ rs, ∀ e, r.OverlapError library e → Q e) :
    Outcome (fun flat => ∀ r ∈ flat, r.offset ≤ Address.last ∧ r.Known []) Q
      (expandRegisters find 0 rs) := by
  induction rs with
  | nil => exact .ok (by simp)
  | cons r rs ih =>
      obtain ⟨⟨hoffset, hknown⟩, hlater⟩ := List.forall_mem_cons.mp hrs
      obtain ⟨hQr, hQlater⟩ := List.forall_mem_cons.mp hQ
      have hfits : 0 + r.offset ≤ Address.last := by omega
      refine (outcome_expandRegister 0 hfind hknown hfits hQr).bind fun flat hflat => ?_
      refine (ih hlater hQlater).bind fun flats hflats => .ok ?_
      have hlast : flat.offset ≤ Address.last := by omega
      exact List.forall_mem_cons.mpr
        ⟨⟨hlast, Register.known_of_template_eq_none hflat.2⟩, hflats⟩

/-! ## entries -/

mutual
/-- An entry that is laid out moves by the shift and is filled in, if there are
addresses for all of it. -/
theorem outcome_expandEntry (hfind : Serves library Q find) : {base : Nat} → (entry : Entry) →
    entry.LaidAt library base → shift + base + entry.span ≤ Address.last →
    (∀ r ∈ entry.registers, ∀ e, r.OverlapError library e → Q e) →
    Outcome (fun flat => flat.LaidAt [] (shift + base) ∧ flat.span = entry.span) Q
      (expandEntry find shift entry)
  | base, .register r, h, hfits, hQ => by
      obtain ⟨rfl, hknown⟩ := h
      simp only [expandEntry]
      have hr := outcome_expandRegister shift hfind hknown (by omega)
        (hQ r (by simp [Entry.registers]))
      refine hr.bind fun flat hflat => .ok ?_
      exact ⟨⟨hflat.1, Register.known_of_template_eq_none hflat.2⟩, rfl⟩
  | base, .bank b, h, hfits, _ => by
      have hbase : b.base = base := h
      simp only [expandEntry]
      refine (outcome_rebase (by omega)).bind fun moved hmoved => .ok ?_
      rw [hbase] at hmoved
      exact ⟨hmoved, rfl⟩
  | base, .pair p, h, hfits, hQ => by
      obtain ⟨⟨hread, hknownRead⟩, hwrite, hknownWrite⟩ := h
      simp only [expandEntry]
      have hfirst := outcome_expandRegister shift hfind hknownRead (by omega)
        (hQ p.read (by simp [Entry.registers]))
      have hsecond := outcome_expandRegister shift hfind hknownWrite (by omega)
        (hQ p.write (by simp [Entry.registers]))
      refine hfirst.bind fun read hr => hsecond.bind fun write hw => .ok ?_
      rw [hread] at hr
      rw [hwrite] at hw
      exact ⟨⟨⟨hr.1, Register.known_of_template_eq_none hr.2⟩,
        hw.1, Register.known_of_template_eq_none hw.2⟩, rfl⟩
  | base, .overlay o, h, hfits, hQ => by
      obtain ⟨hoffset, hrs⟩ := h
      simp only [expandEntry]
      refine (outcome_rebase (by omega)).bind fun moved hmoved => ?_
      refine (outcome_expandRegisters hfind hrs hQ).bind fun flat hflat => .ok ?_
      rw [hoffset] at hmoved
      exact ⟨⟨hmoved, hflat⟩, rfl⟩
  | base, .group head content, h, hfits, hQ => by
      simp only [Entry.LaidAt] at h
      obtain ⟨rfl, hcontent⟩ := h
      rw [Entry.span_group] at hfits
      simp only [expandEntry]
      refine (outcome_rebase (by omega)).bind ?_
      rintro _ rfl
      cases htemplate : head.template with
      | none =>
          simp only [htemplate] at hcontent ⊢
          obtain ⟨hspan, hcontent⟩ := hcontent
          rw [hspan] at hfits
          refine (outcome_sequence hfind content hcontent hfits hQ).bind fun flat hflat => .ok ?_
          exact ⟨⟨rfl, hspan.trans hflat.2.symm, hflat.1⟩, rfl⟩
      | some n =>
          simp only [htemplate] at hcontent ⊢
          obtain ⟨-, g, hg, hspan⟩ := hcontent
          obtain ⟨doc, contentAt, hfound, hcontentAt⟩ := hfind.group n g hg
          simp only [hfound]
          rw [hspan] at hfits
          refine (hcontentAt _ hfits).bind fun flat hflat => .ok ?_
          exact ⟨⟨rfl, hspan.trans hflat.2.symm, hflat.1⟩, rfl⟩
  | base, .union head content, h, hfits, hQ => by
      obtain ⟨rfl, hsize, hcontent⟩ := h
      rw [Entry.span_union, hsize] at hfits
      simp only [expandEntry]
      refine (outcome_rebase (by omega)).bind ?_
      rintro _ rfl
      refine (outcome_parallel hfind content hcontent hfits hQ).bind fun flat hflat => .ok ?_
      exact ⟨⟨rfl, hsize.trans hflat.2.symm, hflat.1⟩, rfl⟩

/-- Entries that follow one another do so after they moved. -/
theorem outcome_sequence (hfind : Serves library Q find) : {base : Nat} →
    (entries : List Entry) → InSequence library base entries →
    shift + base + totalSpan entries ≤ Address.last →
    (∀ r ∈ registersIn entries, ∀ e, r.OverlapError library e → Q e) →
    Outcome (fun flat => InSequence [] (shift + base) flat ∧ totalSpan flat = totalSpan entries) Q
      (expandEntries find shift entries)
  | _, [], _, _, _ => by
      simp only [expandEntries]
      exact .ok ⟨trivial, rfl⟩
  | base, entry :: entries, h, hfits, hQ => by
      simp only [totalSpan] at hfits
      simp only [expandEntries]
      have hfirst := outcome_expandEntry hfind entry h.1 (by omega)
        (fun r hr => hQ r (List.mem_append_left _ hr))
      have hlater := outcome_sequence hfind entries h.2 (by omega)
        (fun r hr => hQ r (List.mem_append_right _ hr))
      refine hfirst.bind fun flat hflat => hlater.bind fun flats hflats => .ok ?_
      simp only [InSequence, totalSpan]
      rw [hflat.2, Nat.add_assoc]
      exact ⟨⟨hflat.1, hflats.1⟩, by rw [hflats.2]⟩

/-- Entries that start at one address do so after they moved. -/
theorem outcome_parallel (hfind : Serves library Q find) : {base : Nat} →
    (entries : List Entry) → InParallel library base entries →
    shift + base + greatestSpan entries ≤ Address.last →
    (∀ r ∈ registersIn entries, ∀ e, r.OverlapError library e → Q e) →
    Outcome
      (fun flat => InParallel [] (shift + base) flat ∧ greatestSpan flat = greatestSpan entries) Q
      (expandEntries find shift entries)
  | _, [], _, _, _ => by
      simp only [expandEntries]
      exact .ok ⟨trivial, rfl⟩
  | base, entry :: entries, h, hfits, hQ => by
      simp only [greatestSpan] at hfits
      simp only [expandEntries]
      have hfirst := outcome_expandEntry hfind entry h.1 (by omega)
        (fun r hr => hQ r (List.mem_append_left _ hr))
      have hlater := outcome_parallel hfind entries h.2 (by omega)
        (fun r hr => hQ r (List.mem_append_right _ hr))
      refine hfirst.bind fun flat hflat => hlater.bind fun flats hflats => .ok ?_
      simp only [InParallel, greatestSpan]
      exact ⟨⟨hflat.1, hflats.1⟩, by rw [hflat.2, hflats.2]⟩
end

/-! ## libraries -/

/-- The instances of a well-formed library are laid out wherever they fit. -/
theorem Library.WellFormed.serves (h : library.WellFormed)
    (hQ : ∀ t ∈ library, ∀ r ∈ t.registers, ∀ e, r.OverlapError library e → Q e) :
    Serves library Q library.instance? := by
  induction h with
  | nil => exact ⟨by simp [Library.get?], by simp [Library.get?]⟩
  | @cons first older hlaid _ _ ih =>
      have hwithin := Library.within_cons first older
      have holder : Serves older Q older.instance? :=
        ih fun t ht r hr e he => hQ t (List.mem_cons_of_mem _ ht) r hr e (he.mono hwithin)
      refine ⟨fun n r hget => ?_, fun n g hget => ?_⟩
      · simp only [Library.get?] at hget
        simp only [Library.instance?]
        split at hget
        · next hn =>
          obtain rfl := Option.some.inj hget
          rw [if_pos hn]
          rfl
        · next hn =>
          rw [if_neg hn]
          exact holder.register n r hget
      · simp only [Library.get?] at hget
        simp only [Library.instance?]
        split at hget
        · next hn =>
          obtain rfl := Option.some.inj hget
          refine ⟨g.head.doc, fun base => expandEntries older.instance? base g.content, ?_, ?_⟩
          · rw [if_pos hn]
            rfl
          · intro base hfits
            obtain ⟨-, hspan, hcontent⟩ := Group.LaidOut.content hlaid
            rw [hspan] at hfits ⊢
            refine outcome_sequence holder g.content hcontent hfits ?_
            intro r hr e he
            exact hQ _ List.mem_cons_self r hr e (he.mono hwithin)
        · next hn =>
          rw [if_neg hn]
          exact holder.group n g hget

/-! ## groups and catalogs -/

/-- A group that stands by itself is laid out after expansion as well. -/
theorem outcome_expand {g : Group} (hfind : Serves library Q library.instance?)
    (hg : g.LaidOut library) (hQ : ∀ r ∈ g.entry.registers, ∀ e, r.OverlapError library e → Q e) :
    Outcome (fun flat => flat.LaidOut []) Q (g.expand library 0) := by
  obtain ⟨hbase, hspan, hcontent⟩ := hg.content
  have hlast := hg.span_le
  simp only [Group.expand, Group.entry, expandEntry, hg.template, hbase]
  have hentries : Outcome (fun flat => InSequence [] 0 flat ∧ totalSpan flat = totalSpan g.content)
      Q (expandEntries library.instance? 0 g.content) :=
    outcome_sequence hfind g.content hcontent (by omega) hQ
  refine Outcome.bind
    (P := fun flat => ∃ head content, flat = .group head content ∧ Group.LaidOut [] ⟨head, content⟩)
    ?_ ?_
  · refine (outcome_rebase (by omega)).bind ?_
    rintro _ rfl
    refine hentries.bind fun flat hflat => .ok ⟨_, flat, rfl, rfl, ?_, hlast⟩
    exact ⟨rfl, hspan.trans hflat.2.symm, hflat.1⟩
  · rintro _ ⟨head, content, rfl, hlaid⟩
    exact .ok hlaid

/-- Groups that are laid out expand to groups that stand by themselves, or one of their registers
adds a field over another. -/
theorem outcome_expandGroups {groups : List Group} (hfind : Serves library Q library.instance?)
    (hgroups : ∀ g ∈ groups, g.LaidOut library)
    (hQ : ∀ g ∈ groups, ∀ r ∈ g.entry.registers, ∀ e, r.OverlapError library e → Q e) :
    Outcome (fun flats => ∀ g ∈ flats, g.LaidOut []) Q (expandGroups library groups) := by
  induction groups with
  | nil => exact .ok (by simp)
  | cons group groups ih =>
      obtain ⟨hgroup, hlater⟩ := List.forall_mem_cons.mp hgroups
      obtain ⟨hQgroup, hQlater⟩ := List.forall_mem_cons.mp hQ
      refine (outcome_expand hfind hgroup hQgroup).bind fun flat hflat => ?_
      refine (ih hlater hQlater).bind fun flats hflats => .ok ?_
      exact List.forall_mem_cons.mpr ⟨hflat, hflats⟩

/-- A register is described in a catalog: in a group or in a template. -/
def Catalog.Describes (c : Catalog) (r : Register) : Prop :=
  (∃ g ∈ c.groups, r ∈ g.entry.registers) ∨ ∃ t ∈ c.library, r ∈ t.registers

/-- A well-formed catalog can be expanded, unless a use of a register adds a field
that overlaps one before it. -/
theorem outcome_flatten {c : Catalog} (h : c.WellFormed) :
    Outcome (fun flat => ∀ g ∈ flat.groups, g.LaidOut [])
      (fun e => ∃ r, c.Describes r ∧ r.OverlapError c.library e) c.flatten := by
  have hfind := h.library.serves (Q := fun e => ∃ r, c.Describes r ∧ r.OverlapError c.library e)
    fun t ht r hr e he => ⟨r, .inr ⟨t, ht, hr⟩, he⟩
  have hgroups := outcome_expandGroups hfind h.groups
    fun g hg r hr e he => ⟨r, .inl ⟨g, hg, hr⟩, he⟩
  exact hgroups.bind fun flats hflats => .ok hflats

/-- A catalog whose references lead somewhere, and in which expansion ends. -/
structure Catalog.Sound (c : Catalog) : Prop where
  /-- A name stands for the number of the template with the name. -/
  names : ∀ name number, c.library.numberOf? name = some number ↔
    ∃ t, c.library.get? number = some t ∧ t.name = name
  /-- What a template uses is older than the template and of the right kind. -/
  templates : ∀ number t, c.library.get? number = some t →
    UsesBelow c.library number t.registers t.heads
  /-- What a group uses is in the library and of the right kind. -/
  groups : ∀ g ∈ c.groups, UsesBelow c.library c.library.length g.entry.registers g.entry.heads
  /-- Following references comes to an end: one thing only, the instances of the
  library, solves the equation by which every use looks its template up. -/
  instances : ∀ find : Nat → Option Instance,
    (∀ number, find number = (c.library.get? number).map (·.toInstance find)) ↔
      find = c.library.instance?
  /-- Expansion leaves no use anywhere. -/
  complete : ∀ flat, c.flatten = .ok flat → ∀ g ∈ flat.groups,
    (∀ r ∈ g.entry.registers, r.template = none) ∧ ∀ head ∈ g.entry.heads, head.template = none
  /-- It fails only if a use of a register adds a field over one before it. -/
  failure : ∀ e, c.flatten = .error e → ∃ r, c.Describes r ∧ r.OverlapError c.library e

/-- A well-formed catalog is sound. -/
theorem Catalog.WellFormed.sound {c : Catalog} (h : c.WellFormed) : c.Sound where
  names _ _ := h.library.numberOf?_eq_some_iff
  templates _ _ hget := h.library.usesBelow hget
  groups g hg := (Entry.LaidAt.known g.entry (h.groups g hg).laid).usesBelow fun _ _ hget => hget
  instances find := by
    constructor
    · exact h.library.instance?_unique
    · rintro rfl
      exact h.library.instance?_eq
  complete flat hflat g hg := by
    have hlaid := ((outcome_flatten h).of_ok hflat g hg).laid
    exact (Entry.LaidAt.known g.entry hlaid).template_eq_none
  failure e he := (outcome_flatten h).of_error he

end DeviceRegisters.Definition
