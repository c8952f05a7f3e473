import Mathlib
import DeviceRegisters.Proofs.Definition.Expansion
import DeviceRegisters.Proofs.Definition.FieldLines
import DeviceRegisters.Proofs.Definition.Parts
import DeviceRegisters.Proofs.Session.Names

/-!
# DeviceRegisters.Proofs.Session.Fields

The fields of registers, from the lines beneath a register to the expanded description.

Lines are read one field for each line of one (`readFields_eq_ok_iff`).  Expansion puts the fields
of a use behind those of the template (`completes_flatten`).  In either list all fields are inside
the register and no two have a bit in common, which is checked against part of the list in each of
the two places (`separate_fields`).
-/

namespace DeviceRegisters.Definition

/-! ## registers with all their fields -/

/-- The fields of a register that is described: those of its template, then its own. -/
def Register.allFields (library : Library) (r : Register) : List Field :=
  match r.template.bind library.get? with
  | some (.register template) => template.fields ++ r.fields
  | _ => r.fields

/-- The register is one that the catalog describes, with all its fields, and may have moved. -/
def Catalog.Completes (c : Catalog) (flat : Register) : Prop :=
  ∃ r offset doc, c.Describes r ∧
    flat = ⟨r.name, offset, r.access, r.allFields c.library, none, doc, r.line⟩

theorem addFields_append (fields more : List Field) :
    Outcome (fun all => all = fields ++ more) (fun _ => True) (addFields fields more) := by
  induction more generalizing fields with
  | nil => exact .ok (List.append_nil _).symm
  | cons f more ih =>
      cases hadd : addField fields f with
      | error e =>
          simp only [addFields, hadd]
          trivial
      | ok next =>
          obtain ⟨rfl, -⟩ := addField_eq_ok_iff.mp hadd
          simp only [addFields, hadd]
          rw [List.append_cons]
          exact ih _

variable {c : Catalog} {find : Nat → Option Instance}

/-! ## expansion -/

/-- The registers that are found are templates of the catalog, and those in the groups that are
found are registers of the catalog with all their fields. -/
structure DrawnFrom (c : Catalog) (find : Nat → Option Instance) : Prop where
  register : ∀ n t, find n = some (.register t) → c.library.get? n = some (.register t)
  group : ∀ n doc contentAt, find n = some (.group doc contentAt) → ∀ base,
    Outcome (fun content => ∀ r ∈ registersIn content, c.Completes r) (fun _ => True)
      (contentAt base)

theorem completes_expandRegister (hfind : DrawnFrom c find) (shift : Nat) {r : Register}
    (hr : c.Describes r) :
    Outcome c.Completes (fun _ => True) (expandRegister find shift r) := by
  refine .bind_any fun offset => ?_
  split
  · next htemplate =>
    exact .ok ⟨r, offset, r.doc, hr, by simp [Register.allFields, htemplate]⟩
  · next n htemplate =>
    split
    · next template hfound =>
      refine (addFields_append template.fields r.fields).bind fun fields hfields => ?_
      have hget := hfind.register n template hfound
      exact .ok ⟨r, offset, preferred r.doc template.doc, hr,
        by simp [Register.allFields, htemplate, hget, hfields]⟩
    · trivial

theorem completes_expandRegisters (hfind : DrawnFrom c find) (shift : Nat) {rs : List Register}
    (hrs : ∀ r ∈ rs, c.Describes r) :
    Outcome (fun flat => ∀ r ∈ flat, c.Completes r) (fun _ => True)
      (expandRegisters find shift rs) := by
  induction rs with
  | nil => exact .ok (by simp)
  | cons r rs ih =>
      obtain ⟨hr, hlater⟩ := List.forall_mem_cons.mp hrs
      refine (completes_expandRegister hfind shift hr).bind fun _ hfirst => ?_
      exact (ih hlater).bind fun _ hrest => .ok (List.forall_mem_cons.mpr ⟨hfirst, hrest⟩)

mutual
/-- The registers of an expanded entry are registers that are described, with all their fields. -/
theorem completes_expandEntry (hfind : DrawnFrom c find) : (shift : Nat) → (entry : Entry) →
    (∀ r ∈ entry.registers, c.Describes r) →
    Outcome (fun flat => ∀ r ∈ flat.registers, c.Completes r) (fun _ => True)
      (expandEntry find shift entry)
  | shift, .register r, h => by
      simp only [expandEntry]
      have hr : c.Describes r := h r (List.mem_singleton_self r)
      refine (completes_expandRegister hfind shift hr).bind fun _ hflat => .ok ?_
      exact List.forall_mem_singleton.mpr hflat
  | shift, .bank b, _ => by
      simp only [expandEntry]
      exact .bind_any fun _ => .ok (List.forall_mem_nil _)
  | shift, .pair p, h => by
      simp only [expandEntry]
      have hread : c.Describes p.read := h p.read (by simp [Entry.registers])
      have hwrite : c.Describes p.write := h p.write (by simp [Entry.registers])
      refine (completes_expandRegister hfind shift hread).bind fun _ hfirst => ?_
      refine (completes_expandRegister hfind shift hwrite).bind fun _ hsecond => .ok ?_
      exact List.forall_mem_cons.mpr ⟨hfirst, List.forall_mem_singleton.mpr hsecond⟩
  | shift, .overlay o, h => by
      simp only [expandEntry]
      refine .bind_any fun _ => ?_
      exact (completes_expandRegisters hfind 0 h).bind fun _ hflat => .ok hflat
  | shift, .group head content, h => by
      simp only [expandEntry]
      refine .bind_any fun base => ?_
      split
      · exact (completes_expandEntries hfind shift content h).bind fun _ hflat => .ok hflat
      · split
        · next doc contentAt hfound =>
          exact (hfind.group _ _ _ hfound base).bind fun _ hflat => .ok hflat
        · trivial
  | shift, .union head content, h => by
      simp only [expandEntry]
      refine .bind_any fun _ => ?_
      exact (completes_expandEntries hfind shift content h).bind fun _ hflat => .ok hflat

theorem completes_expandEntries (hfind : DrawnFrom c find) : (shift : Nat) →
    (entries : List Entry) → (∀ r ∈ registersIn entries, c.Describes r) →
    Outcome (fun flat => ∀ r ∈ registersIn flat, c.Completes r) (fun _ => True)
      (expandEntries find shift entries)
  | _, [], _ => by
      simp only [expandEntries]
      exact .ok (List.forall_mem_nil _)
  | shift, entry :: entries, h => by
      obtain ⟨hentry, hentries⟩ := List.forall_mem_append.mp h
      simp only [expandEntries]
      refine (completes_expandEntry hfind shift entry hentry).bind fun _ hflat => ?_
      refine (completes_expandEntries hfind shift entries hentries).bind fun _ hflats => .ok ?_
      exact List.forall_mem_append.mpr ⟨hflat, hflats⟩
end

/-- The instances of a part of the library are drawn from the catalog. -/
theorem drawnFrom_instance? {older : Library} (hwithin : older.Within c.library)
    (hsubset : ∀ t ∈ older, t ∈ c.library) : DrawnFrom c (Library.instance? older) := by
  induction older with
  | nil => exact ⟨nofun, nofun⟩
  | cons t older ih =>
      have hget : c.library.get? older.length = some t :=
        hwithin older.length t (by simp [Library.get?])
      have holder : DrawnFrom c (Library.instance? older) :=
        ih (fun n t ht => hwithin n t (Library.within_cons _ older n t ht))
          fun t ht => hsubset t (List.mem_cons_of_mem _ ht)
      refine ⟨fun n r hfound => ?_, fun n doc contentAt hfound base => ?_⟩
      · simp only [Library.instance?] at hfound
        split at hfound
        · next hn =>
          subst hn
          cases t with
          | group g => cases hfound
          | register template =>
              cases hfound
              exact hget
        · exact holder.register n r hfound
      · simp only [Library.instance?] at hfound
        split at hfound
        · cases t with
          | register template => cases hfound
          | group g =>
              cases hfound
              refine completes_expandEntries holder base g.content fun r hr => ?_
              exact .inr ⟨.group g, hsubset _ List.mem_cons_self, hr⟩
        · exact holder.group n doc contentAt hfound base

/-- Groups expand to registers that complete those that are described. -/
theorem completes_expandGroups {groups : List Group} (hsubset : groups ⊆ c.groups) :
    Outcome (fun flat => ∀ g ∈ flat, ∀ r ∈ registersIn g.content, c.Completes r) (fun _ => True)
      (expandGroups c.library groups) := by
  induction groups with
  | nil => exact .ok (by simp)
  | cons g groups ih =>
      have hfind : DrawnFrom c c.library.instance? :=
        drawnFrom_instance? (fun _ _ => id) (fun _ => id)
      have hg : ∀ r ∈ g.entry.registers, c.Describes r :=
        fun r hr => .inl ⟨g, hsubset List.mem_cons_self, hr⟩
      have hexpand : Outcome (fun flat => ∀ r ∈ registersIn flat.content, c.Completes r)
          (fun _ => True) (g.expand c.library 0) := by
        refine (completes_expandEntry hfind 0 g.entry hg).bind fun entry hentry => ?_
        split
        · exact .ok hentry
        · trivial
      refine hexpand.bind fun _ hfirst => ?_
      refine (ih fun g hg => hsubset (List.mem_cons_of_mem _ hg)).bind fun _ hrest => .ok ?_
      exact List.forall_mem_cons.mpr ⟨hfirst, hrest⟩

/-- An expanded description has the registers that are described, with all their fields. -/
theorem completes_flatten (c : Catalog) :
    Outcome (fun flat => ∀ g ∈ flat.groups, ∀ r ∈ registersIn g.content, c.Completes r)
      (fun _ => True) c.flatten :=
  (completes_expandGroups (List.Subset.refl _)).bind fun _ hgroups => .ok hgroups

/-! ## fields that fit -/

mutual
theorem Entry.Fits.declared : (entry : Entry) → entry.Fits →
    ∀ layout ∈ entry.declared, FieldsFit layout.2
  | .register _, h => List.forall_mem_singleton.mpr h
  | .bank _, h => List.forall_mem_singleton.mpr h
  | .pair _, h => List.forall_mem_cons.mpr ⟨h.1, List.forall_mem_singleton.mpr h.2⟩
  | .overlay _, h => List.forall_mem_map.mpr h
  | .group _ content, h => EntriesFit.declaredIn content h
  | .union _ content, h => EntriesFit.declaredIn content h

/-- All field lists that are declared fit. -/
theorem EntriesFit.declaredIn : (entries : List Entry) → EntriesFit entries →
    ∀ layout ∈ declaredIn entries, FieldsFit layout.2
  | [], _ => List.forall_mem_nil _
  | _ :: entries, h =>
      List.forall_mem_append.mpr ⟨h.1.declared, EntriesFit.declaredIn entries h.2⟩
end

/-- All fields have bits and are inside a register, and no bit is one of two fields. -/
structure Separate (fields : List Field) : Prop where
  inside : ∀ f ∈ fields, 1 ≤ f.width ∧ f.offset + f.width ≤ 32
  disjoint : fields.Pairwise fun f g => ¬ ∃ bit, f.Has bit ∧ g.Has bit

/-- Fields that fit are separate bits of their register. -/
theorem FieldsFit.separate {fields : List Field} (h : FieldsFit fields) : Separate fields where
  inside f hf := ⟨(h.inside f hf).width_pos, (h.inside f hf).stop_le⟩
  disjoint := h.disjoint

end DeviceRegisters.Definition

/-! ## loaded descriptions -/

namespace DeviceRegisters.Session

open Definition
open Outline (Node)

/-- Whatever is loaded, the fields of the catalog fit. -/
theorem fieldsFit_loadEach (warn : Bool) (sources : List Source) :
    ((start warn).loadEach sources).2.catalog.FieldsFit :=
  catalog_loadEach sources (fun _ _ nodes _ _ _ h hadd => (h.addSource nodes).of_ok hadd)
    Catalog.fieldsFit_empty

/-- Lines that are read give a field for each line of one, in their order, where the line says or
where the line before it ended.  After any loads, each register of the expanded description is one
that was described, with the fields of its template in front of its own.  In all these lists, those
of banks included, the fields are inside the register and have no bit in common. -/
theorem separate_fields (warn : Bool) (sources : List Source) :
    (∀ nodes fields, readFields nodes = .ok fields →
      List.Forall₂ (fun node f => ∃ start, FieldLine start node f) (nodes.filter isFieldLine)
        fields ∧
      Placed 0 nodes fields ∧ Separate fields) ∧
    ∀ flat, ((start warn).loadEach sources).2.flatten = .ok flat → ∀ g ∈ flat.groups,
      (∀ layout ∈ declaredIn g.content, Separate layout.2) ∧
      ∀ r ∈ registersIn g.content, ((start warn).loadEach sources).2.catalog.Completes r := by
  refine ⟨fun nodes fields h => ?_, fun flat h g hg => ⟨fun layout hlayout => ?_, ?_⟩⟩
  · obtain ⟨hplaced, hfit⟩ := readFields_eq_ok_iff.mp h
    exact ⟨hplaced.forall₂, hplaced, hfit.separate⟩
  · have hfit := (fit_flatten (fieldsFit_loadEach warn sources)).of_ok h g hg
    exact (EntriesFit.declaredIn g.content hfit layout hlayout).separate
  · exact (completes_flatten _).of_ok h g hg

/-- Lines of two fields with bits between them. -/
def spacedLines : List Node :=
  [⟨1, ".EN", [], []⟩, ⟨2, "- 2", [], []⟩, ⟨3, ".SEL 3", [], []⟩]

/-- A template with the fields of `spacedLines`, and a use that adds one. -/
def extended : List Source :=
  [.text ":CFG RW\n    .EN\n    - 2\n    .SEL 3\n!TOP\n    :CFG LOCAL\n        .EXTRA 4 @8\n"]

/-- The fields of the template come first, where its lines put them. -/
theorem separate_extended :
    (∃ fields, readFields spacedLines = .ok fields ∧ fields.map (·.offset) = [0, 3] ∧
      Separate fields) ∧
    ∃ flat g layout, ((start false).loadEach extended).2.flatten = .ok flat ∧ g ∈ flat.groups ∧
      layout ∈ declaredIn g.content ∧
      layout.2.map (fun f => (f.name, f.offset, f.width)) =
        [("EN", 0, 1), ("SEL", 3, 3), ("EXTRA", 8, 4)] ∧
      Separate layout.2 := by
  obtain ⟨hread, hloaded⟩ := separate_fields false extended
  constructor
  · have hfields : readFields spacedLines =
        .ok [⟨"EN", 0, 1, true, none, [], 1⟩, ⟨"SEL", 3, 3, false, none, [], 3⟩] := by cbv
    exact ⟨_, hfields, rfl, (hread _ _ hfields).2.2⟩
  · have hlayout : (((start false).loadEach extended).2.flatten.toOption.bind (·.groups[0]?)).bind
        (fun g => (declaredIn g.content)[0]?) = some ("LOCAL",
          [⟨"EN", 0, 1, true, none, [], 2⟩, ⟨"SEL", 3, 3, false, none, [], 4⟩,
            ⟨"EXTRA", 8, 4, false, none, [], 7⟩]) := by cbv
    obtain ⟨g, hgroup, hdeclared⟩ := Option.bind_eq_some_iff.mp hlayout
    obtain ⟨flat, hflat, hg⟩ := Option.bind_eq_some_iff.mp hgroup
    have hflatten := eq_ok_of_toOption hflat
    have hmem := List.mem_of_getElem? hg
    have hlayoutMem := List.mem_of_getElem? hdeclared
    exact ⟨flat, g, _, hflatten, hmem, hlayoutMem, rfl,
      (hloaded flat hflatten g hmem).1 _ hlayoutMem⟩

end DeviceRegisters.Session
