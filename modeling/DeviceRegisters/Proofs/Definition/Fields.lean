import DeviceRegisters.Definition.Expansion
import DeviceRegisters.Proofs.Outcome

/-!
# DeviceRegisters.Proofs.Definition.Fields

The fields of every register are inside the register, and no two of them share a bit.

The readers of lines give such fields only (`fit_readEntry`, `fit_readGroup`), a catalog
keeps to them (`Catalog.FieldsFit.addSource`), and so does expansion, which puts fields
behind those of a template (`fit_flatten`).
-/

namespace DeviceRegisters.Definition

open Outline (Node)

/-! ## what fits -/

/-- The field has bits, all of them inside a register. -/
structure Field.Fits (f : Field) : Prop where
  width_pos : 0 < f.width
  stop_le : f.stop ≤ registerBits

/-- The bit is one of the field's. -/
def Field.Has (f : Field) (bit : Nat) : Prop := f.offset ≤ bit ∧ bit < f.stop

/-- The fields are inside a register and share no bit. -/
structure FieldsFit (fields : List Field) : Prop where
  inside : ∀ f ∈ fields, f.Fits
  apart : fields.Pairwise fun f g => f.overlaps g = false

mutual
/-- The fields of all registers and banks in an entry fit. -/
def Entry.Fits : Entry → Prop
  | .register r => FieldsFit r.fields
  | .bank b => FieldsFit b.fields
  | .pair p => FieldsFit p.read.fields ∧ FieldsFit p.write.fields
  | .overlay o => ∀ r ∈ o.registers, FieldsFit r.fields
  | .group _ content | .union _ content => EntriesFit content

/-- The fields of all registers and banks in entries fit. -/
def EntriesFit : List Entry → Prop
  | [] => True
  | entry :: entries => entry.Fits ∧ EntriesFit entries
end

/-- The fields of all registers and banks in a template fit. -/
def Template.Fits : Template → Prop
  | .group g => EntriesFit g.content
  | .register r => FieldsFit r.fields

/-! ## fields -/

/-- Fields with bits overlap if one of these is a bit of both. -/
theorem Field.overlaps_iff {f g : Field} (hf : f.Fits) (hg : g.Fits) :
    f.overlaps g = true ↔ ∃ bit, f.Has bit ∧ g.Has bit := by
  have hfStart : f.offset < f.stop := Nat.lt_add_of_pos_right hf.width_pos
  have hgStart : g.offset < g.stop := Nat.lt_add_of_pos_right hg.width_pos
  simp only [Field.overlaps, Field.Has, Bool.and_eq_true, decide_eq_true_eq]
  constructor
  · rintro ⟨hfg, hgf⟩
    exact ⟨max f.offset g.offset, by omega⟩
  · rintro ⟨bit, hfBit, hgBit⟩
    omega

/-- No bit is one of two fields. -/
theorem FieldsFit.disjoint {fields : List Field} (h : FieldsFit fields) :
    fields.Pairwise fun f g => ¬ ∃ bit, f.Has bit ∧ g.Has bit := by
  refine h.apart.imp_of_mem fun {f g} hf hg hapart => ?_
  rw [← Field.overlaps_iff (h.inside f hf) (h.inside g hg), hapart]
  exact Bool.false_ne_true

theorem fieldsFit_nil : FieldsFit [] := ⟨by simp, .nil⟩

/-- A field that is added shares no bit with those before it. -/
theorem fit_addField {fields : List Field} {f : Field} (h : FieldsFit fields) (hf : f.Fits) :
    Outcome FieldsFit (fun _ => True) (addField fields f) := by
  simp only [addField]
  split
  · trivial
  · next hfree =>
    refine .ok ⟨fun g hg => ?_, List.pairwise_append.mpr ⟨h.apart, List.pairwise_singleton _ _, ?_⟩⟩
    · rcases List.mem_append.mp hg with hg | hg
      · exact h.inside g hg
      · rw [List.mem_singleton.mp hg]
        exact hf
    · intro g hg other hother
      rw [List.mem_singleton.mp hother]
      simpa using List.find?_eq_none.mp hfree g hg

/-- Adding fields keeps them apart, or fails. -/
theorem fit_addFields {fields more : List Field} (h : FieldsFit fields)
    (hmore : ∀ f ∈ more, f.Fits) : Outcome FieldsFit (fun _ => True) (addFields fields more) := by
  induction more generalizing fields with
  | nil => exact h
  | cons f more ih =>
      obtain ⟨hf, hlater⟩ := List.forall_mem_cons.mp hmore
      exact (fit_addField h hf).bind fun _ hnext => ih hnext hlater

/-- A field line that ends beyond the register, or takes no bit, is refused. -/
theorem fits_readField (cursor : Nat) (token : String) (tokens doc : List String)
    (children : List Node) (line : Nat) :
    Outcome Field.Fits (fun _ => True) (readField cursor token tokens doc children line) := by
  simp only [readField]
  refine .bind_any fun _ => ?_
  split
  · refine .bind_any fun _ => .bind_any fun x => .bind_any fun y => ?_
    obtain ⟨width?, rest⟩ := x
    obtain ⟨offset?, rest⟩ := y
    dsimp only
    split
    · trivial
    · next hwidth =>
      split
      · trivial
      · next hstop => exact .bind_any fun _ => .ok ⟨Nat.pos_of_ne_zero hwidth, Nat.le_of_not_lt hstop⟩
  · trivial

/-- Field lines are read into fields that fit, from any position on. -/
theorem fit_readFieldsFrom {fields : List Field} (cursor : Nat) (nodes : List Node)
    (h : FieldsFit fields) :
    Outcome FieldsFit (fun _ => True) (readFieldsFrom fields cursor nodes) := by
  induction nodes generalizing fields cursor with
  | nil => exact h
  | cons node nodes ih =>
      obtain ⟨line, text, doc, children⟩ := node
      simp only [readFieldsFrom]
      refine .bind_any fun tokens => ?_
      split
      · refine .bind_any fun skip => ?_
        split
        · trivial
        · exact ih _ h
      · refine (fits_readField _ _ _ _ _ _).bind fun f hf => ?_
        exact (fit_addField h hf).bind fun _ hnext => ih _ hnext

/-- The fields beneath a register fit. -/
theorem fit_readFields (nodes : List Node) : Outcome FieldsFit (fun _ => True) (readFields nodes) :=
  fit_readFieldsFrom 0 nodes fieldsFit_nil

/-! ## registers -/

variable {library : Library}

/-- The fields of a register fit. -/
abbrev Register.Fits (r : Register) : Prop := FieldsFit r.fields

/-- A register is read with fields that fit. -/
theorem fit_readRegister (offset : Nat) (wanted : List Access) (otherwise : Option Access)
    (node : Node) : Outcome Register.Fits (fun _ => True) (readRegister offset wanted otherwise node) := by
  simp only [readRegister]
  refine .bind_any fun tokens => .bind_any fun _ => .bind_any fun _ => ?_
  -- one case for each way to settle the mode
  split
  all_goals
    refine .bind_any fun _ => .bind_any fun _ => ?_
    exact (fit_readFields node.children).bind fun _ hfields => .ok hfields

/-- So is an array of registers. -/
theorem fit_readBank (offset : Nat) (name : String) (tokens : List String) (node : Node) :
    Outcome (fun b => FieldsFit b.fields) (fun _ => True) (readBank offset name tokens node) := by
  simp only [readBank]
  split
  · refine .bind_any fun _ => .bind_any fun _ => .bind_any fun _ => ?_
    exact (fit_readFields node.children).bind fun _ hfields => .ok hfields
  · trivial

/-- A use is read as an entry whose fields fit. -/
theorem fit_readUse (library : Library) (offset : Nat) (node : Node) :
    Outcome (fun use => use.entry.Fits) (fun _ => True) (readUse library offset node) := by
  simp only [readUse]
  refine .bind_any fun tokens => .bind_any fun _ => .bind_any fun _ => ?_
  split
  · trivial
  · split
    · split
      · trivial
      · exact .bind_any fun _ => .ok trivial
    · refine .bind_any fun _ => ?_
      exact (fit_readFields node.children).bind fun _ hfields => .ok hfields
    · trivial

theorem fit_readRegisterOrUse (library : Library) (offset : Nat) (wanted : List Access)
    (otherwise : Option Access) (node : Node) :
    Outcome Register.Fits (fun _ => True) (readRegisterOrUse library offset wanted otherwise node) := by
  simp only [readRegisterOrUse]
  split
  · refine (fit_readUse library offset node).bind fun use huse => ?_
    cases use with
    | group head => trivial
    | register r => exact .bind_any fun _ => .ok huse
  · exact fit_readRegister offset wanted otherwise node

/-! ## registers at one address -/

/-- Both registers of a pair are read with fields that fit. -/
theorem fit_readPair (library : Library) (offset : Nat) (tokens : List String)
    (children : List Node) (line : Nat) :
    Outcome (fun p => (Entry.pair p).Fits) (fun _ => True)
      (readPair library offset tokens children line) := by
  refine .bind_any fun _ => ?_
  split
  · refine (fit_readRegisterOrUse _ _ _ _ _).bind fun read hread => ?_
    exact (fit_readRegisterOrUse _ _ _ _ _).bind fun write hwrite => .ok ⟨hread, hwrite⟩
  · trivial

/-- So are all registers of an overlay. -/
theorem fit_readOverlaid (library : Library) (access : Access) (index : Nat) (nodes : List Node) :
    Outcome (fun rs => ∀ r ∈ rs, Register.Fits r) (fun _ => True)
      (readOverlaid library access index nodes) := by
  induction nodes generalizing index with
  | nil => exact .ok (by simp)
  | cons node nodes ih =>
      simp only [readOverlaid]
      refine .bind_any fun tokens => ?_
      split
      · trivial
      · refine (fit_readRegisterOrUse _ _ _ _ _).bind fun r hr => ?_
        exact (ih (index + 1)).bind fun rs hrs => .ok (List.forall_mem_cons.mpr ⟨hr, hrs⟩)

theorem fit_readOverlay (library : Library) (offset : Nat) (tokens : List String) (node : Node) :
    Outcome (fun o => (Entry.overlay o).Fits) (fun _ => True)
      (readOverlay library offset tokens node) := by
  simp only [readOverlay]
  split
  · refine .bind_any fun _ => .bind_any fun access => ?_
    exact (fit_readOverlaid library access 0 node.children).bind fun _ hrs => .ok hrs
  · trivial

/-! ## groups and unions -/

mutual
/-- All fields beneath a line fit. -/
theorem fit_readEntry (library : Library) : (offset : Nat) → (node : Node) →
    Outcome Entry.Fits (fun _ => True) (readEntry library offset node)
  | offset, ⟨line, text, doc, children⟩ => by
      simp only [readEntry]
      refine .bind_any fun tokens => ?_
      split
      · trivial
      · trivial
      · exact (fit_readUse library offset _).bind fun _ huse => .ok huse
      · split
        · exact (fit_readPair _ _ _ _ _).bind fun _ hpair => .ok hpair
        split
        · exact (fit_readOverlay _ _ _ _).bind fun _ hoverlay => .ok hoverlay
        split
        · refine .bind_any fun _ => ?_
          exact (fit_readAlternatives library offset children).bind fun _ hcontent => .ok hcontent
        · trivial
      · refine .bind_any fun _ => ?_
        exact (fit_readMembers library offset 0 children).bind fun _ hcontent => .ok hcontent
      · split
        · exact (fit_readBank _ _ _ _).bind fun _ hbank => .ok hbank
        · exact (fit_readRegister _ _ _ _).bind fun _ hregister => .ok hregister

/-- Entries one after the other are read with fields that fit, at every depth. -/
theorem fit_readMembers (library : Library) : (offset taken : Nat) → (nodes : List Node) →
    Outcome EntriesFit (fun _ => True) (readMembers library offset taken nodes)
  | _, _, [] => by
      simp only [readMembers]
      exact .ok trivial
  | offset, taken, node :: nodes => by
      simp only [readMembers]
      refine (fit_readEntry library _ node).bind fun entry hentry => ?_
      split
      · trivial
      · exact (fit_readMembers library _ _ nodes).bind fun _ hentries => .ok ⟨hentry, hentries⟩

/-- So are those that share an address. -/
theorem fit_readAlternatives (library : Library) : (offset : Nat) → (nodes : List Node) →
    Outcome EntriesFit (fun _ => True) (readAlternatives library offset nodes)
  | _, [] => by
      simp only [readAlternatives]
      exact .ok trivial
  | offset, node :: nodes => by
      simp only [readAlternatives]
      refine (fit_readEntry library offset node).bind fun entry hentry => ?_
      split
      · trivial
      · exact (fit_readAlternatives library offset nodes).bind fun _ hentries => .ok ⟨hentry, hentries⟩
end

/-- A group is read with content that fits. -/
theorem fit_readGroup (library : Library) (node : Node) :
    Outcome (fun g => EntriesFit g.content) (fun _ => True) (readGroup library node) := by
  simp only [readGroup]
  refine .bind_any fun _ => .bind_any fun _ => ?_
  exact (fit_readMembers library 0 0 node.children).bind fun _ hcontent => .ok hcontent

/-! ## catalogs -/

namespace Catalog

/-- The fields of all registers and banks that are described fit. -/
structure FieldsFit (c : Catalog) : Prop where
  library : ∀ t ∈ c.library, t.Fits
  groups : ∀ g ∈ c.groups, EntriesFit g.content

/-- The catalog that nothing was loaded into has fields that fit. -/
theorem fieldsFit_empty : FieldsFit empty := ⟨by simp [empty], by simp [empty]⟩

/-- A template is read with fields that fit. -/
theorem fit_readTemplate (library : Library) (node : Node) :
    Outcome Template.Fits (fun _ => True) (readTemplate library node) := by
  simp only [readTemplate]
  split
  · exact (fit_readGroup library node).bind fun _ hgroup => .ok hgroup
  · exact (fit_readRegister _ _ _ _).bind fun _ hregister => .ok hregister

/-- A line that is added leaves a catalog whose fields fit, or is refused. -/
theorem FieldsFit.addLine {c : Catalog} (h : c.FieldsFit) (node : Node) :
    Outcome FieldsFit (fun _ => True) (c.addLine node) := by
  simp only [Catalog.addLine]
  split
  · refine (fit_readTemplate c.library _).bind fun t ht => ?_
    split
    · next library hadd =>
      simp only [Library.add?] at hadd
      split at hadd
      · contradiction
      · obtain rfl := Option.some.inj hadd
        exact .ok ⟨List.forall_mem_cons.mpr ⟨ht, h.library⟩, h.groups⟩
    · trivial
  · refine (fit_readGroup c.library _).bind fun g hg => ?_
    split
    · trivial
    · refine .ok ⟨h.library, fun other hother => ?_⟩
      rcases List.mem_append.mp hother with hother | hother
      · exact h.groups other hother
      · rw [List.mem_singleton.mp hother]
        exact hg
  · split
    · refine .bind_any fun _ => .bind_any fun _ => ?_
      split
      · trivial
      · split
        · trivial
        · exact .ok ⟨h.library, h.groups⟩
    · trivial

/-- So do lines that are added in order. -/
theorem FieldsFit.addLines {c : Catalog} (h : c.FieldsFit) (nodes : List Node) :
    Outcome FieldsFit (fun _ => True) (c.addLines nodes) := by
  induction nodes generalizing c with
  | nil => exact h
  | cons node nodes ih => exact (h.addLine node).bind fun _ hnext => ih hnext

/-- Groups that become templates fit as they did. -/
theorem fit_shelve {library : Library} {groups : List Group} (h : ∀ t ∈ library, t.Fits)
    (hgroups : ∀ g ∈ groups, EntriesFit g.content) :
    Outcome (fun larger => ∀ t ∈ larger, t.Fits) (fun _ => True) (shelve library groups) := by
  induction groups generalizing library with
  | nil => exact h
  | cons g groups ih =>
      obtain ⟨hg, hlater⟩ := List.forall_mem_cons.mp hgroups
      simp only [shelve]
      split
      · next larger hadd =>
        simp only [Library.add?] at hadd
        split at hadd
        · contradiction
        · obtain rfl := Option.some.inj hadd
          exact ih (List.forall_mem_cons.mpr ⟨hg, h⟩) hlater
      · trivial

/-- A source leaves a catalog whose fields fit, or is refused. -/
theorem FieldsFit.addSource {c : Catalog} (h : c.FieldsFit) (nodes : List Node) :
    Outcome FieldsFit (fun _ => True) (c.addSource nodes) :=
  (fit_shelve h.library h.groups).bind fun _ hlibrary => FieldsFit.addLines ⟨hlibrary, by simp⟩ nodes

end Catalog

/-! ## expansion -/

/-- The fields of an instance fit, wherever it is put. -/
def Instance.Fits : Instance → Prop
  | .register r => Definition.FieldsFit r.fields
  | .group _ contentAt => ∀ base, Outcome EntriesFit (fun _ => True) (contentAt base)

/-- All instances that are found fit. -/
def FindsFitting (find : Nat → Option Instance) : Prop := ∀ n t, find n = some t → t.Fits

variable {find : Nat → Option Instance}

/-- The fields of a use are put behind those of its template. -/
theorem fit_expandRegister (hfind : FindsFitting find) (shift : Nat) {r : Register} (h : r.Fits) :
    Outcome Register.Fits (fun _ => True) (expandRegister find shift r) := by
  refine .bind_any fun offset => ?_
  split
  · exact .ok h
  · split
    · next template htemplate =>
      have hfits : Definition.FieldsFit template.fields := hfind _ _ htemplate
      exact (fit_addFields hfits h.inside).bind fun _ hfields => .ok hfields
    · trivial

/-- Registers expand to registers with fields that fit. -/
theorem fit_expandRegisters (hfind : FindsFitting find) (shift : Nat) {rs : List Register}
    (h : ∀ r ∈ rs, r.Fits) :
    Outcome (fun flat => ∀ r ∈ flat, Register.Fits r) (fun _ => True)
      (expandRegisters find shift rs) := by
  induction rs with
  | nil => exact .ok (by simp)
  | cons r rs ih =>
      obtain ⟨hr, hrs⟩ := List.forall_mem_cons.mp h
      refine (fit_expandRegister hfind shift hr).bind fun _ hfirst => ?_
      exact (ih hrs).bind fun _ hrest => .ok (List.forall_mem_cons.mpr ⟨hfirst, hrest⟩)

mutual
/-- An entry that fits expands to one that fits, if the templates do. -/
theorem fit_expandEntry (hfind : FindsFitting find) : (shift : Nat) → (entry : Entry) → entry.Fits →
    Outcome Entry.Fits (fun _ => True) (expandEntry find shift entry)
  | shift, .register r, h => by
      simp only [expandEntry]
      exact (fit_expandRegister hfind shift h).bind fun _ hr => .ok hr
  | shift, .bank b, h => by
      simp only [expandEntry]
      exact .bind_any fun _ => .ok h
  | shift, .pair p, h => by
      simp only [expandEntry]
      refine (fit_expandRegister hfind shift h.1).bind fun _ hread => ?_
      exact (fit_expandRegister hfind shift h.2).bind fun _ hwrite => .ok ⟨hread, hwrite⟩
  | shift, .overlay o, h => by
      simp only [expandEntry]
      refine .bind_any fun _ => ?_
      exact (fit_expandRegisters hfind 0 h).bind fun _ hrs => .ok hrs
  | shift, .group head content, h => by
      simp only [expandEntry]
      refine .bind_any fun base => ?_
      split
      · exact (fit_expandEntries hfind shift content h).bind fun _ hcontent => .ok hcontent
      · split
        · next doc contentAt htemplate =>
          have hfits := hfind _ _ htemplate base
          exact hfits.bind fun _ hcontent => .ok hcontent
        · trivial
  | shift, .union head content, h => by
      simp only [expandEntry]
      refine .bind_any fun _ => ?_
      exact (fit_expandEntries hfind shift content h).bind fun _ hcontent => .ok hcontent

theorem fit_expandEntries (hfind : FindsFitting find) : (shift : Nat) → (entries : List Entry) →
    EntriesFit entries →
    Outcome EntriesFit (fun _ => True) (expandEntries find shift entries)
  | _, [], _ => by
      simp only [expandEntries]
      exact .ok trivial
  | shift, entry :: entries, h => by
      simp only [expandEntries]
      refine (fit_expandEntry hfind shift entry h.1).bind fun _ hentry => ?_
      exact (fit_expandEntries hfind shift entries h.2).bind fun _ hentries => .ok ⟨hentry, hentries⟩
end

/-- The templates of a library fit wherever they are used. -/
theorem findsFitting_instance? (h : ∀ t ∈ library, t.Fits) : FindsFitting library.instance? := by
  induction library with
  | nil => exact nofun
  | cons first older ih =>
      obtain ⟨hfirst, holder⟩ := List.forall_mem_cons.mp h
      intro n t ht
      simp only [Library.instance?] at ht
      split at ht
      · obtain rfl := Option.some.inj ht
        cases first with
        | register r => exact hfirst
        | group g => exact fun base => fit_expandEntries (ih holder) base g.content hfirst
      · exact ih holder n t ht

/-- Groups of fitting content expand to such groups. -/
theorem fit_expandGroups {groups : List Group} (h : ∀ t ∈ library, t.Fits)
    (hgroups : ∀ g ∈ groups, EntriesFit g.content) :
    Outcome (fun flat => ∀ g ∈ flat, EntriesFit g.content) (fun _ => True)
      (expandGroups library groups) := by
  induction groups with
  | nil => exact .ok (by simp)
  | cons g groups ih =>
      obtain ⟨hg, hlater⟩ := List.forall_mem_cons.mp hgroups
      have hexpand : Outcome (fun flat => EntriesFit flat.content) (fun _ => True)
          (g.expand library 0) := by
        refine (fit_expandEntry (findsFitting_instance? h) 0 g.entry hg).bind fun entry hentry => ?_
        split
        · exact .ok hentry
        · trivial
      refine hexpand.bind fun _ hfirst => (ih hlater).bind fun _ hrest => .ok ?_
      exact List.forall_mem_cons.mpr ⟨hfirst, hrest⟩

/-- The fields of all registers and banks of an expanded description fit. -/
theorem fit_flatten {c : Catalog} (h : c.FieldsFit) :
    Outcome (fun flat => ∀ g ∈ flat.groups, EntriesFit g.content) (fun _ => True) c.flatten :=
  (fit_expandGroups h.library h.groups).bind fun _ hgroups => .ok hgroups

end DeviceRegisters.Definition
