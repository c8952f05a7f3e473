import Mathlib
import DeviceRegisters.Proofs.Definition.Moving
import DeviceRegisters.Proofs.Session

/-!
# DeviceRegisters.Proofs.Definition.Shifting

Expanding what was expanded.

An expanded entry holds no uses any more, so that expanding it again moves it and does
nothing else: every address in it is checked in turn (`checkSites`), and the first one
that does not fit is the error (`expandEntry_of_filled`).  Expanding the description with
the greater shift makes the same checks in the same order, whether the shift goes down
into an entry that is spelled out or arrives at a use with the address of the use
(`expandEntry_add`).
-/

namespace DeviceRegisters.Definition

variable {find : Nat → Option Instance} {s t : Nat}

/-! ## sites -/

/-- Something with an address, as expansion comes to it. -/
structure Site where
  name : String
  address : Nat
  deriving DecidableEq, Repr

/-- Whether the site is beyond the last address when it is moved by the shift. -/
def Site.unfit (shift : Nat) (site : Site) : Bool := Address.last < shift + site.address

/-- The site of a register. -/
def Register.site (r : Register) : Site := ⟨r.name, r.offset⟩

mutual
/-- What has an address in an entry, in the order of expansion.  The registers of an overlay
have an index instead. -/
def Entry.sites : Entry → List Site
  | .register r => [r.site]
  | .bank b => [⟨b.name, b.base⟩]
  | .pair p => [p.read.site, p.write.site]
  | .overlay o => [⟨o.name, o.offset⟩]
  | .group head content => ⟨head.name, head.base⟩ :: sitesIn content
  | .union head content => ⟨head.label, head.base⟩ :: sitesIn content

/-- What has an address in entries. -/
def sitesIn : List Entry → List Site
  | [] => []
  | entry :: entries => entry.sites ++ sitesIn entries
end

/-- Insists that sites fit when they are moved: the first that does not is the error. -/
def checkSites (shift : Nat) (sites : List Site) : Except Error Unit :=
  match sites.find? (·.unfit shift) with
  | some site => .error (.addressOverflow site.name)
  | none => .ok ()

theorem checkSites_nil (shift : Nat) : checkSites shift [] = .ok () := rfl

/-- The sites are checked one after the other, each as an address is. -/
theorem checkSites_cons (shift : Nat) (site : Site) (sites : List Site) :
    checkSites shift (site :: sites) =
      rebase shift site.address site.name >>= fun _ => checkSites shift sites := by
  by_cases hunfit : Address.last < shift + site.address
  · simp [checkSites, rebase, Site.unfit, hunfit, bind, Except.bind]
  · simp [checkSites, rebase, Site.unfit, hunfit, bind, Except.bind]

/-- Sites are checked in order. -/
theorem checkSites_append (shift : Nat) (sites more : List Site) :
    checkSites shift (sites ++ more) = checkSites shift sites >>= fun _ => checkSites shift more := by
  induction sites with
  | nil => rfl
  | cons site sites ih => rw [List.cons_append, checkSites_cons, checkSites_cons, ih, bind_assoc]

/-- The check passes if no site leaves the address space. -/
theorem checkSites_eq_ok_iff {shift : Nat} {sites : List Site} :
    checkSites shift sites = .ok () ↔ ∀ site ∈ sites, shift + site.address ≤ Address.last := by
  have hfind : sites.find? (·.unfit shift) = none ↔
      ∀ site ∈ sites, shift + site.address ≤ Address.last := by
    simp [Site.unfit]
  rw [← hfind, checkSites]
  split
  · next site hsite => simp [hsite]
  · next hnone => simp [hnone]

/-- It fails with the first site that does. -/
theorem checkSites_eq_error_iff {shift : Nat} {sites : List Site} {e : Error} :
    checkSites shift sites = .error e ↔
      ∃ site, sites.find? (·.unfit shift) = some site ∧ e = .addressOverflow site.name := by
  rw [checkSites]
  split
  · next site hsite => simp [hsite, eq_comm]
  · next hnone => simp [hnone]

/-! ## addresses -/

/-- An address is moved if the result is one. -/
theorem rebase_eq_ok_iff {address moved : Nat} {name : String} :
    rebase s address name = .ok moved ↔ s + address ≤ Address.last ∧ moved = s + address := by
  rw [rebase]
  split
  · next hfar => simp; omega
  · next hfits =>
    rw [Except.ok.injEq, eq_comm]
    exact ⟨fun h => ⟨by omega, h⟩, fun h => h.2⟩

/-- An address that was moved is checked like the address itself with the sum of the shifts. -/
theorem rebase_moved (s t address : Nat) (name : String) :
    rebase (s + t) address name = rebase t (s + address) name := by
  rw [rebase_add, Nat.add_comm s t]

/-- What follows a check starts from the moved address. -/
theorem rebase_bind {α : Type} (address : Nat) (name : String) (f : Nat → Except Error α) :
    rebase t address name >>= f = rebase t address name >>= fun _ => f (t + address) := by
  rw [rebase]
  split <;> rfl

/-! ## entries that are filled in -/

mutual
/-- The entry holds no uses, and the registers of its overlays have indices. -/
def Entry.Filled : Entry → Prop
  | .register r => r.template = none
  | .bank _ => True
  | .pair p => p.read.template = none ∧ p.write.template = none
  | .overlay o => ∀ r ∈ o.registers, r.template = none ∧ r.offset ≤ Address.last
  | .group head content => head.template = none ∧ AllFilled content
  | .union _ content => AllFilled content

/-- The entries hold no uses. -/
def AllFilled : List Entry → Prop
  | [] => True
  | entry :: entries => entry.Filled ∧ AllFilled entries
end

/-- A register that is filled in is moved, if its address fits. -/
theorem expandRegister_of_filled {r : Register} (hr : r.template = none) :
    expandRegister find t r = checkSites t [r.site] >>= fun _ => .ok (r.movedBy t) := by
  obtain ⟨name, offset, access, fields, template, doc, line⟩ := r
  obtain rfl : template = none := hr
  rw [expandRegister, rebase_bind, checkSites_cons, bind_assoc]
  rfl

/-- The registers of an overlay stay where they are. -/
theorem expandRegisters_of_filled {rs : List Register}
    (hrs : ∀ r ∈ rs, r.template = none ∧ r.offset ≤ Address.last) :
    expandRegisters find 0 rs = .ok rs := by
  induction rs with
  | nil => rfl
  | cons r rs ih =>
      obtain ⟨⟨htemplate, hlast⟩, hlater⟩ := List.forall_mem_cons.mp hrs
      have hfits : rebase 0 r.offset r.name = .ok r.offset := by
        rw [rebase_eq_ok_iff]
        omega
      have hr : expandRegister find 0 r = .ok r := by
        rw [expandRegister_of_filled htemplate, checkSites_cons]
        simp [Register.site, hfits, checkSites_nil, bind, Except.bind]
      rw [expandRegisters, hr, ih hlater]
      rfl

mutual
/-- An entry that is filled in is moved, if all addresses in it fit. -/
theorem expandEntry_of_filled : (entry : Entry) → entry.Filled →
    expandEntry find t entry = checkSites t entry.sites >>= fun _ => .ok (entry.movedBy t)
  | .register r, h => by
      rw [expandEntry, expandRegister_of_filled h, bind_assoc]
      rfl
  | .bank b, _ => by
      rw [expandEntry, rebase_bind, Entry.sites, checkSites_cons, bind_assoc]
      rfl
  | .pair p, h => by
      have hsites : (Entry.pair p).sites = [p.read.site] ++ [p.write.site] := rfl
      rw [expandEntry, expandRegister_of_filled h.1, expandRegister_of_filled h.2, hsites,
        checkSites_append]
      simp only [bind_assoc]
      rfl
  | .overlay o, h => by
      rw [expandEntry, expandRegisters_of_filled h, rebase_bind, Entry.sites, checkSites_cons,
        bind_assoc]
      rfl
  | .group ⟨name, base, span, hidden, template, doc⟩ content, h => by
      obtain ⟨rfl, hcontent⟩ := h
      rw [expandEntry, rebase_bind, expandEntries_of_filled content hcontent, Entry.sites,
        checkSites_cons]
      simp only [bind_assoc]
      rfl
  | .union head content, h => by
      rw [expandEntry, rebase_bind, expandEntries_of_filled content h, Entry.sites, checkSites_cons]
      simp only [bind_assoc]
      rfl

/-- Entries that are filled in are moved, if all addresses in them fit. -/
theorem expandEntries_of_filled : (entries : List Entry) → AllFilled entries →
    expandEntries find t entries =
      checkSites t (sitesIn entries) >>= fun _ => .ok (movedAllBy t entries)
  | [], _ => by
      rw [expandEntries]
      rfl
  | entry :: entries, h => by
      rw [expandEntries, expandEntry_of_filled entry h.1, expandEntries_of_filled entries h.2,
        sitesIn, checkSites_append]
      simp only [bind_assoc]
      rfl
end

/-! ## greater shifts -/

/-- A register that was expanded is checked and moved where the description would be
expanded with the greater shift. -/
theorem expandRegister_add {r flat : Register} (h : expandRegister find s r = .ok flat) (t : Nat) :
    (flat.template = none ∧ flat.offset ≤ Address.last) ∧
      expandRegister find (s + t) r = checkSites t [flat.site] >>= fun _ => .ok (flat.movedBy t) := by
  obtain ⟨offset, hoffset, h⟩ := bind_eq_ok_iff.mp h
  obtain ⟨hlast, rfl⟩ := rebase_eq_ok_iff.mp hoffset
  rw [expandRegister, rebase_moved, rebase_bind, checkSites_cons, bind_assoc]
  cases htemplate : r.template with
  | none =>
      rw [htemplate] at h
      obtain rfl := Except.ok.inj h
      exact ⟨⟨rfl, hlast⟩, rfl⟩
  | some n =>
      simp only [htemplate] at h
      split at h
      · next template hfound =>
        obtain ⟨fields, hfields, h⟩ := bind_eq_ok_iff.mp h
        obtain rfl := Except.ok.inj h
        refine ⟨⟨rfl, hlast⟩, ?_⟩
        simp only [hfound, hfields]
        rfl
      · contradiction

/-- Registers of an overlay have no uses left once they are expanded. -/
theorem filled_of_expandRegisters {rs flats : List Register}
    (h : expandRegisters find 0 rs = .ok flats) :
    ∀ r ∈ flats, r.template = none ∧ r.offset ≤ Address.last := by
  induction rs generalizing flats with
  | nil =>
      obtain rfl := Except.ok.inj h
      simp
  | cons r rs ih =>
      simp only [expandRegisters, bind_eq_ok_iff] at h
      obtain ⟨flat, hflat, flats, hflats, h⟩ := h
      obtain rfl := Except.ok.inj h
      exact List.forall_mem_cons.mpr ⟨(expandRegister_add hflat 0).1, ih hflats⟩

/-- What the groups stand for is filled in, and at a greater address it is the same, moved. -/
def Shifts (find : Nat → Option Instance) : Prop :=
  ∀ n doc contentAt, find n = some (.group doc contentAt) →
    ∀ base content, contentAt base = .ok content →
      AllFilled content ∧ ∀ t, contentAt (base + t) =
        checkSites t (sitesIn content) >>= fun _ => .ok (movedAllBy t content)

mutual
/-- An entry that was expanded is filled in, and the greater shift checks and moves it. -/
theorem expandEntry_add (hfind : Shifts find) : {s : Nat} → (entry : Entry) → {flat : Entry} →
    expandEntry find s entry = .ok flat →
    flat.Filled ∧ ∀ t, expandEntry find (s + t) entry =
      checkSites t flat.sites >>= fun _ => .ok (flat.movedBy t)
  | s, .register r, _, h => by
      rw [expandEntry] at h
      obtain ⟨flat, hflat, h⟩ := bind_eq_ok_iff.mp h
      obtain rfl := Except.ok.inj h
      refine ⟨(expandRegister_add hflat 0).1.1, fun t => ?_⟩
      rw [expandEntry, (expandRegister_add hflat t).2, bind_assoc]
      rfl
  | s, .bank b, _, h => by
      rw [expandEntry] at h
      obtain ⟨base, hbase, h⟩ := bind_eq_ok_iff.mp h
      obtain ⟨-, rfl⟩ := rebase_eq_ok_iff.mp hbase
      obtain rfl := Except.ok.inj h
      refine ⟨trivial, fun t => ?_⟩
      rw [expandEntry, rebase_moved, rebase_bind, Entry.sites, checkSites_cons, bind_assoc]
      rfl
  | s, .pair p, _, h => by
      simp only [expandEntry, bind_eq_ok_iff] at h
      obtain ⟨read, hread, write, hwrite, h⟩ := h
      obtain rfl := Except.ok.inj h
      refine ⟨⟨(expandRegister_add hread 0).1.1, (expandRegister_add hwrite 0).1.1⟩, fun t => ?_⟩
      have hsites : (Entry.pair ⟨read, write⟩).sites = [read.site] ++ [write.site] := rfl
      rw [expandEntry, (expandRegister_add hread t).2, (expandRegister_add hwrite t).2, hsites,
        checkSites_append]
      simp only [bind_assoc]
      rfl
  | s, .overlay o, _, h => by
      simp only [expandEntry, bind_eq_ok_iff] at h
      obtain ⟨offset, hoffset, registers, hregisters, h⟩ := h
      obtain ⟨-, rfl⟩ := rebase_eq_ok_iff.mp hoffset
      obtain rfl := Except.ok.inj h
      refine ⟨filled_of_expandRegisters hregisters, fun t => ?_⟩
      rw [expandEntry, rebase_moved, rebase_bind, hregisters, Entry.sites, checkSites_cons, bind_assoc]
      rfl
  | s, .group head content, _, h => by
      rw [expandEntry] at h
      obtain ⟨base, hbase, h⟩ := bind_eq_ok_iff.mp h
      obtain ⟨-, rfl⟩ := rebase_eq_ok_iff.mp hbase
      cases htemplate : head.template with
      | none =>
          rw [htemplate] at h
          obtain ⟨flat, hflat, h⟩ := bind_eq_ok_iff.mp h
          obtain rfl := Except.ok.inj h
          -- what is spelled out moves by the shift
          obtain ⟨hfilled, hmoved⟩ := expandEntries_add hfind content hflat
          refine ⟨⟨rfl, hfilled⟩, fun t => ?_⟩
          rw [expandEntry, rebase_moved, rebase_bind, htemplate, hmoved, Entry.sites, checkSites_cons]
          simp only [bind_assoc]
          rfl
      | some n =>
          simp only [htemplate] at h
          split at h
          · next doc contentAt hfound =>
            obtain ⟨flat, hflat, h⟩ := bind_eq_ok_iff.mp h
            obtain rfl := Except.ok.inj h
            -- what a use stands for moves by the address of the use
            obtain ⟨hfilled, hmoved⟩ := hfind n doc contentAt hfound _ flat hflat
            refine ⟨⟨rfl, hfilled⟩, fun t => ?_⟩
            have hbase : t + (s + head.base) = s + head.base + t := Nat.add_comm _ _
            simp only [expandEntry, htemplate, hfound]
            rw [rebase_moved, rebase_bind, hbase, hmoved, Entry.sites, checkSites_cons]
            simp only [bind_assoc, ← hbase]
            rfl
          · contradiction
  | s, .union head content, _, h => by
      simp only [expandEntry, bind_eq_ok_iff] at h
      obtain ⟨base, hbase, flat, hflat, h⟩ := h
      obtain ⟨-, rfl⟩ := rebase_eq_ok_iff.mp hbase
      obtain rfl := Except.ok.inj h
      obtain ⟨hfilled, hmoved⟩ := expandEntries_add hfind content hflat
      refine ⟨hfilled, fun t => ?_⟩
      rw [expandEntry, rebase_moved, rebase_bind, hmoved, Entry.sites, checkSites_cons]
      simp only [bind_assoc]
      rfl

/-- Entries that were expanded are filled in, and the greater shift checks and moves them. -/
theorem expandEntries_add (hfind : Shifts find) : {s : Nat} → (entries : List Entry) →
    {flats : List Entry} → expandEntries find s entries = .ok flats →
    AllFilled flats ∧ ∀ t, expandEntries find (s + t) entries =
      checkSites t (sitesIn flats) >>= fun _ => .ok (movedAllBy t flats)
  | _, [], _, h => by
      rw [expandEntries] at h
      obtain rfl := Except.ok.inj h
      refine ⟨trivial, fun t => ?_⟩
      rw [expandEntries]
      rfl
  | _, entry :: entries, _, h => by
      simp only [expandEntries, bind_eq_ok_iff] at h
      obtain ⟨flat, hflat, flats, hflats, h⟩ := h
      obtain rfl := Except.ok.inj h
      obtain ⟨hfirst, hmovedFirst⟩ := expandEntry_add hfind entry hflat
      obtain ⟨hlater, hmovedLater⟩ := expandEntries_add hfind entries hflats
      refine ⟨⟨hfirst, hlater⟩, fun t => ?_⟩
      rw [expandEntries, hmovedFirst, hmovedLater, sitesIn, checkSites_append]
      simp only [bind_assoc]
      rfl
end

/-- The groups of a library are put at an address by expanding their content with it. -/
theorem shifts_instance? (library : Library) : Shifts library.instance? := by
  induction library with
  | nil => exact fun n doc contentAt hfound => nomatch hfound
  | cons template older ih =>
      intro n doc contentAt hfound
      rw [Library.instance?] at hfound
      split at hfound
      · cases template with
        | register r => cases hfound
        | group g =>
            cases hfound
            exact fun base content hcontent => expandEntries_add ih g.content hcontent
      · exact ih n doc contentAt hfound

/-! ## groups -/

/-- What has an address in a group: the group itself and what is in it. -/
def Group.sites (g : Group) : List Site := g.entry.sites

/-- The group `d` addresses further. -/
def Group.movedBy (d : Nat) (g : Group) : Group :=
  ⟨{ g.head with base := d + g.head.base }, movedAllBy d g.content⟩

/-- A group is expanded as an entry is. -/
theorem expand_of_expandEntry {library : Library} {g f : Group} {x : Except Error Unit}
    (h : expandEntry library.instance? s g.entry = x >>= fun _ => .ok f.entry) :
    g.expand library s = x >>= fun _ => .ok f := by
  rw [Group.expand, h, bind_assoc]
  rfl

/-- Expanding a group gives a group entry. -/
theorem expandEntry_of_expand {library : Library} {g f : Group} (h : g.expand library s = .ok f) :
    expandEntry library.instance? s g.entry = .ok f.entry := by
  rw [Group.expand] at h
  obtain ⟨flat, hflat, h⟩ := bind_eq_ok_iff.mp h
  split at h
  · obtain rfl := Except.ok.inj h
    exact hflat
  · contradiction

/-- Expansion composes: what was expanded with a shift is expanded with a further shift, by any
library, as the description is with both shifts.  That succeeds exactly if every
address that was given is still one when it is moved, and then moves all of them; else the
first that is not is the error. -/
theorem expand_expand {library : Library} {g f : Group} {s : Nat} (h : g.expand library s = .ok f)
    (other : Library) (t : Nat) :
    f.expand other t = g.expand library (s + t) ∧
      (f.expand other t = .ok (f.movedBy t) ↔
        ∀ site ∈ f.sites, t + site.address ≤ Address.last) ∧
      ∀ e, f.expand other t = .error e ↔
        ∃ site, f.sites.find? (·.unfit t) = some site ∧ e = .addressOverflow site.name := by
  obtain ⟨hfilled, hgreater⟩ :=
    expandEntry_add (shifts_instance? library) g.entry (expandEntry_of_expand h)
  have hagain : f.expand other t = checkSites t f.sites >>= fun _ => .ok (f.movedBy t) :=
    expand_of_expandEntry (expandEntry_of_filled f.entry hfilled)
  have hboth : g.expand library (s + t) = checkSites t f.sites >>= fun _ => .ok (f.movedBy t) :=
    expand_of_expandEntry (hgreater t)
  rw [hboth, hagain, ← checkSites_eq_ok_iff]
  refine ⟨rfl, ?_, fun e => ?_⟩
  · cases checkSites t f.sites <;> simp [bind, Except.bind]
  · rw [← checkSites_eq_error_iff]
    cases checkSites t f.sites <;> simp [bind, Except.bind]

/-- What is loaded from a source with an overlay and from one that uses it twice, once in a union. -/
def board : Catalog :=
  ((Session.start false).loadEach
    [.text "!PORT\n  DATA RW\n  *OVERLAY MUX RW\n    M0\n    M1\n",
      .text "!BOARD\n  ID R\n  :PORT\n  *UNION\n    :PORT B\n"]).2.catalog

/-- A group that uses templates, spelled out and then expanded further on. -/
theorem expand_board :
    ∃ g f, g ∈ board.groups ∧ g.expand board.library 16 = .ok f ∧ f.sites.length = 9 ∧
      f.expand [] 64 = g.expand board.library 80 ∧
      (f.expand [] 64 = .ok (f.movedBy 64) ↔
        ∀ site ∈ f.sites, 64 + site.address ≤ Address.last) ∧
      ∀ e, f.expand [] 64 = .error e ↔
        ∃ site, f.sites.find? (·.unfit 64) = some site ∧ e = .addressOverflow site.name := by
  have hsites : (board.groups[0]?.bind fun g => (g.expand board.library 16).toOption.map
      (·.sites.length)) = some 9 := by cbv
  obtain ⟨g, hg, hexpand⟩ := Option.bind_eq_some_iff.mp hsites
  obtain ⟨f, hf, hlength⟩ := Option.map_eq_some_iff.mp hexpand
  have hok := eq_ok_of_toOption hf
  exact ⟨g, f, List.mem_of_getElem? hg, hok, hlength, expand_expand hok [] 64⟩

end DeviceRegisters.Definition
