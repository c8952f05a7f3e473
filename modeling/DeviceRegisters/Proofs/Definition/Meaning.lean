import DeviceRegisters.Proofs.Definition.Expansion
import DeviceRegisters.Proofs.Definition.Likeness

/-!
# DeviceRegisters.Proofs.Definition.Meaning

The same lines read with two libraries.

What a name means in a library is what its uses see of the template: the addresses it
takes and its instance, but not its number (`Library.meaning?`).  If names have the same
meanings in another library (`Library.Means`), lines give entries that take the same
addresses and expand alike there, each with the templates of its own library
(`follows_readEntry`), though the numbers in them are others.
-/

namespace DeviceRegisters.Definition

open Outline (Node)

variable {library library' : Library} {key : String}

/-! ## meanings -/

/-- The number of addresses that a use of a template takes. -/
def Template.span : Template → Nat
  | .group g => g.head.span
  | .register _ => 1

namespace Library

/-- What uses see of the template of a name. -/
def meaning? (key : String) : Library → Option (Nat × Instance)
  | [] => none
  | t :: older =>
    if t.name = key then some (t.span, t.toInstance (instance? older)) else meaning? key older

/-- What names mean in the library, they mean in the other one. -/
def Means (library library' : Library) : Prop :=
  ∀ key meaning, library.meaning? key = some meaning → library'.meaning? key = some meaning

/-- A name that has a number has a meaning: that of the template of the number. -/
theorem meaning?_of_numberOf? {number : Nat} (h : library.numberOf? key = some number) :
    ∃ t find, library.get? number = some t ∧ number < library.length ∧
      library.instance? number = some (t.toInstance find) ∧
      library.meaning? key = some (t.span, t.toInstance find) := by
  induction library with
  | nil => simp [numberOf?] at h
  | cons first older ih =>
      simp only [numberOf?] at h
      split at h
      · next hname =>
        obtain rfl := Option.some.inj h
        exact ⟨first, instance? older, by simp [get?], by simp, by simp [instance?],
          by simp [meaning?, hname]⟩
      · next hname =>
        obtain ⟨t, find, hget, hlt, hinstance, hmeaning⟩ := ih h
        have hne : number ≠ older.length := Nat.ne_of_lt hlt
        exact ⟨t, find, by simp [get?, hne, hget], by simp; omega,
          by simp [instance?, hne, hinstance], by simp [meaning?, hname, hmeaning]⟩

/-- Names that mean something are the names of templates. -/
theorem hasName_of_meaning? {meaning : Nat × Instance} (h : library.meaning? key = some meaning) :
    library.hasName key = true := by
  induction library with
  | nil => simp [meaning?] at h
  | cons first older ih =>
      simp only [meaning?] at h
      rw [hasName, numberOf?]
      split at h
      · next hname => rw [if_pos hname]; rfl
      · next hname => rw [if_neg hname]; exact ih h

/-- A name has numbers in both libraries, and templates that are seen alike. -/
theorem Means.template (h : library.Means library') {number : Nat}
    (hnumber : library.numberOf? key = some number) :
    ∃ t number' t', library.get? number = some t ∧ library'.numberOf? key = some number' ∧
      library'.get? number' = some t' ∧ t'.span = t.span ∧
      number < library.length ∧ number' < library'.length ∧
      library'.instance? number' = library.instance? number ∧
      ∃ find find', library.instance? number = some (t.toInstance find) ∧
        t'.toInstance find' = t.toInstance find := by
  obtain ⟨t, find, hget, hlt, hinstance, hmeaning⟩ := meaning?_of_numberOf? hnumber
  have hmeaning' := h key _ hmeaning
  obtain ⟨number', hnumber'⟩ := Option.isSome_iff_exists.mp (hasName_of_meaning? hmeaning')
  obtain ⟨t', find', hget', hlt', hinstance', hsame⟩ := meaning?_of_numberOf? hnumber'
  rw [hmeaning'] at hsame
  obtain ⟨hspan, hseen⟩ := Prod.mk.inj (Option.some.inj hsame)
  refine ⟨t, number', t', hget, hnumber', hget', hspan.symm, hlt, hlt', ?_, find, find', hinstance,
    hseen.symm⟩
  rw [hinstance', hinstance, hseen]

end Library

/-! ## what expands alike -/

/-- An expansion gives the same with the templates of the one library as the other one does
with the templates of the other. -/
def ExpandAlike {α : Type} (library library' : Library)
    (expand expand' : (Nat → Option Instance) → Nat → Except Error α) : Prop :=
  ∀ find find', Agrees library find → Agrees library' find' →
    ∀ shift, expand' find' shift = expand find shift

/-- Registers of one mode that expand alike. -/
structure Register.Same (library library' : Library) (r r' : Register) : Prop where
  access : r'.access = r.access
  expand : ExpandAlike library library' (expandRegister · · r) (expandRegister · · r')

/-- Entries that take the same addresses and expand alike. -/
structure Entry.Same (library library' : Library) (e e' : Entry) : Prop where
  span : e'.span = e.span
  isBank : e'.isBank = e.isBank
  expand : ExpandAlike library library' (expandEntry · · e) (expandEntry · · e')

/-- Lists of entries that take the same addresses and expand alike. -/
structure ContentSame (library library' : Library) (es es' : List Entry) : Prop where
  totalSpan : totalSpan es' = totalSpan es
  greatestSpan : greatestSpan es' = greatestSpan es
  expand : ExpandAlike library library' (expandEntries · · es) (expandEntries · · es')

/-- Groups that are spelled out, of which the same is said, and whose contents expand alike. -/
structure Group.Same (library library' : Library) (g g' : Group) : Prop where
  head : g'.head = g.head
  template : g.head.template = none
  expand : ExpandAlike library library' (expandEntries · · g.content) (expandEntries · · g'.content)

/-- Uses of templates of one kind that expand alike. -/
inductive Use.Same (library library' : Library) : Use → Use → Prop where
  | group {head head' : GroupHead} :
      Entry.Same library library' (.group head []) (.group head' []) →
      Same library library' (.group head) (.group head')
  | register {r r' : Register} :
      r.Same library library' r' → Same library library' (.register r) (.register r')

/-- A register that uses no template is the same for all libraries. -/
theorem Register.same_of_template_eq_none {r : Register} (h : r.template = none) :
    r.Same library library' r where
  access := rfl
  expand _ _ _ _ _ := expandRegister_congr fun n hn => by simp [h] at hn

/-- Registers that expand to the same do so as entries. -/
theorem Register.Same.entry {r r' : Register} (h : r.Same library library' r') :
    Entry.Same library library' (.register r) (.register r') where
  span := rfl
  isBank := rfl
  expand find find' hfind hfind' shift := by
    simp only [expandEntry, h.expand find find' hfind hfind' shift]

theorem Entry.Same.bank (b : Bank) : Entry.Same library library' (.bank b) (.bank b) where
  span := rfl
  isBank := rfl
  expand _ _ _ _ _ := by simp only [expandEntry]

/-- Uses that expand to the same do so as entries. -/
theorem Use.Same.entry {use use' : Use} (h : use.Same library library' use') :
    Entry.Same library library' use.entry use'.entry := by
  cases h with
  | group hhead => exact hhead
  | register hr => exact hr.entry

theorem ContentSame.nil : ContentSame library library' [] [] := ⟨rfl, rfl, fun _ _ _ _ _ => rfl⟩

/-- Content that expands to the same does so with such entries in front. -/
theorem ContentSame.cons {e e' : Entry} {es es' : List Entry} (he : e.Same library library' e')
    (hes : ContentSame library library' es es') :
    ContentSame library library' (e :: es) (e' :: es') where
  totalSpan := by simp only [Definition.totalSpan, he.span, hes.totalSpan]
  greatestSpan := by simp only [Definition.greatestSpan, he.span, hes.greatestSpan]
  expand find find' hfind hfind' shift := by
    simp only [expandEntries, he.expand find find' hfind hfind' shift,
      hes.expand find find' hfind hfind' shift]

/-- Groups with such content expand to the same, if they use no template. -/
theorem ContentSame.group {es es' : List Entry} (h : ContentSame library library' es es')
    (head : GroupHead) (hhead : head.template = none) :
    Entry.Same library library' (.group head es) (.group head es') where
  span := rfl
  isBank := rfl
  expand find find' hfind hfind' shift := by
    simp only [expandEntry, hhead, h.expand find find' hfind hfind' shift]

/-- So do unions. -/
theorem ContentSame.union {es es' : List Entry} (h : ContentSame library library' es es')
    (head : UnionHead) : Entry.Same library library' (.union head es) (.union head es') where
  span := rfl
  isBank := rfl
  expand find find' hfind hfind' shift := by
    simp only [expandEntry, h.expand find find' hfind hfind' shift]

/-- Registers of an overlay that expand alike. -/
theorem expandAlike_registers {rs rs' : List Register}
    (h : List.Forall₂ (Register.Same library library') rs rs') :
    ExpandAlike library library' (expandRegisters · · rs) (expandRegisters · · rs') := by
  intro find find' hfind hfind' shift
  induction h with
  | nil => rfl
  | cons hr _ ih => simp only [expandRegisters, hr.expand find find' hfind hfind' shift, ih]

/-! ## reading -/

/-- If the first computation has a value, the second has a related one. -/
abbrev Follows {α : Type} (R : α → α → Prop) (x y : Except Error α) : Prop :=
  Matches False R (fun _ => False) x y

/-- A register line does not look at the library. -/
theorem follows_readRegister (offset : Nat) (wanted : List Access) (otherwise : Option Access)
    (node : Node) : Follows (Register.Same library library')
      (readRegister offset wanted otherwise node) (readRegister offset wanted otherwise node) := by
  cases hread : readRegister offset wanted otherwise node with
  | error e => trivial
  | ok r => exact .ok (Register.same_of_template_eq_none (readRegister_eq_ok hread).2)

/-- A use finds a template under the same name, and both are seen alike. -/
theorem follows_readUse (h : library.Means library') (offset : Nat) (node : Node) :
    Follows (Use.Same library library') (readUse library offset node)
      (readUse library' offset node) := by
  simp only [readUse]
  refine .bind_same fun words => .bind_same fun _ => .bind_same fun _ => ?_
  obtain ⟨token, tokens⟩ := words
  simp only
  cases hnumber : library.numberOf? (String.ofList (token.toList.dropWhile (· = ':'))) with
  | none => exact .of_not id _ _
  | some number =>
      obtain ⟨t, number', t', hget, hnumber', hget', hspan, hlt, hlt', hinstance, find₀, find₀',
        hfound, hseen⟩ := h.template hnumber
      simp only [hget, hnumber', hget']
      cases t with
      | group g =>
          cases t' with
          | register r => simp [Template.toInstance] at hseen
          | group g' =>
              have hspan : g'.head.span = g.head.span := hspan
              refine .ite Iff.rfl (fun _ => trivial) fun _ => .bind_same fun _ => .ok (.group ?_)
              refine ⟨hspan, rfl, fun find find' hfind hfind' shift => ?_⟩
              simp only [expandEntry, hfind number hlt, hfind' number' hlt', hinstance, hspan]
      | register r =>
          cases t' with
          | group g => simp [Template.toInstance] at hseen
          | register r' =>
              obtain rfl : r' = r := by simpa [Template.toInstance] using hseen
              refine .bind_same fun access => .bind_same fun fields => .ok (.register ?_)
              refine ⟨rfl, fun find find' hfind hfind' shift => ?_⟩
              simp only [expandRegister, hfind number hlt, hfind' number' hlt', hinstance]

/-- A register or a use of one that is read with one library is read with the other one. -/
theorem follows_readRegisterOrUse (h : library.Means library') (offset : Nat)
    (wanted : List Access) (otherwise : Option Access) (node : Node) :
    Follows (Register.Same library library')
      (readRegisterOrUse library offset wanted otherwise node)
      (readRegisterOrUse library' offset wanted otherwise node) := by
  simp only [readRegisterOrUse]
  split
  · refine (follows_readUse h offset node).bind_sure fun use use' huse => ?_
    cases huse with
    | group _ => exact .of_not id _ _
    | register hr =>
        simp only [hr.access]
        exact .bind_same fun _ => .ok hr
  · exact follows_readRegister offset wanted otherwise node

/-- So is a pair. -/
theorem follows_readPair (h : library.Means library') (offset : Nat) (tokens : List String)
    (children : List Node) (line : Nat) :
    Follows (fun p p' => Entry.Same library library' (.pair p) (.pair p'))
      (readPair library offset tokens children line)
      (readPair library' offset tokens children line) := by
  simp only [readPair]
  refine .bind_same fun _ => ?_
  split
  · refine (follows_readRegisterOrUse h offset _ none _).bind_sure fun read read' hread => ?_
    refine (follows_readRegisterOrUse h offset _ none _).bind_sure fun write write' hwrite => ?_
    refine .ok ⟨rfl, rfl, fun find find' hfind hfind' shift => ?_⟩
    simp only [expandEntry, hread.expand find find' hfind hfind' shift,
      hwrite.expand find find' hfind hfind' shift]
  · trivial

/-- So are the registers of an overlay one by one. -/
theorem follows_readOverlaid (h : library.Means library') (access : Access) (index : Nat)
    (nodes : List Node) :
    Follows (List.Forall₂ (Register.Same library library'))
      (readOverlaid library access index nodes) (readOverlaid library' access index nodes) := by
  induction nodes generalizing index with
  | nil => exact .ok .nil
  | cons node nodes ih =>
      simp only [readOverlaid]
      refine .bind_same fun words => ?_
      split
      · trivial
      · refine (follows_readRegisterOrUse h _ [] (some access) node).bind_sure fun r r' hr => ?_
        exact (ih (index + 1)).bind_sure fun rs rs' hrs => .ok (.cons hr hrs)

/-- So is the overlay that they make up. -/
theorem follows_readOverlay (h : library.Means library') (offset : Nat) (tokens : List String)
    (node : Node) :
    Follows (fun o o' => Entry.Same library library' (.overlay o) (.overlay o'))
      (readOverlay library offset tokens node) (readOverlay library' offset tokens node) := by
  simp only [readOverlay]
  split
  · refine .bind_same fun _ => .bind_same fun access => ?_
    refine (follows_readOverlaid h access 0 node.children).bind_sure fun rs rs' hrs => ?_
    refine .ok ⟨rfl, rfl, fun find find' hfind hfind' shift => ?_⟩
    simp only [expandEntry, expandAlike_registers hrs find find' hfind hfind' 0]
  · trivial

mutual
/-- A line gives entries that expand alike. -/
theorem follows_readEntry (h : library.Means library') : (offset : Nat) → (node : Node) →
    Follows (Entry.Same library library') (readEntry library offset node)
      (readEntry library' offset node)
  | offset, ⟨line, text, doc, children⟩ => by
      simp only [readEntry]
      refine .bind_same fun words => ?_
      split
      · trivial
      · trivial
      · exact (follows_readUse h offset _).bind_sure fun use use' huse => .ok huse.entry
      · split
        · exact (follows_readPair h offset _ children line).bind_sure fun _ _ hp => .ok hp
        split
        · exact (follows_readOverlay h offset _ _).bind_sure fun _ _ ho => .ok ho
        split
        · refine .bind_same fun name => ?_
          refine (follows_readAlternatives h offset children).bind_sure fun es es' hes => ?_
          rw [hes.greatestSpan]
          exact .ok (hes.union _)
        · trivial
      · refine .bind_same fun named => ?_
        refine (follows_readMembers h offset 0 children).bind_sure fun es es' hes => ?_
        rw [hes.totalSpan]
        exact .ok (hes.group _ rfl)
      · split
        · exact .bind_same fun b => .ok (.bank b)
        · exact (follows_readRegister offset [] none _).bind_sure fun _ _ hr => .ok hr.entry

/-- So are entries one after the other, at every depth, and they expand to the same. -/
theorem follows_readMembers (h : library.Means library') : (offset taken : Nat) →
    (nodes : List Node) →
    Follows (ContentSame library library') (readMembers library offset taken nodes)
      (readMembers library' offset taken nodes)
  | _, _, [] => by
      simp only [readMembers]
      exact .ok .nil
  | offset, taken, node :: nodes => by
      simp only [readMembers]
      refine (follows_readEntry h (offset + taken) node).bind_sure fun e e' he => ?_
      rw [he.span]
      refine .ite Iff.rfl (fun _ => trivial) fun _ => ?_
      exact (follows_readMembers h offset _ nodes).bind_sure fun _ _ hes => .ok (.cons he hes)

/-- So are entries that share an address. -/
theorem follows_readAlternatives (h : library.Means library') : (offset : Nat) →
    (nodes : List Node) →
    Follows (ContentSame library library') (readAlternatives library offset nodes)
      (readAlternatives library' offset nodes)
  | _, [] => by
      simp only [readAlternatives]
      exact .ok .nil
  | offset, node :: nodes => by
      rw [readAlternatives_cons, readAlternatives_cons]
      refine (follows_readEntry h offset node).bind_sure fun e e' he => ?_
      rw [he.isBank]
      refine .ite Iff.rfl (fun _ => trivial) fun _ => ?_
      exact (follows_readAlternatives h offset nodes).bind_sure fun _ _ hes => .ok (.cons he hes)
end

/-- The line of a group gives groups that expand alike. -/
theorem follows_readGroup (h : library.Means library') (node : Node) :
    Follows (Group.Same library library') (readGroup library node) (readGroup library' node) := by
  simp only [readGroup]
  refine .bind_same fun _ => .bind_same fun _ => ?_
  refine (follows_readMembers h 0 0 node.children).bind_sure fun es es' hes => ?_
  rw [hes.totalSpan]
  exact .ok ⟨rfl, rfl, hes.expand⟩

end DeviceRegisters.Definition
