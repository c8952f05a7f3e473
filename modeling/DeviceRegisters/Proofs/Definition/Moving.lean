import DeviceRegisters.Definition.Expansion
import DeviceRegisters.Proofs.Definition.Reading

/-!
# DeviceRegisters.Proofs.Definition.Moving

Entries at another address.

Moving an entry moves everything in it that has an address; the registers of an
overlay keep their indices.  It does not matter whether an entry is moved before or
while it is expanded (`expandEntry_movedBy`).  Lines that were read at one address give
the moved entries when they are read at another, where names may mean more
templates, unless the entries do not fit there (`matches_readEntry`).
-/

namespace DeviceRegisters.Definition

open Outline (Node)

variable {d offset shift : Nat} {find : Nat → Option Instance}

/-! ## moved entries -/

/-- The register `d` addresses further. -/
def Register.movedBy (d : Nat) (r : Register) : Register := { r with offset := d + r.offset }

/-- The use `d` addresses further. -/
def Use.movedBy (d : Nat) : Use → Use
  | .group head => .group { head with base := d + head.base }
  | .register r => .register (r.movedBy d)

mutual
/-- The entry `d` addresses further. -/
def Entry.movedBy (d : Nat) : Entry → Entry
  | .register r => .register (r.movedBy d)
  | .bank b => .bank { b with base := d + b.base }
  | .pair p => .pair ⟨p.read.movedBy d, p.write.movedBy d⟩
  | .overlay o => .overlay { o with offset := d + o.offset }
  | .group head content => .group { head with base := d + head.base } (movedAllBy d content)
  | .union head content => .union { head with base := d + head.base } (movedAllBy d content)

/-- The entries `d` addresses further. -/
def movedAllBy (d : Nat) : List Entry → List Entry
  | [] => []
  | entry :: entries => entry.movedBy d :: movedAllBy d entries
end

@[simp] theorem Register.movedBy_zero (r : Register) : r.movedBy 0 = r := by
  simp [movedBy]

/-- A moved entry takes as many addresses as before. -/
@[simp] theorem span_movedBy (d : Nat) (entry : Entry) : (entry.movedBy d).span = entry.span := by
  cases entry <;> rfl

/-- Moved entries take as many addresses one after the other as before. -/
@[simp] theorem totalSpan_movedAllBy (d : Nat) (entries : List Entry) :
    totalSpan (movedAllBy d entries) = totalSpan entries := by
  induction entries with
  | nil => rfl
  | cons entry entries ih => simp [movedAllBy, totalSpan, ih]

/-- Moved alternatives take as many addresses as before. -/
@[simp] theorem greatestSpan_movedAllBy (d : Nat) (entries : List Entry) :
    greatestSpan (movedAllBy d entries) = greatestSpan entries := by
  induction entries with
  | nil => rfl
  | cons entry entries ih => simp [movedAllBy, greatestSpan, ih]

mutual
/-- An entry that is moved by nothing stays as it is. -/
@[simp] theorem Entry.movedBy_zero : (entry : Entry) → entry.movedBy 0 = entry
  | .register r => by simp [Entry.movedBy]
  | .bank b => by simp [Entry.movedBy]
  | .pair p => by simp [Entry.movedBy]
  | .overlay o => by simp [Entry.movedBy]
  | .group head content => by simp [Entry.movedBy, movedAllBy_zero content]
  | .union head content => by simp [Entry.movedBy, movedAllBy_zero content]

@[simp] theorem movedAllBy_zero : (entries : List Entry) → movedAllBy 0 entries = entries
  | [] => rfl
  | entry :: entries => by simp [movedAllBy, Entry.movedBy_zero entry, movedAllBy_zero entries]
end

/-! ## expansion -/

/-- Moving an address and shifting it comes to shifting it by both. -/
theorem rebase_add (d shift address : Nat) (name : String) :
    rebase shift (d + address) name = rebase (shift + d) address name := by
  rw [rebase, rebase, Nat.add_assoc]

/-- A moved register expands as the register does under the greater shift. -/
theorem expandRegister_movedBy (d shift : Nat) (r : Register) :
    expandRegister find shift (r.movedBy d) = expandRegister find (shift + d) r := by
  simp only [expandRegister, Register.movedBy, rebase_add]

mutual
/-- Moving an entry and expanding it is expanding it with a greater shift. -/
theorem expandEntry_movedBy (d shift : Nat) : (entry : Entry) →
    expandEntry find shift (entry.movedBy d) = expandEntry find (shift + d) entry
  | .register r => by simp only [Entry.movedBy, expandEntry, expandRegister_movedBy]
  | .bank b => by simp only [Entry.movedBy, expandEntry, rebase_add]
  | .pair p => by simp only [Entry.movedBy, expandEntry, expandRegister_movedBy]
  | .overlay o => by simp only [Entry.movedBy, expandEntry, rebase_add]
  | .group head content => by
      simp only [Entry.movedBy, expandEntry, rebase_add, expandEntries_movedAllBy d shift content]
  | .union head content => by
      simp only [Entry.movedBy, expandEntry, rebase_add, expandEntries_movedAllBy d shift content,
        UnionHead.label]

/-- Moving entries and expanding them is expanding them with a greater shift. -/
theorem expandEntries_movedAllBy (d shift : Nat) : (entries : List Entry) →
    expandEntries find shift (movedAllBy d entries) = expandEntries find (shift + d) entries
  | [] => by simp only [movedAllBy, expandEntries]
  | entry :: entries => by
      simp only [movedAllBy, expandEntries, expandEntry_movedBy d shift entry,
        expandEntries_movedAllBy d shift entries]
end

/-! ## what names mean -/

/-- What a use learns of its template. -/
inductive Offer where
  | group (number span : Nat)
  | register (number : Nat) (access : Access)
  deriving DecidableEq

/-- What a template of a number offers. -/
def Template.offer (number : Nat) : Template → Offer
  | .group g => .group number g.head.span
  | .register r => .register number r.access

/-- What the template of a name offers. -/
def Library.offer? (library : Library) (key : String) : Option Offer :=
  (library.numberOf? key).bind fun number => (library.get? number).map (·.offer number)

/-- Names mean the same in a larger library, in which more names mean something. -/
def Library.CoveredBy (library larger : Library) : Prop :=
  ∀ key offer, library.offer? key = some offer → larger.offer? key = some offer

/-- What is offered under a name is offered by the template with its number. -/
theorem Library.offer?_eq_some_iff {library : Library} {key : String} {offer : Offer} :
    library.offer? key = some offer ↔
      ∃ number t, library.numberOf? key = some number ∧ library.get? number = some t ∧
        t.offer number = offer := by
  simp [Library.offer?, Option.bind_eq_some_iff]

theorem Library.CoveredBy.refl (library : Library) : library.CoveredBy library := fun _ _ h => h

/-- A library is covered by what covers a library that covers it. -/
theorem Library.CoveredBy.trans {library larger largest : Library} (h : library.CoveredBy larger)
    (h' : larger.CoveredBy largest) : library.CoveredBy largest :=
  fun key offer hoffer => h' key offer (h key offer hoffer)

/-! ## lines read again -/

/-- Whether an entry is a bank. -/
def Entry.isBank : Entry → Bool
  | .bank _ => true
  | _ => false

@[simp] theorem Entry.isBank_movedBy (d : Nat) (entry : Entry) :
    (entry.movedBy d).isBank = entry.isBank := by
  cases entry <;> rfl

/-- The entries of a union are read one by one, and a bank is refused. -/
theorem readAlternatives_cons (library : Library) (offset : Nat) (node : Node) (nodes : List Node) :
    readAlternatives library offset (node :: nodes) = (do
      let entry ← readEntry library offset node
      if entry.isBank then refuse .bankInUnion node.number
      else do
        let entries ← readAlternatives library offset nodes
        .ok (entry :: entries)) := by
  simp only [readAlternatives]
  congr 1
  funext entry
  cases entry <;> rfl

/-- The second computation gives what the first gives `d` addresses further, if that is not
lost. -/
abbrev Moves {α : Type} (move : α → α) (lost : α → Prop) (x y : Except Error α) : Prop :=
  Matches False (fun a b => b = move a) lost x y

variable {library larger : Library}

/-- What is read behind a check, before other entries, is the first of them. -/
theorem exists_cons_of_checked {p : Prop} [Decidable p] {problem : Problem} {line : Nat}
    {entry : Entry} {rest : Except Error (List Entry)} {es : List Entry}
    (h : (if p then refuse problem line else do
      let entries ← rest
      .ok (entry :: entries)) = .ok es) : ∃ entries, es = entry :: entries := by
  split at h
  · exact absurd h refuse_ne_ok
  · obtain ⟨entries, -, hes⟩ := bind_eq_ok_iff.mp h
    exact ⟨entries, (Except.ok.inj hes).symm⟩

/-- A register that is read further on is the register moved. -/
theorem matches_readRegister (d offset : Nat) (wanted : List Access) (otherwise : Option Access)
    (node : Node) :
    Moves (·.movedBy d) (fun _ => False) (readRegister offset wanted otherwise node)
      (readRegister (d + offset) wanted otherwise node) := by
  simp only [readRegister]
  refine .bind_same fun _ => .bind_same fun _ => .bind_same fun _ => ?_
  -- one case for each way to settle the mode
  split
  all_goals
    exact .bind_same fun _ => .bind_same fun _ => .bind_same fun _ => .ok rfl

/-- So is an array of registers. -/
theorem matches_readBank (d offset : Nat) (name : String) (tokens : List String) (node : Node) :
    Moves (fun b => { b with base := d + b.base }) (fun _ => False)
      (readBank offset name tokens node) (readBank (d + offset) name tokens node) := by
  simp only [readBank]
  split
  · exact .bind_same fun _ => .bind_same fun _ => .bind_same fun _ => .bind_same fun _ => .ok rfl
  · trivial

/-- A use reads the same of its template. -/
theorem matches_readUse (h : library.CoveredBy larger) (d offset : Nat) (node : Node) :
    Moves (·.movedBy d) (fun _ => False) (readUse library offset node)
      (readUse larger (d + offset) node) := by
  simp only [readUse]
  refine .bind_same fun words => .bind_same fun _ => .bind_same fun _ => ?_
  obtain ⟨token, tokens⟩ := words
  simp only
  cases hoffer : library.offer? (String.ofList (token.toList.dropWhile (· = ':'))) with
  | none =>
      split
      · exact .of_not id _ _
      · next number hnumber =>
        split
        · next t hget => simp [Library.offer?, hnumber, hget] at hoffer
        · next t hget => simp [Library.offer?, hnumber, hget] at hoffer
        · exact .of_not id _ _
  | some offer =>
      obtain ⟨number, t, hnumber, hget, ht⟩ := Library.offer?_eq_some_iff.mp hoffer
      obtain ⟨number', t', hnumber', hget', ht'⟩ :=
        Library.offer?_eq_some_iff.mp (h _ _ hoffer)
      rw [← ht] at ht'
      cases t with
      | group g =>
          cases t' with
          | register r => simp [Template.offer] at ht'
          | group g' =>
              obtain ⟨rfl, hspan⟩ : number' = number ∧ g'.head.span = g.head.span := by
                simpa [Template.offer] using ht'
              simp only [hnumber, hget, hnumber', hget', hspan]
              split
              · trivial
              · exact .bind_same fun _ => .ok rfl
      | register r =>
          cases t' with
          | group g => simp [Template.offer] at ht'
          | register r' =>
              obtain ⟨rfl, haccess⟩ : number' = number ∧ r'.access = r.access := by
                simpa [Template.offer] using ht'
              simp only [hnumber, hget, hnumber', hget', haccess]
              exact .bind_same fun _ => .bind_same fun _ => .ok rfl

/-- So is a register or a use of one, also with more templates to choose from. -/
theorem matches_readRegisterOrUse (h : library.CoveredBy larger) (d offset : Nat)
    (wanted : List Access) (otherwise : Option Access) (node : Node) :
    Moves (·.movedBy d) (fun _ => False) (readRegisterOrUse library offset wanted otherwise node)
      (readRegisterOrUse larger (d + offset) wanted otherwise node) := by
  simp only [readRegisterOrUse]
  split
  · refine (matches_readUse h d offset node).bind_sure ?_
    rintro use _ rfl
    cases use with
    | group head => trivial
    | register r => exact .bind_same fun _ => .ok rfl
  · exact matches_readRegister d offset wanted otherwise node

/-- So are the registers of a pair. -/
theorem matches_readPair (h : library.CoveredBy larger) (d offset : Nat) (tokens : List String)
    (children : List Node) (line : Nat) :
    Moves (fun p => ⟨p.read.movedBy d, p.write.movedBy d⟩) (fun _ => False)
      (readPair library offset tokens children line)
      (readPair larger (d + offset) tokens children line) := by
  simp only [readPair]
  refine .bind_same fun _ => ?_
  split
  · refine (matches_readRegisterOrUse h d offset _ none _).bind_sure ?_
    rintro read _ rfl
    refine (matches_readRegisterOrUse h d offset _ none _).bind_sure ?_
    rintro write _ rfl
    exact .ok rfl
  · trivial

/-- The registers of an overlay have their indices wherever it is. -/
theorem matches_readOverlaid (h : library.CoveredBy larger) (access : Access) (index : Nat)
    (nodes : List Node) :
    Moves id (fun _ => False) (readOverlaid library access index nodes)
      (readOverlaid larger access index nodes) := by
  induction nodes generalizing index with
  | nil => exact .ok rfl
  | cons node nodes ih =>
      simp only [readOverlaid]
      refine .bind_same fun words => ?_
      split
      · trivial
      · have hregister := matches_readRegisterOrUse h 0 (index % UInt32.size) [] (some access) node
        rw [Nat.zero_add] at hregister
        refine hregister.bind_sure ?_
        rintro register _ rfl
        refine (ih (index + 1)).bind_sure ?_
        rintro registers _ rfl
        exact .ok (by simp)

/-- So is an overlay, whose registers all stand at its address. -/
theorem matches_readOverlay (h : library.CoveredBy larger) (d offset : Nat) (tokens : List String)
    (node : Node) :
    Moves (fun o => { o with offset := d + o.offset }) (fun _ => False)
      (readOverlay library offset tokens node) (readOverlay larger (d + offset) tokens node) := by
  simp only [readOverlay]
  split
  · refine .bind_same fun _ => .bind_same fun access => ?_
    refine (matches_readOverlaid h access 0 node.children).bind_sure ?_
    rintro registers _ rfl
    exact .ok rfl
  · trivial

mutual
/-- A line gives the moved entry, unless that ends beyond the last address. -/
theorem matches_readEntry (h : library.CoveredBy larger) (d : Nat) : (offset : Nat) →
    (node : Node) →
    Moves (·.movedBy d) (fun e => Address.last < d + offset + e.span)
      (readEntry library offset node) (readEntry larger (d + offset) node)
  | offset, ⟨line, text, doc, children⟩ => by
      simp only [readEntry]
      refine .bind_same fun words => ?_
      obtain ⟨token, tokens⟩ := words
      simp only
      split
      · trivial
      · trivial
      · refine (matches_readUse h d offset _).bind_sure ?_
        rintro use _ rfl
        cases use <;> exact .ok rfl
      · split
        · refine (matches_readPair h d offset tokens children line).bind_sure ?_
          rintro pair _ rfl
          exact .ok rfl
        split
        · refine (matches_readOverlay h d offset tokens _).bind_sure ?_
          rintro overlay _ rfl
          exact .ok rfl
        split
        · refine .bind_same fun name => ?_
          refine (matches_readAlternatives h d offset children).bind ?_ ?_
          · rintro content _ rfl
            exact .ok (by simp [Entry.movedBy])
          · intro content hlost entry hentry
            obtain rfl := Except.ok.inj hentry
            exact hlost
        · trivial
      · refine .bind_same fun named => ?_
        refine (matches_readMembers h d offset 0 children).bind ?_ ?_
        · rintro content _ rfl
          exact .ok (by simp [Entry.movedBy])
        · intro content hlost entry hentry
          obtain rfl := Except.ok.inj hentry
          exact hlost
      · split
        · refine (matches_readBank d offset token tokens _).bind_sure ?_
          rintro bank _ rfl
          exact .ok rfl
        · refine (matches_readRegister d offset [] none _).bind_sure ?_
          rintro register _ rfl
          exact .ok rfl

/-- The lines of a group give the moved entries, unless these end beyond the last
address. -/
theorem matches_readMembers (h : library.CoveredBy larger) (d : Nat) : (offset taken : Nat) →
    (nodes : List Node) →
    Moves (movedAllBy d) (fun es => Address.last < d + offset + taken + totalSpan es)
      (readMembers library offset taken nodes) (readMembers larger (d + offset) taken nodes)
  | _, _, [] => by
      simp only [readMembers]
      exact .ok rfl
  | offset, taken, node :: nodes => by
      have hentry := matches_readEntry h d (offset + taken) node
      rw [← Nat.add_assoc] at hentry
      simp only [readMembers]
      refine hentry.bind ?_ ?_
      · rintro entry _ rfl
        rw [span_movedBy]
        by_cases hfar : Address.last < d + offset + taken + entry.span
        · rw [if_pos hfar]
          refine .of_lost (fun es hes => ?_) _
          obtain ⟨entries, rfl⟩ := exists_cons_of_checked hes
          simp only [totalSpan]
          omega
        · rw [if_neg hfar, if_neg (by omega)]
          refine (matches_readMembers h d offset (taken + entry.span) nodes).bind ?_ ?_
          · rintro entries _ rfl
            exact .ok rfl
          · intro entries hlost es hes
            obtain rfl := Except.ok.inj hes
            simp only [totalSpan]
            omega
      · intro entry hlost es hes
        obtain ⟨entries, rfl⟩ := exists_cons_of_checked hes
        simp only [totalSpan]
        omega

/-- The lines of a union give the moved entries, unless one of these ends beyond the last
address. -/
theorem matches_readAlternatives (h : library.CoveredBy larger) (d : Nat) : (offset : Nat) →
    (nodes : List Node) →
    Moves (movedAllBy d) (fun es => Address.last < d + offset + greatestSpan es)
      (readAlternatives library offset nodes) (readAlternatives larger (d + offset) nodes)
  | _, [] => by
      simp only [readAlternatives]
      exact .ok rfl
  | offset, node :: nodes => by
      rw [readAlternatives_cons, readAlternatives_cons]
      refine (matches_readEntry h d offset node).bind ?_ ?_
      · rintro entry _ rfl
        refine .ite (by rw [Entry.isBank_movedBy]) (fun _ => trivial) fun _ => ?_
        refine (matches_readAlternatives h d offset nodes).bind ?_ ?_
        · rintro entries _ rfl
          exact .ok rfl
        · intro entries hlost es hes
          obtain rfl := Except.ok.inj hes
          simp only [greatestSpan]
          omega
      · intro entry hlost es hes
        obtain ⟨entries, rfl⟩ := exists_cons_of_checked hes
        simp only [greatestSpan]
        omega
end

/-- A group that was read is read again with more templates. -/
theorem readGroup_eq_ok_of_covered (h : library.CoveredBy larger) {node : Node} {g : Group}
    (hg : readGroup library node = .ok g) : readGroup larger node = .ok g := by
  simp only [readGroup, bind_eq_ok_iff] at hg ⊢
  obtain ⟨tokens, htokens, name, hname, content, hcontent, hg⟩ := hg
  have hfits := readMembers_le_last hcontent (Nat.zero_le _)
  obtain ⟨content', hcontent', hmoved⟩ := (matches_readMembers h 0 0 0 node.children).ok_of hcontent
    (by simpa using hfits)
  rw [movedAllBy_zero] at hmoved
  rw [hmoved] at hcontent'
  exact ⟨tokens, htokens, name, hname, content, hcontent', hg⟩

/-- So is a template. -/
theorem readTemplate_eq_ok_of_covered (h : library.CoveredBy larger) {node : Node} {t : Template}
    (ht : Catalog.readTemplate library node = .ok t) : Catalog.readTemplate larger node = .ok t := by
  simp only [Catalog.readTemplate] at ht ⊢
  split at ht
  · next hgroup =>
    obtain ⟨g, hg, ht⟩ := bind_eq_ok_iff.mp ht
    rw [if_pos hgroup]
    exact bind_eq_ok_iff.mpr ⟨g, readGroup_eq_ok_of_covered h hg, ht⟩
  · next hregister =>
    rwa [if_neg hregister]

end DeviceRegisters.Definition
