import Mathlib
import DeviceRegisters.Proofs.Definition.Expansion
import DeviceRegisters.Proofs.Definition.Likeness

/-!
# DeviceRegisters.Proofs.Definition.Inlining

A use of a group means what is written beneath the group's line.

`spelledOut` writes a use out: as a group of the use's name with the lines of the
definition beneath it.  Where the use stands, the two lines are read as entries alike
(`matches_spelledOut`); beneath groups and unions this makes the lines around them
alike (`matches_readEntry_of_exchanged`), and with these the catalogs.  So a use can be
written out anywhere, which changes neither whether the sources load nor what they
expand to (`inline_use`).
-/

namespace DeviceRegisters.Definition

open Outline (Node)

variable {P : Prop} {library : Library} {offset : Nat}

/-! ## names in lines -/

/-- A letter is no mark. -/
theorem ne_mark_of_isLetter {c : Char} (h : Name.isLetter c = true) : c ≠ ':' ∧ c ≠ '!' := by
  constructor
  · rintro rfl
    exact absurd h (by decide)
  · rintro rfl
    exact absurd h (by decide)

/-- Between the digit 0 and the letter z nothing is blank. -/
theorem isBlank_of_between {c : Char} (hfirst : '0' ≤ c) (hlast : c ≤ 'z') :
    Text.isBlank c = false := by
  have hfirst : 48 ≤ c.toNat := hfirst
  have hlast : c.toNat ≤ 122 := hlast
  simp only [Text.isBlank, Bool.or_eq_false_iff, Bool.and_eq_false_iff, decide_eq_false_iff_not,
    beq_eq_false_iff_ne]
  omega

/-- No character of a name is white space. -/
theorem isBlank_of_isRest {c : Char} (h : Name.isRest c = true) : Text.isBlank c = false := by
  simp only [Name.isRest, Name.isLetter, Bool.or_eq_true, Bool.and_eq_true, decide_eq_true_eq,
    beq_iff_eq] at h
  rcases h with ((⟨hfirst, hlast⟩ | ⟨hfirst, hlast⟩) | ⟨hfirst, hlast⟩) | rfl
  · exact isBlank_of_between (Char.le_trans (by decide) hfirst) hlast
  · exact isBlank_of_between (Char.le_trans (by decide) hfirst) (Char.le_trans hlast (by decide))
  · exact isBlank_of_between hfirst (Char.le_trans hlast (by decide))
  · decide

/-- A name starts with a letter, so no mark stands in front of it. -/
theorem exists_of_isValid {name : String} (h : Name.isValid name = true) :
    ∃ c cs, name.toList = c :: cs ∧ c ≠ ':' ∧ c ≠ '!' ∧ ∀ d ∈ c :: cs, Text.isBlank d = false := by
  simp only [Name.isValid] at h
  split at h
  · contradiction
  · next c cs hname =>
    obtain ⟨hletter, hrest⟩ := Bool.and_eq_true_iff.mp h
    obtain ⟨hcolon, hbang⟩ := ne_mark_of_isLetter hletter
    refine ⟨c, cs, hname, hcolon, hbang, List.forall_mem_cons.mpr ⟨?_, fun d hd => ?_⟩⟩
    · exact isBlank_of_isRest (by simp [Name.isRest, hletter])
    · exact isBlank_of_isRest (List.all_eq_true.mp hrest d hd)

/-- The line of a group of a name is one word. -/
theorem wordsOf_bang {name : String} (h : Name.isValid name = true) :
    Text.wordsOf ("!" ++ name) = ["!" ++ name] := by
  obtain ⟨c, cs, hname, -, -, hblank⟩ := exists_of_isValid h
  have hline : ("!" ++ name).toList = '!' :: c :: cs := by simp [hname]
  have hpieces : Text.pieces Text.isBlank ('!' :: c :: cs) = ['!' :: c :: cs] :=
    Text.pieces_of_forall (List.forall_mem_cons.mpr ⟨by decide, hblank⟩)
  rw [Text.wordsOf, hline, Text.words, hpieces]
  simp only [List.filter, List.isEmpty_cons, Bool.not_false, List.map_cons, List.map_nil]
  rw [← hline, String.ofList_toList]

/-- That word is read as the name. -/
theorem readGroupName_bang {name : String} (h : Name.isValid name = true) (line : Nat) :
    readGroupName ("!" ++ name) [] line = .ok (name, false) := by
  obtain ⟨c, cs, hname, -, hbang, -⟩ := exists_of_isValid h
  have hline : ("!" ++ name).toList = '!' :: c :: cs := by simp [hname]
  have hdrop : ('!' :: c :: cs).dropWhile (· = '!') = c :: cs := by
    rw [List.dropWhile_cons_of_pos (by simp), List.dropWhile_cons_of_neg (by simpa using hbang)]
  simp only [readGroupName, hline]
  split
  · next heq =>
    obtain rfl : c = '!' := (List.cons.inj (List.cons.inj heq).2).1
    contradiction
  · rw [hdrop, ← hname, String.ofList_toList]
    simp [checkName, h, checkCount, bind, Except.bind]

/-! ## lines with entries beneath them -/

/-- A line that starts with an exclamation mark is read as a group. -/
theorem readEntry_group {text token : String} {tokens doc : List String} {children : List Node}
    {line : Nat} (hwords : Text.wordsOf text = token :: tokens)
    (hbang : token.toList.head? = some '!') :
    readEntry library offset ⟨line, text, doc, children⟩ = (do
      let (name, hidden) ← readGroupName token tokens line
      let content ← readMembers library offset 0 children
      .ok (.group ⟨name, offset, totalSpan content, hidden, none, doc⟩ content)) := by
  simp only [readEntry, readTokens, hwords]
  simp only [bind, Except.bind, hbang]

/-- The line of a union is read as one. -/
theorem readEntry_union {text : String} {tokens doc : List String} {children : List Node}
    {line : Nat} (hwords : Text.wordsOf text = "*UNION" :: tokens) :
    readEntry library offset ⟨line, text, doc, children⟩ = (do
      let name ← readUnionName tokens line
      let content ← readAlternatives library offset children
      .ok (.union ⟨name, offset, greatestSpan content, doc⟩ content)) := by
  have hstar : "*UNION".toList.head? = some '*' := by decide
  have hpair : "*UNION" ≠ "*RW" := by decide
  have hoverlay : "*UNION" ≠ "*OVERLAY" := by decide
  simp only [readEntry, readTokens, hwords]
  simp only [bind, Except.bind, hstar, if_neg hpair, if_neg hoverlay, if_true]

/-! ## a use written out -/

/-- The line uses a template of the key under the name: `:KEY`, `:KEY -` or `:KEY NAME`. -/
structure IsUse (use : Node) (key name : String) : Prop where
  leaf : use.children = []
  words : Text.wordsOf use.text = [":" ++ key] ∧ name = key ∨
    Text.wordsOf use.text = [":" ++ key, "-"] ∧ name = key ∨
    Text.wordsOf use.text = [":" ++ key, name] ∧ name ≠ "-"

/-- The use as a group of its name, with the lines of the definition beneath it, and the
definition's documentation if the use has none. -/
def spelledOut (use definition : Node) (name : String) : Node :=
  ⟨use.number, "!" ++ name, preferred use.doc definition.doc, definition.children⟩

/-- The name in the line of a group. -/
def groupName? (node : Node) : Option String :=
  match Text.wordsOf node.text with
  | [] => none
  | token :: tokens => (readGroupName token tokens node.number).toOption.map (·.1)

/-- A group is said to be what its line says, and to consist of the lines beneath. -/
theorem readGroup_eq_ok {node : Node} {g : Group} (h : readGroup library node = .ok g) :
    groupName? node = some g.name ∧ Name.isValid g.name = true ∧ g.head.doc = node.doc ∧
      g.head.span = totalSpan g.content ∧ readMembers library 0 0 node.children = .ok g.content := by
  simp only [readGroup, bind_eq_ok_iff] at h
  obtain ⟨⟨token, tokens⟩, htokens, ⟨name, hidden⟩, hname, content, hcontent, hg⟩ := h
  obtain rfl := Except.ok.inj hg
  have hvalid : Name.isValid name = true := by
    simp only [readGroupName, bind_eq_ok_iff] at hname
    obtain ⟨_, hcheck, _, -, hname⟩ := hname
    obtain ⟨rfl, -⟩ := Prod.mk.inj (Except.ok.inj hname)
    by_contra hinvalid
    rw [checkName, if_neg hinvalid] at hcheck
    exact absurd hcheck refuse_ne_ok
  have hwords : Text.wordsOf node.text = token :: tokens := by
    simp only [readTokens] at htokens
    split at htokens
    · exact absurd htokens refuse_ne_ok
    · next heq =>
      obtain ⟨rfl, rfl⟩ := Prod.mk.inj (Except.ok.inj htokens)
      exact heq
  have hfound : groupName? node = some name := by
    simp [groupName?, hwords, hname, Except.toOption]
  exact ⟨hfound, hvalid, rfl, rfl, hcontent⟩

/-- The name of a use: its second word, unless there is none or a dash in its place. -/
def useName (key : String) : List String → String
  | own :: _ => if own = "-" then key else own
  | [] => key

/-- A use of a group is read as one, if its name is a name. -/
theorem readUse_group (offset : Nat) {use : Node} {token key name : String}
    {tokens : List String} {number : Nat} {g : Group} (hleaf : use.children = [])
    (hwords : Text.wordsOf use.text = token :: tokens) (hcount : tokens.length ≤ 1)
    (hkey : String.ofList (token.toList.dropWhile (· = ':')) = key)
    (hname : useName key tokens = name)
    (hnumber : library.numberOf? key = some number)
    (hget : library.get? number = some (.group g)) :
    readUse library offset use = (do
      checkName name use.number
      .ok (.group ⟨name, offset, g.head.span, false, some number, use.doc⟩)) := by
  have hchecked : checkCount tokens 0 2 use.number = .ok () := by
    rw [checkCount, if_neg (Nat.not_lt_zero _), if_neg (by omega)]
  have hchildren : checkLeaf use.children use.number = .ok () := by
    rw [hleaf]
    rfl
  simp only [readUse, readTokens, hwords]
  simp only [bind, Except.bind, hchecked, hchildren, hkey, hnumber, hget,
    if_neg (Nat.not_lt.mpr hcount)]
  rw [← hname]
  rfl

/-- So is its line as an entry. -/
theorem readEntry_use {use : Node} {key name : String} {number : Nat} {g : Group}
    (huse : IsUse use key name) (hkey : Name.isValid key = true)
    (hnumber : library.numberOf? key = some number)
    (hget : library.get? number = some (.group g)) :
    readEntry library offset use = (do
      checkName name use.number
      .ok (.group ⟨name, offset, g.head.span, false, some number, use.doc⟩ [])) := by
  obtain ⟨c, cs, hchars, hcolon, -, -⟩ := exists_of_isValid hkey
  have hline : (":" ++ key).toList = ':' :: c :: cs := by simp [hchars]
  have hdrop : String.ofList ((":" ++ key).toList.dropWhile (· = ':')) = key := by
    rw [hline, List.dropWhile_cons_of_pos (by simp),
      List.dropWhile_cons_of_neg (by simpa using hcolon), ← hchars, String.ofList_toList]
  obtain ⟨tokens, hwords, hcount, hname⟩ : ∃ tokens, Text.wordsOf use.text = (":" ++ key) :: tokens ∧
      tokens.length ≤ 1 ∧ useName key tokens = name := by
    rcases huse.words with ⟨hwords, rfl⟩ | ⟨hwords, rfl⟩ | ⟨hwords, hname⟩
    · exact ⟨[], hwords, Nat.zero_le 1, rfl⟩
    · exact ⟨["-"], hwords, Nat.le_refl 1, rfl⟩
    · exact ⟨[name], hwords, Nat.le_refl 1, if_neg hname⟩
  have hread := readUse_group offset huse.leaf hwords hcount hdrop hname hnumber hget
  obtain ⟨line, text, doc, children⟩ := use
  simp only [readEntry, readTokens, hwords]
  simp only [bind, Except.bind, hline, List.head?_cons, hread]
  cases checkName name line with
  | error e => rfl
  | ok _ => rfl

/-- The use of a group and the group written out expand alike. -/
theorem alike_movedAllBy (hwell : library.WellFormed) {number : Nat} {g : Group}
    (hget : library.get? number = some (.group g)) (hspan : g.head.span = totalSpan g.content)
    (name : String) (doc : List String) :
    Entry.Alike library (.group ⟨name, offset, g.head.span, false, some number, doc⟩ [])
      (.group ⟨name, offset, totalSpan (movedAllBy offset g.content), false, none,
        preferred doc g.head.doc⟩ (movedAllBy offset g.content)) where
  span := by simp only [Entry.span, totalSpan_movedAllBy, hspan]
  isBank := rfl
  expand find hfind shift := by
    have hlt : number < library.length := Library.lt_length_of_get? hget
    have hfound : find number = some (.group g.head.doc fun base =>
        expandEntries library.instance? base g.content) := by
      rw [hfind number hlt, hwell.instance?_eq, hget]
      rfl
    have huses := (hwell.usesBelow hget).of_subset (List.Subset.refl (registersIn g.content))
      (List.subset_cons_self g.head (headsIn g.content))
    have hcontent : expandEntries find (shift + offset) g.content =
        expandEntries library.instance? (shift + offset) g.content :=
      expandEntries_congr (fun n hn => hfind n (Nat.lt_trans hn hlt)) _ _ huses
    simp only [expandEntry, rebase, hfound, expandEntries_movedAllBy, hcontent,
      totalSpan_movedAllBy, hspan]
    split
    · rfl
    · rfl

/-- Where a use of a group stands, the group written out is read as an entry alike, or not
at all if it does not fit. -/
theorem matches_spelledOut (hwell : library.WellFormed) {use definition : Node}
    {key name : String} {number : Nat} {g : Group} (hdefines : library.Defines definition number g)
    (hkey : groupName? definition = some key) (huse : IsUse use key name) (offset : Nat) :
    Matches (Name.isValid name = true) (Entry.Alike library)
      (fun e => Address.last < offset + e.span) (readEntry library offset use)
      (readEntry library offset (spelledOut use definition name)) := by
  obtain ⟨hget, older, hcovered, hread⟩ := hdefines
  obtain ⟨hname, hvalid, hdoc, hspan, hcontent⟩ := readGroup_eq_ok hread
  obtain rfl : g.name = key := Option.some.inj (hname.symm.trans hkey)
  have hnumber : library.numberOf? g.name = some number :=
    hwell.numberOf?_eq_some_iff.mpr ⟨_, hget, rfl⟩
  rw [readEntry_use huse hvalid hnumber hget, checkName]
  by_cases hn : Name.isValid name = true
  · rw [if_pos hn, spelledOut, readEntry_group (wordsOf_bang hn) (by simp), readGroupName_bang hn]
    have hmoved := matches_readMembers hcovered offset 0 0 definition.children
    rw [hcontent, Nat.add_zero] at hmoved
    change Matches _ _ _ (.ok _) (readMembers library offset 0 definition.children >>= _)
    cases hlines : readMembers library offset 0 definition.children with
    | error e =>
        have hlost : Address.last < offset + totalSpan g.content := by rwa [hlines] at hmoved
        rwa [← hspan] at hlost
    | ok content =>
        obtain rfl : content = movedAllBy offset g.content := by rwa [hlines] at hmoved
        rw [← hdoc]
        exact alike_movedAllBy hwell hget hspan name use.doc
  · rw [if_neg hn]
    exact .of_not hn _ _

/-! ## one line in the place of another -/

/-- A line beneath which entries stand: that of a group or of a union. -/
def HoldsEntries (text : String) : Prop :=
  ∃ token tokens, Text.wordsOf text = token :: tokens ∧
    (token.toList.head? = some '!' ∨ token = "*UNION")

/-- One node stands in the place of another, beneath groups and unions at any depth. -/
inductive Exchanged (x y : Node) : Node → Node → Prop where
  | here : Exchanged x y x y
  | beneath (number : Nat) (text : String) (doc : List String) (before after : List Node)
      {a b : Node} : HoldsEntries text → Exchanged x y a b →
      Exchanged x y ⟨number, text, doc, before ++ a :: after⟩ ⟨number, text, doc, before ++ b :: after⟩

/-- At every address, the second line is read as an entry like the first, or not at all if
that does not fit. -/
def Replaces (P : Prop) (library : Library) (a b : Node) : Prop :=
  ∀ offset, Matches P (Entry.Alike library) (fun e => Address.last < offset + e.span)
    (readEntry library offset a) (readEntry library offset b)

/-- In a group nothing is lost, as its entries are checked to fit. -/
theorem matches_readMembers_of_replaces {a b : Node} (h : Replaces P library a b)
    (offset taken : Nat) (before after : List Node) :
    Matches P (ContentAlike library) (fun _ => False)
      (readMembers library offset taken (before ++ a :: after))
      (readMembers library offset taken (before ++ b :: after)) := by
  induction before generalizing taken with
  | nil =>
      simp only [List.nil_append, readMembers]
      refine (h (offset + taken)).bind ?_ ?_
      · intro e e' he
        rw [he.span]
        refine .ite Iff.rfl (fun _ => trivial) fun _ => .bind_same fun es => .ok ?_
        exact .cons he (.refl library es)
      · intro e hlost es hes
        rw [if_pos hlost] at hes
        exact absurd hes refuse_ne_ok
  | cons node before ih =>
      simp only [List.cons_append, readMembers]
      refine .bind_same fun e => .ite Iff.rfl (fun _ => trivial) fun _ => ?_
      exact (ih (taken + e.span)).bind_sure fun _ _ hes => .ok (.cons (.refl library e) hes)

/-- A union is lost with an entry that does not fit. -/
theorem matches_readAlternatives_of_replaces {a b : Node} (h : Replaces P library a b)
    (offset : Nat) (before after : List Node) :
    Matches P (ContentAlike library) (fun es => Address.last < offset + greatestSpan es)
      (readAlternatives library offset (before ++ a :: after))
      (readAlternatives library offset (before ++ b :: after)) := by
  induction before with
  | nil =>
      simp only [List.nil_append, readAlternatives_cons]
      refine (h offset).bind ?_ ?_
      · intro e e' he
        refine .ite (by rw [he.isBank]) (fun _ => trivial) fun _ => .bind_same fun es => .ok ?_
        exact .cons he (.refl library es)
      · intro e hlost es hes
        obtain ⟨entries, rfl⟩ := exists_cons_of_checked hes
        simp only [greatestSpan]
        omega
  | cons node before ih =>
      simp only [List.cons_append, readAlternatives_cons]
      refine .bind_same fun e => .ite Iff.rfl (fun _ => trivial) fun _ => ?_
      refine ih.bind (fun _ _ hes => .ok (.cons (.refl library e) hes)) ?_
      intro entries hlost es hes
      obtain rfl := Except.ok.inj hes
      simp only [greatestSpan]
      omega

/-- A use and what replaces it make the lines above them replace one another. -/
theorem Replaces.exchanged {x y a b : Node} (h : Replaces P library x y)
    (hexchanged : Exchanged x y a b) : Replaces P library a b := by
  induction hexchanged with
  | here => exact h
  | @beneath number text doc before after a b htext _ ih =>
      intro offset
      obtain ⟨token, tokens, hwords, hbang | rfl⟩ := htext
      · rw [readEntry_group hwords hbang, readEntry_group hwords hbang]
        refine .bind_same fun named => ?_
        refine (matches_readMembers_of_replaces ih offset 0 before after).bind_sure ?_
        intro content content' hcontent
        rw [hcontent.totalSpan]
        refine .ok ⟨rfl, rfl, fun find hfind shift => ?_⟩
        simp only [expandEntry, hcontent.expand find hfind]
      · rw [readEntry_union hwords, readEntry_union hwords]
        refine .bind_same fun name => ?_
        refine (matches_readAlternatives_of_replaces ih offset before after).bind ?_ ?_
        · intro content content' hcontent
          rw [hcontent.greatestSpan]
          refine .ok ⟨rfl, rfl, fun find hfind shift => ?_⟩
          simp only [expandEntry, hcontent.expand find hfind, UnionHead.label]
        · intro content hlost e he
          obtain rfl := Except.ok.inj he
          exact hlost

/-- So does a group that stands by itself. -/
theorem matches_readGroup_of_replaces {a b : Node} (h : Replaces P library a b) (number : Nat)
    (text : String) (doc : List String) (before after : List Node) :
    Matches P (Group.Alike library) (fun _ => False)
      (readGroup library ⟨number, text, doc, before ++ a :: after⟩)
      (readGroup library ⟨number, text, doc, before ++ b :: after⟩) := by
  simp only [readGroup]
  refine .bind_same fun _ => .bind_same fun _ => ?_
  refine (matches_readMembers_of_replaces h 0 0 before after).bind_sure ?_
  intro content content' hcontent
  rw [hcontent.totalSpan]
  exact .ok ⟨rfl, hcontent.expand⟩

/-! ## catalogs -/

namespace Catalog

/-- One node stands in the place of another somewhere beneath a line that describes a
group. -/
inductive ExchangedBeneath (x y : Node) : Node → Node → Prop where
  | mk (number : Nat) (text : String) (doc : List String) (before after : List Node) {a b : Node} :
      isGroupLine ⟨number, text, doc, before ++ a :: after⟩ ∨
        isGroupTemplateLine ⟨number, text, doc, before ++ a :: after⟩ →
      Exchanged x y a b →
      ExchangedBeneath x y ⟨number, text, doc, before ++ a :: after⟩
        ⟨number, text, doc, before ++ b :: after⟩

/-- The lines are both refused, or the catalogs with them are alike. -/
theorem matches_addLine_of_exchanged {c : Catalog} {x y line line' : Node}
    (h : Replaces P c.library x y) (hexchanged : ExchangedBeneath x y line line') :
    MatchesAlike P (c.addLine line) (c.addLine line') := by
  obtain @⟨number, text, doc, before, after, a, b, hline, hexchanged⟩ := hexchanged
  have hreplaces := h.exchanged hexchanged
  rcases hline with hline | hline
  · have hline' : isGroupLine ⟨number, text, doc, before ++ b :: after⟩ := hline
    rw [addLine_group hline, addLine_group hline']
    refine (matches_readGroup_of_replaces hreplaces number text doc before after).bind_sure ?_
    intro g g' hg
    refine .ite (by rw [hg.name]) (fun _ => trivial) fun _ => .ok ⟨.refl c.library, ?_, rfl⟩
    exact List.rel_append (Alike.refl c).groups (.cons hg .nil)
  · have hline' : isGroupTemplateLine ⟨number, text, doc, before ++ b :: after⟩ := hline
    rw [addLine_groupTemplate hline, addLine_groupTemplate hline']
    refine (matches_readGroup_of_replaces hreplaces number _ doc before after).bind_sure ?_
    intro g g' hg
    have ht : Template.Alike c.library (.group g) (.group g') := .group hg
    rcases (Library.Alike.refl c.library).matches_add? ht with ⟨hadd, hadd'⟩ | ⟨hadd, hadd'⟩
    · rw [hadd, hadd']
      trivial
    · rw [hadd, hadd']
      refine .ok ⟨.cons ht (.refl c.library), ?_, rfl⟩
      exact (Alike.refl c).groups.imp fun _ _ hg => hg.append [.group g]

/-- Lines can be added in two parts. -/
theorem addLines_append (c : Catalog) (first second : List Node) :
    c.addLines (first ++ second) = c.addLines first >>= (·.addLines second) := by
  induction first generalizing c with
  | nil => rfl
  | cons node first ih =>
      simp only [List.cons_append, addLines, ih, bind_assoc]

/-- Sources can be added in two parts. -/
theorem addSources_append (c : Catalog) (first second : List (List Node)) :
    c.addSources (first ++ second) = c.addSources first >>= (·.addSources second) := by
  induction first generalizing c with
  | nil => rfl
  | cons nodes first ih =>
      simp only [List.cons_append, addSources, ih, bind_assoc]

/-- The line of a group that can be used by name after earlier sources and the lines in
front: a group of an earlier source, or one that was described as a template, in a line
that has a colon more. -/
inductive SharedBefore (earlier : List (List Node)) (front : List Node) : Node → Prop where
  | group {source : List Node} {definition : Node} : source ∈ earlier → definition ∈ source →
      isGroupLine definition → SharedBefore earlier front definition
  | template {line : Node} : line ∈ earlier.flatten ++ front → isGroupTemplateLine line →
      SharedBefore earlier front (uncolon line)

/-- A group that can be used is a template, of the number that its name stands for. -/
theorem SharedBefore.defines {earlier : List (List Node)} {front : List Node} {definition : Node}
    (h : SharedBefore earlier front definition) {c c' : Catalog} {library : Library}
    (hearlier : empty.addSources earlier = .ok c) (hshelve : shelve c.library c.groups = .ok library)
    (hfront : addLines ⟨library, [], c.constants⟩ front = .ok c') :
    ∃ number g, c'.library.Defines definition number g := by
  have hlater : ∀ {line : Node}, c.Knows line → ∃ number g, c'.library.Defines line number g := by
    intro line hknows
    obtain ⟨number, g, hdefines⟩ := hknows.defines hshelve
    exact ⟨number, g, hdefines.mono (growsTo_addLines hfront).library⟩
  cases h with
  | group hsource hmem hline => exact hlater ((knows_of_addSources hsource hmem hearlier).1 hline)
  | template hmem hline =>
      rcases List.mem_append.mp hmem with hmem | hmem
      · obtain ⟨source, hsource, hmem⟩ := List.mem_flatten.mp hmem
        exact hlater ((knows_of_addSources hsource hmem hearlier).2 hline)
      · exact defines_of_addLines hmem hline hfront

/-- Sources with a use of a group and sources with that use written out are both refused,
or lead to catalogs alike. -/
theorem matches_addSources_of_exchanged (earlier later : List (List Node)) (front back : List Node)
    {use definition line line' : Node} {key name : String}
    (hshared : SharedBefore earlier front definition) (hkey : groupName? definition = some key)
    (huse : IsUse use key name)
    (hline : ExchangedBeneath use (spelledOut use definition name) line line') :
    MatchesAlike (Name.isValid name = true)
      (empty.addSources (earlier ++ (front ++ line :: back) :: later))
      (empty.addSources (earlier ++ (front ++ line' :: back) :: later)) := by
  rw [addSources_append, addSources_append]
  refine .bind_self fun c hearlier => ?_
  refine Matches.bind_sure ?_ fun _ _ halike => matches_addSources halike later
  refine .bind_self fun library hshelve => ?_
  rw [addLines_append, addLines_append]
  refine .bind_self fun c' hfront => ?_
  refine Matches.bind_sure ?_ fun _ _ halike => matches_addLines halike back
  have hwell : c.WellFormed := wellFormed_empty.addSources hearlier
  have hstart : WellFormed ⟨library, [], c.constants⟩ :=
    ⟨shelve_wellFormed hwell.library hwell.groups hshelve, by simp⟩
  obtain ⟨number, g, hdefines⟩ := hshared.defines hearlier hshelve hfront
  refine matches_addLine_of_exchanged (fun offset => ?_) hline
  exact matches_spelledOut (hstart.addLines hfront).library hdefines hkey huse offset

/-- A use of a shared group can be written out wherever it stands: sources that load do so
afterwards and expand to the same, and if the use's name is a name, sources that load
afterwards did so before. -/
theorem inline_use (earlier later : List (List Node)) (front back : List Node)
    {use definition line line' : Node} {key name : String}
    (hshared : SharedBefore earlier front definition) (hkey : groupName? definition = some key)
    (huse : IsUse use key name)
    (hline : ExchangedBeneath use (spelledOut use definition name) line line') :
    (∀ c, empty.addSources (earlier ++ (front ++ line :: back) :: later) = .ok c →
      ∃ c', empty.addSources (earlier ++ (front ++ line' :: back) :: later) = .ok c' ∧
        c'.flatten = c.flatten) ∧
    (Name.isValid name = true →
      ∀ c', empty.addSources (earlier ++ (front ++ line' :: back) :: later) = .ok c' →
        ∃ c, empty.addSources (earlier ++ (front ++ line :: back) :: later) = .ok c ∧
          c'.flatten = c.flatten) := by
  have hmatches := matches_addSources_of_exchanged earlier later front back hshared hkey huse hline
  constructor
  · intro c hc
    obtain ⟨c', hc', halike⟩ := hmatches.ok_of hc not_false
    exact ⟨c', hc', halike.flatten_eq⟩
  · intro hname c' hc'
    obtain ⟨c, hc, halike⟩ := hmatches.of_ok hname hc'
    exact ⟨c, hc, halike.flatten_eq⟩

/-- A port, and a system with a use of it in a union. -/
def portLine : Node := ⟨1, "!PORT", [" a port"], [⟨2, "DATA RW", [], []⟩, ⟨3, "TABLE R 2", [], []⟩]⟩

/-- A use of the port. -/
def portUse : Node := ⟨3, ":PORT B", [], []⟩

/-- A system with an entry in a union. -/
def systemLine (entry : Node) : Node :=
  ⟨1, "!SYS", [], [⟨2, "*UNION", [], [⟨4, "W W", [], []⟩, entry]⟩]⟩

/-- A group that is used in a union, and the line that spells it out there. -/
theorem inline_portUse :
    ∃ c c', empty.addSources [[portLine], [systemLine portUse]] = .ok c ∧
      empty.addSources [[portLine], [systemLine (spelledOut portUse portLine "B")]] = .ok c' ∧
        c'.flatten = c.flatten := by
  have hkey : groupName? portLine = some "PORT" := by cbv
  have huse : IsUse portUse "PORT" "B" := ⟨rfl, .inr (.inr (by decide))⟩
  have hshared : SharedBefore [[portLine]] [] portLine :=
    .group List.mem_cons_self List.mem_cons_self (by decide)
  have hunion : HoldsEntries "*UNION" := ⟨"*UNION", [], by decide, .inr rfl⟩
  have hline : ExchangedBeneath portUse (spelledOut portUse portLine "B") (systemLine portUse)
      (systemLine (spelledOut portUse portLine "B")) :=
    .mk 1 "!SYS" [] [] [] (.inl (by decide)) (.beneath 2 "*UNION" [] [_] [] hunion .here)
  have hloads : (empty.addSources [[portLine], [systemLine portUse]]).toOption.isSome := by cbv
  obtain ⟨c, hc⟩ := Option.isSome_iff_exists.mp hloads
  have hok := eq_ok_of_toOption hc
  obtain ⟨c', hc', hsame⟩ := (inline_use [[portLine]] [] [] [] hshared hkey huse hline).1 c hok
  exact ⟨c, c', hok, hc', hsame⟩

end Catalog
end DeviceRegisters.Definition
