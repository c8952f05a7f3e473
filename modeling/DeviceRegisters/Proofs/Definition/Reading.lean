import DeviceRegisters.Proofs.Definition.Layout
import DeviceRegisters.Proofs.Outcome

/-!
# DeviceRegisters.Proofs.Definition.Reading

What the readers of entry lines give is laid out: entries where the reader was
told to put them, uses with the span of the template they name, and nothing
beyond the last address (`laidAt_of_readEntry`, `laidOut_of_readGroup`).

There is one lemma for each reader, and the readers above it cite that lemma only.
-/

namespace DeviceRegisters.Definition

open Outline (Node)

variable {library : Library} {offset : Nat}

/-- A line that is refused gives nothing. -/
@[simp] theorem refuse_ne_ok {α : Type} {problem : Problem} {line : Nat} {a : α} :
    refuse problem line ≠ .ok a := nofun

/-! ## registers and uses -/

/-- A register that is spelled out is where it was put. -/
theorem readRegister_eq_ok {wanted : List Access} {otherwise : Option Access} {node : Node}
    {r : Register} (h : readRegister offset wanted otherwise node = .ok r) :
    r.offset = offset ∧ r.template = none := by
  simp only [readRegister, bind_eq_ok_iff] at h
  obtain ⟨_, _, _, _, _, _, h⟩ := h
  -- one case for each way to settle the mode
  split at h
  all_goals
    simp only [bind_eq_ok_iff] at h
    obtain ⟨_, _, _, _, _, _, hr⟩ := h
    obtain rfl := Except.ok.inj hr
    exact ⟨rfl, rfl⟩

/-- A bank is where it was put. -/
theorem readBank_eq_ok {name : String} {tokens : List String} {node : Node} {b : Bank}
    (h : readBank offset name tokens node = .ok b) : b.base = offset := by
  simp only [readBank] at h
  split at h
  · simp only [bind_eq_ok_iff] at h
    obtain ⟨_, _, _, _, _, _, _, _, hb⟩ := h
    obtain rfl := Except.ok.inj hb
    rfl
  · exact absurd h refuse_ne_ok

/-- A use is where it was put; the template of its number is in the library, of
the use's kind and, if a group, of its span. -/
theorem readUse_eq_ok {node : Node} {use : Use} (h : readUse library offset node = .ok use) :
    use.entry.LaidAt library offset := by
  simp only [readUse, bind_eq_ok_iff] at h
  obtain ⟨⟨token, tokens⟩, -, _, -, _, -, h⟩ := h
  split at h
  · exact absurd h refuse_ne_ok
  next number _ =>
    split at h
    · next template hget =>
      split at h
      · exact absurd h refuse_ne_ok
      · simp only [bind_eq_ok_iff] at h
        obtain ⟨_, _, huse⟩ := h
        obtain rfl := Except.ok.inj huse
        exact ⟨rfl, rfl, template, hget, rfl⟩
    · next template hget =>
      simp only [bind_eq_ok_iff] at h
      obtain ⟨_, _, _, _, huse⟩ := h
      obtain rfl := Except.ok.inj huse
      refine ⟨rfl, fun n hn => ?_⟩
      obtain rfl := Option.some.inj hn
      exact ⟨template, hget⟩
    · exact absurd h refuse_ne_ok

/-- A register, spelled out or not, is where it was put and known. -/
theorem readRegisterOrUse_eq_ok {wanted : List Access} {otherwise : Option Access} {node : Node}
    {r : Register} (h : readRegisterOrUse library offset wanted otherwise node = .ok r) :
    r.offset = offset ∧ r.Known library := by
  simp only [readRegisterOrUse] at h
  split at h
  · obtain ⟨use, huse, h⟩ := bind_eq_ok_iff.mp h
    cases use with
    | group head => exact absurd h refuse_ne_ok
    | register found =>
        obtain ⟨_, _, hr⟩ := bind_eq_ok_iff.mp h
        obtain rfl := Except.ok.inj hr
        exact readUse_eq_ok huse
  · have hr := readRegister_eq_ok h
    exact ⟨hr.1, Register.known_of_template_eq_none hr.2⟩

/-! ## registers at one address -/

/-- Both registers of a pair are where it was put. -/
theorem readPair_eq_ok {tokens : List String} {children : List Node} {line : Nat} {p : Pair}
    (h : readPair library offset tokens children line = .ok p) :
    (Entry.pair p).LaidAt library offset := by
  obtain ⟨_, _, h⟩ := bind_eq_ok_iff.mp h
  split at h
  · simp only [bind_eq_ok_iff] at h
    obtain ⟨_, hread, _, hwrite, hp⟩ := h
    obtain rfl := Except.ok.inj hp
    exact ⟨readRegisterOrUse_eq_ok hread, readRegisterOrUse_eq_ok hwrite⟩
  · exact absurd h refuse_ne_ok

/-- The registers of an overlay are known, and their indices are addresses. -/
theorem readOverlaid_eq_ok {access : Access} {index : Nat} {nodes : List Node} {rs : List Register}
    (h : readOverlaid library access index nodes = .ok rs) :
    ∀ r ∈ rs, r.offset ≤ Address.last ∧ r.Known library := by
  induction nodes generalizing index rs with
  | nil =>
      obtain rfl := Except.ok.inj h
      simp
  | cons node nodes ih =>
      simp only [readOverlaid] at h
      obtain ⟨_, _, h⟩ := bind_eq_ok_iff.mp h
      split at h
      · exact absurd h refuse_ne_ok
      · simp only [bind_eq_ok_iff] at h
        obtain ⟨register, hregister, registers, hregisters, hrs⟩ := h
        obtain rfl := Except.ok.inj hrs
        obtain ⟨hoffset, hknown⟩ := readRegisterOrUse_eq_ok hregister
        have hindex : index % UInt32.size < UInt32.size := Nat.mod_lt _ (by decide)
        have hlast : register.offset ≤ Address.last := by
          rw [hoffset]
          exact Nat.le_of_lt_succ hindex
        exact List.forall_mem_cons.mpr ⟨⟨hlast, hknown⟩, ih hregisters⟩

/-- An overlay is where it was put. -/
theorem readOverlay_eq_ok {tokens : List String} {node : Node} {o : Overlay}
    (h : readOverlay library offset tokens node = .ok o) :
    (Entry.overlay o).LaidAt library offset := by
  simp only [readOverlay] at h
  split at h
  · simp only [bind_eq_ok_iff] at h
    obtain ⟨_, _, _, _, _, hregisters, ho⟩ := h
    obtain rfl := Except.ok.inj ho
    exact ⟨rfl, readOverlaid_eq_ok hregisters⟩
  · exact absurd h refuse_ne_ok

/-! ## groups and unions -/

mutual
/-- An entry is laid out from where it was put. -/
theorem laidAt_of_readEntry (library : Library) : {offset : Nat} → (node : Node) →
    {entry : Entry} → readEntry library offset node = .ok entry → entry.LaidAt library offset
  | offset, ⟨line, text, doc, children⟩, entry, h => by
      simp only [readEntry] at h
      obtain ⟨⟨token, tokens⟩, -, h⟩ := bind_eq_ok_iff.mp h
      split at h
      · exact absurd h refuse_ne_ok
      · exact absurd h refuse_ne_ok
      · obtain ⟨use, huse, hentry⟩ := bind_eq_ok_iff.mp h
        obtain rfl := Except.ok.inj hentry
        exact readUse_eq_ok huse
      · split at h
        · obtain ⟨pair, hpair, hentry⟩ := bind_eq_ok_iff.mp h
          obtain rfl := Except.ok.inj hentry
          exact readPair_eq_ok hpair
        split at h
        · obtain ⟨overlay, hoverlay, hentry⟩ := bind_eq_ok_iff.mp h
          obtain rfl := Except.ok.inj hentry
          exact readOverlay_eq_ok hoverlay
        split at h
        · simp only [bind_eq_ok_iff] at h
          obtain ⟨_, -, content, hcontent, hentry⟩ := h
          obtain rfl := Except.ok.inj hentry
          exact ⟨rfl, rfl, inParallel_of_readAlternatives library children hcontent⟩
        · exact absurd h refuse_ne_ok
      · simp only [bind_eq_ok_iff] at h
        obtain ⟨⟨name, hidden⟩, -, content, hcontent, hentry⟩ := h
        obtain rfl := Except.ok.inj hentry
        exact ⟨rfl, rfl, inSequence_of_readMembers library children hcontent⟩
      · split at h
        · obtain ⟨bank, hbank, hentry⟩ := bind_eq_ok_iff.mp h
          obtain rfl := Except.ok.inj hentry
          exact readBank_eq_ok hbank
        · obtain ⟨register, hregister, hentry⟩ := bind_eq_ok_iff.mp h
          obtain rfl := Except.ok.inj hentry
          have hr := readRegister_eq_ok hregister
          exact ⟨hr.1, Register.known_of_template_eq_none hr.2⟩

/-- The entries of a group follow one another. -/
theorem inSequence_of_readMembers (library : Library) : {offset taken : Nat} →
    (nodes : List Node) → {entries : List Entry} →
    readMembers library offset taken nodes = .ok entries →
    InSequence library (offset + taken) entries
  | _, _, [], _, h => by
      simp only [readMembers] at h
      obtain rfl := Except.ok.inj h
      trivial
  | offset, taken, node :: nodes, _, h => by
      simp only [readMembers] at h
      obtain ⟨entry, hentry, h⟩ := bind_eq_ok_iff.mp h
      split at h
      · exact absurd h refuse_ne_ok
      · obtain ⟨entries, hentries, hall⟩ := bind_eq_ok_iff.mp h
        obtain rfl := Except.ok.inj hall
        refine ⟨laidAt_of_readEntry library node hentry, ?_⟩
        rw [Nat.add_assoc]
        exact inSequence_of_readMembers library nodes hentries

/-- The entries of a union all start where it was put. -/
theorem inParallel_of_readAlternatives (library : Library) : {offset : Nat} →
    (nodes : List Node) → {entries : List Entry} →
    readAlternatives library offset nodes = .ok entries → InParallel library offset entries
  | _, [], _, h => by
      simp only [readAlternatives] at h
      obtain rfl := Except.ok.inj h
      trivial
  | offset, node :: nodes, _, h => by
      simp only [readAlternatives] at h
      obtain ⟨entry, hentry, h⟩ := bind_eq_ok_iff.mp h
      split at h
      · exact absurd h refuse_ne_ok
      · obtain ⟨entries, hentries, hall⟩ := bind_eq_ok_iff.mp h
        obtain rfl := Except.ok.inj hall
        exact ⟨laidAt_of_readEntry library node hentry,
          inParallel_of_readAlternatives library nodes hentries⟩
end

/-- Entries that are read into a group end no later than at the last address. -/
theorem readMembers_le_last {taken : Nat} {nodes : List Node} {entries : List Entry}
    (h : readMembers library offset taken nodes = .ok entries)
    (hstart : offset + taken ≤ Address.last) :
    offset + taken + totalSpan entries ≤ Address.last := by
  induction nodes generalizing taken entries with
  | nil =>
      simp only [readMembers] at h
      obtain rfl := Except.ok.inj h
      exact hstart
  | cons node nodes ih =>
      simp only [readMembers] at h
      obtain ⟨entry, -, h⟩ := bind_eq_ok_iff.mp h
      split at h
      · exact absurd h refuse_ne_ok
      · next hfits =>
        obtain ⟨entries, hentries, hall⟩ := bind_eq_ok_iff.mp h
        obtain rfl := Except.ok.inj hall
        have hrest := ih hentries (by omega)
        simp only [totalSpan]
        omega

/-- A group that is read is laid out. -/
theorem laidOut_of_readGroup {node : Node} {g : Group} (h : readGroup library node = .ok g) :
    g.LaidOut library := by
  simp only [readGroup, bind_eq_ok_iff] at h
  obtain ⟨⟨token, tokens⟩, -, ⟨name, hidden⟩, -, content, hcontent, hg⟩ := h
  obtain rfl := Except.ok.inj hg
  have hspan : 0 + 0 + totalSpan content ≤ Address.last :=
    readMembers_le_last hcontent (Nat.zero_le _)
  rw [Nat.zero_add] at hspan
  exact ⟨rfl, ⟨rfl, rfl, inSequence_of_readMembers library node.children hcontent⟩, hspan⟩

end DeviceRegisters.Definition
