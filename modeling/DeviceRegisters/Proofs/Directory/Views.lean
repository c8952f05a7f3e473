import DeviceRegisters.Proofs.Definition.Fields
import DeviceRegisters.Proofs.Directory.Bounds

/-!
# DeviceRegisters.Proofs.Directory.Views

Registers as they are seen in a directory have the fields they are described with.

If the fields of a group are inside their registers and share no bit, the same holds of
the view of every register that a directory has (`fits_of_has`).
-/

namespace DeviceRegisters.Directory

open Definition (EntriesFit Entry Field FieldsFit Group Register registerBits)

/-! ## views -/

/-- The fields of a view are inside a register and share no bit. -/
structure RegisterView.Fits (v : RegisterView) : Prop where
  inside : ∀ f ∈ v.fields, 0 < f.width ∧ f.offset + f.width ≤ registerBits
  apart : v.fields.Pairwise fun f g => g.offset + g.width ≤ f.offset ∨ f.offset + f.width ≤ g.offset

/-- Settling the modes of fields changes nothing else. -/
theorem eq_map_of_settleFields {register : String} {access : Access} {seen : List String}
    {fields : List Field} {views : List FieldView}
    (h : settleFields register access seen fields = .ok views) :
    views = fields.map (.ofField access) := by
  induction fields generalizing seen views with
  | nil =>
      obtain rfl := Except.ok.inj h
      rfl
  | cons f fields ih =>
      simp only [settleFields] at h
      split at h
      · contradiction
      · obtain ⟨rest, hrest, hviews⟩ := bind_eq_ok_iff.mp h
        obtain rfl := Except.ok.inj hviews
        rw [ih hrest, List.map_cons]

/-- A register is seen with its fields. -/
theorem fits_make (name : String) (access : Access) {fields : List Field} (h : FieldsFit fields) :
    Outcome RegisterView.Fits (fun _ => True) (RegisterView.make name access fields) := by
  cases hviews : settleFields name access [] fields with
  | error e =>
      rw [RegisterView.make, hviews]
      trivial
  | ok views =>
      rw [RegisterView.make, hviews]
      obtain rfl := eq_map_of_settleFields hviews
      refine .ok ⟨fun view hview => ?_, List.pairwise_map.mpr (h.apart.imp fun {f g} hfree => ?_)⟩
      · obtain ⟨f, hf, rfl⟩ := List.mem_map.mp hview
        exact ⟨(h.inside f hf).width_pos, (h.inside f hf).stop_le⟩
      · rw [Field.overlaps, Bool.and_eq_false_iff, decide_eq_false_iff_not, Nat.not_lt,
          decide_eq_false_iff_not, Nat.not_lt] at hfree
        exact hfree

/-! ## nodes -/

/-- The view of a register or a bank fits. -/
def Node.Fits : Node → Prop
  | .register view _ _ | .bank view _ _ => view.Fits
  | .group .. | .overlay .. | .union .. => True

/-- The views of the nodes so far fit. -/
def Draft.Fits (d : Draft) : Prop := ∀ node ∈ d.nodes, node.Fits

variable {d : Draft}

theorem Draft.Fits.inScope (h : d.Fits) (members : Members) : Draft.Fits ⟨d.nodes, members⟩ := h

/-- A node with fields that fit may be added. -/
theorem Draft.Fits.push {node : Node} (h : d.Fits) (hnode : node.Fits) (members : Members) :
    Draft.Fits ⟨d.nodes.push node, members⟩ := by
  intro other hother
  rcases Array.mem_push.mp hother with hother | rfl
  · exact h other hother
  · exact hnode

/-- It may be added with a name. -/
theorem Draft.Fits.addNamed {node : Node} (h : d.Fits) (hnode : node.Fits) (scope name : String) :
    Outcome Draft.Fits (fun _ => True) (d.addNamed scope name node) :=
  .bind_any fun members => .ok (h.push hnode members)

/-- A register with fields that fit may be added. -/
theorem Draft.Fits.addRegister {r : Register} (h : d.Fits) (hr : r.Fits) (scope : String)
    (address : Nat) (access : Access) :
    Outcome Draft.Fits (fun _ => True) (d.addRegister scope address access r) := by
  refine (fits_make r.name access hr).bind fun view hview => ?_
  have hnode : Node.Fits (.register view address r.doc) := hview
  exact h.addNamed hnode scope r.name

/-- So may several, at one address. -/
theorem Draft.Fits.addRegisters {rs : List Register} (h : d.Fits) (hrs : ∀ r ∈ rs, r.Fits)
    (scope : String) (address : Nat) (access : Access) :
    Outcome Draft.Fits (fun _ => True) (addRegisters scope address access d rs) := by
  induction rs generalizing d with
  | nil => exact h
  | cons r rs ih =>
      obtain ⟨hr, hlater⟩ := List.forall_mem_cons.mp hrs
      exact (h.addRegister hr scope address access).bind fun _ hnext => ih hnext hlater

mutual
/-- An entry whose fields fit adds nodes whose views fit. -/
theorem Draft.Fits.addEntry : {d : Draft} → d.Fits → (scope : String) → (entry : Entry) →
    entry.Fits → Outcome Draft.Fits (fun _ => True) (Draft.addEntry scope d entry)
  | _, h, scope, .register r, hr => by
      simp only [Draft.addEntry]
      exact h.addRegister hr scope r.offset r.access
  | _, h, scope, .bank b, hb => by
      simp only [Draft.addEntry]
      refine (fits_make b.name b.access hb).bind fun view hview => ?_
      have hnode : Node.Fits (.bank view b.base b.count) := hview
      exact h.addNamed hnode scope b.name
  | _, h, scope, .pair p, hp => by
      simp only [Draft.addEntry]
      refine (h.addRegister hp.1 scope _ _).bind fun _ hnext => ?_
      exact hnext.addRegister hp.2 scope _ _
  | _, h, scope, .overlay o, ho => by
      simp only [Draft.addEntry]
      refine ((h.inScope []).addRegisters ho o.name o.offset o.access).bind fun inner hinner => ?_
      refine (hinner.inScope _).addNamed ?_ scope o.name
      trivial
  | _, h, scope, .group head content, hcontent => by
      simp only [Draft.addEntry]
      split
      · exact h.addEntries scope content hcontent
      · refine ((h.inScope []).addEntries head.name content hcontent).bind fun inner hinner => ?_
        refine (hinner.inScope _).addNamed ?_ scope head.name
        trivial
  | _, h, scope, .union head content, hcontent => by
      simp only [Draft.addEntry]
      refine ((h.inScope []).addEntries head.label content hcontent).bind fun inner hinner =>
        .bind_any fun members => ?_
      -- the union's own name makes no difference to its node
      split
      all_goals
        refine .bind_any fun members => .ok (hinner.push ?_ members)
        trivial

/-- Entries with fields that fit make nodes with such fields. -/
theorem Draft.Fits.addEntries : {d : Draft} → d.Fits → (scope : String) →
    (entries : List Entry) → EntriesFit entries →
    Outcome Draft.Fits (fun _ => True) (Draft.addEntries scope d entries)
  | _, h, scope, [], _ => by
      simp only [Draft.addEntries]
      exact .ok h
  | _, h, scope, entry :: entries, hentries => by
      simp only [Draft.addEntries]
      refine (h.addEntry scope entry hentries.1).bind fun _ hnext => ?_
      exact hnext.addEntries scope entries hentries.2
end

/-! ## directories -/

/-- The views of a directory fit if the fields of its group do. -/
theorem fits_ofGroup {g : Group} (h : EntriesFit g.content) :
    Outcome (fun d : Directory => ∀ number node, d.node? number = some node → node.Fits)
      (fun _ => True) (ofGroup g) := by
  have hempty : Draft.Fits ⟨#[], []⟩ := by simp [Draft.Fits]
  refine (hempty.addEntries g.name g.content h).bind fun draft hdraft => .ok ?_
  have hroot : Node.Fits (.group g.name g.head.base g.head.span draft.members) := trivial
  intro number node hnode
  exact hdraft.push hroot draft.members node (Array.mem_of_getElem? hnode)

/-- A register of a directory has a view of one of its nodes. -/
theorem fits_of_has {d : Directory} (h : ∀ number node, d.node? number = some node → node.Fits)
    {handle : Handle} (hhandle : d.Has (.register handle)) : handle.view.Fits := by
  cases hhandle with
  | register hnode => exact h _ _ hnode
  | element hnode _ => exact h _ _ hnode

end DeviceRegisters.Directory
