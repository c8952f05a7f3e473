import DeviceRegisters.Proofs.Staging.Access

/-!
# DeviceRegisters.Proofs.Staging.Fields

The fields that a staging area knows.

No operation changes them (`Keeps.fields`, `Settled.fields`).  They come from the field
list that was taken in (`field?_defineAll_of_mem`), and stand in the registers that its
entries speak of (`FieldsIn.defineAll`).
-/

namespace DeviceRegisters.Staging

open Device (Backend)

variable {β : Type} [Backend β] {s t : Staging β} {P : Nat → Prop}

/-- The registers of all fields satisfy a condition. -/
def FieldsIn (P : Nat → Prop) (s : Staging β) : Prop :=
  ∀ name field, s.field? name = some field → ∀ r ∈ field.registers, P r

/-! ## operations -/

/-- Accesses do not change which fields there are. -/
theorem Keeps.fields (fields : List (String × Packing.Assembly)) (live : Bool)
    (reads writes : List Nat) :
    Keeps (fun s : Staging β => s.fields = fields) live reads writes where
  read s register _ _ hs := by
    simp only [readRegister]
    split <;> split <;> exact hs
  write s register word _ _ hs := by
    simp only [writeRegister]
    split
    · split <;> exact hs
    · exact hs

/-- Nor do flushes, changes of the mode and log lines. -/
theorem Settled.fields (fields : List (String × Packing.Assembly)) :
    Settled (fun s : Staging β => s.fields = fields) where
  writeBack s register _ hs := (Keeps.fields fields s.live [] [register]).write s register _ rfl
    List.mem_cons_self hs
  setLive _ _ hs := hs
  note _ _ hs := hs

/-- An operation leaves the fields as they are. -/
theorem fields_perform (s : Staging β) (operation : Operation) :
    (s.perform operation).2.fields = s.fields :=
  (Keeps.fields s.fields _ _ _).perform (Settled.fields s.fields) rfl

/-! ## field lists -/

omit [Backend β] in
/-- A condition on the registers of fields depends on the fields alone. -/
theorem FieldsIn.of_fields_eq (hs : FieldsIn P s) (h : t.fields = s.fields) :
    FieldsIn P t := by
  intro name field hfield
  rw [field?, h] at hfield
  exact hs name field hfield

/-- A field that an entry adds stands in the registers that the entry speaks of. -/
theorem FieldsIn.define {item : Packing.Item} (hitem : ∀ r ∈ item.registers, P r)
    (hs : FieldsIn P s) : FieldsIn P (s.define item).2 := by
  rw [Staging.define]
  split
  · next slices hmeaning =>
    simp only
    split
    · exact hs
    · have hnamed : FieldsIn P { s with
          fields := (item.name, .ofSlices slices) :: s.fields, names := s.names ++ [item.name] } := by
        intro name field hfield r hr
        simp only [field?, List.lookup_cons] at hfield
        split at hfield
        · obtain rfl := Option.some.inj hfield
          rw [Packing.mem_registers_ofSlices] at hr
          exact hitem r (by simpa only [Packing.Item.registers, hmeaning] using hr)
        · exact hs name field hfield r hr
      split
      · exact hnamed
      · exact hnamed.of_fields_eq ((Keeps.fields _ _ _ _).writeField rfl)
  · next register value hmeaning =>
    exact hs.of_fields_eq ((Keeps.fields s.fields s.live [] [register]).write s register value rfl
      List.mem_cons_self rfl)

/-- Entries whose registers satisfy the condition may be taken in. -/
theorem FieldsIn.defineAll {items : List Packing.Item}
    (hitems : ∀ item ∈ items, ∀ r ∈ item.registers, P r) (hs : FieldsIn P s) :
    FieldsIn P (s.defineAll items).2 := by
  induction items generalizing s with
  | nil => exact hs
  | cons item items ih =>
      obtain ⟨hitem, hitems⟩ := List.forall_mem_cons.mp hitems
      have hfirst := hs.define hitem
      rw [Staging.defineAll]
      split
      · next heq => rwa [heq] at hfirst
      · next s₁ heq =>
        rw [heq] at hfirst
        exact ih hitems hfirst

/-- An entry that was taken in adds its field, if it is one, of no more than 64 bits. -/
theorem fields_define {item : Packing.Item} (h : s.define item = (.ok (), t)) :
    (∃ slices, item.meaning = .field slices ∧ (Packing.Assembly.ofSlices slices).width ≤ 64 ∧
      t.fields = (item.name, .ofSlices slices) :: s.fields) ∨
    (∃ register value, item.meaning = .constant register value) ∧ t.fields = s.fields := by
  rw [define] at h
  cases hmeaning : item.meaning with
  | constant register value =>
      simp only [hmeaning] at h
      have hkept := (Keeps.fields s.fields s.live [] [register]).write s register value rfl
        List.mem_cons_self rfl
      rw [h] at hkept
      exact .inr ⟨⟨register, value, rfl⟩, hkept⟩
  | field slices =>
      simp only [hmeaning] at h
      split at h
      · simp at h
      · next hwidth =>
        refine .inl ⟨slices, rfl, Nat.le_of_not_lt hwidth, ?_⟩
        split at h
        · rw [← (Prod.mk.inj h).2]
        · rw [← show Prod.snd (_, _) = t from congrArg Prod.snd h]
          exact (Keeps.fields _ _ _ _).writeField rfl

/-- Entries that have no field of a name add none. -/
theorem field?_defineAll_of_not_mem {items : List Packing.Item} (h : s.defineAll items = (.ok (), t))
    {name : String} (hnone : ∀ slices, (name, .field slices) ∉ items.map Packing.Item.content) :
    t.field? name = s.field? name := by
  induction items generalizing s with
  | nil => rw [(Prod.mk.inj h).2]
  | cons item items ih =>
      rw [defineAll] at h
      rcases hitem : s.define item with ⟨e | _, s₁⟩
      · simp [hitem] at h
      · simp only [hitem] at h
        simp only [List.map_cons, List.mem_cons, not_or] at hnone
        rw [ih h fun slices => (hnone slices).2]
        rcases fields_define hitem with ⟨slices, hmeaning, -, hfields⟩ | ⟨-, hfields⟩
        · have hname : name ≠ item.name := by
            rintro rfl
            exact (hnone slices).1 (by rw [Packing.Item.content, hmeaning])
          rw [field?, hfields, List.lookup_cons, beq_false_of_ne hname]
          rfl
        · rw [field?, hfields, field?]

/-- A field list that was taken in gives its names their fields, which are not too wide. -/
theorem field?_defineAll_of_mem {items : List Packing.Item} (h : s.defineAll items = (.ok (), t))
    (hnames : (items.map Packing.Item.name).Nodup) {name : String} {slices : List Packing.Slice}
    (hmem : (name, .field slices) ∈ items.map Packing.Item.content) :
    t.field? name = some (.ofSlices slices) ∧ (Packing.Assembly.ofSlices slices).width ≤ 64 := by
  induction items generalizing s with
  | nil => simp at hmem
  | cons item items ih =>
      rw [defineAll] at h
      rw [List.map_cons, List.nodup_cons] at hnames
      rcases hitem : s.define item with ⟨e | _, s₁⟩
      · simp [hitem] at h
      · simp only [hitem] at h
        rcases List.mem_cons.mp hmem with heq | hlater
        · have hlater : ∀ slices, (name, .field slices) ∉ items.map Packing.Item.content := by
            intro other hother
            obtain ⟨later, hmem, hcontent⟩ := List.mem_map.mp hother
            have hname : later.name = item.name :=
              (congrArg Prod.fst hcontent).trans (congrArg Prod.fst heq)
            exact hnames.1 (hname ▸ List.mem_map_of_mem hmem)
          obtain ⟨hname, hmeaning⟩ := Prod.mk.inj heq
          rcases fields_define hitem with ⟨found, hfound, hwidth, hfields⟩ | ⟨⟨r, v, hfound⟩, -⟩
          · obtain rfl : slices = found := by simpa using hmeaning.trans hfound
            refine ⟨?_, hwidth⟩
            rw [field?_defineAll_of_not_mem h hlater, field?, hfields, hname, List.lookup_cons_self]
          · simp [hfound] at hmeaning
        · exact ih h hnames.2 hlater

end DeviceRegisters.Staging
