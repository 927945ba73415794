import RegMap.Proofs.History

/-!
# What packing reports

Fields that cannot be laid out are refused with everything that is wrong with them.
`Violation` says, without the validation, which diagnostics these are.

* `mem_faults_iff` and `exists_repeated_iff` read the two parts of the validation, the
  faults of one field and the names that were declared before.
* `mem_fieldDiagnostics_iff` puts them together: validation finds the violations and
  nothing else.
* `RegisterMap.pack_of_not_packable` is what packing does with such fields, and
  `RegisterMap.rejection_of_not_packable` what this says in terms of violations.
-/

namespace RegMap

/-- What is wrong with some fields, each told about the field that it belongs to.  A
name that was declared more than once is told once. -/
inductive Violation (palette : Palette) (fields : List Field) : Diagnostic → Prop where
  | duplicateField (ident : String) (h : 1 < (fields.map (·.ident)).count ident) :
      Violation palette fields ((Finding.duplicateField ident).at palette (.field ident))
  | widthExceeded (field : Field) (hfield : field ∈ fields)
      (h : registerWidth < field.width.toNat) :
      Violation palette fields
        ((Finding.widthExceeded field.width.toNat registerWidth).at palette (.field field.ident))
  | zeroWidth (field : Field) (hfield : field ∈ fields) (h : field.width.toNat = 0) :
      Violation palette fields
        ((Finding.zeroWidth 0 registerWidth).at palette (.field field.ident))
  | zeroCount (field : Field) (hfield : field ∈ fields) (h : field.count.toNat = 0) :
      Violation palette fields ((Finding.zeroCount 0).at palette (.field field.ident))

/-- A packing that failed: it reports every violation once and nothing else, and it
leaves the map with its fields and without a layout. -/
structure RegisterMap.Rejection (map : RegisterMap) (palette : Palette)
    (diagnostics : Diagnostics) : Prop where
  nodup : diagnostics.toList.Nodup
  mem_iff : ∀ diagnostic, diagnostic ∈ diagnostics ↔ Violation palette map.fields diagnostic
  errors_pos : 1 ≤ diagnostics.errors
  warnings_eq : diagnostics.warnings = 0
  fields_eq : (map.pack palette).1.fields = map.fields
  cleared : (map.pack palette).1.Cleared

/-! ## What validation finds -/

theorem Field.mem_faults_iff {field : Field} {finding : Finding} :
    finding ∈ field.faults ↔
      registerWidth < field.width.toNat ∧
          finding = .widthExceeded field.width.toNat registerWidth ∨
        field.width.toNat = 0 ∧ finding = .zeroWidth 0 registerWidth ∨
        field.count.toNat = 0 ∧ finding = .zeroCount 0 := by
  have hwidth : field.width = 0 ↔ field.width.toNat = 0 := UInt8.toNat_inj.symm
  have hcount : field.count = 0 ↔ field.count.toNat = 0 := UInt32.toNat_inj.symm
  -- the texts of the zero checks hold the number that they found, which is then 0
  have hzeroWidth : field.width.toNat = 0 ∧
        finding = .zeroWidth field.width.toNat registerWidth ↔
      field.width.toNat = 0 ∧ finding = .zeroWidth 0 registerWidth :=
    and_congr_right fun h => by rw [h]; rfl
  have hzeroCount : field.count.toNat = 0 ∧ finding = .zeroCount field.count.toNat ↔
      field.count.toNat = 0 ∧ finding = .zeroCount 0 :=
    and_congr_right fun h => by rw [h]; rfl
  simp only [faults, List.mem_append, List.mem_ite_nil_right, List.mem_singleton, hwidth, hcount,
    hzeroWidth, hzeroCount, or_assoc]

namespace RegisterMap

/-- A diagnostic about the fields repeats a name, or tells a fault of one of them. -/
theorem mem_fieldDiagnostics_iff {palette : Palette} {fields : List Field}
    {diagnostic : Diagnostic} :
    diagnostic ∈ fieldDiagnostics palette fields ↔
      (∃ ident, 1 < (fields.map (·.ident)).count ident ∧
          diagnostic = (Finding.duplicateField ident).at palette (.field ident)) ∨
        ∃ field ∈ fields, ∃ finding ∈ field.faults,
          diagnostic = finding.at palette (.field field.ident) := by
  simp only [fieldDiagnostics, List.mem_flatMap, List.mem_map, List.mem_append,
    List.mem_ite_nil_right, List.mem_singleton]
  constructor
  · rintro ⟨declaration, hdeclaration, finding, ⟨hrepeated, rfl⟩ | hfinding, rfl⟩
    · refine .inl ⟨declaration.field.ident, ?_, rfl⟩
      exact (exists_repeated_iff fields _).1 ⟨declaration, hdeclaration, rfl, hrepeated⟩
    · have hfield := List.mem_of_getElem? (Declaration.mem_ofFields.1 hdeclaration)
      exact .inr ⟨declaration.field, hfield, finding, hfinding, rfl⟩
  · rintro (⟨ident, hcount, rfl⟩ | ⟨field, hfield, finding, hfinding, rfl⟩)
    · obtain ⟨declaration, hdeclaration, rfl, hrepeated⟩ :=
        (exists_repeated_iff fields ident).2 hcount
      exact ⟨declaration, hdeclaration, _, .inl ⟨hrepeated, rfl⟩, rfl⟩
    · obtain ⟨index, hindex⟩ := List.mem_iff_getElem?.1 hfield
      exact ⟨⟨index, field⟩, Declaration.mem_ofFields.2 hindex, finding, .inr hfinding, rfl⟩

/-- Validation finds the violations and nothing else. -/
theorem violation_iff_mem_fieldDiagnostics {palette : Palette} {fields : List Field}
    {diagnostic : Diagnostic} :
    Violation palette fields diagnostic ↔ diagnostic ∈ fieldDiagnostics palette fields := by
  rw [mem_fieldDiagnostics_iff]
  constructor
  · intro h
    cases h with
    | duplicateField ident h => exact .inl ⟨ident, h, rfl⟩
    | widthExceeded field hfield h =>
      exact .inr ⟨field, hfield, _, Field.mem_faults_iff.2 (.inl ⟨h, rfl⟩), rfl⟩
    | zeroWidth field hfield h =>
      exact .inr ⟨field, hfield, _, Field.mem_faults_iff.2 (.inr (.inl ⟨h, rfl⟩)), rfl⟩
    | zeroCount field hfield h =>
      exact .inr ⟨field, hfield, _, Field.mem_faults_iff.2 (.inr (.inr ⟨h, rfl⟩)), rfl⟩
  · rintro (⟨ident, hcount, rfl⟩ | ⟨field, hfield, finding, hfinding, rfl⟩)
    · exact .duplicateField ident hcount
    · rcases Field.mem_faults_iff.1 hfinding with ⟨h, rfl⟩ | ⟨h, rfl⟩ | ⟨h, rfl⟩
      · exact .widthExceeded field hfield h
      · exact .zeroWidth field hfield h
      · exact .zeroCount field hfield h

/-! ## Failed packings -/

/-- The diagnostics about the fields alone are all errors. -/
theorem tally_fieldDiagnostics {palette : Palette} {fields : List Field}
    (h : ¬Packable fields) :
    1 ≤ (Diagnostics.ofList (fieldDiagnostics palette fields)).errors ∧
      (Diagnostics.ofList (fieldDiagnostics palette fields)).warnings = 0 := by
  have hne : fieldDiagnostics palette fields ≠ [] := fun hnil =>
    h ((fieldDiagnostics_eq_nil_iff palette fields).1 hnil)
  obtain ⟨diagnostic, hdiagnostic⟩ := List.exists_mem_of_ne_nil _ hne
  constructor
  · refine Nat.one_le_iff_ne_zero.2 fun hzero => ?_
    exact (Diagnostics.errors_ofList_eq_zero_iff _).1 hzero diagnostic hdiagnostic
      (rank_of_mem_fieldDiagnostics hdiagnostic)
  · refine List.countP_eq_zero.2 fun other hother => ?_
    have herror := rank_of_mem_fieldDiagnostics (Diagnostics.mem_ofList.1 hother)
    simp [herror]

/-- Fields that cannot be laid out are refused with the diagnostics about them. -/
theorem pack_of_not_packable (palette : Palette) {map : RegisterMap}
    (h : ¬Packable map.fields) :
    map.pack palette = (map.unpack, .error (.ofList (fieldDiagnostics palette map.fields))) := by
  have hne : map.fields.isEmpty = false := by
    rw [List.isEmpty_eq_false_iff]
    intro hnil
    rw [hnil] at h
    exact h ⟨List.nodup_nil, by simp⟩
  have hfields : map.unpack.fields = map.fields := rfl
  have hdiagnostics : map.unpack.validateDeclarations palette =
      .ofList (fieldDiagnostics palette map.fields) := by
    simp [validateDeclarations, hfields, hne]
  have herrors : (Diagnostics.ofList (fieldDiagnostics palette map.fields)).errors ≠ 0 :=
    Nat.one_le_iff_ne_zero.1 (tally_fieldDiagnostics h).1
  simp [pack, hdiagnostics, herrors]

theorem rejection_of_not_packable (palette : Palette) {map : RegisterMap}
    (h : ¬Packable map.fields) :
    map.Rejection palette (.ofList (fieldDiagnostics palette map.fields)) where
  nodup := Diagnostics.nodup _
  mem_iff := fun _ => Diagnostics.mem_ofList.trans violation_iff_mem_fieldDiagnostics.symm
  errors_pos := (tally_fieldDiagnostics h).1
  warnings_eq := (tally_fieldDiagnostics h).2
  fields_eq := fields_pack palette map
  cleared := by
    rw [pack_of_not_packable palette h]
    exact map.consistent_unpack.cleared rfl

/-- Packing accepts exactly the packable fields and reports everything that is wrong with
others.  This holds of maps in any state, packed or not. -/
theorem pack_ok_iff_and_rejection (palette : Palette) (map : RegisterMap) :
    ((map.pack palette).2 = .ok () ↔ Packable map.fields) ∧
      (¬Packable map.fields → ∃ diagnostics,
        (map.pack palette).2 = .error diagnostics ∧ map.Rejection palette diagnostics) := by
  refine ⟨pack_eq_ok_iff palette map, fun h => ?_⟩
  exact ⟨_, by rw [pack_of_not_packable palette h], rejection_of_not_packable palette h⟩

/-- A name that is declared three times, two of them with the same width, and a field
with two faults. -/
theorem rejection_of_repeated_names :
    let map := (new ⟨"acme", "csr", "timer", none⟩ none).addFields
      [⟨"lane", 40, .readOnly, 1⟩, ⟨"start", 0, .writeOnly, 0⟩, ⟨"lane", 40, .readWrite, 1⟩,
        ⟨"lane", 8, .readWrite, 1⟩]
    ¬Packable map.fields ∧ ∃ diagnostics,
      (map.pack .plain).2 = .error diagnostics ∧ map.Rejection .plain diagnostics := by
  intro map
  have h : ¬Packable map.fields := fun hpackable => absurd hpackable.nodup (by decide)
  exact ⟨h, (pack_ok_iff_and_rejection .plain map).2 h⟩

end RegisterMap

end RegMap
