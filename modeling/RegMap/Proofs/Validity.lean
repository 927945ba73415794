import Mathlib.Data.List.Induction
import Mathlib.Data.List.Nodup
import RegMap.RegisterMap

/-!
# Which maps can be packed

Packing succeeds exactly if the declared names are distinct and every field has
a width from 1 to 32 and at least one replica.  Everything that validation finds
about declared fields is an error, with the one exception that there are none.
-/

namespace RegMap

/-- A field that can be laid out: it fits a register and has a replica. -/
structure Field.Valid (field : Field) : Prop where
  width_pos : 0 < field.width.toNat
  width_le : field.width.toNat ≤ registerWidth
  count_pos : 0 < field.count.toNat

/-- Fields that can be laid out together: each is valid, and none has the name
of another. -/
structure Packable (fields : List Field) : Prop where
  nodup : (fields.map (·.ident)).Nodup
  valid : ∀ field ∈ fields, field.Valid

theorem Field.faults_eq_nil_iff (field : Field) : field.faults = [] ↔ field.Valid := by
  have hwidth : field.width = 0 ↔ field.width.toNat = 0 := by
    rw [← UInt8.toNat_inj]
    rfl
  have hcount : field.count = 0 ↔ field.count.toNat = 0 := by
    rw [← UInt32.toNat_inj]
    rfl
  simp only [faults, List.append_eq_nil_iff, ite_eq_right_iff, List.cons_ne_nil, imp_false, hwidth,
    hcount]
  constructor
  · intro hand
    obtain ⟨⟨hle, hpos⟩, hcount⟩ := hand
    exact ⟨by omega, by omega, by omega⟩
  · intro hand
    obtain ⟨hpos, hle, hcount⟩ := hand
    omega

theorem Field.rank_of_mem_faults {field : Field} {finding : Finding}
    (h : finding ∈ field.faults) : finding.kind.rank = .error := by
  simp only [faults, List.mem_append, List.mem_ite_nil_right, List.mem_singleton] at h
  rcases h with (⟨-, rfl⟩ | ⟨-, rfl⟩) | ⟨-, rfl⟩ <;> rfl

theorem Diagnostics.errors_ofList_eq_zero_iff (diagnostics : List Diagnostic) :
    (Diagnostics.ofList diagnostics).errors = 0 ↔ ∀ d ∈ diagnostics, d.rank ≠ .error := by
  simp [Diagnostics.errors, List.countP_eq_zero, Diagnostics.mem_ofList]

namespace RegisterMap

theorem rank_of_mem_fieldDiagnostics {palette : Palette} {fields : List Field}
    {diagnostic : Diagnostic} (h : diagnostic ∈ fieldDiagnostics palette fields) :
    diagnostic.rank = .error := by
  simp only [fieldDiagnostics, List.mem_flatMap, List.mem_map, List.mem_append] at h
  obtain ⟨⟨index, field⟩, -, finding, hfinding | hfinding, rfl⟩ := h
  · split at hfinding
    · rw [List.mem_singleton] at hfinding
      subst hfinding
      rfl
    · simp at hfinding
  · exact Field.rank_of_mem_faults hfinding

/-- A field has a name that an earlier one has exactly if the name was declared more than
once. -/
theorem exists_repeated_iff (fields : List Field) (ident : String) :
    (∃ declaration ∈ Declaration.ofFields fields, declaration.field.ident = ident ∧
        (fields.take declaration.index).any (·.ident = declaration.field.ident)) ↔
      1 < (fields.map (·.ident)).count ident := by
  -- a field sees only the ones before it, so that a last one changes nothing for others
  induction fields using List.reverseRecOn with
  | nil => simp [Declaration.ofFields]
  | append_singleton fields field ih =>
    have hbefore : ∀ declaration ∈ Declaration.ofFields fields,
        (fields ++ [field]).take declaration.index = fields.take declaration.index := by
      intro declaration hdeclaration
      have hindex := (List.getElem?_eq_some_iff.1 (Declaration.mem_ofFields.1 hdeclaration)).1
      exact List.take_append_of_le_length (Nat.le_of_lt hindex)
    have hold : (∃ declaration ∈ Declaration.ofFields fields, declaration.field.ident = ident ∧
        ((fields ++ [field]).take declaration.index).any (·.ident = declaration.field.ident)) ↔
        1 < (fields.map (·.ident)).count ident := by
      rw [← ih]
      refine exists_congr fun declaration => and_congr_right fun hdeclaration => ?_
      rw [hbefore declaration hdeclaration]
    have hnew : (fields.any fun other => other.ident = ident) = true ↔
        0 < (fields.map (·.ident)).count ident := by
      simp [List.count_pos_iff]
    simp only [Declaration.ofFields_append, List.mem_append, List.mem_singleton, or_and_right,
      exists_or, exists_eq_left, hold, List.take_left, List.map_append, List.map_singleton,
      List.count_append, List.count_singleton]
    by_cases hident : field.ident = ident
    · simp only [hident, hnew, true_and, beq_self_eq_true, if_true]
      omega
    · simp [hident]

/-- No field has the name of an earlier one exactly if the names are distinct. -/
theorem nodup_idents_iff (fields : List Field) :
    (fields.map (·.ident)).Nodup ↔ ∀ declaration ∈ Declaration.ofFields fields,
      ¬(fields.take declaration.index).any (·.ident = declaration.field.ident) := by
  rw [List.nodup_iff_count_le_one]
  constructor
  · intro hcount declaration hdeclaration hrepeated
    have hlt := (exists_repeated_iff fields _).1 ⟨declaration, hdeclaration, rfl, hrepeated⟩
    have hle := hcount declaration.field.ident
    omega
  · intro hfresh ident
    rw [← Nat.not_lt, ← exists_repeated_iff]
    rintro ⟨declaration, hdeclaration, -, hrepeated⟩
    exact hfresh declaration hdeclaration hrepeated

theorem fieldDiagnostics_eq_nil_iff (palette : Palette) (fields : List Field) :
    fieldDiagnostics palette fields = [] ↔ Packable fields := by
  have hfields : (∀ declaration ∈ Declaration.ofFields fields, declaration.field.Valid) ↔
      ∀ field ∈ fields, field.Valid := by
    rw [← Declaration.field_ofFields fields, List.forall_mem_map, Declaration.field_ofFields]
  simp only [fieldDiagnostics, List.flatMap_eq_nil_iff, List.map_eq_nil_iff,
    List.append_eq_nil_iff, ite_eq_right_iff, List.cons_ne_nil, imp_false,
    Field.faults_eq_nil_iff]
  constructor
  · intro h
    exact ⟨(nodup_idents_iff fields).2 fun d hd => (h d hd).1, hfields.1 fun d hd => (h d hd).2⟩
  · intro h d hd
    exact ⟨(nodup_idents_iff fields).1 h.nodup d hd, hfields.2 h.valid d hd⟩

/-- The declarations of a map are free of errors exactly if the fields are packable. -/
theorem errors_validateDeclarations_eq_zero_iff (palette : Palette) (map : RegisterMap) :
    (map.validateDeclarations palette).errors = 0 ↔ Packable map.fields := by
  rw [← fieldDiagnostics_eq_nil_iff palette, validateDeclarations,
    Diagnostics.errors_ofList_eq_zero_iff, List.forall_mem_append, List.eq_nil_iff_forall_not_mem]
  constructor
  · intro h diagnostic hdiagnostic
    exact h.2 diagnostic hdiagnostic (rank_of_mem_fieldDiagnostics hdiagnostic)
  · intro h
    refine ⟨fun diagnostic hdiagnostic => ?_, fun diagnostic hdiagnostic => ?_⟩
    · split at hdiagnostic
      · rw [List.mem_singleton] at hdiagnostic
        subst hdiagnostic
        exact Rank.noConfusion
      · simp at hdiagnostic
    · exact absurd hdiagnostic (h diagnostic)

/-- Packable fields are laid out, whatever state the map is in. -/
theorem pack_of_packable (palette : Palette) {map : RegisterMap} (h : Packable map.fields) :
    map.pack palette = (map.allocate, .ok ()) := by
  have herrors : (map.unpack.validateDeclarations palette).errors = 0 :=
    (errors_validateDeclarations_eq_zero_iff palette map.unpack).2 h
  simp [pack, herrors]

/-- Packing succeeds exactly for packable fields. -/
theorem pack_eq_ok_iff (palette : Palette) (map : RegisterMap) :
    (map.pack palette).2 = .ok () ↔ Packable map.fields := by
  constructor
  · intro h
    rw [pack] at h
    split at h
    · rename_i herrors
      exact (errors_validateDeclarations_eq_zero_iff palette map.unpack).1 herrors
    · cases h
  · intro h
    rw [pack_of_packable palette h]

/-- Once a map is packed, its layout is that of its fields. -/
theorem layout_pack {palette : Palette} {map : RegisterMap}
    (h : (map.pack palette).2 = .ok ()) :
    (map.pack palette).1.layout = .ofFields map.fields := by
  rw [pack_of_packable palette ((pack_eq_ok_iff palette map).1 h)]
  exact layout_allocate map

/-- The map has the layout of its fields, which can be laid out. -/
structure Packed (map : RegisterMap) : Prop where
  packable : Packable map.fields
  layout_eq : map.layout = .ofFields map.fields

theorem packed_pack {palette : Palette} {map : RegisterMap}
    (h : (map.pack palette).2 = .ok ()) : (map.pack palette).1.Packed where
  packable := by
    rw [fields_pack]
    exact (pack_eq_ok_iff palette map).1 h
  layout_eq := by rw [layout_pack h, fields_pack]

theorem Packed.registers_eq {map : RegisterMap} (h : map.Packed) :
    map.registers = (Layout.ofFields map.fields).registers.toList := by
  rw [registers, h.layout_eq]

end RegisterMap

end RegMap
