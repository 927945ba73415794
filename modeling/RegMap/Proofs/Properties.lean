import RegMap.Proofs.Validity

/-!
# What properties declare

The properties of a declaration are checked one by one, and those that are accepted are set one
after the other.

* `Attribute.valid_of_ofProperty`: the check is made on the numbers that were declared, before
  they become words, so the words are in bounds too.
* `Field.valid_of_ofProperties`: what a declaration accepts, packing accepts as well.
* `Field.of_ofProperties_eq_error`: a declaration is refused with diagnostics of its field.
-/

namespace RegMap

/-! ## Properties -/

/-- A width that fits a register, or a number of replicas that is not zero. -/
def Attribute.Valid : Attribute → Prop
  | width value => 0 < value.toNat ∧ value.toNat ≤ registerWidth
  | access _ => True
  | count value => 0 < value.toNat

/-- The numbers of a declaration are checked before they are cut to words. -/
theorem Attribute.valid_of_ofProperty {key : String} {value : Property} {attr : Attribute}
    (h : ofProperty key value = .ok attr) : attr.Valid := by
  have hlimit : registerWidth = 32 := rfl
  have hsize : UInt32.size = 4294967296 := rfl
  rw [ofProperty.eq_def] at h
  split at h
  case h_1 value =>
    split_ifs at h with hexceeded hzero
    cases h
    simp only [Valid, UInt8.toNat_ofNat']
    omega
  case h_2 keyword =>
    split at h
    · cases h
      exact trivial
    · cases h
  case h_3 value =>
    split_ifs at h with hcount
    cases h
    simp only [Valid, UInt32.toNat_ofNat']
    omega
  all_goals cases h

namespace Field

theorem valid_default (ident : String) : (default ident).Valid := by
  have hwidth : (default ident).width.toNat = registerWidth := rfl
  have hcount : (default ident).count.toNat = 1 := rfl
  have hlimit : registerWidth = 32 := rfl
  constructor <;> omega

theorem Valid.set {field : Field} (h : field.Valid) {attr : Attribute} (hattr : attr.Valid) :
    (field.set attr).Valid := by
  obtain ⟨hpos, hle, hcount⟩ := h
  cases attr with
  | width value => exact ⟨hattr.1, hattr.2, hcount⟩
  | access value => exact ⟨hpos, hle, hcount⟩
  | count value => exact ⟨hpos, hle, hattr⟩

theorem ident_set (field : Field) (attr : Attribute) : (field.set attr).ident = field.ident := by
  cases attr <;> rfl

theorem foldl_set {attributes : List Attribute} (hvalid : ∀ attr ∈ attributes, attr.Valid)
    {field : Field} (h : field.Valid) :
    (attributes.foldl set field).Valid ∧ (attributes.foldl set field).ident = field.ident := by
  induction attributes generalizing field with
  | nil => exact ⟨h, rfl⟩
  | cons attr rest ih =>
    rw [List.forall_mem_cons] at hvalid
    rw [List.foldl_cons, ← ident_set field attr]
    exact ih hvalid.2 (h.set hvalid.1)

theorem valid_of_mem_attributes {properties : List (String × Property)} {attr : Attribute}
    (h : attr ∈ attributes properties) : attr.Valid := by
  obtain ⟨⟨key, value⟩, -, hattr⟩ := List.mem_filterMap.1 h
  change (Attribute.ofProperty key value).toOption = some attr at hattr
  cases hread : Attribute.ofProperty key value with
  | error finding =>
    rw [hread] at hattr
    cases hattr
  | ok found =>
    rw [hread] at hattr
    cases hattr
    exact Attribute.valid_of_ofProperty hread

variable {palette : Palette} {ident : String} {properties : List (String × Property)}

/-- What a declaration accepts can be laid out, and has the declared name. -/
theorem valid_of_ofProperties {field : Field}
    (h : ofProperties palette ident properties = .ok field) :
    field.Valid ∧ field.ident = ident := by
  rw [ofProperties] at h
  split at h
  · cases h
    exact foldl_set (fun attr => valid_of_mem_attributes) (valid_default ident)
  · cases h

/-- A declaration that is refused is told about, in the context of its field. -/
theorem of_ofProperties_eq_error {diagnostics : Diagnostics}
    (h : ofProperties palette ident properties = .error diagnostics) :
    diagnostics.toList ≠ [] ∧
      ∀ diagnostic ∈ diagnostics.toList, diagnostic.context = .field ident := by
  rw [ofProperties] at h
  split at h
  · cases h
  · rename_i hne
    cases h
    constructor
    · obtain ⟨finding, hfinding⟩ := List.exists_mem_of_ne_nil _ hne
      have hmem := Diagnostics.mem_ofList.2
        (List.mem_map_of_mem (f := (·.at palette (.field ident))) hfinding)
      exact List.ne_nil_of_mem hmem
    · intro diagnostic hmem
      obtain ⟨finding, -, rfl⟩ := List.mem_map.1 (Diagnostics.mem_ofList.1 hmem)
      rfl

end Field

end RegMap
