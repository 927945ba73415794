import RegMap.Proofs.Violations

/-!
# Two checks of one field

The numbers of a field are checked twice.  A declaration checks each property before it is cut to a
word, and stops at the first thing that is wrong with it.  Packing checks the words of the field,
one constraint after the other.

* `Field.findings_width` and `Field.findings_count`: of a word that is declared, a property has the
  faults that packing looks for.
* `Field.ofProperties_sizes`: a declaration of a width and a count is refused with what packing
  would say of the field.
* `Field.checksAgree`: both directions, for all declarations and for all words.
-/

namespace RegMap

namespace Field

variable {palette : Palette} {ident : String}

/-- What a declaration accepts, packing finds no fault with. -/
theorem toList_validate_of_ofProperties {properties : List (String × Property)} {field : Field}
    (h : ofProperties palette ident properties = .ok field) (context : Context) :
    (field.validate palette context).toList = [] := by
  have hfaults : field.faults = [] := field.faults_eq_nil_iff.2 (valid_of_ofProperties h).1
  rw [validate, hfaults]
  rfl

/-! ## Declared words -/

/-- The properties of a declaration that gives a width, and then a count. -/
def sizes (width : UInt8) (count : UInt32) : List (String × Property) :=
  [("width", .integer width.toNat), ("count", .integer count.toNat)]

/-- No width is both too wide and zero, so it makes no difference that a property is told about for
its first fault only. -/
theorem findings_width (width : UInt8) (rest : List (String × Property)) :
    findings (("width", .integer width.toNat) :: rest) =
      (if width.toNat > registerWidth then [.widthExceeded width.toNat registerWidth] else []) ++
      (if width = 0 then [.zeroWidth width.toNat registerWidth] else []) ++ findings rest := by
  have hlimit : registerWidth = 32 := rfl
  by_cases hwide : width.toNat > registerWidth
  · have hne : width ≠ 0 := by
      intro hzero
      rw [hzero, UInt8.toNat_zero] at hwide
      omega
    rw [findings_cons_of_violates (.tooWide (by omega)), if_pos hwide, if_neg hne]
    rfl
  · rw [if_neg hwide]
    by_cases hzero : width = 0
    · subst hzero
      rw [findings_cons_of_violates (.tooNarrow (by decide)), if_pos rfl]
      rfl
    · have hpos : width.toNat ≠ 0 := fun h => hzero (UInt8.toNat_inj.1 h)
      rw [findings_cons_of_sets (.width (by omega) (by omega) rfl), if_neg hzero]
      rfl

/-- Every word is below 2³², so of the bounds of a count only the lower one is left. -/
theorem findings_count (count : UInt32) (rest : List (String × Property)) :
    findings (("count", .integer count.toNat) :: rest) =
      (if count = 0 then [.zeroCount count.toNat] else []) ++ findings rest := by
  have hword : count.toNat < 2 ^ 32 := count.toNat_lt
  by_cases hzero : count = 0
  · subst hzero
    rw [findings_cons_of_violates (.noCount (by decide)), if_pos rfl]
    rfl
  · have hpos : count.toNat ≠ 0 := fun h => hzero (UInt32.toNat_inj.1 h)
    rw [findings_cons_of_sets (.count (by omega) (by omega) rfl), if_neg hzero]
    rfl

/-- A declaration of words is checked as the field that has them. -/
theorem findings_sizes (ident : String) (width : UInt8) (access : Access) (count : UInt32) :
    findings (sizes width count) = faults ⟨ident, width, access, count⟩ := by
  unfold sizes
  rw [findings_width, findings_count]
  exact congrArg _ (List.append_nil _)

/-- The field that a declaration of words makes, if it makes one. -/
theorem eq_of_declared_sizes {field : Field} {width : UInt8} {count : UInt32}
    (h : field.Declared ident (sizes width count)) : field = ⟨ident, width, .readWrite, count⟩ := by
  have hwidth : field.width = width :=
    UInt8.toNat_inj.1 (Int.ofNat.inj (Property.integer.inj h.width_eq))
  have hcount : field.count = count :=
    UInt32.toNat_inj.1 (Int.ofNat.inj (Property.integer.inj h.count_eq))
  have haccess : field.access = .readWrite :=
    Access.keyword_injective (Property.text.inj h.access_eq)
  rw [← h.ident_eq, ← hwidth, ← hcount, ← haccess]

/-- A declaration of words makes the field that has them, or is refused with all that packing says
of this field. -/
theorem ofProperties_sizes (palette : Palette) (ident : String) (width : UInt8) (access : Access)
    (count : UInt32) :
    let told := validate palette ⟨ident, width, access, count⟩ (.field ident)
    (told.toList = [] ∧
        ofProperties palette ident (sizes width count) = .ok ⟨ident, width, .readWrite, count⟩) ∨
      (told.toList ≠ [] ∧ ofProperties palette ident (sizes width count) = .error told) := by
  intro told
  have htold :
      told = .ofList ((findings (sizes width count)).map (·.at palette (.field ident))) := by
    rw [findings_sizes ident width access count]
    rfl
  by_cases hnil : findings (sizes width count) = []
  · have hok := ofProperties_of_findings_eq_nil palette ident hnil
    have hfield := eq_of_declared_sizes
      ((allOrNothing_ofProperties palette ident (sizes width count)).declared _ hok)
    rw [hfield] at hok
    refine .inl ⟨?_, hok⟩
    rw [htold, hnil]
    rfl
  · have herror := ofProperties_of_findings_ne_nil palette ident hnil
    rw [← htold] at herror
    exact .inr ⟨(of_ofProperties_eq_error herror).1, herror⟩

/-- What the two checks of a field make of each other.  Packing finds no fault with a field that a
declaration accepts, and a declaration of words is accepted or refused as packing would have it. -/
structure ChecksAgree (palette : Palette) (ident : String) : Prop where
  accepted : ∀ properties field, ofProperties palette ident properties = .ok field →
    ∀ context, (field.validate palette context).toList = []
  ok_iff : ∀ width access count field,
    ofProperties palette ident (sizes width count) = .ok field ↔
      field = ⟨ident, width, .readWrite, count⟩ ∧
        (validate palette ⟨ident, width, access, count⟩ (.field ident)).toList = []
  error_iff : ∀ width access count diagnostics,
    ofProperties palette ident (sizes width count) = .error diagnostics ↔
      diagnostics = validate palette ⟨ident, width, access, count⟩ (.field ident) ∧
        diagnostics.toList ≠ []

/-- The checks agree on every declaration, and on the words of every field. -/
theorem checksAgree (palette : Palette) (ident : String) : ChecksAgree palette ident := by
  constructor
  · intro properties field hfield context
    exact toList_validate_of_ofProperties hfield context
  · intro width access count field
    rcases ofProperties_sizes palette ident width access count with ⟨hnil, hok⟩ | ⟨hne, herror⟩
    · rw [hok, Except.ok.injEq, and_iff_left hnil]
      exact eq_comm
    · rw [herror]
      refine iff_of_false nofun ?_
      intro h
      exact hne h.2
  · intro width access count diagnostics
    rcases ofProperties_sizes palette ident width access count with ⟨hnil, hok⟩ | ⟨hne, herror⟩
    · rw [hok]
      refine iff_of_false nofun ?_
      intro h
      apply h.2
      rw [h.1, hnil]
    · rw [herror, Except.error.injEq]
      constructor
      · intro h
        exact ⟨h.symm, h ▸ hne⟩
      · intro h
        exact h.1.symm

end Field

end RegMap
