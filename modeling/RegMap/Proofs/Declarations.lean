import Mathlib.Data.List.Forall2
import RegMap.Config
import RegMap.Proofs.Properties

/-!
# What becomes of declarations

Every declaration of a configuration gives a field or diagnostics, and is looked at whatever
became of the ones before it.

* `Config.Declares` and `Config.Faulty` say what becomes of one declaration, and
  `Config.Tells` what is told of several: all that is wrong with every one of them.
* `Config.foldl_declare_of_declares` and `Config.tells_foldl_declare` follow the loop.
  Diagnostics of different fields have different contexts, so none is dropped.
* `Config.fieldsOf_eq_ok_iff` and `Config.fieldsOf_eq_error_iff` are the two outcomes, and
  `Config.packable_of_declares` says what the fields are good for.
-/

namespace RegMap

/-! ## Sets of diagnostics -/

namespace Diagnostics

theorem eq_of_toList_eq {left right : Diagnostics} (h : left.toList = right.toList) :
    left = right := by
  obtain ⟨list, hnodup⟩ := left
  cases h
  rfl

/-- Diagnostics that a set does not have yet are put behind those that it has. -/
theorem toList_insertAll_of_disjoint {set : Diagnostics} {diagnostics : List Diagnostic}
    (hnodup : diagnostics.Nodup) (hnew : ∀ diagnostic ∈ diagnostics, diagnostic ∉ set.toList) :
    (set.insertAll diagnostics).toList = set.toList ++ diagnostics := by
  unfold insertAll
  induction diagnostics generalizing set with
  | nil => simp
  | cons first rest ih =>
    rw [List.nodup_cons] at hnodup
    rw [List.forall_mem_cons] at hnew
    have hfirst : (set.insert first).toList = set.toList ++ [first] := by
      rw [toList_insert, if_neg hnew.1]
    have hrest : ∀ diagnostic ∈ rest, diagnostic ∉ (set.insert first).toList := by
      intro diagnostic hmem hold
      rcases mem_insert.1 hold with hold | rfl
      · exact hnew.2 diagnostic hmem hold
      · exact hnodup.1 hmem
    rw [List.foldl_cons, ih hnodup.2 hrest, hfirst, List.append_assoc]
    rfl

theorem toList_append_of_disjoint {set more : Diagnostics}
    (hnew : ∀ diagnostic ∈ more.toList, diagnostic ∉ set.toList) :
    (set ++ more).toList = set.toList ++ more.toList :=
  toList_insertAll_of_disjoint more.nodup hnew

end Diagnostics

/-- Contexts of fields with different names differ. -/
theorem Context.field_injective : Function.Injective Context.field := by
  intro left right h
  have hsegments : ["field " ++ left] = ["field " ++ right] := congrArg Context.segments h
  have htext := congrArg String.toList (List.cons.inj hsegments).1
  exact String.toList_inj.1 (by simpa using htext)

/-! ## Declarations -/

namespace Config

open Yaml (Value)

/-- The field that a declaration makes: null has all defaults, and a mapping sets the properties
that it holds. -/
inductive Declares (palette : Palette) : String × Value → Field → Prop where
  | null (ident : String) : Declares palette (ident, .null) (Field.default ident)
  | mapping {ident : String} {entries : List (Value × Value)} {field : Field}
      (h : Field.ofProperties palette ident
        (entries.map fun (key, value) => (propertyKey key, property value)) = .ok field) :
      Declares palette (ident, .mapping entries) field

/-- What is wrong with a declaration: the properties that it holds, or that it holds none. -/
inductive Faulty (palette : Palette) : String × Value → Diagnostics → Prop where
  | mapping {ident : String} {entries : List (Value × Value)} {diagnostics : Diagnostics}
      (h : Field.ofProperties palette ident
        (entries.map fun (key, value) => (propertyKey key, property value)) =
          .error diagnostics) :
      Faulty palette (ident, .mapping entries) diagnostics
  | other {ident : String} {value : Value} (hnull : value ≠ .null)
      (hmapping : ∀ entries, value ≠ .mapping entries) :
      Faulty palette (ident, value)
        (.ofList [(Finding.invalidProperty ident "a mapping of properties"
          (property value).describe).at palette (.field ident)])

/-- What is told of declarations: of every faulty one all that is wrong with it, in order. -/
inductive Tells (palette : Palette) : List (String × Value) → List Diagnostic → Prop where
  | nil : Tells palette [] []
  | declares {declaration : String × Value} {field : Field} {rest : List (String × Value)}
      {told : List Diagnostic} (h : Declares palette declaration field)
      (hrest : Tells palette rest told) : Tells palette (declaration :: rest) told
  | faulty {declaration : String × Value} {diagnostics : Diagnostics}
      {rest : List (String × Value)} {told : List Diagnostic}
      (h : Faulty palette declaration diagnostics) (hrest : Tells palette rest told) :
      Tells palette (declaration :: rest) (diagnostics.toList ++ told)

variable {palette : Palette} {declaration : String × Value}

theorem field_eq_ok_iff {made : Field} :
    field palette declaration.1 declaration.2 = .ok made ↔ Declares palette declaration made := by
  obtain ⟨ident, value⟩ := declaration
  constructor
  · intro h
    cases value with
    | null =>
      cases h
      exact .null ident
    | mapping entries => exact .mapping h
    | _ => cases h
  · intro h
    cases h with
    | null => rfl
    | mapping h => exact h

theorem field_eq_error_iff {diagnostics : Diagnostics} :
    field palette declaration.1 declaration.2 = .error diagnostics ↔
      Faulty palette declaration diagnostics := by
  obtain ⟨ident, value⟩ := declaration
  constructor
  · intro h
    cases value with
    | null => cases h
    | mapping entries => exact .mapping h
    | _ =>
      cases h
      exact .other nofun nofun
  · intro h
    cases h with
    | mapping h => exact h
    | other hnull hmapping =>
      cases value with
      | null => exact absurd rfl hnull
      | mapping entries => exact absurd rfl (hmapping entries)
      | _ => rfl

/-- A declaration makes one field at most. -/
theorem Declares.unique {left right : Field} (hleft : Declares palette declaration left)
    (hright : Declares palette declaration right) : left = right := by
  have h := (field_eq_ok_iff.2 hleft).symm.trans (field_eq_ok_iff.2 hright)
  exact Except.ok.inj h

theorem Faulty.unique {left right : Diagnostics} (hleft : Faulty palette declaration left)
    (hright : Faulty palette declaration right) : left = right := by
  have h := (field_eq_error_iff.2 hleft).symm.trans (field_eq_error_iff.2 hright)
  exact Except.error.inj h

theorem Declares.not_faulty {made : Field} {diagnostics : Diagnostics}
    (h : Declares palette declaration made) : ¬Faulty palette declaration diagnostics := by
  intro hfaulty
  cases (field_eq_ok_iff.2 h).symm.trans (field_eq_error_iff.2 hfaulty)

theorem declares_or_faulty (palette : Palette) (declaration : String × Value) :
    (∃ made, Declares palette declaration made) ∨
      ∃ diagnostics, Faulty palette declaration diagnostics := by
  cases h : field palette declaration.1 declaration.2 with
  | ok made => exact .inl ⟨made, field_eq_ok_iff.1 h⟩
  | error diagnostics => exact .inr ⟨diagnostics, field_eq_error_iff.1 h⟩

theorem Declares.valid {made : Field} (h : Declares palette declaration made) :
    made.Valid ∧ made.ident = declaration.1 := by
  cases h with
  | null ident => exact ⟨Field.valid_default ident, rfl⟩
  | mapping h => exact Field.valid_of_ofProperties h

/-- Something is told of a faulty declaration, in the context of its field. -/
theorem Faulty.of_mem {diagnostics : Diagnostics} (h : Faulty palette declaration diagnostics) :
    diagnostics.toList ≠ [] ∧
      ∀ diagnostic ∈ diagnostics.toList, diagnostic.context = .field declaration.1 := by
  cases h with
  | mapping h => exact Field.of_ofProperties_eq_error h
  | other hnull hmapping =>
    refine ⟨List.cons_ne_nil _ _, ?_⟩
    rintro _ (_ | ⟨_, ⟨⟩⟩)
    rfl

/-! ## Several declarations -/

namespace Tells

variable {declarations : List (String × Value)} {told : List Diagnostic}

theorem unique {others : List Diagnostic} (h : Tells palette declarations told)
    (hothers : Tells palette declarations others) : told = others := by
  induction h generalizing others with
  | nil =>
    cases hothers
    rfl
  | declares h _ ih =>
    cases hothers with
    | declares _ hrest => exact ih hrest
    | faulty hfaulty _ => exact (h.not_faulty hfaulty).elim
  | faulty h _ ih =>
    cases hothers with
    | declares hmade _ => exact (hmade.not_faulty h).elim
    | faulty hfaulty hrest => rw [h.unique hfaulty, ih hrest]

/-- Nothing that is wrong with a declaration is left out, whatever comes before it. -/
theorem subset_of_faulty (h : Tells palette declarations told) (hmem : declaration ∈ declarations)
    {diagnostics : Diagnostics} (hfaulty : Faulty palette declaration diagnostics) :
    diagnostics.toList ⊆ told := by
  induction h with
  | nil => cases hmem
  | declares hmade _ ih =>
    rcases List.mem_cons.1 hmem with rfl | hmem
    · exact (hmade.not_faulty hfaulty).elim
    · exact ih hmem
  | faulty h _ ih =>
    rcases List.mem_cons.1 hmem with rfl | hmem
    · rw [h.unique hfaulty]
      exact List.subset_append_left _ _
    · exact List.subset_append_of_subset_right _ (ih hmem)

/-- Nothing is told of declarations that all make fields. -/
theorem eq_nil_iff (h : Tells palette declarations told) :
    told = [] ↔ ∃ fields, List.Forall₂ (Declares palette) declarations fields := by
  induction h with
  | nil => exact iff_of_true rfl ⟨[], .nil⟩
  | declares h _ ih =>
    rw [ih]
    constructor
    · rintro ⟨fields, hfields⟩
      exact ⟨_, .cons h hfields⟩
    · rintro ⟨_, _ | ⟨_, hfields⟩⟩
      exact ⟨_, hfields⟩
  | faulty h _ ih =>
    constructor
    · intro hnil
      exact absurd (List.append_eq_nil_iff.1 hnil).1 h.of_mem.1
    · rintro ⟨_, _ | ⟨hmade, -⟩⟩
      exact (hmade.not_faulty h).elim

end Tells

/-- The fields and diagnostics so far, after one more declaration. -/
def declare (palette : Palette) (found : List Field × Diagnostics) (declaration : String × Value) :
    List Field × Diagnostics :=
  match field palette declaration.1 declaration.2 with
  | .ok made => (found.1 ++ [made], found.2)
  | .error faults => (found.1, found.2 ++ faults)

theorem declared_eq_foldl (palette : Palette) (declarations : List (String × Value)) :
    declared palette declarations = declarations.foldl (declare palette) ([], .none) := rfl

theorem declare_of_declares {made : Field} (h : Declares palette declaration made)
    (found : List Field × Diagnostics) :
    declare palette found declaration = (found.1 ++ [made], found.2) := by
  rw [declare, field_eq_ok_iff.2 h]

theorem declare_of_faulty {diagnostics : Diagnostics} (h : Faulty palette declaration diagnostics)
    (found : List Field × Diagnostics) :
    declare palette found declaration = (found.1, found.2 ++ diagnostics) := by
  rw [declare, field_eq_error_iff.2 h]

variable {declarations : List (String × Value)}

theorem foldl_declare_of_declares {fields : List Field}
    (h : List.Forall₂ (Declares palette) declarations fields) (found : List Field × Diagnostics) :
    declarations.foldl (declare palette) found = (found.1 ++ fields, found.2) := by
  induction h generalizing found with
  | nil => simp
  | cons h _ ih => rw [List.foldl_cons, declare_of_declares h, ih, List.append_assoc]; rfl

/-- The diagnostics of a field are new where those of other fields are collected. -/
theorem tells_foldl_declare (hnodup : (declarations.map (·.1)).Nodup)
    (found : List Field × Diagnostics)
    (hnew : ∀ ident ∈ declarations.map (·.1), ∀ diagnostic ∈ found.2.toList,
      diagnostic.context ≠ .field ident) :
    ∃ told, Tells palette declarations told ∧
      (declarations.foldl (declare palette) found).2.toList = found.2.toList ++ told := by
  induction declarations generalizing found with
  | nil => exact ⟨[], .nil, by simp⟩
  | cons declaration rest ih =>
    rw [List.map_cons, List.nodup_cons] at hnodup
    rw [List.map_cons, List.forall_mem_cons] at hnew
    rw [List.foldl_cons]
    rcases declares_or_faulty palette declaration with ⟨made, hmade⟩ | ⟨diagnostics, hfaulty⟩
    · rw [declare_of_declares hmade]
      obtain ⟨told, htells, htold⟩ := ih hnodup.2 (found.1 ++ [made], found.2) hnew.2
      exact ⟨told, .declares hmade htells, htold⟩
    · have hcontext := hfaulty.of_mem.2
      -- No diagnostic found so far has the context of this field, so all of its own are added.
      have hlist : (found.2 ++ diagnostics).toList = found.2.toList ++ diagnostics.toList :=
        Diagnostics.toList_append_of_disjoint fun diagnostic hmem hold =>
          hnew.1 diagnostic hold (hcontext diagnostic hmem)
      -- They in turn have no context of a later field, whose name is another.
      have hnew' : ∀ ident ∈ rest.map (·.1), ∀ diagnostic ∈ (found.2 ++ diagnostics).toList,
          diagnostic.context ≠ .field ident := by
        intro ident hident diagnostic hmem
        rw [hlist, List.mem_append] at hmem
        rcases hmem with hmem | hmem
        · exact hnew.2 ident hident diagnostic hmem
        · rw [hcontext diagnostic hmem]
          intro heq
          exact hnodup.1 (Context.field_injective heq ▸ hident)
      obtain ⟨told, htells, htold⟩ :=
        ih hnodup.2 (found.1, found.2 ++ diagnostics) hnew'
      refine ⟨diagnostics.toList ++ told, .faulty hfaulty htells, ?_⟩
      rw [declare_of_faulty hfaulty, htold, hlist, List.append_assoc]

theorem tells_declared (palette : Palette) (hnodup : (declarations.map (·.1)).Nodup) :
    Tells palette declarations (declared palette declarations).2.toList := by
  obtain ⟨told, htells, htold⟩ := tells_foldl_declare hnodup ([], .none) (fun _ _ => nofun)
  rw [declared_eq_foldl, htold]
  exact htells

theorem fieldsOf_eq (palette : Palette) (declarations : List (String × Value)) :
    fieldsOf palette declarations =
      if (declared palette declarations).2.isEmpty then .ok (declared palette declarations).1
      else .error (declared palette declarations).2 := rfl

theorem fieldsOf_of_declares {fields : List Field}
    (h : List.Forall₂ (Declares palette) declarations fields) :
    fieldsOf palette declarations = .ok fields := by
  rw [fieldsOf_eq, declared_eq_foldl, foldl_declare_of_declares h]
  rfl

theorem fieldsOf_eq_ok_iff (hnodup : (declarations.map (·.1)).Nodup) {fields : List Field} :
    fieldsOf palette declarations = .ok fields ↔
      List.Forall₂ (Declares palette) declarations fields := by
  refine ⟨fun h => ?_, fieldsOf_of_declares⟩
  by_cases hempty : (declared palette declarations).2.isEmpty = true
  · obtain ⟨made, hmade⟩ := (tells_declared palette hnodup).eq_nil_iff.1 (List.isEmpty_iff.1 hempty)
    rw [fieldsOf_of_declares hmade] at h
    cases h
    exact hmade
  · rw [fieldsOf_eq, if_neg hempty] at h
    cases h

theorem fieldsOf_eq_error_iff (hnodup : (declarations.map (·.1)).Nodup)
    {diagnostics : Diagnostics} :
    fieldsOf palette declarations = .error diagnostics ↔
      Tells palette declarations diagnostics.toList ∧ diagnostics.toList ≠ [] := by
  have htells := tells_declared palette hnodup
  rw [fieldsOf_eq]
  constructor
  · intro h
    by_cases hempty : (declared palette declarations).2.isEmpty = true
    · rw [if_pos hempty] at h
      cases h
    · rw [if_neg hempty] at h
      cases h
      exact ⟨htells, fun hnil => hempty (List.isEmpty_iff.2 hnil)⟩
  · rintro ⟨htold, hne⟩
    have hlist := htold.unique htells
    rw [Diagnostics.eq_of_toList_eq hlist]
    exact if_neg fun hempty => hne (hlist.trans (List.isEmpty_iff.1 hempty))

theorem idents_of_declares {fields : List Field}
    (h : List.Forall₂ (Declares palette) declarations fields) :
    fields.map (·.ident) = declarations.map (·.1) := by
  induction h with
  | nil => rfl
  | cons h _ ih => rw [List.map_cons, List.map_cons, h.valid.2, ih]

theorem valid_of_declares {fields : List Field}
    (h : List.Forall₂ (Declares palette) declarations fields) :
    ∀ made ∈ fields, made.Valid := by
  induction h with
  | nil => exact nofun
  | cons h _ ih => exact List.forall_mem_cons.2 ⟨h.valid.1, ih⟩

/-- Fields that were declared under different names can be laid out. -/
theorem packable_of_declares {fields : List Field}
    (h : List.Forall₂ (Declares palette) declarations fields)
    (hnodup : (declarations.map (·.1)).Nodup) : Packable fields where
  nodup := idents_of_declares h ▸ hnodup
  valid := valid_of_declares h

/-- A declaration without properties and one that is too wide, before one that is right. -/
example :
    let declarations : List (String × Value) := [("a", .number (.integer 8)),
      ("b", .mapping [(.text "width", .number (.integer 40))]), ("c", .null)]
    ((declared .plain declarations).2.toList.map (·.kind), (declared .plain declarations).1) =
      ([.invalidProperty, .widthExceeded], [⟨"c", 32, .readWrite, 1⟩]) := by decide

end Config

end RegMap
