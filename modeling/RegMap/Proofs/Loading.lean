import RegMap.Proofs.Declarations
import RegMap.Proofs.Places

/-!
# How configurations are loaded

A configuration is loaded in two steps: its keys give an identifier, a name and declarations,
and the declarations give fields or diagnostics.

* `Config.Outlines` says what the keys have to be like, and `Config.outline_eq_ok_iff` that
  nothing else is asked of them.
* `Config.Source.nodup_declarations`: names are declared once, so that the fields never get in
  each other's way.
* `Config.loads_ofSource` puts the steps together.
-/

namespace RegMap

section

variable {ε ε' α β : Type}

theorem bind_eq_error {x : Except ε α} {f : α → Except ε β} {fault : ε} :
    (x >>= f) = .error fault ↔ x = .error fault ∨ ∃ a, x = .ok a ∧ f a = .error fault := by
  cases x <;> simp [bind, Except.bind]

theorem mapError_eq_ok {f : ε → ε'} {x : Except ε α} {a : α} :
    x.mapError f = .ok a ↔ x = .ok a := by
  cases x <;> simp [Except.mapError]

theorem mapError_eq_error {f : ε → ε'} {x : Except ε α} {fault : ε'} :
    x.mapError f = .error fault ↔ ∃ cause, x = .error cause ∧ f cause = fault := by
  cases x <;> simp [Except.mapError]

/-- What every step keeps, a loop keeps. -/
theorem foldlM_keeps (P : β → Prop) {step : β → α → Except ε β}
    (hstep : ∀ b a next, P b → step b a = .ok next → P next) {b last : β} (hb : P b)
    {list : List α} (h : list.foldlM step b = .ok last) : P last := by
  induction list generalizing b with
  | nil =>
    cases h
    exact hb
  | cons a rest ih =>
    rw [List.foldlM_cons] at h
    obtain ⟨next, hnext, hrest⟩ := bind_eq_ok.1 h
    exact ih (hstep b a next hb hnext) hrest

end

namespace Config

open Yaml (Value)

variable {declarations : List (String × Value)}

/-! ## Names of declarations -/

namespace Source

/-- A declaration keeps the place of one of the same name. -/
theorem names_declare (declarations : List (String × Value)) (name : String) (value : Value) :
    (declare declarations name value).map (·.1) =
      if name ∈ declarations.map (·.1) then declarations.map (·.1)
      else declarations.map (·.1) ++ [name] := by
  have hany : declarations.any (·.1 = name) = true ↔ name ∈ declarations.map (·.1) := by simp
  rw [declare]
  by_cases hmem : name ∈ declarations.map (·.1)
  · rw [if_pos (hany.2 hmem), if_pos hmem, List.map_map]
    refine List.map_congr_left fun declaration _ => ?_
    by_cases hname : declaration.1 = name <;> simp [hname]
  · rw [if_neg (fun h => hmem (hany.1 h)), if_neg hmem, List.map_append]
    rfl

theorem nodup_declare {declarations : List (String × Value)}
    (h : (declarations.map (·.1)).Nodup) (name : String) (value : Value) :
    ((declare declarations name value).map (·.1)).Nodup := by
  rw [names_declare]
  split
  · exact h
  · rename_i hnew
    refine List.nodup_append.2 ⟨h, List.nodup_singleton name, ?_⟩
    rintro other hother _ (_ | ⟨_, ⟨⟩⟩) rfl
    exact hnew hother

/-- A value declares every name once. -/
theorem nodup_declarations {value : Value} {declarations : List (String × Value)}
    (h : Source.declarations value = .ok declarations) : (declarations.map (·.1)).Nodup := by
  rw [Source.declarations] at h
  split at h
  · cases h
    exact .nil
  · refine foldlM_keeps (fun found => (found.map (·.1)).Nodup) ?_ .nil h
    rintro found ⟨key, value⟩ next hnodup hnext
    dsimp only at hnext
    split at hnext
    · obtain ⟨value, _, hvalue⟩ := bind_eq_ok.1 hnext
      cases hvalue
      exact nodup_declare hnodup _ value
    · cases hnext
  · cases h

end Source

/-! ## Sources -/

/-- The keys of a source are there, and have values that can be read. -/
structure Outlines (source : Source) (vlnv : Vlnv) (instanceName : Option String)
    (declarations : List (String × Value)) : Prop where
  vlnv : ∃ text, source.vlnv = some text ∧ Vlnv.ofText text = .ok vlnv
  parameters : ∃ parameters, source.parameters = some parameters ∧
    (Value.lookup? "instance" parameters = some .null ∧ instanceName = none ∨
      ∃ name, Value.lookup? "instance" parameters = some (.text name) ∧
        instanceName = some name) ∧
    (Value.lookup? "registers" parameters = some .null ∧ declarations = [] ∨
      ∃ value, Value.lookup? "registers" parameters = some value ∧
        Source.declarations value = .ok declarations)

theorem instanceName?_eq_ok_iff {parameters : List (Value × Value)} {name : Option String} :
    instanceName? parameters = .ok name ↔
      Value.lookup? "instance" parameters = some .null ∧ name = none ∨
        ∃ text, Value.lookup? "instance" parameters = some (.text text) ∧ name = some text := by
  rw [instanceName?]
  cases Value.lookup? "instance" parameters with
  | none => simp
  | some value => cases value <;> simp [eq_comm]

theorem registers_eq_ok_iff {parameters : List (Value × Value)}
    {declarations : List (String × Value)} :
    registers parameters = .ok declarations ↔
      Value.lookup? "registers" parameters = some .null ∧ declarations = [] ∨
        ∃ value, Value.lookup? "registers" parameters = some value ∧
          Source.declarations value = .ok declarations := by
  rw [registers]
  split
  · rename_i hlookup
    simp [hlookup]
  · rename_i hlookup
    have hnull : Source.declarations .null = .ok [] := rfl
    simp [hlookup, hnull, eq_comm]
  · rename_i value hne hlookup
    have hnull : value ≠ .null := hne
    simp [hlookup, mapError_eq_ok, hnull]

/-- What the keys of a source say, before the declarations are looked at. -/
def outline (source : Source) :
    Except Refusal (Vlnv × Option String × List (String × Value)) := do
  let some text := source.vlnv | throw (.missingKey "vlnv")
  let vlnv ← (Vlnv.ofText text).mapError .malformedVlnv
  let some parameters := source.parameters | throw (.missingKey "parameters")
  let name ← instanceName? parameters
  let declarations ← registers parameters
  return (vlnv, name, declarations)

theorem ofSource_eq_bind (palette : Palette) (source : Source) :
    ofSource palette source = do
      let (vlnv, name, declarations) ← outline source
      let fields ← (fieldsOf palette declarations).mapError .invalidFields
      return ⟨vlnv, name, fields⟩ := by
  rw [ofSource, outline]
  cases source.vlnv with
  | none => rfl
  | some text =>
    dsimp only
    cases (Vlnv.ofText text).mapError Refusal.malformedVlnv with
    | error refusal => rfl
    | ok vlnv =>
      cases source.parameters with
      | none => rfl
      | some parameters =>
        dsimp only
        cases instanceName? parameters with
        | error refusal => rfl
        | ok name => cases registers parameters <;> rfl

variable {source : Source} {vlnv : Vlnv} {name : Option String}

theorem outline_eq_ok_iff :
    outline source = .ok (vlnv, name, declarations) ↔
      Outlines source vlnv name declarations := by
  constructor
  · intro h
    rw [outline] at h
    split at h
    · rename_i text htext
      obtain ⟨found, hfound, h⟩ := bind_eq_ok.1 h
      split at h
      · rename_i parameters hparameters
        obtain ⟨_, hname, h⟩ := bind_eq_ok.1 h
        obtain ⟨_, hregisters, h⟩ := bind_eq_ok.1 h
        cases h
        exact ⟨⟨text, htext, mapError_eq_ok.1 hfound⟩, parameters, hparameters,
          instanceName?_eq_ok_iff.1 hname, registers_eq_ok_iff.1 hregisters⟩
      · cases h
    · cases h
  · intro h
    obtain ⟨text, htext, hvlnv⟩ := h.vlnv
    obtain ⟨parameters, hparameters, hname, hregisters⟩ := h.parameters
    rw [← instanceName?_eq_ok_iff] at hname
    rw [← registers_eq_ok_iff] at hregisters
    rw [outline, htext, hparameters]
    simp only [mapError_eq_ok.2 hvlnv, hname, hregisters]
    rfl

/-- The keys are refused for reasons of their own. -/
theorem outline_ne_invalidFields (diagnostics : Diagnostics) :
    outline source ≠ .error (.invalidFields diagnostics) := by
  intro h
  rw [outline] at h
  split at h
  · rcases bind_eq_error.1 h with h | ⟨vlnv, -, h⟩
    · obtain ⟨_, _, ⟨⟩⟩ := mapError_eq_error.1 h
    · split at h
      · rcases bind_eq_error.1 h with h | ⟨name, -, h⟩
        · rw [instanceName?] at h
          split at h <;> cases h
        · rcases bind_eq_error.1 h with h | ⟨declarations, -, ⟨⟩⟩
          rw [registers] at h
          split at h
          · cases h
          · cases h
          · obtain ⟨_, _, ⟨⟩⟩ := mapError_eq_error.1 h
      · cases h
  · cases h

theorem Outlines.nodup_names (h : Outlines source vlnv name declarations) :
    (declarations.map (·.1)).Nodup := by
  obtain ⟨_, _, _, ⟨_, rfl⟩ | ⟨_, _, hvalue⟩⟩ := h.parameters
  · exact .nil
  · exact Source.nodup_declarations hvalue

theorem ofSource_of_outlines (palette : Palette) (h : Outlines source vlnv name declarations) :
    ofSource palette source = do
      let fields ← (fieldsOf palette declarations).mapError .invalidFields
      return ⟨vlnv, name, fields⟩ := by
  rw [ofSource_eq_bind, outline_eq_ok_iff.2 h]
  rfl

theorem ofSource_eq_ok_iff {palette : Palette} {config : Config} :
    ofSource palette source = .ok config ↔
      ∃ declarations, Outlines source config.vlnv config.instanceName declarations ∧
        List.Forall₂ (Declares palette) declarations config.fields := by
  constructor
  · intro h
    rw [ofSource_eq_bind] at h
    obtain ⟨⟨vlnv, name, declarations⟩, hout, h⟩ := bind_eq_ok.1 h
    obtain ⟨fields, hfields, h⟩ := bind_eq_ok.1 h
    cases h
    have hout := outline_eq_ok_iff.1 hout
    exact ⟨declarations, hout,
      (fieldsOf_eq_ok_iff hout.nodup_names).1 (mapError_eq_ok.1 hfields)⟩
  · rintro ⟨declarations, hout, hfields⟩
    rw [ofSource_of_outlines palette hout, fieldsOf_of_declares hfields]
    rfl

theorem ofSource_eq_invalidFields_iff {palette : Palette} {diagnostics : Diagnostics} :
    ofSource palette source = .error (.invalidFields diagnostics) ↔
      ∃ vlnv name declarations, Outlines source vlnv name declarations ∧
        Tells palette declarations diagnostics.toList ∧ diagnostics.toList ≠ [] := by
  constructor
  · intro h
    rw [ofSource_eq_bind] at h
    rcases bind_eq_error.1 h with h | ⟨⟨vlnv, name, declarations⟩, hout, h⟩
    · exact absurd h (outline_ne_invalidFields diagnostics)
    · rcases bind_eq_error.1 h with h | ⟨fields, -, ⟨⟩⟩
      obtain ⟨_, hfields, ⟨⟩⟩ := mapError_eq_error.1 h
      have hout := outline_eq_ok_iff.1 hout
      exact ⟨vlnv, name, declarations, hout, (fieldsOf_eq_error_iff hout.nodup_names).1 hfields⟩
  · rintro ⟨vlnv, name, declarations, hout, htells⟩
    rw [ofSource_of_outlines palette hout, (fieldsOf_eq_error_iff hout.nodup_names).2 htells]
    rfl

theorem fields_toMap (config : Config) : config.toMap.fields = config.fields := by
  rw [toMap, RegisterMap.fields_addFields]
  rfl

theorem packable_of_ofSource {palette : Palette} {config : Config}
    (h : ofSource palette source = .ok config) : Packable config.toMap.fields := by
  obtain ⟨declarations, hout, hfields⟩ := ofSource_eq_ok_iff.1 h
  rw [fields_toMap]
  exact packable_of_declares hfields hout.nodup_names

/-- The map of a configuration declares the fields of the configuration, in their order, for the
same core.  An instance with an empty name has none. -/
structure Describes (config : Config) (map : RegisterMap) : Prop where
  vlnv_eq : map.vlnv = config.vlnv
  instanceName_eq : map.instanceName = config.instanceName.filter (!·.isEmpty)
  fields_eq : map.fields = config.fields

theorem describes_toMap (config : Config) : config.Describes config.toMap where
  vlnv_eq := RegisterMap.vlnv_addFields _ _
  instanceName_eq := RegisterMap.instanceName_addFields _ _
  fields_eq := config.fields_toMap

/-- How a source becomes a configuration: every declaration is accounted for, by a field or by
what is told about it, and what is loaded becomes a map that can be laid out. -/
structure Loads (palette : Palette) (source : Source) : Prop where
  ofText_eq : ∀ text, Source.ofText text = .ok source →
    ofText palette text = ofSource palette source
  ok_iff : ∀ config, ofSource palette source = .ok config ↔
    ∃ declarations, Outlines source config.vlnv config.instanceName declarations ∧
      List.Forall₂ (Declares palette) declarations config.fields
  nodup_names : ∀ vlnv name declarations, Outlines source vlnv name declarations →
    (declarations.map (·.1)).Nodup
  idents_eq : ∀ config declarations, ofSource palette source = .ok config →
    Outlines source config.vlnv config.instanceName declarations →
      config.fields.map (·.ident) = declarations.map (·.1)
  describes : ∀ config, ofSource palette source = .ok config → config.Describes config.toMap
  pack_eq : ∀ config, ofSource palette source = .ok config →
    ∀ palette', (config.toMap.pack palette').2 = .ok ()
  invalidFields : ∀ vlnv name declarations, Outlines source vlnv name declarations →
    ∀ declaration ∈ declarations, ∀ faults, Faulty palette declaration faults →
      ∃ diagnostics, ofSource palette source = .error (.invalidFields diagnostics) ∧
        Tells palette declarations diagnostics.toList
  only_fields : ∀ diagnostics, ofSource palette source = .error (.invalidFields diagnostics) →
    ∃ vlnv name declarations, Outlines source vlnv name declarations ∧
      Tells palette declarations diagnostics.toList ∧ diagnostics.toList ≠ []

theorem loads_ofSource (palette : Palette) (source : Source) : Loads palette source where
  ofText_eq := by
    intro text htext
    rw [ofText, htext]
    rfl
  ok_iff config := ofSource_eq_ok_iff
  nodup_names vlnv name declarations hout := hout.nodup_names
  idents_eq := by
    intro config declarations h hout
    obtain ⟨found, hfound, hfields⟩ := ofSource_eq_ok_iff.1 h
    cases (outline_eq_ok_iff.2 hout).symm.trans (outline_eq_ok_iff.2 hfound)
    exact idents_of_declares hfields
  describes config _ := config.describes_toMap
  pack_eq := by
    intro config h palette'
    exact (RegisterMap.pack_eq_ok_iff palette' _).2 (packable_of_ofSource h)
  invalidFields := by
    intro vlnv name declarations hout declaration hmem faults hfaulty
    have htells := tells_declared palette hout.nodup_names
    have hne : (declared palette declarations).2.toList ≠ [] := fun hnil =>
      hfaulty.of_mem.1 (List.subset_nil.1 (hnil ▸ htells.subset_of_faulty hmem hfaulty))
    exact ⟨_, ofSource_eq_invalidFields_iff.2 ⟨vlnv, name, declarations, hout, htells, hne⟩,
      htells⟩
  only_fields diagnostics h := ofSource_eq_invalidFields_iff.1 h

end Config

end RegMap
