import Mathlib.Algebra.Order.BigOperators.Group.List
import RegMap.Artifacts
import RegMap.Proofs.History
import RegMap.Proofs.Legality

/-!
# Packed maps pass their own check

Layouts are made by the allocator and checked by the validation, which does not know
how they came about.  The two agree: what the allocator makes is never objected to.

* `Register.Legal.findings_eq_nil`: a register in which the occupants lie side by side
  passes the search for overlaps and the checks of kind and size.
* `Layout.validateLayout_ofFields` lifts this to layouts, and
  `RegisterMap.Packed.toList_validate` to maps.
* `RegisterMap.sound_of_isPacked` says what follows for generation: the only packed
  maps that are refused are those without fields.
-/

namespace RegMap

/-! ## Registers -/

namespace Register

/-- The search for overlaps finds nothing if every occupant stops before the next ones
start. -/
theorem overlappingPairs_eq_nil {occupants : List Occupant}
    (h : occupants.Pairwise fun a b => a.stop ≤ b.offset.toNat) :
    overlappingPairs occupants = [] := by
  induction h with
  | nil => rfl
  | @cons first rest hfirst _ ih =>
    have hsearch : (rest.takeWhile fun other => other.offset.toNat < first.stop) = [] := by
      cases rest with
      | nil => rfl
      | cons next rest =>
        have hnext : first.stop ≤ next.offset.toNat := hfirst next List.mem_cons_self
        simp [Nat.not_lt.2 hnext]
    rw [overlappingPairs, hsearch, ih]
    rfl

/-- Occupants that lie one behind the other are in order of their offsets. -/
theorem byOffset_eq {register : Register}
    (h : register.occupants.Pairwise fun a b => a.stop ≤ b.offset.toNat) :
    register.byOffset = register.occupants := by
  refine List.mergeSort_of_pairwise (h.imp fun {a b} hab => ?_)
  rw [decide_eq_true_eq, UInt8.le_iff_toNat_le]
  exact (Nat.le_add_right _ _).trans hab

/-- In a legal register every occupant stops before the next ones start. -/
theorem Legal.pairwise {register : Register} (h : register.Legal) :
    register.occupants.Pairwise fun a b => a.stop ≤ b.offset.toNat := by
  rw [List.pairwise_iff_getElem]
  intro i j hi hj hij
  have hleft := h.offset_eq i _ (List.getElem?_eq_getElem hi)
  have hright := h.offset_eq j _ (List.getElem?_eq_getElem hj)
  have hsum : ((register.occupants.take (i + 1)).map (·.width.toNat)).sum =
      register.occupants[i].stop := by
    rw [List.map_take, List.sum_take_succ _ _ (by simpa using hi), List.getElem_map,
      ← List.map_take, ← hleft, Occupant.stop]
  -- the occupants up to `i` are among those before `j`
  have hmono : ((register.occupants.take (i + 1)).map (·.width.toNat)).sum ≤
      ((register.occupants.take j).map (·.width.toNat)).sum :=
    ((List.take_sublist_take_left hij).map _).sum_le_sum fun _ _ => Nat.zero_le _
  rw [hright, ← hsum]
  exact hmono

/-- Nothing is wrong with a legal register. -/
theorem Legal.findings_eq_nil {register : Register} (h : register.Legal) :
    register.findings = [] := by
  have hbits : ¬register.occupiedBits > registerWidth :=
    Nat.not_lt.2 (register.occupiedBits_le_bits.trans h.bits_le)
  have hkinds : (register.occupants.filter (·.replica.access ≠ register.access)) = [] := by
    rw [List.filter_eq_nil_iff]
    intro occupant hoccupant
    simp [h.access_eq occupant hoccupant]
  have hpairs : overlappingPairs register.byOffset = [] := by
    rw [byOffset_eq h.pairwise]
    exact overlappingPairs_eq_nil h.pairwise
  rw [findings, if_neg hbits, hkinds, hpairs]
  rfl

end Register

/-! ## Layouts -/

namespace Layout

/-- Nothing is wrong with the layout of fields that can be laid out. -/
theorem validateLayout_ofFields (palette : Palette) {fields : List Field}
    (h : Packable fields) :
    RegisterMap.validateLayout palette (ofFields fields) = [] := by
  rw [RegisterMap.validateLayout, List.append_eq_nil_iff, List.flatMap_eq_nil_iff,
    List.flatMap_eq_nil_iff]
  constructor
  · rintro ⟨register, index⟩ hnumbered
    have hregister := List.mem_zipIdx_iff_getElem?.1 hnumbered
    have hlegal := legal_of_mem_registers h (List.mem_of_getElem? hregister)
    obtain ⟨row, -, -, hrow⟩ := getElem?_registers fields hregister
    have haddress : register.address = Address.ofIndex index :=
      congrArg Register.address hrow
    simp only [RegisterMap.validateAddress, if_pos haddress, Register.validate,
      hlegal.findings_eq_nil]
    rfl
  · rintro ⟨index, field⟩ hvisited
    have hlength := length_slotsOf (mem_visited.1 hvisited)
    simp only [Field.validatePlacement, if_pos hlength]
    rfl

end Layout

/-! ## Maps -/

namespace Generation

variable {σ : Type} (store : FileStore (StateM σ)) (directory : String)

/-- Once files are written, a generation fails only because one cannot be written. -/
theorem failure_writeAll_ne (artifacts : List Artifact) (files : σ) (refusal : Refusal) :
    ((writeAll store directory artifacts).run files).1.failure ≠ some (.refused refusal) := by
  induction artifacts generalizing files with
  | nil => simp [writeAll]
  | cons artifact rest ih =>
    rw [writeAll, StateT.run_bind]
    cases hwrite : (store.write (Path.join directory artifact.name) artifact.text).run files with
    | mk written files' =>
      cases written with
      | error error =>
        intro hfailure
        cases hfailure
      | ok _ => exact ih files'

/-- With artifacts at hand, a generation fails only because something cannot be made. -/
theorem failure_run_ne {palette : Palette} {map : RegisterMap} {artifacts : List Artifact}
    (h : map.checkedArtifacts palette = .ok artifacts) (files : σ) (refusal : Refusal) :
    ((run store palette map directory).run files).1.failure ≠ some (.refused refusal) := by
  rw [run, h, StateT.run_bind]
  cases hmake : (store.makeDirectories directory).run files with
  | mk made files' =>
    cases made with
    | error error =>
      intro hfailure
      cases hfailure
    | ok _ => exact failure_writeAll_ne store directory artifacts files' refusal

end Generation

namespace RegisterMap

/-- The validation of a packed map finds nothing, unless there are no fields. -/
theorem Packed.toList_validate {map : RegisterMap} (h : map.Packed)
    (hpacked : map.isPacked = true) (palette : Palette) :
    (map.validate palette).toList =
      if map.fields = [] then [Finding.empty.at palette .root] else [] := by
  have hlayout : validateLayout palette map.layout = [] := by
    rw [h.layout_eq]
    exact Layout.validateLayout_ofFields palette h.packable
  have hfields : fieldDiagnostics palette map.fields = [] :=
    (fieldDiagnostics_eq_nil_iff palette map.fields).2 h.packable
  have hvalidate : map.validate palette =
      .ofList (if map.fields.isEmpty then [Finding.empty.at palette .root] else []) := by
    rw [validate, if_pos hpacked, hlayout, validateDeclarations, hfields, List.append_nil]
    rfl
  rw [hvalidate]
  by_cases hnil : map.fields = []
  · simp only [hnil, List.isEmpty_nil, if_true]
    rfl
  · simp only [hnil, List.isEmpty_eq_false_iff.2 hnil, Bool.false_eq_true, if_false]
    rfl

/-- A packed map is refused if it has no fields, and only then. -/
theorem Packed.checkedArtifacts_eq {map : RegisterMap} (h : map.Packed)
    (hpacked : map.isPacked = true) (palette : Palette) :
    map.checkedArtifacts palette =
      if map.fields = [] then .error (.warnings 1) else map.artifacts := by
  have hlist := h.toList_validate hpacked palette
  rw [checkedArtifacts, Diagnostics.errors, Diagnostics.warnings, hlist, hpacked]
  by_cases hnil : map.fields = []
  · simp only [hnil, if_true]
    rfl
  · simp only [hnil, if_false]
    rfl

/-- Nothing is wrong with a map, except that it may have no fields: then it has one warning
and is not generated. -/
structure Sound (map : RegisterMap) (palette : Palette) : Prop where
  toList_validate : (map.validate palette).toList =
    if map.fields = [] then [Finding.empty.at palette .root] else []
  isEmpty_validate : (map.validate palette).isEmpty = true ↔ map.fields ≠ []
  checkedArtifacts_eq : map.checkedArtifacts palette =
    if map.fields = [] then .error (.warnings 1) else map.artifacts
  /-- Whatever the files around it are, the only refusal is for that warning. -/
  refused_iff : ∀ {σ : Type} (store : FileStore (StateM σ)) (directory : String) (files : σ)
    (refusal : Refusal),
    ((Generation.run store palette map directory).run files).1.failure =
        some (.refused refusal) ↔
      map.fields = [] ∧ refusal = .warnings 1

theorem Packed.sound {map : RegisterMap} (h : map.Packed) (hpacked : map.isPacked = true)
    (palette : Palette) : map.Sound palette := by
  have hlist := h.toList_validate hpacked palette
  have hchecked := h.checkedArtifacts_eq hpacked palette
  refine ⟨hlist, ?_, hchecked, ?_⟩
  · rw [Diagnostics.isEmpty, hlist]
    by_cases hnil : map.fields = [] <;> simp [hnil]
  · intro σ store directory files refusal
    by_cases hnil : map.fields = []
    · have hrefused : map.checkedArtifacts palette = .error (.warnings 1) := by
        rw [hchecked, if_pos hnil]
      have hrun : ((Generation.run store palette map directory).run files).1.failure =
          some (.refused (.warnings 1)) := by
        rw [Generation.run, hrefused]
        rfl
      rw [hrun]
      simp [hnil, eq_comm]
    · obtain ⟨artifacts, hartifacts⟩ : ∃ artifacts, map.artifacts = .ok artifacts :=
        ⟨_, if_pos hpacked⟩
      rw [if_neg hnil, hartifacts] at hchecked
      have hfailure := Generation.failure_run_ne store directory hchecked files refusal
      simp [hnil, hfailure]

/-- Packed maps are sound, whatever was done to them before. -/
theorem sound_of_isPacked {map : RegisterMap} (hmap : map.Reachable)
    (hpacked : map.isPacked = true) (palette : Palette) : map.Sound palette :=
  (hmap.consistent.packed hpacked).sound hpacked palette

/-- A map that was packed before and got more fields: three replicas spill into a second
register, and two kinds share no register. -/
theorem sound_of_isPacked_twice :
    let map := (new ⟨"acme", "csr", "timer", none⟩ none).changed
      [.add ⟨"lane", 12, .readOnly, 3⟩, .pack .plain,
        .addAll [⟨"high", 16, .readWrite, 1⟩, ⟨"low", 16, .readWrite, 1⟩], .pack .ansi]
    map.Reachable ∧ map.isPacked = true ∧ map.Sound .plain := by
  intro map
  have hmap : map.Reachable := ⟨_, _, _, rfl⟩
  exact ⟨hmap, rfl, sound_of_isPacked hmap rfl .plain⟩

end RegisterMap

end RegMap
