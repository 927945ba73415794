import RegMap.Proofs.Validity

/-!
# Histories

A map can be changed any number of times: fields are declared and packing is tried,
in any order.  Little of this history remains.

* `Change` is one thing that can be done, and `RegisterMap.changed` does some of them
  one after the other.  A packing that fails is a change as well.
* `RegisterMap.Consistent` is what every change preserves: a map is cleared, or it
  has the layout of its fields, which can be laid out.
* `PackedLast` tells from the changes alone whether the map is packed, and
  `packedLast_append_singleton` how one more change bears on this.
* `RegisterMap.historyFree_changed` puts them together: what a map is like depends
  only on the fields that it was given and on whether it was packed since.
-/

namespace RegMap

/-- What can be done to a map. -/
inductive Change where
  | add (field : Field)
  | addAll (fields : List Field)
  | pack (palette : Palette)

/-- The fields that a change declares. -/
def Change.declared : Change → List Field
  | add field => [field]
  | addAll fields => fields
  | pack _ => []

namespace RegisterMap

/-- The map after a change. -/
def change (map : RegisterMap) : Change → RegisterMap
  | .add field => map.addField field
  | .addAll fields => map.addFields fields
  | .pack palette => (map.pack palette).1

/-- The map after some changes, one after the other. -/
def changed (map : RegisterMap) (changes : List Change) : RegisterMap :=
  changes.foldl change map

/-- The maps that there are: new ones, and those that come of them by changes. -/
def Reachable (map : RegisterMap) : Prop :=
  ∃ vlnv instanceName changes, map = (new vlnv instanceName).changed changes

/-- Nothing is placed, and the fields are visited as they were declared. -/
structure Cleared (map : RegisterMap) : Prop where
  isPacked : map.isPacked = false
  visited : map.visited = Declaration.ofFields map.fields
  registers : map.registers = []
  slots : ∀ declaration, map.slots declaration = []

/-- Some packing succeeded, and no field was declared since. -/
def PackedLast (map : RegisterMap) (changes : List Change) : Prop :=
  ∃ before palette after, changes = before ++ .pack palette :: after ∧
    ((map.changed before).pack palette).2 = .ok () ∧ ∀ change ∈ after, change.declared = []

/-- What a map is like after some changes.  Packed, it has the layout of any new map
that is given the same fields and is packed once. -/
structure HistoryFree (start : RegisterMap) (changes : List Change) : Prop where
  fields_eq : (start.changed changes).fields = changes.flatMap (·.declared)
  isPacked_iff : (start.changed changes).isPacked = true ↔ start.PackedLast changes
  cleared : (start.changed changes).isPacked = false → (start.changed changes).Cleared
  layout_eq : (start.changed changes).isPacked = true → ∀ vlnv instanceName palette,
    let fresh := ((new vlnv instanceName).addFields (changes.flatMap (·.declared))).pack palette
    fresh.2 = .ok () ∧ (start.changed changes).layout = fresh.1.layout

/-! ## One change -/

theorem fields_change (map : RegisterMap) (change : Change) :
    (map.change change).fields = map.fields ++ change.declared := by
  cases change with
  | add field => exact map.fields_addField field
  | addAll fields => exact map.fields_addFields fields
  | pack palette =>
    rw [Change.declared, List.append_nil]
    exact fields_pack palette map

/-- A map that is not packed has nothing placed, and one that is packed has the layout
of its fields. -/
structure Consistent (map : RegisterMap) : Prop where
  layout_eq : map.isPacked = false → map.layout = .unpacked map.fields
  packed : map.isPacked = true → map.Packed

theorem consistent_unpack (map : RegisterMap) : map.unpack.Consistent where
  layout_eq := fun _ => map.layout_unpack
  packed := fun hpacked => by cases hpacked

theorem consistent_new (vlnv : Vlnv) (instanceName : Option String) :
    (new vlnv instanceName).Consistent where
  layout_eq := fun _ => rfl
  packed := fun hpacked => by cases hpacked

theorem consistent_addField (map : RegisterMap) (field : Field) :
    (map.addField field).Consistent where
  layout_eq := fun _ => by
    have hdeclare := Layout.declare_unpacked map.fields field
    rw [← map.layout_unpack] at hdeclare
    exact hdeclare
  packed := fun hpacked => by cases hpacked

theorem Consistent.addFields {map : RegisterMap} (h : map.Consistent) (fields : List Field) :
    (map.addFields fields).Consistent := by
  unfold RegisterMap.addFields
  -- only an empty list needs `h`: a declared field clears the map, whatever it was
  induction fields generalizing map with
  | nil => exact h
  | cons field rest ih => exact ih (map.consistent_addField field)

theorem consistent_pack (palette : Palette) (map : RegisterMap) :
    (map.pack palette).1.Consistent := by
  unfold pack
  dsimp only
  split
  · rename_i herrors
    have hpackable : Packable map.fields :=
      (errors_validateDeclarations_eq_zero_iff palette map.unpack).1 herrors
    refine ⟨fun hpacked => ?_, fun _ => ⟨hpackable, map.layout_allocate⟩⟩
    cases hpacked
  · exact map.consistent_unpack

/-- Every change keeps a map consistent. -/
theorem Consistent.change {map : RegisterMap} (h : map.Consistent) (change : Change) :
    (map.change change).Consistent := by
  cases change with
  | add field => exact map.consistent_addField field
  | addAll fields => exact h.addFields fields
  | pack palette => exact map.consistent_pack palette

/-- A map is packed by packing it with success, and not by anything else. -/
theorem isPacked_pack_iff (palette : Palette) (map : RegisterMap) :
    (map.pack palette).1.isPacked = true ↔ (map.pack palette).2 = .ok () := by
  unfold pack
  dsimp only
  split
  · exact iff_of_true rfl rfl
  · constructor <;> intro h <;> cases h

theorem isPacked_addFields_cons (map : RegisterMap) (field : Field) (fields : List Field) :
    (map.addFields (field :: fields)).isPacked = false := by
  induction fields generalizing map field with
  | nil => rfl
  | cons next rest ih => exact ih (map.addField field) next

/-- A change leaves a map packed if it packs the map, or if the map was packed and is
given no fields. -/
theorem Consistent.isPacked_change_iff {map : RegisterMap} (h : map.Consistent)
    (change : Change) :
    (map.change change).isPacked = true ↔
      (∃ palette, change = .pack palette ∧ (map.pack palette).2 = .ok ()) ∨
        map.isPacked = true ∧ change.declared = [] := by
  cases change with
  | add field =>
    have hchange : (map.change (.add field)).isPacked = false := rfl
    simp [hchange, Change.declared]
  | addAll fields =>
    cases fields with
    | nil => simp [RegisterMap.change, RegisterMap.addFields, Change.declared]
    | cons field rest =>
      have hchange : (map.change (.addAll (field :: rest))).isPacked = false :=
        map.isPacked_addFields_cons field rest
      simp [hchange, Change.declared]
  | pack palette =>
    rw [RegisterMap.change, isPacked_pack_iff]
    constructor
    · intro hok
      exact .inl ⟨palette, rfl, hok⟩
    · rintro (⟨_, hchange, hok⟩ | ⟨hpacked, -⟩)
      · cases hchange
        exact hok
      · exact (pack_eq_ok_iff palette map).2 (h.packed hpacked).packable

/-! ## Any number of changes -/

theorem changed_append_singleton (map : RegisterMap) (changes : List Change) (change : Change) :
    map.changed (changes ++ [change]) = (map.changed changes).change change := by
  simp [changed]

theorem fields_changed (map : RegisterMap) (changes : List Change) :
    (map.changed changes).fields = map.fields ++ changes.flatMap (·.declared) := by
  induction changes using List.reverseRecOn with
  | nil => simp [changed]
  | append_singleton changes change ih =>
    rw [changed_append_singleton, fields_change, ih, List.flatMap_append, List.flatMap_singleton,
      List.append_assoc]

theorem Consistent.changed {map : RegisterMap} (h : map.Consistent) (changes : List Change) :
    (map.changed changes).Consistent := by
  induction changes using List.reverseRecOn with
  | nil => exact h
  | append_singleton changes change ih =>
    rw [changed_append_singleton]
    exact ih.change change

theorem Reachable.consistent {map : RegisterMap} (h : map.Reachable) : map.Consistent := by
  obtain ⟨vlnv, instanceName, changes, rfl⟩ := h
  exact (consistent_new vlnv instanceName).changed changes

/-- The last change packs the map, or those before it did and it declares nothing. -/
theorem packedLast_append_singleton (map : RegisterMap) (changes : List Change)
    (change : Change) :
    map.PackedLast (changes ++ [change]) ↔
      (∃ palette, change = .pack palette ∧ ((map.changed changes).pack palette).2 = .ok ()) ∨
        map.PackedLast changes ∧ change.declared = [] := by
  constructor
  · rintro ⟨before, palette, after, heq, hok, hafter⟩
    -- the packing that counts is the last change, or that one comes after it
    rcases List.eq_nil_or_concat after with rfl | ⟨between, last, rfl⟩
    · obtain ⟨rfl, hlast⟩ := List.append_inj' heq rfl
      rw [List.singleton_inj] at hlast
      exact .inl ⟨palette, hlast, hok⟩
    · rw [List.concat_eq_append] at heq hafter
      rw [← List.cons_append, ← List.append_assoc] at heq
      obtain ⟨rfl, hlast⟩ := List.append_inj' heq rfl
      rw [List.singleton_inj] at hlast
      subst hlast
      rw [List.forall_mem_append, List.forall_mem_singleton] at hafter
      exact .inr ⟨⟨before, palette, between, rfl, hok, hafter.1⟩, hafter.2⟩
  · rintro (⟨palette, rfl, hok⟩ | ⟨⟨before, palette, after, rfl, hok, hafter⟩, hlast⟩)
    · exact ⟨changes, palette, [], rfl, hok, by simp⟩
    · refine ⟨before, palette, after ++ [change], by simp, hok, ?_⟩
      rw [List.forall_mem_append, List.forall_mem_singleton]
      exact ⟨hafter, hlast⟩

theorem Consistent.isPacked_changed_iff {map : RegisterMap} (h : map.Consistent)
    (hstart : map.isPacked = false) (changes : List Change) :
    (map.changed changes).isPacked = true ↔ map.PackedLast changes := by
  induction changes using List.reverseRecOn with
  | nil =>
    refine iff_of_false (by simp [RegisterMap.changed, hstart]) ?_
    rintro ⟨before, palette, after, heq, -⟩
    simp at heq
  | append_singleton changes change ih =>
    rw [changed_append_singleton, packedLast_append_singleton, ← ih]
    exact (h.changed changes).isPacked_change_iff change

theorem Consistent.cleared {map : RegisterMap} (h : map.Consistent)
    (hpacked : map.isPacked = false) : map.Cleared := by
  have hlayout := h.layout_eq hpacked
  refine ⟨hpacked, ?_, ?_, fun declaration => ?_⟩
  · rw [visited, hlayout, Layout.unpacked]
  · rw [registers, hlayout, Layout.unpacked]
  · rw [slots, hlayout, Layout.unpacked, Layout.slotsOf, Array.getElem?_replicate]
    split <;> rfl

/-- However a new map was changed, only its fields and the last packing matter. -/
theorem historyFree_changed (vlnv : Vlnv) (instanceName : Option String)
    (changes : List Change) : (new vlnv instanceName).HistoryFree changes := by
  have hstart := consistent_new vlnv instanceName
  have hend := hstart.changed changes
  have hfields : ((new vlnv instanceName).changed changes).fields =
      changes.flatMap (·.declared) :=
    fields_changed (new vlnv instanceName) changes
  refine ⟨hfields, hstart.isPacked_changed_iff rfl changes, hend.cleared, ?_⟩
  intro hpacked vlnv' instanceName' palette fresh
  obtain ⟨hpackable, hlayout⟩ := hend.packed hpacked
  rw [hfields] at hpackable hlayout
  have hfresh : ((new vlnv' instanceName').addFields (changes.flatMap (·.declared))).fields =
      changes.flatMap (·.declared) :=
    fields_addFields (new vlnv' instanceName') (changes.flatMap (·.declared))
  have hok : fresh.2 = .ok () := by
    rw [pack_eq_ok_iff, hfresh]
    exact hpackable
  refine ⟨hok, ?_⟩
  rw [hlayout, layout_pack hok, hfresh]

end RegisterMap

end RegMap
