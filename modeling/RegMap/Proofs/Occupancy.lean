import Mathlib.Data.List.Nodup
import RegMap.Proofs.Allocation
import RegMap.Proofs.Tiling
import RegMap.Proofs.VisitingOrder

/-!
# The occupancy of a layout

Three facts tie the two copies of a layout to the declared fields.

* `replicas_occupancy`: register by register, the occupants are the replicas of
  the fields in visiting order.
* `replicas_entriesOf`: the entries of one field are its replicas, in order.
* `placements_ofFields`: the placements of a field, which are looked up through
  its slots, are these entries.
-/

namespace RegMap

/-! ## Replicas -/

namespace Declaration

theorem mem_replicas {declaration : Declaration} {replica : Replica} :
    replica ∈ declaration.replicas ↔
      replica.declaration = declaration ∧
        replica.number.toNat < declaration.field.count.toNat := by
  simp only [replicas, List.mem_map, List.mem_range]
  constructor
  · intro hexists
    obtain ⟨n, hn, rfl⟩ := hexists
    have hcount := declaration.field.count.toNat_lt
    refine ⟨rfl, ?_⟩
    rwa [UInt32.toNat_ofNat', Nat.mod_eq_of_lt (by omega)]
  · intro hand
    obtain ⟨rfl, hnumber⟩ := hand
    exact ⟨replica.number.toNat, hnumber, by simp⟩

theorem field_of_mem_replicas {declaration : Declaration} {replica : Replica}
    (h : replica ∈ declaration.replicas) : replica.field = declaration.field := by
  rw [Replica.field, (mem_replicas.1 h).1]

@[simp] theorem length_replicas (declaration : Declaration) :
    declaration.replicas.length = declaration.field.count.toNat := by
  simp [replicas]

theorem getElem?_replicas {declaration : Declaration} {n : Nat}
    (h : n < declaration.field.count.toNat) :
    declaration.replicas[n]? = some ⟨declaration, UInt32.ofNat n⟩ := by
  simp [replicas, h]

theorem nodup_replicas (declaration : Declaration) : declaration.replicas.Nodup := by
  refine List.Nodup.map_on (fun n hn m hm hnm => ?_) List.nodup_range
  have hcount := declaration.field.count.toNat_lt
  rw [List.mem_range] at hn hm
  have hnumber := congrArg (·.number.toNat) hnm
  simp only [UInt32.toNat_ofNat'] at hnumber
  rwa [Nat.mod_eq_of_lt (by omega), Nat.mod_eq_of_lt (by omega)] at hnumber

end Declaration

namespace Layout

variable {visited : List Declaration}

theorem mem_sequence {replica : Replica} :
    replica ∈ sequence visited ↔
      replica.declaration ∈ visited ∧ replica.number.toNat < replica.field.count.toNat := by
  simp only [sequence, List.mem_flatMap, Declaration.mem_replicas]
  constructor
  · intro hexists
    obtain ⟨_, hmem, rfl, hnumber⟩ := hexists
    exact ⟨hmem, hnumber⟩
  · intro hand
    obtain ⟨hmem, hnumber⟩ := hand
    exact ⟨_, hmem, rfl, hnumber⟩

theorem nodup_sequence (h : visited.Nodup) : (sequence visited).Nodup := by
  refine List.nodup_flatMap.2 ⟨fun declaration _ => declaration.nodup_replicas, ?_⟩
  refine h.imp fun {a b} hab => ?_
  intro replica ha hb
  exact hab ((Declaration.mem_replicas.1 ha).1.symm.trans (Declaration.mem_replicas.1 hb).1)

/-- What holds between fields in the order in which they are visited, and of each with itself,
holds between their replicas. -/
theorem pairwise_sequence {R : Field → Field → Prop} (hrefl : ∀ field, R field field)
    (h : visited.Pairwise fun a b => R a.field b.field) :
    (sequence visited).Pairwise fun a b => R a.field b.field := by
  refine List.pairwise_flatMap.2 ⟨fun declaration _ => ?_, ?_⟩
  · refine List.pairwise_of_forall_mem_list fun a ha b hb => ?_
    rw [Declaration.field_of_mem_replicas ha, Declaration.field_of_mem_replicas hb]
    exact hrefl declaration.field
  · refine h.imp fun {a b} hab x hx y hy => ?_
    rw [Declaration.field_of_mem_replicas hx, Declaration.field_of_mem_replicas hy]
    exact hab

/-- The replicas of one field lie together in the sequence. -/
theorem filter_sequence (h : visited.Pairwise (·.index ≠ ·.index)) {declaration : Declaration}
    (hmem : declaration ∈ visited) :
    (sequence visited).filter (·.declaration.index = declaration.index) =
      declaration.replicas := by
  have hfilter : ∀ other : Declaration,
      other.replicas.filter (·.declaration.index = declaration.index) =
        if other.index = declaration.index then other.replicas else [] := by
    intro other
    by_cases hindex : other.index = declaration.index <;>
      simp [Declaration.replicas, List.filter_map, Function.comp_def, hindex]
  induction visited with
  | nil => simp at hmem
  | cons head rest ih =>
    rw [List.pairwise_cons] at h
    rw [sequence, List.flatMap_cons, List.filter_append, hfilter]
    rcases List.mem_cons.1 hmem with rfl | hmem
    · have hrest : (sequence rest).filter (·.declaration.index = declaration.index) = [] := by
        rw [List.filter_eq_nil_iff]
        intro replica hreplica
        simpa using (h.1 _ (mem_sequence.1 hreplica).1).symm
      rw [if_pos rfl]
      simpa [sequence] using hrest
    · rw [if_neg (h.1 declaration hmem)]
      exact ih h.2 hmem

/-! ## The layout of a list of fields -/

theorem mem_visited {fields : List Field} {declaration : Declaration} :
    declaration ∈ (ofFields fields).visited ↔ declaration ∈ Declaration.ofFields fields :=
  (Declaration.perm_visitingOrder fields).mem_iff

theorem perm_sequence (fields : List Field) :
    (sequence (ofFields fields).visited).Perm (sequence (Declaration.ofFields fields)) :=
  (Declaration.perm_visitingOrder fields).flatMap_right _

theorem pairwise_index_visited (fields : List Field) :
    (ofFields fields).visited.Pairwise (·.index ≠ ·.index) :=
  ((Declaration.perm_visitingOrder fields).pairwise_iff Ne.symm).2
    ((Declaration.pairwise_ofFields fields).imp Nat.ne_of_lt)

theorem nodup_visited (fields : List Field) : (ofFields fields).visited.Nodup :=
  (pairwise_index_visited fields).imp fun hindex heq => hindex (congrArg _ heq)

end Layout

/-! ## Occupants and replicas -/

/-- Laying out rows neither loses nor moves a replica. -/
theorem replicas_occupancy_toRegisters (rows : List Row) :
    (occupancy (Row.toRegisters rows)).map (·.2.replica) = rows.flatMap (·.replicas) := by
  induction rows using List.reverseRecOn with
  | nil => rfl
  | append_singleton rows row ih =>
    have hrow : (row.toRegister rows.length).occupants.map (·.replica) = row.replicas :=
      row.replica_occupants
    simp only [Row.toRegisters_append_singleton, occupancy_append_singleton, List.map_append, ih,
      List.flatMap_append, List.flatMap_singleton, List.map_map, Function.comp_def, hrow]

namespace Layout

variable (fields : List Field)

/-- Register by register, the occupants are the replicas in visiting order. -/
theorem replicas_occupancy :
    (occupancy (ofFields fields).registers.toList).map (·.2.replica) =
      sequence (ofFields fields).visited := by
  rw [registers_ofFields, replicas_occupancy_toRegisters]
  exact Row.replicas_ofReplicas _

theorem nodup_replicas_occupancy :
    ((occupancy (ofFields fields).registers.toList).map (·.2.replica)).Nodup := by
  rw [replicas_occupancy]
  exact nodup_sequence (nodup_visited fields)

theorem mem_sequence_of_mem_occupancy {entry : Nat × Occupant}
    (h : entry ∈ occupancy (ofFields fields).registers.toList) :
    entry.2.replica ∈ sequence (ofFields fields).visited := by
  rw [← replicas_occupancy]
  exact List.mem_map_of_mem (f := (·.2.replica)) h

theorem exists_entry {replica : Replica} (h : replica ∈ sequence (ofFields fields).visited) :
    ∃ entry ∈ occupancy (ofFields fields).registers.toList, entry.2.replica = replica := by
  rw [← replicas_occupancy] at h
  exact List.mem_map.1 h

/-- The entries of a field are its replicas, in order. -/
theorem replicas_entriesOf {declaration : Declaration}
    (h : declaration ∈ (ofFields fields).visited) :
    (entriesOf declaration.index (occupancy (ofFields fields).registers.toList)).map
        (·.2.replica) =
      declaration.replicas := by
  rw [← filter_sequence (pairwise_index_visited fields) h, ← replicas_occupancy, List.filter_map]
  rfl

theorem length_sequence :
    (sequence (ofFields fields).visited).length = (fields.map (·.count.toNat)).sum := by
  calc (sequence (ofFields fields).visited).length
      = (sequence (Declaration.ofFields fields)).length := (perm_sequence fields).length_eq
    _ = ((Declaration.ofFields fields).map (·.field.count.toNat)).sum := by
        simp only [sequence, List.length_flatMap, Declaration.length_replicas]
    _ = (fields.map (·.count.toNat)).sum := by
        rw [← Declaration.field_ofFields fields, List.map_map, Declaration.field_ofFields]
        rfl

/-- A layout has no more registers than the fields have replicas. -/
theorem length_registers_le :
    (ofFields fields).registers.toList.length ≤ (fields.map (·.count.toNat)).sum := by
  calc (ofFields fields).registers.toList.length = (rows fields).length := by
        rw [registers_ofFields, Row.length_toRegisters]
    _ ≤ ((rows fields).flatMap (·.replicas)).length :=
        Row.length_le_of_grown (Row.grown_of_mem_ofReplicas _)
    _ = (fields.map (·.count.toNat)).sum := by
        rw [rows, Row.replicas_ofReplicas, length_sequence]

/-- A register at an index is the row at this index, laid out. -/
theorem getElem?_registers {index : Nat} {register : Register}
    (h : (ofFields fields).registers.toList[index]? = some register) :
    ∃ row, (rows fields)[index]? = some row ∧ row.Grown ∧ register = row.toRegister index := by
  rw [registers_ofFields, Row.toRegisters, List.getElem?_mapIdx, Option.map_eq_some_iff] at h
  obtain ⟨row, hrow, rfl⟩ := h
  exact ⟨row, hrow, Row.grown_of_mem_ofReplicas _ row (List.mem_of_getElem? hrow), rfl⟩

theorem width_of_mem_occupancy {entry : Nat × Occupant}
    (h : entry ∈ occupancy (ofFields fields).registers.toList) :
    entry.2.width = entry.2.replica.width := by
  obtain ⟨register, hregister, hoccupant⟩ := mem_occupancy.1 h
  obtain ⟨row, -, -, rfl⟩ := getElem?_registers fields hregister
  exact Row.width_of_mem_occupantsFrom hoccupant

/-- The placement that an entry of the occupancy stands for. -/
def entryPlacement (entry : Nat × Occupant) : Placement :=
  ⟨entry.2.replica.number, entrySlot entry, Address.ofIndex entry.1, entry.2.width⟩

/-- The `n`-th entry of a field is its replica `n`. -/
theorem replica_of_getElem?_entriesOf {declaration : Declaration}
    (h : declaration ∈ (ofFields fields).visited) {n : Nat} {entry : Nat × Occupant}
    (hentry : (entriesOf declaration.index (occupancy (ofFields fields).registers.toList))[n]? =
      some entry) :
    n < declaration.field.count.toNat ∧
      entry.2.replica = ⟨declaration, UInt32.ofNat n⟩ := by
  have hreplica : declaration.replicas[n]? = some entry.2.replica := by
    rw [← replicas_entriesOf fields h, List.getElem?_map, hentry, Option.map_some]
  have hlt := (List.getElem?_eq_some_iff.1 hreplica).1
  rw [Declaration.length_replicas] at hlt
  rw [Declaration.getElem?_replicas hlt, Option.some.injEq] at hreplica
  exact ⟨hlt, hreplica.symm⟩

/-- The placements of a field are its entries. -/
theorem placements_ofFields {declaration : Declaration}
    (h : declaration ∈ (ofFields fields).visited) :
    (ofFields fields).placements declaration =
      (entriesOf declaration.index (occupancy (ofFields fields).registers.toList)).map
        entryPlacement := by
  have hindex : declaration.index < fields.length :=
    (List.getElem?_eq_some_iff.1 (Declaration.mem_ofFields.1 (mem_visited.1 h))).1
  rw [placements, slotsOf_ofFields hindex, List.zipIdx_map, List.filterMap_map]
  refine Eq.trans (List.filterMap_congr (g := fun p => some (entryPlacement p.1)) ?_) ?_
  · intro numbered hnumbered
    obtain ⟨entry, n⟩ := numbered
    have hentry := List.mem_zipIdx_iff_getElem?.1 hnumbered
    dsimp only at hentry
    obtain ⟨-, hreplica⟩ := replica_of_getElem?_entriesOf fields h hentry
    have hmem : entry ∈ occupancy (ofFields fields).registers.toList :=
      List.mem_of_mem_filter (List.mem_of_getElem? hentry)
    obtain ⟨register, hregister, -⟩ := mem_occupancy.1 hmem
    obtain ⟨row, -, -, rfl⟩ := getElem?_registers fields hregister
    rw [Array.getElem?_toList] at hregister
    have hwidth := width_of_mem_occupancy fields hmem
    simp [entrySlot, entryPlacement, hregister, hwidth, hreplica, Row.toRegister, Replica.width,
      Replica.field]
  · rw [List.filterMap_eq_map', ← Function.comp_def entryPlacement, ← List.map_map,
      List.zipIdx_map_fst]

end Layout

end RegMap
