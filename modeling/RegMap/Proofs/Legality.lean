import RegMap.Proofs.Occupancy
import RegMap.Proofs.Validity

/-!
# Legal layouts

A packed map has a legal layout: the occupants of every register lie side by side
from bit zero on, stay inside the register and have its access kind; every
replica of every declared field is placed exactly once; and the slots of a field
name the places of its replicas, in order.
-/

namespace RegMap

/-- The occupants of a register tile its first bits and have its access kind. -/
structure Register.Legal (register : Register) : Prop where
  occupants_ne_nil : register.occupants ≠ []
  offset_eq : ∀ k occupant, register.occupants[k]? = some occupant →
    occupant.offset.toNat = ((register.occupants.take k).map (·.width.toNat)).sum
  existsUnique_covers : ∀ bit < register.bits,
    ∃! k : Nat, ∃ occupant, register.occupants[k]? = some occupant ∧ occupant.Covers bit
  stop_le : ∀ occupant ∈ register.occupants, occupant.stop ≤ register.bits
  bits_le : register.bits ≤ registerWidth
  access_eq : ∀ occupant ∈ register.occupants, occupant.replica.access = register.access
  /-- The sums of eight-bit words that end an occupant do not wrap. -/
  no_wrap : ∀ occupant ∈ register.occupants,
    (occupant.offset + occupant.width).toNat = occupant.stop ∧
      occupant.msb.toNat + 1 = occupant.stop

/-- All registers are legal, every replica of the fields has one occupant, and the
slots of a field are where its replicas are. -/
structure Layout.Legal (layout : Layout) (fields : List Field) : Prop where
  registers : ∀ register ∈ layout.registers.toList, register.Legal
  count_replica : ∀ replica : Replica,
    ((occupancy layout.registers.toList).map (·.2.replica)).count replica =
      if replica.declaration ∈ Declaration.ofFields fields ∧
          replica.number.toNat < replica.field.count.toNat then 1 else 0
  length_slots : ∀ declaration ∈ Declaration.ofFields fields,
    (layout.slotsOf declaration.index).length = declaration.field.count.toNat
  slot : ∀ declaration ∈ Declaration.ofFields fields, ∀ (n : Nat) (slot : Slot),
    (layout.slotsOf declaration.index)[n]? = some slot →
      ∃ register : Register, layout.registers[slot.register]? = some register ∧
        ⟨⟨declaration, UInt32.ofNat n⟩, slot.offset, declaration.field.width⟩ ∈
          register.occupants

theorem Occupant.toNat_offset_add_width {occupant : Occupant} (h : occupant.stop ≤ registerWidth) :
    (occupant.offset + occupant.width).toNat = occupant.stop := by
  have hlt : occupant.offset.toNat + occupant.width.toNat < 256 := Nat.lt_of_le_of_lt h (by decide)
  rw [UInt8.toNat_add, Nat.mod_eq_of_lt hlt, stop]

theorem Occupant.toNat_msb_add_one {occupant : Occupant} (h : occupant.stop ≤ registerWidth)
    (hwidth : 0 < occupant.width.toNat) : occupant.msb.toNat + 1 = occupant.stop := by
  have hsum := toNat_offset_add_width h
  have hle : (1 : UInt8) ≤ occupant.offset + occupant.width := by
    rw [UInt8.le_iff_toNat_le, hsum, stop]
    exact Nat.le_add_left_of_le hwidth
  rw [msb, UInt8.toNat_sub_of_le _ _ hle, hsum]
  exact Nat.sub_add_cancel (Nat.le_add_left_of_le hwidth)

/-! ## Registers -/

/-- The register of a row is legal if its replicas fit registers at all. -/
theorem Row.Grown.legal {row : Row} (h : row.Grown)
    (hpos : ∀ replica ∈ row.replicas, 0 < replica.width.toNat)
    (hle : ∀ replica ∈ row.replicas, replica.width.toNat ≤ registerWidth) (index : Nat) :
    (row.toRegister index).Legal := by
  have htiles : Tiles 0 (row.toRegister index).occupants row.bits := h.tiles
  have hbits := h.bits_eq index
  have hbound : row.bits ≤ registerWidth := h.bits_le (Nat.le_refl _) hle
  refine ⟨h.occupants_ne_nil, ?_, ?_, ?_, ?_, fun _ => h.access_of_mem_occupants, ?_⟩
  · intro k occupant hk
    simpa using htiles.offset_eq hk
  · intro bit hbit
    rw [hbits] at hbit
    exact htiles.existsUnique_covers (Nat.zero_le bit) hbit
  · rw [hbits]
    exact htiles.stop_le
  · rw [hbits]
    exact hbound
  · intro occupant hoccupant
    have hstop := (htiles.stop_le occupant hoccupant).trans hbound
    have hwidth := Row.width_of_mem_occupantsFrom hoccupant
    refine ⟨Occupant.toNat_offset_add_width hstop, Occupant.toNat_msb_add_one hstop ?_⟩
    rw [hwidth]
    exact hpos _ (row.replica_mem_of_mem_occupants hoccupant)

/-! ## Layouts -/

namespace Layout

variable {fields : List Field}

theorem mem_sequence_of_mem_row {row : Row} (hrow : row ∈ rows fields) {replica : Replica}
    (hreplica : replica ∈ row.replicas) : replica ∈ sequence (ofFields fields).visited := by
  rw [← Row.replicas_ofReplicas (sequence (ofFields fields).visited)]
  exact List.mem_flatMap.2 ⟨row, hrow, hreplica⟩

theorem valid_of_mem_sequence (h : Packable fields) {replica : Replica}
    (hreplica : replica ∈ sequence (ofFields fields).visited) : replica.field.Valid := by
  have hdeclared := Declaration.mem_ofFields.1 (mem_visited.1 (mem_sequence.1 hreplica).1)
  exact h.valid _ (List.mem_of_getElem? hdeclared)

theorem bits_le_of_mem_rows (h : Packable fields) {row : Row} (hrow : row ∈ rows fields) :
    row.bits ≤ registerWidth := by
  refine (Row.grown_of_mem_ofReplicas _ row hrow).bits_le (Nat.le_refl _) fun replica hreplica => ?_
  exact (valid_of_mem_sequence h (mem_sequence_of_mem_row hrow hreplica)).width_le

theorem legal_of_mem_registers (h : Packable fields) {register : Register}
    (hregister : register ∈ (ofFields fields).registers.toList) : register.Legal := by
  obtain ⟨index, hindex⟩ := List.mem_iff_getElem?.1 hregister
  obtain ⟨row, hrow, hgrown, rfl⟩ := getElem?_registers fields hindex
  have hvalid : ∀ replica ∈ row.replicas, replica.field.Valid := fun replica hreplica =>
    valid_of_mem_sequence h (mem_sequence_of_mem_row (List.mem_of_getElem? hrow) hreplica)
  exact hgrown.legal (fun replica hreplica => (hvalid replica hreplica).width_pos)
    (fun replica hreplica => (hvalid replica hreplica).width_le) index

theorem count_replicas_occupancy (replica : Replica) :
    ((occupancy (ofFields fields).registers.toList).map (·.2.replica)).count replica =
      if replica.declaration ∈ Declaration.ofFields fields ∧
          replica.number.toNat < replica.field.count.toNat then 1 else 0 := by
  rw [replicas_occupancy, (nodup_sequence (nodup_visited fields)).count]
  simp only [mem_sequence, mem_visited]

theorem length_slotsOf {declaration : Declaration}
    (h : declaration ∈ Declaration.ofFields fields) :
    ((ofFields fields).slotsOf declaration.index).length = declaration.field.count.toNat := by
  have hindex := (List.getElem?_eq_some_iff.1 (Declaration.mem_ofFields.1 h)).1
  have hreplicas := congrArg List.length (replicas_entriesOf fields (mem_visited.2 h))
  rw [List.length_map, Declaration.length_replicas] at hreplicas
  rw [slotsOf_ofFields hindex, List.length_map, hreplicas]

/-- A slot names the place of an occupant that is just the replica of its number. -/
theorem occupant_of_slotsOf {declaration : Declaration}
    (h : declaration ∈ Declaration.ofFields fields) {n : Nat} {slot : Slot}
    (hslot : ((ofFields fields).slotsOf declaration.index)[n]? = some slot) :
    ∃ register : Register, (ofFields fields).registers[slot.register]? = some register ∧
      ⟨⟨declaration, UInt32.ofNat n⟩, slot.offset, declaration.field.width⟩ ∈
        register.occupants := by
  have hindex := (List.getElem?_eq_some_iff.1 (Declaration.mem_ofFields.1 h)).1
  rw [slotsOf_ofFields hindex, List.getElem?_map, Option.map_eq_some_iff] at hslot
  obtain ⟨entry, hentry, rfl⟩ := hslot
  obtain ⟨-, hreplica⟩ := replica_of_getElem?_entriesOf fields (mem_visited.2 h) hentry
  have hmem : entry ∈ occupancy (ofFields fields).registers.toList :=
    List.mem_of_mem_filter (List.mem_of_getElem? hentry)
  have hwidth := width_of_mem_occupancy fields hmem
  obtain ⟨register, hregister, hoccupant⟩ := mem_occupancy.1 hmem
  rw [Array.getElem?_toList] at hregister
  refine ⟨register, hregister, ?_⟩
  obtain ⟨index, replica, offset, width⟩ := entry
  change replica = _ at hreplica
  change width = replica.width at hwidth
  rw [hwidth, hreplica] at hoccupant
  exact hoccupant

theorem legal_ofFields (h : Packable fields) : (ofFields fields).Legal fields :=
  ⟨fun _ => legal_of_mem_registers h, count_replicas_occupancy, fun _ => length_slotsOf,
    fun _ hdeclaration _ _ => occupant_of_slotsOf hdeclaration⟩

end Layout

/-- A map has no more registers than its fields have replicas. -/
theorem RegisterMap.registerCount_pack_le {palette : Palette} {map : RegisterMap}
    (h : (map.pack palette).2 = .ok ()) :
    (map.pack palette).1.registerCount ≤ map.replicaCount := by
  rw [registerCount, registers, layout_pack h]
  exact Layout.length_registers_le map.fields

/-- Packing gives a legal layout of the declared fields, whatever the map's layout
was before. -/
theorem RegisterMap.legal_layout_pack {palette : Palette} {map : RegisterMap}
    (h : (map.pack palette).2 = .ok ()) : (map.pack palette).1.layout.Legal map.fields := by
  rw [layout_pack h]
  exact Layout.legal_ofFields ((pack_eq_ok_iff palette map).1 h)

/-- Three replicas of twelve bits spill into a second register, and two fields of
sixteen bits fill a third one exactly. -/
theorem RegisterMap.legal_layout_pack_spill :
    let map := (new ⟨"acme", "csr", "timer", none⟩ none).addFields
      [⟨"high", 16, .readWrite, 1⟩, ⟨"low", 16, .readWrite, 1⟩, ⟨"lane", 12, .readOnly, 3⟩]
    (map.pack .plain).2 = .ok () ∧ (map.pack .plain).1.layout.Legal map.fields :=
  ⟨rfl, legal_layout_pack rfl⟩

end RegMap
