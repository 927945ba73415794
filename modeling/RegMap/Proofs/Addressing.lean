import Mathlib.Algebra.Group.Action.Defs
import Mathlib.Algebra.Order.BigOperators.Group.List
import RegMap.Proofs.SelfCheck
import RegMap.Proofs.Wiring

/-!
# Addresses of registers

The address of a register is computed from its index, as a 32-bit word.  Nothing limits the
number of registers, so the words can run out.

* `Layout.bits_le_registers` and `Layout.length_registers_le` bound the number of registers
  by the declared widths and counts, from below and from above.
* `RegisterMap.Contiguous` says that the registers follow one another in memory, and
  `RegisterMap.Packed.contiguous_iff` that they do so up to 2^30 registers and not beyond.
* `RegisterMap.not_contiguous_pack_lanes`: two fields are enough to get beyond, and neither
  the packing nor the validation objects.
-/

namespace RegMap

/-! ## The number of registers -/

/-- The bits of a field's replicas. -/
def Field.bits (field : Field) : Nat :=
  field.width.toNat * field.count.toNat

theorem Declaration.sum_width_replicas (declaration : Declaration) :
    (declaration.replicas.map (·.width.toNat)).sum = declaration.field.bits := by
  have hwidths : declaration.replicas.map (·.width.toNat) =
      List.replicate declaration.field.count.toNat declaration.field.width.toNat := by
    rw [Declaration.replicas, List.map_map, List.eq_replicate_iff]
    simp [Replica.width, Replica.field]
  rw [hwidths, List.sum_replicate, smul_eq_mul, Nat.mul_comm, Field.bits]

namespace Layout

/-- The rows have the bits of all declared replicas. -/
theorem sum_bits_rows (fields : List Field) :
    ((rows fields).map (·.bits)).sum = (fields.map (·.bits)).sum := by
  calc ((rows fields).map (·.bits)).sum
      = (((rows fields).flatMap (·.replicas)).map (·.width.toNat)).sum := by
        rw [List.map_flatMap, List.flatMap_def, List.sum_flatten, List.map_map]
        rfl
    _ = ((sequence (Declaration.ofFields fields)).map (·.width.toNat)).sum := by
        rw [rows, Row.replicas_ofReplicas, ((perm_sequence fields).map _).sum_eq]
    _ = ((Declaration.ofFields fields).map (·.field.bits)).sum := by
        rw [sequence, List.map_flatMap, List.flatMap_def, List.sum_flatten, List.map_map]
        exact congrArg List.sum
          (List.map_congr_left fun declaration _ => declaration.sum_width_replicas)
    _ = (fields.map (·.bits)).sum := by
        rw [← Declaration.field_ofFields fields, List.map_map, Declaration.field_ofFields]
        rfl

/-- There are enough registers for the bits of all replicas. -/
theorem bits_le_registers {fields : List Field} (h : Packable fields) :
    (fields.map (·.bits)).sum ≤ registerWidth * (ofFields fields).registers.toList.length := by
  have hrow : ∀ bits ∈ (rows fields).map (·.bits), bits ≤ registerWidth := by
    rw [List.forall_mem_map]
    exact fun row hrow => bits_le_of_mem_rows h hrow
  calc (fields.map (·.bits)).sum = ((rows fields).map (·.bits)).sum := (sum_bits_rows fields).symm
    _ ≤ ((rows fields).map (·.bits)).length • registerWidth := List.sum_le_card_nsmul _ _ hrow
    _ = registerWidth * (ofFields fields).registers.toList.length := by
        rw [List.length_map, registers_ofFields, Row.length_toRegisters, smul_eq_mul, Nat.mul_comm]

end Layout

/-! ## Addresses -/

namespace RegisterMap

/-- The registers follow one another in memory from address zero on, and each is the word of
its index. -/
def Contiguous (map : RegisterMap) : Prop :=
  ∀ index register, map.registers[index]? = some register →
    register.address.toNat = 4 * index ∧ register.word = index

/-- Where the registers of a packed map are.  Addresses and words count up, but start again
after 2^30 registers; how many there are is bounded by the declared widths and counts. -/
structure Addressing (map : RegisterMap) : Prop where
  address_eq : ∀ index register, map.registers[index]? = some register →
    register.address.toNat = 4 * index % 2 ^ 32
  word_eq : ∀ index register, map.registers[index]? = some register →
    register.word = index % 2 ^ 30
  contiguous_iff : map.Contiguous ↔ map.registerCount ≤ 2 ^ 30
  nodup_iff : (map.registers.map (·.address)).Nodup ↔ map.registerCount ≤ 2 ^ 30
  bits_le : (map.fields.map (·.bits)).sum ≤ registerWidth * map.registerCount
  registerCount_le : map.registerCount ≤ map.replicaCount

variable {map : RegisterMap}

theorem Packed.address_eq_ofIndex (h : map.Packed) {index : Nat} {register : Register}
    (hregister : map.registers[index]? = some register) :
    register.address = Address.ofIndex index := by
  rw [h.registers_eq] at hregister
  obtain ⟨row, -, -, rfl⟩ := Layout.getElem?_registers map.fields hregister
  rfl

theorem Packed.toNat_address (h : map.Packed) {index : Nat} {register : Register}
    (hregister : map.registers[index]? = some register) :
    register.address.toNat = 4 * index % 2 ^ 32 := by
  rw [h.address_eq_ofIndex hregister, Address.toNat_ofIndex]

theorem Packed.word_eq (h : map.Packed) {index : Nat} {register : Register}
    (hregister : map.registers[index]? = some register) : register.word = index % 2 ^ 30 := by
  rw [Register.word, h.address_eq_ofIndex hregister, Address.word_ofIndex_eq_mod]

/-- The registers of a packed map follow one another if the 32-bit addresses suffice. -/
theorem Packed.contiguous_iff (h : map.Packed) :
    map.Contiguous ↔ map.registerCount ≤ 2 ^ 30 := by
  constructor
  · intro hcontiguous
    -- one register too many: the word of index 2^30 is word zero
    by_contra hcount
    have hlt : 2 ^ 30 < map.registers.length := Nat.lt_of_not_le hcount
    have hregister := List.getElem?_eq_getElem hlt
    have hword := h.word_eq hregister
    rw [(hcontiguous _ _ hregister).2] at hword
    omega
  · intro hcount index register hregister
    have hlt : index < map.registerCount := (List.getElem?_eq_some_iff.1 hregister).1
    rw [h.toNat_address hregister, h.word_eq hregister]
    omega

/-- No two registers of a packed map share an address if the 32-bit addresses suffice. -/
theorem Packed.nodup_address_iff (h : map.Packed) :
    (map.registers.map (·.address)).Nodup ↔ map.registerCount ≤ 2 ^ 30 := by
  have haddress : ∀ {index : Nat} (hindex : index < map.registers.length),
      (map.registers.map (·.address))[index]? = some (Address.ofIndex index) := by
    intro index hindex
    have hregister := List.getElem?_eq_getElem hindex
    rw [List.getElem?_map, hregister, Option.map_some, h.address_eq_ofIndex hregister]
  rw [List.nodup_iff_getElem?_ne_getElem?]
  constructor
  · intro hne
    by_contra hcount
    have hlt : 2 ^ 30 < map.registers.length := Nat.lt_of_not_le hcount
    refine hne 0 (2 ^ 30) (by decide) (by rwa [List.length_map]) ?_
    rw [haddress (Nat.zero_lt_of_lt hlt), haddress hlt]
    rfl
  · intro hcount i j hij hj heq
    rw [List.length_map] at hj
    rw [haddress (hij.trans hj), haddress hj, Option.some.injEq] at heq
    have hwords := congrArg Address.word heq
    rw [Address.word_ofIndex_eq_mod, Address.word_ofIndex_eq_mod] at hwords
    have hlt : j < 2 ^ 30 := Nat.lt_of_lt_of_le hj hcount
    omega

theorem Packed.addressing (h : map.Packed) : map.Addressing where
  address_eq := fun _ _ => h.toNat_address
  word_eq := fun _ _ => h.word_eq
  contiguous_iff := h.contiguous_iff
  nodup_iff := h.nodup_address_iff
  bits_le := by
    rw [registerCount, h.registers_eq]
    exact Layout.bits_le_registers h.packable
  registerCount_le := by
    rw [registerCount, h.registers_eq]
    exact Layout.length_registers_le map.fields

/-- The registers of a packed map are at four times their indices, modulo the size of the
address space. -/
theorem addressing_pack {palette : Palette} {map : RegisterMap}
    (h : (map.pack palette).2 = .ok ()) : (map.pack palette).1.Addressing :=
  (packed_pack h).addressing

/-- Three registers, of two kinds. -/
theorem addressing_pack_lanes :
    let map := (new ⟨"acme", "csr", "timer", none⟩ none).addFields
      [⟨"lane", 20, .readOnly, 2⟩, ⟨"start", 1, .writeOnly, 1⟩]
    (map.pack .plain).2 = .ok () ∧ (map.pack .plain).1.Addressing :=
  ⟨rfl, addressing_pack rfl⟩

/-- A field for every word of the address space, and one more.  The map is packed, its last
register is at address zero like the first, and nothing is found to be wrong with it. -/
theorem not_contiguous_pack_lanes :
    let map := (new ⟨"acme", "csr", "timer", none⟩ none).addFields
      [⟨"lane", 32, .readOnly, 1073741824⟩, ⟨"start", 32, .writeOnly, 1⟩]
    (map.pack .plain).2 = .ok () ∧ ¬(map.pack .plain).1.Contiguous ∧
      (∃ register, (map.pack .plain).1.registers[2 ^ 30]? = some register ∧
        register.address = 0) ∧
      ((map.pack .plain).1.validate .plain).toList = [] := by
  intro map
  have hok : (map.pack .plain).2 = .ok () := by
    rw [pack_eq_ok_iff]
    refine ⟨by decide, ?_⟩
    intro field hfield
    rcases List.mem_pair.1 hfield with rfl | rfl
    · exact ⟨by decide, by decide, by decide⟩
    · exact ⟨by decide, by decide, by decide⟩
  have hpacked : (map.pack .plain).1.Packed := packed_pack hok
  have hlt : 2 ^ 30 < (map.pack .plain).1.registerCount := by
    have hbits := hpacked.addressing.bits_le
    rw [fields_pack] at hbits
    have hsum : (map.fields.map (·.bits)).sum = 32 * 2 ^ 30 + 32 := by decide
    rw [hsum, registerWidth] at hbits
    omega
  refine ⟨hok, fun hcontiguous => ?_, ⟨_, List.getElem?_eq_getElem hlt, ?_⟩, ?_⟩
  · exact Nat.not_le.2 hlt (hpacked.contiguous_iff.1 hcontiguous)
  · exact hpacked.address_eq_ofIndex (List.getElem?_eq_getElem hlt)
  · rw [hpacked.toList_validate ((isPacked_pack_iff .plain map).2 hok), fields_pack]
    rfl

end RegisterMap

end RegMap
