import RegMap.Proofs.Wiring

/-!
# What the engine is told

The wrapper tells the engine how many registers there are and which access kinds
they have.  Four texts depend on this: the parameter `CNT`, the depths of the word
arrays, the literal `ACCESS`, and the words in the slices of the assignments.  They
have to agree, although the literal is written with its last register first.

* `getElem?_reverse_digits` reads two bits of the literal: they are the code of the
  register's kind.
* `access_of_mem_occupancy` says that the kind of a register is that of every field
  in it, so that these bits are the code of the field, too.
-/

namespace RegMap

open Verilog

namespace Wrapper

/-- The engine's parameters in the text of a wrapper fit the registers and the assignments
of the map. The digits are those of the literal `ACCESS`. -/
structure EngineFits (map : RegisterMap) (digits : List Char) : Prop where
  text_eq : render map = (document map).moduleText map.vlnv.moduleName
  parameters : (document map).instances.map (·.parameters) =
    [[⟨"CNT", toString map.registerCount⟩]]
  depths : (document map).signals.map (fun signal => (signal.ident, signal.depth.map (·.toNat))) =
    [("csri", some map.registerCount), ("csro", some map.registerCount)]
  access : (document map).instances.map (·.ports.filter (·.name = "ACCESS")) =
    [[⟨"ACCESS", s!"{2 * map.registerCount}'b" ++ String.ofList digits⟩]]
  binary : ∀ digit ∈ digits, digit = '0' ∨ digit = '1'
  length_digits : digits.length = 2 * map.registerCount
  /-- Every word is used. -/
  referenced : ∀ word < map.registerCount, ∃ a ∈ (document map).assignments,
    ∃ select : PartSelect, select.word = word ∧ (a.target = select.text ∨ a.source = select.text)
  /-- The engine's side of what is assigned for a replica is a slice of a word whose
  bits in the literal are the code of the field. -/
  code : ∀ declaration ∈ map.visited, ∀ placement ∈ map.placements declaration,
    ∀ port ∈ declaration.field.ports,
      let drive : Drive := ⟨port, placement⟩
      drive.assignment ∈ (document map).assignments ∧
        ∃ select : PartSelect, drive.bits = select.text ∧
          select.words = port.direction.words ∧ select.word < map.registerCount ∧
          ∀ b < 2, digits.reverse[2 * select.word + b]? =
            some (if declaration.field.access.code.getLsbD b then '1' else '0')

end Wrapper

/-! ## The literal -/

namespace AccessVector

/-- Read from its last digit on, the literal has the codes of the registers in order. -/
theorem reverse_digits (vector : AccessVector) :
    vector.digits.reverse = vector.groups.flatMap fun access =>
      [access.code.getLsbD 0, access.code.getLsbD 1].map fun set => if set then '1' else '0' := by
  rw [digits, List.reverse_flatMap, List.reverse_reverse]
  rfl

/-- Bits `2i + 1` and `2i` of the literal are the code of register `i`. -/
theorem getElem?_reverse_digits {vector : AccessVector} {i b : Nat} {access : Access}
    (hi : vector.groups[i]? = some access) (hb : b < 2) :
    vector.digits.reverse[2 * i + b]? =
      some (if access.code.getLsbD b then '1' else '0') := by
  rw [reverse_digits]
  generalize vector.groups = groups at hi
  induction groups generalizing i with
  | nil => simp at hi
  | cons head rest ih =>
    rw [List.flatMap_cons]
    cases i with
    | zero =>
      obtain rfl : head = access := by simpa using hi
      obtain rfl | rfl : b = 0 ∨ b = 1 := by omega
      · rfl
      · rfl
    | succ i =>
      rw [List.getElem?_cons_succ] at hi
      rw [show 2 * (i + 1) + b = 2 + (2 * i + b) by omega,
        List.getElem?_append_right (by simp)]
      simpa using ih hi

end AccessVector

/-! ## Registers and fields -/

theorem Access.directions_ne_nil (access : Access) : access.directions ≠ [] := by
  cases access <;> decide

namespace Layout

variable {fields : List Field}

/-- An entry is in a register of its field's access kind. -/
theorem access_of_mem_occupancy {entry : Nat × Occupant}
    (h : entry ∈ occupancy (ofFields fields).registers.toList) :
    ((ofFields fields).registers.toList.map (·.access))[entry.1]? =
      some entry.2.replica.access := by
  obtain ⟨register, hregister, hoccupant⟩ := mem_occupancy.1 h
  obtain ⟨row, -, hgrown, rfl⟩ := getElem?_registers fields hregister
  rw [List.getElem?_map, hregister, Option.map_some, Option.some.injEq]
  exact (hgrown.access_of_mem_occupants hoccupant).symm

theorem exists_tap_of_word {word : Nat} (h : word < (ofFields fields).registers.toList.length) :
    ∃ tap ∈ (ofFields fields).taps, tap.entry.1 = word := by
  have hregister := List.getElem?_eq_getElem h
  obtain ⟨row, -, hgrown, hrow⟩ := getElem?_registers fields hregister
  obtain ⟨occupant, hoccupant⟩ := List.exists_mem_of_ne_nil _ hgrown.occupants_ne_nil
  obtain ⟨direction, hdirection⟩ :=
    List.exists_mem_of_ne_nil _ occupant.replica.access.directions_ne_nil
  rw [hrow] at hregister
  obtain ⟨tap, htap, hentry, -⟩ :=
    exists_tap (mem_occupancy.2 ⟨_, hregister, hoccupant⟩) hdirection
  exact ⟨tap, htap, by rw [hentry]⟩

/-- A placement of a field is where one of its entries is. -/
theorem entry_of_mem_placements {declaration : Declaration}
    (hdeclaration : declaration ∈ (ofFields fields).visited) {placement : Placement}
    (h : placement ∈ (ofFields fields).placements declaration) :
    ∃ entry ∈ occupancy (ofFields fields).registers.toList,
      entry.2.replica.declaration = declaration ∧ placement = entryPlacement entry := by
  rw [placements_ofFields fields hdeclaration] at h
  obtain ⟨entry, hentry, rfl⟩ := List.mem_map.1 h
  obtain ⟨n, hn⟩ := List.mem_iff_getElem?.1 hentry
  obtain ⟨-, hreplica⟩ := replica_of_getElem?_entriesOf fields hdeclaration hn
  exact ⟨entry, List.mem_of_mem_filter hentry, by rw [hreplica], rfl⟩

theorem registers_ne_nil (hfields : Packable fields) (hne : fields ≠ []) :
    (ofFields fields).registers.toList ≠ [] := by
  intro hnil
  obtain ⟨field, hfield⟩ := List.exists_mem_of_ne_nil _ hne
  obtain ⟨index, hindex⟩ := List.mem_iff_getElem?.1 hfield
  have hvisited : ⟨index, field⟩ ∈ (ofFields fields).visited :=
    mem_visited.2 (Declaration.mem_ofFields.2 hindex)
  have hreplica : ⟨⟨index, field⟩, 0⟩ ∈ sequence (ofFields fields).visited :=
    mem_sequence.2 ⟨hvisited, (hfields.valid field hfield).count_pos⟩
  rw [← replicas_occupancy, hnil] at hreplica
  simp at hreplica

end Layout

namespace RegisterMap

theorem bitLength_accessVector (map : RegisterMap) :
    map.accessVector.bitLength = 2 * map.registerCount := by
  simp [AccessVector.bitLength, accessVector, registerCount]

/-- The literal of a map with fields is sized and has two digits for each register. -/
theorem text_accessVector {map : RegisterMap} (h : map.Packed) (hne : map.fields ≠ []) :
    map.accessVector.text =
      s!"{2 * map.registerCount}'b" ++ String.ofList map.accessVector.digits := by
  have hgroups : map.accessVector.isEmpty = false := by
    rw [AccessVector.isEmpty, accessVector, h.registers_eq, List.isEmpty_map,
      List.isEmpty_eq_false_iff]
    exact Layout.registers_ne_nil h.packable hne
  rw [AccessVector.text, hgroups, map.bitLength_accessVector]
  rfl

end RegisterMap

namespace Wrapper

variable {map : RegisterMap} (h : map.Packed)
include h

theorem exists_assignment_of_word (hcount : map.registerCount ≤ 2 ^ 30) {word : Nat}
    (hword : word < map.registerCount) :
    ∃ a ∈ (document map).assignments, ∃ select : PartSelect,
      select.word = word ∧ (a.target = select.text ∨ a.source = select.text) := by
  rw [RegisterMap.registerCount, h.registers_eq] at hword
  obtain ⟨tap, htap, rfl⟩ := Layout.exists_tap_of_word hword
  rw [assignments_document h hcount]
  refine ⟨_, List.mem_map_of_mem htap, tap.select, rfl, ?_⟩
  cases hdirection : tap.port.direction with
  | input => exact .inl (by rw [Tap.assignment, hdirection])
  | output => exact .inr (by rw [Tap.assignment, hdirection])

/-- The wrapper connects a port to a word that has the access code of the field. -/
theorem code_of_mem_placements (hcount : map.registerCount ≤ 2 ^ 30) {declaration : Declaration}
    (hdeclaration : declaration ∈ map.visited) {placement : Placement}
    (hplacement : placement ∈ map.placements declaration) {port : Port}
    (hport : port ∈ declaration.field.ports) :
    (Drive.mk port placement).assignment ∈ (document map).assignments ∧
      ∃ select : PartSelect, (Drive.mk port placement).bits = select.text ∧
        select.words = port.direction.words ∧ select.word < map.registerCount ∧
        ∀ b < 2, map.accessVector.digits.reverse[2 * select.word + b]? =
          some (if declaration.field.access.code.getLsbD b then '1' else '0') := by
  rw [RegisterMap.visited, h.layout_eq] at hdeclaration
  rw [RegisterMap.placements, h.layout_eq] at hplacement
  obtain ⟨entry, hentry, rfl, rfl⟩ := Layout.entry_of_mem_placements hdeclaration hplacement
  let tap : Tap := ⟨port, entry⟩
  have htap : tap ∈ (Layout.ofFields map.fields).taps := Layout.mem_taps.2 ⟨hentry, hport⟩
  obtain ⟨hword, -, -, hmsb⟩ := Layout.legal_of_mem_occupancy h.packable hentry
  rw [← h.registers_eq, ← RegisterMap.registerCount] at hword
  have hbits : tap.drive.bits = tap.select.text :=
    Tap.bits_drive (Nat.lt_of_lt_of_le hword hcount) hmsb
  refine ⟨?_, tap.select, hbits, rfl, hword, fun b hb => ?_⟩
  · rw [document, drives_eq h]
    exact List.mem_map_of_mem (List.mem_map_of_mem (f := Tap.drive) htap)
  · have hgroup := Layout.access_of_mem_occupancy hentry
    rw [← h.registers_eq] at hgroup
    exact AccessVector.getElem?_reverse_digits hgroup hb

/-- The wrapper of a map with the layout of its fields tells the engine what it uses. -/
theorem engineFits_of_packed (hne : map.fields ≠ []) (hcount : map.registerCount ≤ 2 ^ 30) :
    EngineFits map map.accessVector.digits where
  text_eq := rfl
  parameters := rfl
  depths := by
    have hdepth : (UInt32.ofNat map.registerCount).toNat = map.registerCount := by
      rw [UInt32.toNat_ofNat', Nat.mod_eq_of_lt (by omega)]
    simp only [document, wordSignal, List.map_cons, List.map_nil, Option.map_some, hdepth]
    rfl
  access := by
    rw [← RegisterMap.text_accessVector h hne]
    simp [document, engine, Bus.systemConnections, Bus.connections, Bus.signals, Connection.direct,
      Bus.clock, Bus.reset]
  binary := fun _ => AccessVector.binary_of_mem_digits
  length_digits := by rw [AccessVector.length_digits, map.bitLength_accessVector]
  referenced := fun _ => exists_assignment_of_word h hcount
  code := fun _ hdeclaration _ hplacement _ =>
    code_of_mem_placements h hcount hdeclaration hplacement

end Wrapper

/-- The wrapper of a packed map tells the engine what its assignments use. -/
theorem RegisterMap.engineFits_pack {palette : Palette} {map : RegisterMap}
    (h : (map.pack palette).2 = .ok ()) (hne : map.fields ≠ [])
    (hcount : (map.pack palette).1.registerCount ≤ 2 ^ 30) :
    ∃ digits, Wrapper.EngineFits (map.pack palette).1 digits := by
  refine ⟨_, Wrapper.engineFits_of_packed (packed_pack h) ?_ hcount⟩
  rw [fields_pack]
  exact hne

/-- Three access kinds, one of them in two registers. -/
theorem RegisterMap.engineFits_pack_kinds :
    let map := (new ⟨"acme", "csr", "timer", none⟩ none).addFields
      [⟨"level", 4, .readWrite, 1⟩, ⟨"lane", 12, .readOnly, 3⟩, ⟨"start", 1, .writeOnly, 2⟩]
    (map.pack .plain).2 = .ok () ∧ map.fields ≠ [] ∧ (map.pack .plain).1.registerCount ≤ 2 ^ 30 ∧
      ∃ digits, Wrapper.EngineFits (map.pack .plain).1 digits := by
  intro map
  have hne : map.fields ≠ [] := by simp [map]
  have hcount : (map.pack .plain).1.registerCount ≤ 2 ^ 30 :=
    (registerCount_pack_le rfl).trans (by decide)
  exact ⟨rfl, hne, hcount, engineFits_pack rfl hne hcount⟩

end RegMap
