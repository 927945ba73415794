import RegMap.Proofs.Legality
import RegMap.Proofs.Reference

/-!
# What the wrapper connects

The wrapper goes through the fields, and for each through its placements and ports.
The placements of all fields together are the occupancy of the layout, so the
wrapper has one assignment for every entry of the occupancy and every port of the
entry's field.

* `flatMap_entriesOf`: field by field, the entries are the whole occupancy.
* `Tap` is a port together with the entry that one of its elements belongs to.
* `assignments_document` are the assignments of the taps.  Here the numbers of
  the wrapper, eight-bit offsets and 32-bit addresses, turn into natural numbers.
-/

namespace RegMap

open Verilog

/-! ## Entries -/

namespace Layout

/-- Entries whose replicas come field by field are the entries of these fields. -/
theorem flatMap_entriesOf_of_replicas {visited : List Declaration}
    (h : visited.Pairwise (·.index ≠ ·.index)) {entries : List (Nat × Occupant)}
    (hentries : entries.map (·.2.replica) = sequence visited) :
    visited.flatMap (fun declaration => entriesOf declaration.index entries) = entries := by
  -- the entries of the first field come first, and no other field has one of them
  induction visited generalizing entries with
  | nil => simpa [sequence] using hentries.symm
  | cons head rest ih =>
    rw [List.pairwise_cons] at h
    rw [sequence, List.flatMap_cons, List.map_eq_append_iff] at hentries
    obtain ⟨own, others, rfl, hown, hothers⟩ := hentries
    have hindexOwn : ∀ entry ∈ own, entry.2.replica.declaration = head := by
      intro entry hentry
      have hmem : entry.2.replica ∈ head.replicas := by
        rw [← hown]
        exact List.mem_map_of_mem (f := (·.2.replica)) hentry
      exact (Declaration.mem_replicas.1 hmem).1
    have hindexOthers : ∀ entry ∈ others, entry.2.replica.declaration ∈ rest := by
      intro entry hentry
      have hmem : entry.2.replica ∈ sequence rest := by
        rw [sequence, ← hothers]
        exact List.mem_map_of_mem (f := (·.2.replica)) hentry
      exact (mem_sequence.1 hmem).1
    have hhead : entriesOf head.index (own ++ others) = own := by
      rw [entriesOf, List.filter_append, List.filter_eq_self.2, List.filter_eq_nil_iff.2,
        List.append_nil]
      · intro entry hentry
        simpa using (h.1 _ (hindexOthers entry hentry)).symm
      · intro entry hentry
        simp [hindexOwn entry hentry]
    have hrest : ∀ declaration ∈ rest,
        entriesOf declaration.index (own ++ others) = entriesOf declaration.index others := by
      intro declaration hdeclaration
      rw [entriesOf, List.filter_append, List.filter_eq_nil_iff.2, List.nil_append]
      · rfl
      · intro entry hentry
        simpa [hindexOwn entry hentry] using h.1 declaration hdeclaration
    rw [List.flatMap_cons, hhead, List.flatMap_congr hrest, ih h.2 hothers]

/-- Field by field, the entries are the whole occupancy. -/
theorem flatMap_entriesOf (fields : List Field) :
    (ofFields fields).visited.flatMap (fun declaration =>
        entriesOf declaration.index (occupancy (ofFields fields).registers.toList)) =
      occupancy (ofFields fields).registers.toList :=
  flatMap_entriesOf_of_replicas (pairwise_index_visited fields) (replicas_occupancy fields)

/-- An entry is in one of the registers, and in it has a bit. -/
theorem legal_of_mem_occupancy {fields : List Field} (h : Packable fields)
    {entry : Nat × Occupant} (hentry : entry ∈ occupancy (ofFields fields).registers.toList) :
    entry.1 < (ofFields fields).registers.toList.length ∧
      entry.2.offset.toNat < entry.2.stop ∧ entry.2.stop ≤ registerWidth ∧
      entry.2.msb.toNat + 1 = entry.2.stop := by
  obtain ⟨register, hregister, hoccupant⟩ := mem_occupancy.1 hentry
  have hlegal := legal_of_mem_registers h (List.mem_of_getElem? hregister)
  have hwidth := width_of_mem_occupancy fields hentry
  have hsequence := mem_sequence_of_mem_occupancy fields hentry
  have hpos : 0 < entry.2.width.toNat := by
    rw [hwidth]
    exact (valid_of_mem_sequence h hsequence).width_pos
  refine ⟨(List.getElem?_eq_some_iff.1 hregister).1, ?_, ?_, (hlegal.no_wrap _ hoccupant).2⟩
  · rw [Occupant.stop]
    exact Nat.lt_add_of_pos_right hpos
  · exact (hlegal.stop_le _ hoccupant).trans hlegal.bits_le

end Layout

/-! ## Ports -/

namespace Field

theorem mem_ports {field : Field} {port : Port} :
    port ∈ field.ports ↔ port.direction ∈ field.access.directions ∧
      port = ⟨field.portName port.direction, port.direction, field.width, field.count⟩ := by
  rw [ports, List.mem_map]
  constructor
  · intro hexists
    obtain ⟨direction, hdirection, rfl⟩ := hexists
    exact ⟨hdirection, rfl⟩
  · intro hand
    obtain ⟨hdirection, hport⟩ := hand
    exact ⟨port.direction, hdirection, hport.symm⟩

theorem count_of_mem_ports {field : Field} {port : Port} (h : port ∈ field.ports) :
    port.count = field.count := by
  rw [(mem_ports.1 h).2]

theorem pairwise_ports (field : Field) : field.ports.Pairwise (·.direction ≠ ·.direction) := by
  have hdirections : field.access.directions.Pairwise (· ≠ ·) := by
    cases field.access <;> decide
  exact List.pairwise_map.2 hdirections

theorem nodup_ports (field : Field) : field.ports.Nodup :=
  field.pairwise_ports.imp fun hne heq => hne (congrArg Port.direction heq)

end Field

/-! ## Taps -/

/-- The bits of an entry in one of the word arrays. -/
def PartSelect.ofEntry (words : WordArray) (entry : Nat × Occupant) : PartSelect :=
  ⟨words, entry.1, entry.2.stop - 1, entry.2.offset.toNat⟩

/-- A port of a field, and where one of its replicas is. -/
structure Tap where
  port : Port
  entry : Nat × Occupant

namespace Tap

/-- The element of the port. -/
def element (tap : Tap) : String :=
  tap.port.element tap.entry.2.replica.number

/-- The bits of the engine's word. -/
def select (tap : Tap) : PartSelect :=
  .ofEntry tap.port.direction.words tap.entry

/-- An input drives the bits, an output is driven by them. -/
def assignment (tap : Tap) : Assignment :=
  match tap.port.direction with
  | .input => ⟨tap.select.text, tap.element⟩
  | .output => ⟨tap.element, tap.select.text⟩

theorem assignment_input {tap : Tap} (h : tap.port.direction = .input) :
    tap.assignment = ⟨(PartSelect.ofEntry .into tap.entry).text, tap.element⟩ := by
  rw [assignment, select, h]
  rfl

theorem assignment_output {tap : Tap} (h : tap.port.direction = .output) :
    tap.assignment = ⟨tap.element, (PartSelect.ofEntry .outOf tap.entry).text⟩ := by
  rw [assignment, select, h]
  rfl

/-- The tap with its place as the wrapper sees it. -/
def drive (tap : Tap) : Drive :=
  ⟨tap.port, Layout.entryPlacement tap.entry⟩

end Tap

/-- A tap for every entry and every port of its field. -/
def Layout.taps (layout : Layout) : List Tap :=
  (occupancy layout.registers.toList).flatMap fun entry =>
    entry.2.replica.field.ports.map (⟨·, entry⟩)

theorem Layout.mem_taps {layout : Layout} {tap : Tap} :
    tap ∈ layout.taps ↔
      tap.entry ∈ occupancy layout.registers.toList ∧
        tap.port ∈ tap.entry.2.replica.field.ports := by
  obtain ⟨port, entry⟩ := tap
  simp only [taps, List.mem_flatMap, List.mem_map, Tap.mk.injEq]
  constructor
  · intro hexists
    obtain ⟨_, hentry, _, hport, rfl, rfl⟩ := hexists
    exact ⟨hentry, hport⟩
  · intro hand
    obtain ⟨hentry, hport⟩ := hand
    exact ⟨entry, hentry, port, hport, rfl, rfl⟩

/-- A replica has a tap in every direction in which its field has a port. -/
theorem Layout.exists_tap {layout : Layout} {entry : Nat × Occupant}
    (hentry : entry ∈ occupancy layout.registers.toList) {direction : Direction}
    (hdirection : direction ∈ entry.2.replica.access.directions) :
    ∃ tap ∈ layout.taps, tap.entry = entry ∧ tap.port.direction = direction := by
  let field := entry.2.replica.field
  let port : Port := ⟨field.portName direction, direction, field.width, field.count⟩
  have hport : port ∈ field.ports := Field.mem_ports.2 ⟨hdirection, rfl⟩
  exact ⟨⟨port, entry⟩, mem_taps.2 ⟨hentry, hport⟩, rfl, rfl⟩

theorem Address.toNat_ofIndex (index : Nat) : (ofIndex index).toNat = 4 * index % 2 ^ 32 := by
  rw [ofIndex, UInt32.toNat_mul, UInt32.toNat_ofNat', show registerStride.toNat = 4 from rfl,
    Nat.mod_mul_mod, Nat.mul_comm]

/-- The addresses of 2^30 registers are used up by the next one, which is word zero again. -/
theorem Address.word_ofIndex_eq_mod (index : Nat) : word (ofIndex index) = index % 2 ^ 30 := by
  rw [word, UInt32.toNat_div, toNat_ofIndex, show registerStride.toNat = 4 from rfl]
  omega

/-- Addresses of 32 bits have room for this many words. -/
theorem Address.word_ofIndex {index : Nat} (h : index < 2 ^ 30) : word (ofIndex index) = index := by
  rw [word_ofIndex_eq_mod, Nat.mod_eq_of_lt h]

/-- The wrapper writes the bits of a tap as the slice that they are. -/
theorem Tap.bits_drive {tap : Tap} (hword : tap.entry.1 < 2 ^ 30)
    (hmsb : tap.entry.2.msb.toNat + 1 = tap.entry.2.stop) : tap.drive.bits = tap.select.text := by
  have hlast : tap.entry.2.stop - 1 = tap.entry.2.msb.toNat := by omega
  have hplace : tap.drive.placement.word = tap.entry.1 := Address.word_ofIndex hword
  rw [← String.toList_inj, PartSelect.toList_text, select, PartSelect.ofEntry, hlast, Drive.bits,
    hplace]
  simp [Placement.slice, toString, Nat.toList_repr, Tap.drive, Placement.msb, Occupant.msb,
    Placement.offset, Layout.entryPlacement, entrySlot]

namespace Wrapper

variable {map : RegisterMap}

/-- The wrapper connects the taps of the layout. -/
theorem drives_eq (h : map.Packed) :
    drives map = (Layout.ofFields map.fields).taps.map Tap.drive := by
  rw [Layout.taps, List.map_flatMap, ← Layout.flatMap_entriesOf, List.flatMap_assoc, drives,
    RegisterMap.visited, h.layout_eq]
  refine List.flatMap_congr fun declaration hdeclaration => ?_
  rw [RegisterMap.placements, h.layout_eq, Layout.placements_ofFields map.fields hdeclaration,
    List.flatMap_map]
  refine List.flatMap_congr fun entry hentry => ?_
  obtain ⟨n, hn⟩ := List.mem_iff_getElem?.1 hentry
  obtain ⟨-, hreplica⟩ := Layout.replica_of_getElem?_entriesOf map.fields hdeclaration hn
  rw [hreplica, List.map_map]
  rfl

/-- If every register has an address of its own, the wrapper's assignments are those
of the taps. -/
theorem assignments_document (h : map.Packed) (hcount : map.registerCount ≤ 2 ^ 30) :
    (document map).assignments = (Layout.ofFields map.fields).taps.map Tap.assignment := by
  rw [document, drives_eq h, List.map_map]
  refine List.map_congr_left fun tap htap => ?_
  obtain ⟨hword, -, -, hmsb⟩ :=
    Layout.legal_of_mem_occupancy h.packable (Layout.mem_taps.1 htap).1
  rw [← h.registers_eq, ← RegisterMap.registerCount] at hword
  have hbits : tap.drive.bits = tap.select.text :=
    Tap.bits_drive (Nat.lt_of_lt_of_le hword hcount) hmsb
  rw [Function.comp_apply, Drive.assignment, hbits]
  rfl

end Wrapper

end RegMap
