import RegMap.Proofs.Wiring

/-!
# The elements of field ports

One side of an assignment is a slice of an engine's word and the other is an element
of a field's port.  Both are texts, so which is which depends on the names of the
ports: they have to be distinct identifiers that are not those of the word arrays.

* `tap_ext` says that an element then belongs to one tap only, and
  `element_ne_text` that it is no slice.
* `target_eq_text_iff` and the three lemmas after it read the sides of an assignment.
-/

namespace RegMap

open Verilog

/-- The field ports have distinct names, which are identifiers and none of the
names of the word arrays. -/
structure Wrapper.DistinctPorts (fields : List Field) : Prop where
  nodup : ((fields.flatMap (·.ports)).map (·.ident)).Nodup
  isIdentifier : ∀ port ∈ fields.flatMap (·.ports), Vlnv.isIdentifier port.ident.toList
  ne_ident : ∀ port ∈ fields.flatMap (·.ports), ∀ words : WordArray, port.ident ≠ words.ident

/-! ## Names -/

namespace Layout

variable {fields : List Field}

theorem declared_of_mem_taps {tap : Tap} (h : tap ∈ (ofFields fields).taps) :
    tap.entry.2.replica.declaration ∈ Declaration.ofFields fields ∧
      tap.entry.2.replica.number.toNat < tap.entry.2.replica.field.count.toNat := by
  have hmem := mem_sequence.1 (mem_sequence_of_mem_occupancy fields (mem_taps.1 h).1)
  exact ⟨mem_visited.1 hmem.1, hmem.2⟩

theorem port_mem_of_mem_taps {tap : Tap} (h : tap ∈ (ofFields fields).taps) :
    tap.port ∈ fields.flatMap (·.ports) := by
  have hfield := Declaration.mem_ofFields.1 (declared_of_mem_taps h).1
  exact List.mem_flatMap.2 ⟨_, List.mem_of_getElem? hfield, (mem_taps.1 h).2⟩

theorem entry_ext {entry entry' : Nat × Occupant}
    (h : entry ∈ occupancy (ofFields fields).registers.toList)
    (h' : entry' ∈ occupancy (ofFields fields).registers.toList)
    (heq : entry.2.replica = entry'.2.replica) : entry = entry' :=
  List.inj_on_of_nodup_map (nodup_replicas_occupancy fields) h h' heq

theorem nodup_taps (fields : List Field) : (ofFields fields).taps.Nodup := by
  have hnodup := nodup_replicas_occupancy fields
  refine List.nodup_flatMap.2 ⟨fun entry _ => ?_, (List.Nodup.of_map _ hnodup).imp ?_⟩
  · exact (Field.nodup_ports _).map fun port port' heq => congrArg Tap.port heq
  · intro entry entry' hne tap htap htap'
    obtain ⟨_, -, rfl⟩ := List.mem_map.1 htap
    obtain ⟨_, -, heq⟩ := List.mem_map.1 htap'
    exact hne (congrArg Tap.entry heq).symm

/-- Ports with one name are one port of one field. -/
theorem port_ext (h : Wrapper.DistinctPorts fields) {a b : Declaration}
    (ha : a ∈ Declaration.ofFields fields) (hb : b ∈ Declaration.ofFields fields)
    {port port' : Port} (hport : port ∈ a.field.ports) (hport' : port' ∈ b.field.ports)
    (heq : port.ident = port'.ident) : a = b ∧ port = port' := by
  let owned := (Declaration.ofFields fields).flatMap fun declaration =>
    declaration.field.ports.map (declaration, ·)
  have hnodup : (owned.map (·.2.ident)).Nodup := by
    have hnames := h.nodup
    rw [← Declaration.field_ofFields fields, List.flatMap_map, List.map_flatMap] at hnames
    simpa only [owned, List.map_flatMap, List.map_map, Function.comp_def] using hnames
  have hmem : (a, port) ∈ owned := List.mem_flatMap.2 ⟨a, ha, List.mem_map_of_mem hport⟩
  have hmem' : (b, port') ∈ owned := List.mem_flatMap.2 ⟨b, hb, List.mem_map_of_mem hport'⟩
  exact Prod.mk.inj (List.inj_on_of_nodup_map hnodup hmem hmem' heq)

variable (h : Wrapper.DistinctPorts fields)
include h

theorem signalName_element {tap : Tap} (htap : tap ∈ (ofFields fields).taps) :
    signalName tap.element = tap.port.ident :=
  Port.signalName_element
    (notMem_of_isIdentifier (h.isIdentifier _ (port_mem_of_mem_taps htap))) _

/-- The element of a tap is nothing in a word array. -/
theorem signalName_element_ne {tap : Tap} (htap : tap ∈ (ofFields fields).taps)
    (words : WordArray) : signalName tap.element ≠ words.ident := by
  rw [signalName_element h htap]
  exact h.ne_ident _ (port_mem_of_mem_taps htap) words

/-- The element determines the tap. -/
theorem tap_ext {tap tap' : Tap} (htap : tap ∈ (ofFields fields).taps)
    (htap' : tap' ∈ (ofFields fields).taps) (heq : tap.element = tap'.element) : tap = tap' := by
  have hident : tap.port.ident = tap'.port.ident := by
    rw [← signalName_element h htap, heq, signalName_element h htap']
  obtain ⟨hentry, hport⟩ := mem_taps.1 htap
  obtain ⟨hentry', hport'⟩ := mem_taps.1 htap'
  obtain ⟨hdeclared, hnumber⟩ := declared_of_mem_taps htap
  obtain ⟨hdeclared', hnumber'⟩ := declared_of_mem_taps htap'
  obtain ⟨hdeclaration, hports⟩ := port_ext h hdeclared hdeclared' hport hport' hident
  have hnumbers : tap.entry.2.replica.number = tap'.entry.2.replica.number := by
    by_cases harray : tap.port.count > 1
    · rw [Tap.element, Tap.element, ← hports] at heq
      exact Port.number_of_element_eq harray heq
    · -- a field with one replica has no number but zero
      have hcount := Field.count_of_mem_ports hport
      have hcount' := Field.count_of_mem_ports hport'
      rw [← hports] at hcount'
      rw [gt_iff_lt, UInt32.lt_iff_toNat_lt, show (1 : UInt32).toNat = 1 from rfl] at harray
      rw [← hcount] at hnumber
      rw [← hcount'] at hnumber'
      rw [← UInt32.toNat_inj]
      omega
  have hreplica : tap.entry.2.replica = tap'.entry.2.replica := by
    rw [Replica.mk.injEq]
    exact ⟨hdeclaration, hnumbers⟩
  rw [Tap.mk.injEq]
  exact ⟨hports, entry_ext hentry hentry' hreplica⟩

/-! ## Sides -/

theorem element_ne_text {tap : Tap} (htap : tap ∈ (ofFields fields).taps) (select : PartSelect) :
    tap.element ≠ select.text := by
  intro heq
  refine signalName_element_ne h htap select.words ?_
  rw [heq, select.signalName_text]

theorem target_eq_text_iff {tap : Tap} (htap : tap ∈ (ofFields fields).taps)
    {select : PartSelect} : tap.assignment.target = select.text ↔
      tap.port.direction = .input ∧ tap.select = select := by
  rw [Tap.assignment]
  cases tap.port.direction with
  | input =>
    refine ⟨fun heq => ⟨rfl, PartSelect.text_injective heq⟩, ?_⟩
    intro hand
    obtain ⟨-, rfl⟩ := hand
    rfl
  | output => simpa using element_ne_text h htap select

theorem source_eq_text_iff {tap : Tap} (htap : tap ∈ (ofFields fields).taps)
    {select : PartSelect} : tap.assignment.source = select.text ↔
      tap.port.direction = .output ∧ tap.select = select := by
  rw [Tap.assignment]
  cases tap.port.direction with
  | input => simpa using element_ne_text h htap select
  | output =>
    refine ⟨fun heq => ⟨rfl, PartSelect.text_injective heq⟩, ?_⟩
    intro hand
    obtain ⟨-, rfl⟩ := hand
    rfl

theorem target_eq_element_iff {tap other : Tap} (htap : tap ∈ (ofFields fields).taps)
    (hother : other ∈ (ofFields fields).taps) (houtput : other.port.direction = .output) :
    tap.assignment.target = other.element ↔ tap = other := by
  rw [Tap.assignment]
  constructor
  · intro heq
    split at heq
    · exact absurd heq.symm (element_ne_text h hother _)
    · exact tap_ext h htap hother heq
  · intro heq
    subst heq
    rw [houtput]

theorem source_eq_element_iff {tap other : Tap} (htap : tap ∈ (ofFields fields).taps)
    (hother : other ∈ (ofFields fields).taps) (hinput : other.port.direction = .input) :
    tap.assignment.source = other.element ↔ tap = other := by
  rw [Tap.assignment]
  constructor
  · intro heq
    split at heq
    · exact tap_ext h htap hother heq
    · exact absurd heq.symm (element_ne_text h hother _)
  · intro heq
    subst heq
    rw [hinput]

end Layout

end RegMap
