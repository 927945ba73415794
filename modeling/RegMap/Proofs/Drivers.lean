import RegMap.Proofs.Elements

/-!
# Every bit has one driver

User logic and the engine meet in the two word arrays: `csri` is driven slice by
slice from input ports, and output ports are driven from `csro`.  The wrapper
leaves no bit of a replica out and drives none twice: no two entries of the
occupancy share a bit (`pairwise_apart_occupancy`), and an element of a port
belongs to one entry.  `Wrapper.SingleDriver` puts this together.
-/

namespace RegMap

open Verilog

/-- The kinds of fields with a port in a direction. -/
def Direction.accesses : Direction → List Access
  | input => [.readWrite, .readOnly, .writeOneToClear]
  | output => [.readWrite, .writeOnly, .writeOneToClear]

/-- What a replica is connected to in a direction: the port itself if the field has
one replica, and an element of the port otherwise. -/
def Replica.element (replica : Replica) (direction : Direction) : String :=
  if replica.field.count = 1 then
    replica.field.portName direction
  else
    s!"{replica.field.portName direction}[{replica.number}]"

namespace Wrapper

/-- The assignments in the text of a wrapper give every bit one driver. -/
structure SingleDriver (map : RegisterMap) : Prop where
  text_eq : render map = (document map).moduleText map.vlnv.moduleName
  /-- Slices stay inside the words of the map. -/
  select_bounds : ∀ a ∈ (document map).assignments, ∀ select : PartSelect,
    a.target = select.text ∨ a.source = select.text →
      select.word < map.registerCount ∧ select.lsb ≤ select.msb ∧ select.msb ≤ 31
  /-- Only slices of `csri` are driven, and only slices of `csro` are read. -/
  target_words : ∀ a ∈ (document map).assignments, ∀ words : WordArray,
    signalName a.target = words.ident →
      words = .into ∧ ∃ select : PartSelect, select.words = .into ∧ a.target = select.text
  source_words : ∀ a ∈ (document map).assignments, ∀ words : WordArray,
    signalName a.source = words.ident →
      words = .outOf ∧ ∃ select : PartSelect, select.words = .outOf ∧ a.source = select.text
  /-- No bit of `csri` is driven twice. -/
  disjoint : (document map).assignments.Pairwise fun a b => ∀ s t : PartSelect,
    s.words = .into → t.words = .into → a.target = s.text → b.target = t.text →
      ∀ word bit, ¬(s.Covers word bit ∧ t.Covers word bit)
  /-- The driven bits of `csri` are those of the replicas that have an input. -/
  driven_iff : ∀ word bit,
    (∃ a ∈ (document map).assignments, ∃ select : PartSelect,
        select.words = .into ∧ a.target = select.text ∧ select.Covers word bit) ↔
      ∃ register, map.registers[word]? = some register ∧ ∃ occupant ∈ register.occupants,
        occupant.Covers bit ∧ occupant.replica.access ∈ Direction.accesses .input
  /-- An element of an output port is driven once, by the bits of its replica. -/
  output : ∀ declaration ∈ Declaration.ofFields map.fields, ∀ n < declaration.field.count,
    declaration.field.access ∈ Direction.accesses .output →
      ∃ entry ∈ occupancy map.registers, entry.2.replica = ⟨declaration, n⟩ ∧
        (document map).assignments.filter (·.target = entry.2.replica.element .output) =
          [⟨entry.2.replica.element .output, (PartSelect.ofEntry .outOf entry).text⟩]
  /-- An element of an input port is read once, into the bits of its replica. -/
  input : ∀ declaration ∈ Declaration.ofFields map.fields, ∀ n < declaration.field.count,
    declaration.field.access ∈ Direction.accesses .input →
      ∃ entry ∈ occupancy map.registers, entry.2.replica = ⟨declaration, n⟩ ∧
        (document map).assignments.filter (·.source = entry.2.replica.element .input) =
          [⟨(PartSelect.ofEntry .into entry).text, entry.2.replica.element .input⟩]
  /-- There are no other assignments. -/
  exists_element : ∀ a ∈ (document map).assignments,
    ∃ declaration ∈ Declaration.ofFields map.fields, ∃ n < declaration.field.count,
      declaration.field.access ∈ Direction.accesses .output ∧
          a.target = Replica.element ⟨declaration, n⟩ .output ∨
        declaration.field.access ∈ Direction.accesses .input ∧
          a.source = Replica.element ⟨declaration, n⟩ .input

end Wrapper

theorem Direction.mem_accesses {access : Access} {direction : Direction} :
    access ∈ direction.accesses ↔ direction ∈ access.directions := by
  cases direction <;> cases access <;> decide

namespace Layout

variable {fields : List Field}

/-! ## Bits -/

/-- Of two entries, the first is in an earlier register or stops before the second. -/
def Apart (entry next : Nat × Occupant) : Prop :=
  entry.1 < next.1 ∨ entry.1 = next.1 ∧ entry.2.stop ≤ next.2.offset.toNat

theorem pairwise_apart_occupancy (fields : List Field) :
    (occupancy (ofFields fields).registers.toList).Pairwise Apart := by
  refine List.pairwise_flatMap.2 ⟨?_, ?_⟩
  · intro indexed hindexed
    obtain ⟨register, index⟩ := indexed
    have hmem : (ofFields fields).registers.toList[index]? = some register :=
      List.mem_zipIdx_iff_getElem?.1 hindexed
    obtain ⟨row, -, hgrown, hregister⟩ := getElem?_registers fields hmem
    show (register.occupants.map (index, ·)).Pairwise Apart
    rw [hregister]
    exact List.pairwise_map.2 (hgrown.tiles.pairwise.imp fun hle => .inr ⟨rfl, hle⟩)
  · have hindices : ((ofFields fields).registers.toList.zipIdx.map (·.2)).Pairwise (· < ·) := by
      rw [List.zipIdx_map_snd]
      exact List.pairwise_lt_range'
    refine (List.pairwise_map.1 hindices).imp fun hlt entry hentry next hnext => ?_
    obtain ⟨_, -, rfl⟩ := List.mem_map.1 hentry
    obtain ⟨_, -, rfl⟩ := List.mem_map.1 hnext
    exact .inl hlt

/-- No two input taps share a bit. -/
theorem pairwise_apart_taps (fields : List Field) :
    (ofFields fields).taps.Pairwise fun tap next =>
      tap.port.direction = .input → next.port.direction = .input → Apart tap.entry next.entry := by
  refine List.pairwise_flatMap.2 ⟨fun entry _ => ?_, ?_⟩
  · -- a field has only one input
    refine List.pairwise_map.2 ((Field.pairwise_ports _).imp fun hne hinput hinput' => ?_)
    exact absurd (hinput.trans hinput'.symm) hne
  · refine (pairwise_apart_occupancy fields).imp fun hapart tap htap next hnext _ _ => ?_
    obtain ⟨_, -, rfl⟩ := List.mem_map.1 htap
    obtain ⟨_, -, rfl⟩ := List.mem_map.1 hnext
    exact hapart

/-- The slice of a tap covers what its occupant covers. -/
theorem covers_select (hfields : Packable fields) {tap : Tap}
    (htap : tap ∈ (ofFields fields).taps) {word bit : Nat} :
    tap.select.Covers word bit ↔ tap.entry.1 = word ∧ tap.entry.2.Covers bit := by
  have hbits := (legal_of_mem_occupancy hfields (mem_taps.1 htap).1).2.1
  simp only [PartSelect.Covers, Tap.select, PartSelect.ofEntry, Occupant.Covers]
  omega

theorem not_covers_of_apart {entry next : Nat × Occupant} (hapart : Apart entry next)
    {word bit : Nat} (hentry : entry.1 = word ∧ entry.2.Covers bit)
    (hnext : next.1 = word ∧ next.2.Covers bit) : False := by
  obtain ⟨hword, -, hstop⟩ := hentry
  obtain ⟨hword', hoffset, -⟩ := hnext
  rcases hapart with hlt | ⟨-, hle⟩ <;> omega

/-! ## Elements -/

/-- The element of a tap is what its replica is connected to. -/
theorem element_eq {tap : Tap} (htap : tap ∈ (ofFields fields).taps) :
    tap.element = tap.entry.2.replica.element tap.port.direction := by
  have hnumber := (declared_of_mem_taps htap).2
  have hport := (Field.mem_ports.1 (mem_taps.1 htap).2).2
  have hcount : tap.entry.2.replica.field.count > 1 ↔ ¬tap.entry.2.replica.field.count = 1 := by
    rw [gt_iff_lt, UInt32.lt_iff_toNat_lt, ← UInt32.toNat_inj, show (1 : UInt32).toNat = 1 from rfl]
    omega
  rw [Tap.element, hport, Port.element, Replica.element]
  simp only [hcount, ite_not]

/-- What holds for a single tap picks out a single assignment. -/
theorem filter_assignments {tap : Tap} (htap : tap ∈ (ofFields fields).taps)
    {p : Assignment → Bool}
    (hp : ∀ other ∈ (ofFields fields).taps, p other.assignment ↔ other = tap) :
    ((ofFields fields).taps.map Tap.assignment).filter p = [tap.assignment] := by
  have htaps : (ofFields fields).taps.filter (p ∘ Tap.assignment) = [tap] := by
    refine List.perm_singleton.1 ((List.perm_ext_iff_of_nodup ?_ (List.nodup_singleton tap)).2 ?_)
    · exact (nodup_taps fields).filter _
    · intro other
      rw [List.mem_filter, List.mem_singleton]
      constructor
      · intro hand
        obtain ⟨hother, hpother⟩ := hand
        exact (hp other hother).1 hpother
      · intro heq
        subst heq
        exact ⟨htap, (hp other htap).2 rfl⟩
  rw [List.filter_map, htaps, List.map_singleton]

theorem exists_tap_of_replica {declaration : Declaration}
    (hdeclaration : declaration ∈ Declaration.ofFields fields) {n : UInt32}
    (hn : n < declaration.field.count) {direction : Direction}
    (haccess : declaration.field.access ∈ direction.accesses) :
    ∃ tap ∈ (ofFields fields).taps, tap.entry.2.replica = ⟨declaration, n⟩ ∧
      tap.port.direction = direction := by
  have hsequence : ⟨declaration, n⟩ ∈ sequence (ofFields fields).visited :=
    mem_sequence.2 ⟨mem_visited.2 hdeclaration, UInt32.lt_iff_toNat_lt.1 hn⟩
  obtain ⟨entry, hentry, hreplica⟩ := exists_entry fields hsequence
  have hdirection : direction ∈ entry.2.replica.access.directions := by
    rw [hreplica]
    exact Direction.mem_accesses.1 haccess
  obtain ⟨tap, htap, rfl, hport⟩ := exists_tap hentry hdirection
  exact ⟨tap, htap, hreplica, hport⟩

/-! ## The assignments of the taps -/

theorem select_bounds (hfields : Packable fields) {tap : Tap}
    (htap : tap ∈ (ofFields fields).taps) :
    tap.select.word < (ofFields fields).registers.toList.length ∧
      tap.select.lsb ≤ tap.select.msb ∧ tap.select.msb ≤ 31 := by
  obtain ⟨hword, hoffset, hstop, -⟩ := legal_of_mem_occupancy hfields (mem_taps.1 htap).1
  simp only [Tap.select, PartSelect.ofEntry, registerWidth] at hstop ⊢
  omega

variable (hports : Wrapper.DistinctPorts fields)
include hports

theorem words_of_target {tap : Tap} (htap : tap ∈ (ofFields fields).taps) {words : WordArray}
    (hwords : signalName tap.assignment.target = words.ident) :
    words = .into ∧ tap.select.words = .into ∧ tap.assignment.target = tap.select.text := by
  cases hdirection : tap.port.direction with
  | input =>
    rw [tap.assignment_input hdirection] at hwords ⊢
    rw [PartSelect.signalName_text] at hwords
    rw [Tap.select, hdirection]
    exact ⟨PartSelect.ident_injective (congrArg String.toList hwords.symm), rfl, rfl⟩
  | output =>
    rw [tap.assignment_output hdirection] at hwords
    exact absurd hwords (signalName_element_ne hports htap words)

theorem words_of_source {tap : Tap} (htap : tap ∈ (ofFields fields).taps) {words : WordArray}
    (hwords : signalName tap.assignment.source = words.ident) :
    words = .outOf ∧ tap.select.words = .outOf ∧ tap.assignment.source = tap.select.text := by
  cases hdirection : tap.port.direction with
  | input =>
    rw [tap.assignment_input hdirection] at hwords
    exact absurd hwords (signalName_element_ne hports htap words)
  | output =>
    rw [tap.assignment_output hdirection] at hwords ⊢
    rw [PartSelect.signalName_text] at hwords
    rw [Tap.select, hdirection]
    exact ⟨PartSelect.ident_injective (congrArg String.toList hwords.symm), rfl, rfl⟩

theorem not_covers_of_target (hfields : Packable fields) {tap next : Tap}
    (htap : tap ∈ (ofFields fields).taps) (hnext : next ∈ (ofFields fields).taps)
    (hapart : tap.port.direction = .input → next.port.direction = .input →
      Apart tap.entry next.entry) {s t : PartSelect} (hs : tap.assignment.target = s.text)
    (ht : next.assignment.target = t.text) (word bit : Nat) :
    ¬(s.Covers word bit ∧ t.Covers word bit) := by
  obtain ⟨hinput, rfl⟩ := (target_eq_text_iff hports htap).1 hs
  obtain ⟨hinput', rfl⟩ := (target_eq_text_iff hports hnext).1 ht
  rw [covers_select hfields htap, covers_select hfields hnext]
  intro hand
  obtain ⟨hcovers, hcovers'⟩ := hand
  exact not_covers_of_apart (hapart hinput hinput') hcovers hcovers'

/-- The bits that taps drive are those of the replicas with an input. -/
theorem exists_target_covers_iff (hfields : Packable fields) (word bit : Nat) :
    (∃ tap ∈ (ofFields fields).taps, ∃ select : PartSelect,
        select.words = .into ∧ tap.assignment.target = select.text ∧ select.Covers word bit) ↔
      ∃ register, (ofFields fields).registers.toList[word]? = some register ∧
        ∃ occupant ∈ register.occupants,
          occupant.Covers bit ∧ occupant.replica.access ∈ Direction.accesses .input := by
  constructor
  · intro hexists
    obtain ⟨tap, htap, select, -, htarget, hcovers⟩ := hexists
    obtain ⟨hinput, rfl⟩ := (target_eq_text_iff hports htap).1 htarget
    obtain ⟨rfl, hbit⟩ := (covers_select hfields htap).1 hcovers
    obtain ⟨hentry, hport⟩ := mem_taps.1 htap
    obtain ⟨register, hregister, hoccupant⟩ := mem_occupancy.1 hentry
    refine ⟨register, hregister, tap.entry.2, hoccupant, hbit, ?_⟩
    rw [Direction.mem_accesses, ← hinput]
    exact (Field.mem_ports.1 hport).1
  · intro hexists
    obtain ⟨register, hregister, occupant, hoccupant, hbit, haccess⟩ := hexists
    obtain ⟨tap, htap, hentry, hinput⟩ :=
      exists_tap (mem_occupancy.2 ⟨register, hregister, hoccupant⟩)
        (Direction.mem_accesses.1 haccess)
    refine ⟨tap, htap, tap.select, ?_, (target_eq_text_iff hports htap).2 ⟨hinput, rfl⟩, ?_⟩
    · rw [Tap.select, hinput]
      rfl
    · rw [covers_select hfields htap, hentry]
      exact ⟨rfl, hbit⟩

theorem filter_target {tap : Tap} (htap : tap ∈ (ofFields fields).taps)
    (houtput : tap.port.direction = .output) :
    ((ofFields fields).taps.map Tap.assignment).filter
        (·.target = tap.entry.2.replica.element .output) =
      [⟨tap.entry.2.replica.element .output, (PartSelect.ofEntry .outOf tap.entry).text⟩] := by
  rw [← houtput, ← element_eq htap, ← tap.assignment_output houtput]
  refine filter_assignments htap fun other hother => ?_
  rw [decide_eq_true_eq]
  exact target_eq_element_iff hports hother htap houtput

theorem filter_source {tap : Tap} (htap : tap ∈ (ofFields fields).taps)
    (hinput : tap.port.direction = .input) :
    ((ofFields fields).taps.map Tap.assignment).filter
        (·.source = tap.entry.2.replica.element .input) =
      [⟨(PartSelect.ofEntry .into tap.entry).text, tap.entry.2.replica.element .input⟩] := by
  rw [← hinput, ← element_eq htap, ← tap.assignment_input hinput]
  refine filter_assignments htap fun other hother => ?_
  rw [decide_eq_true_eq]
  exact source_eq_element_iff hports hother htap hinput

omit hports

/-- One side of a tap's assignment is the element of its replica. -/
theorem element_of_assignment {tap : Tap} (htap : tap ∈ (ofFields fields).taps) :
    tap.entry.2.replica.access ∈ Direction.accesses .output ∧
        tap.assignment.target = tap.entry.2.replica.element .output ∨
      tap.entry.2.replica.access ∈ Direction.accesses .input ∧
        tap.assignment.source = tap.entry.2.replica.element .input := by
  have hdirection := Direction.mem_accesses.2 (Field.mem_ports.1 (mem_taps.1 htap).2).1
  have helement := element_eq htap
  cases hport : tap.port.direction with
  | input =>
    rw [hport] at hdirection helement
    rw [tap.assignment_input hport]
    exact .inr ⟨hdirection, helement⟩
  | output =>
    rw [hport] at hdirection helement
    rw [tap.assignment_output hport]
    exact .inl ⟨hdirection, helement⟩

end Layout

/-! ## Assembly -/

/-- The wrapper of a map with the layout of its fields drives every bit once. -/
theorem Wrapper.singleDriver_of_packed {map : RegisterMap} (h : map.Packed)
    (hcount : map.registerCount ≤ 2 ^ 30) (hports : DistinctPorts map.fields) :
    SingleDriver map := by
  constructor
  case text_eq => rfl
  all_goals simp only [assignments_document h hcount, RegisterMap.registerCount,
    h.registers_eq, List.forall_mem_map, List.pairwise_map]
  case select_bounds =>
    intro tap htap select hselect
    rw [Layout.target_eq_text_iff hports htap, Layout.source_eq_text_iff hports htap] at hselect
    obtain rfl := hselect.elim And.right And.right
    exact Layout.select_bounds h.packable htap
  case target_words =>
    intro tap htap words hwords
    obtain ⟨hinto, hselect⟩ := Layout.words_of_target hports htap hwords
    exact ⟨hinto, tap.select, hselect⟩
  case source_words =>
    intro tap htap words hwords
    obtain ⟨houtOf, hselect⟩ := Layout.words_of_source hports htap hwords
    exact ⟨houtOf, tap.select, hselect⟩
  case disjoint =>
    refine (Layout.pairwise_apart_taps map.fields).imp_of_mem ?_
    intro tap next htap hnext hapart s t _ _ hs ht
    exact Layout.not_covers_of_target hports h.packable htap hnext hapart hs ht
  case driven_iff =>
    simpa only [List.mem_map, exists_exists_and_eq_and] using
      Layout.exists_target_covers_iff hports h.packable
  case output =>
    intro declaration hdeclaration n hn haccess
    obtain ⟨tap, htap, hreplica, houtput⟩ := Layout.exists_tap_of_replica hdeclaration hn haccess
    exact ⟨tap.entry, (Layout.mem_taps.1 htap).1, hreplica,
      Layout.filter_target hports htap houtput⟩
  case input =>
    intro declaration hdeclaration n hn haccess
    obtain ⟨tap, htap, hreplica, hinput⟩ := Layout.exists_tap_of_replica hdeclaration hn haccess
    exact ⟨tap.entry, (Layout.mem_taps.1 htap).1, hreplica,
      Layout.filter_source hports htap hinput⟩
  case exists_element =>
    intro tap htap
    obtain ⟨hdeclaration, hnumber⟩ := Layout.declared_of_mem_taps htap
    exact ⟨_, hdeclaration, _, UInt32.lt_iff_toNat_lt.2 hnumber, Layout.element_of_assignment htap⟩

/-- The wrapper of a packed map drives every bit once, if its registers have an
address each and the field ports have names of their own. -/
theorem RegisterMap.singleDriver_pack {palette : Palette} {map : RegisterMap}
    (h : (map.pack palette).2 = .ok ()) (hcount : (map.pack palette).1.registerCount ≤ 2 ^ 30)
    (hports : Wrapper.DistinctPorts map.fields) : Wrapper.SingleDriver (map.pack palette).1 := by
  refine Wrapper.singleDriver_of_packed (packed_pack h) hcount ?_
  rw [fields_pack]
  exact hports

/-- A field with both ports, an array of inputs that spills, and an array of outputs. -/
theorem RegisterMap.singleDriver_pack_arrays :
    let map := (new ⟨"acme", "csr", "timer", none⟩ none).addFields
      [⟨"level", 4, .readWrite, 1⟩, ⟨"lane", 12, .readOnly, 3⟩, ⟨"start", 1, .writeOnly, 2⟩]
    (map.pack .plain).2 = .ok () ∧ Wrapper.DistinctPorts map.fields ∧
      (map.pack .plain).1.registerCount ≤ 2 ^ 30 ∧ Wrapper.SingleDriver (map.pack .plain).1 := by
  intro map
  have hports : Wrapper.DistinctPorts map.fields := by
    refine ⟨by decide, by decide, fun port hport words => ?_⟩
    revert port
    cases words <;> decide
  have hcount : (map.pack .plain).1.registerCount ≤ 2 ^ 30 :=
    (registerCount_pack_le rfl).trans (by decide)
  exact ⟨rfl, hports, hcount, singleDriver_pack rfl hcount hports⟩

end RegMap
