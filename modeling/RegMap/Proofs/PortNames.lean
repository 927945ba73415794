import RegMap.Proofs.Occupancy
import RegMap.Proofs.Validity
import RegMap.Template

/-!
# The names of ports

Validation compares the names of fields.  The wrapper declares other names: those of the
field ports, which end in `_i` and `_o` if the field has both, and fixed ones for the
clock, the reset, the bus and the word arrays.  Fields of distinct names can meet in them.

* `Field.portNames` are the names that a field contributes.
* `Field.shadows_of_mem_portNames`: two fields meet only if one has a single port, which
  is named like a port of the other.
* `Wrapper.mem_portNames_of_reserved`: a field meets a fixed name only if it has a single
  port.
* `RegisterMap.nodup_declaredNames_pack` says that the names meet in no other way.
-/

namespace RegMap

/-- The names that the wrapper declares for every map. -/
def Wrapper.reservedNames : List String :=
  Bus.systemPorts.map (·.ident) ++ Bus.signals.map (·.ident) ++
    [WordArray.into.ident, WordArray.outOf.ident]

/-- The names that the wrapper declares: its ports, then its signals. -/
def Wrapper.declaredNames (map : RegisterMap) : List String :=
  (document map).ports.map (·.ident) ++ (document map).signals.map (·.ident)

/-- Whether a field with a single port has the name of a port of a field with two. -/
def Field.Shadows (field other : Field) : Prop :=
  field.access.isBidirectional = false ∧ other.access.isBidirectional = true ∧
    ∃ direction : Direction, field.ident = other.ident ++ direction.suffix

/-- No field with a single port has a name that the wrapper declares anyway, or the name
of a port of a field with two. -/
structure Wrapper.NamesApart (fields : List Field) : Prop where
  not_reserved : ∀ field ∈ fields, field.access.isBidirectional = false →
    field.ident ∉ reservedNames
  not_shadows : ∀ field ∈ fields, ∀ other ∈ fields, ¬field.Shadows other

/-! ## The names of one field -/

namespace Field

/-- The names of the field's ports. -/
def portNames (field : Field) : List String :=
  field.ports.map (·.ident)

/-- A single port is named like its field. -/
theorem portNames_of_single {field : Field} (h : field.access.isBidirectional = false) :
    field.portNames = [field.ident] := by
  obtain ⟨ident, width, access, count⟩ := field
  cases access with
  | readOnly => rfl
  | writeOnly => rfl
  | readWrite => cases h
  | writeOneToClear => cases h

theorem portNames_of_bidirectional {field : Field} (h : field.access.isBidirectional = true) :
    field.portNames = [field.ident ++ Direction.input.suffix,
      field.ident ++ Direction.output.suffix] := by
  obtain ⟨ident, width, access, count⟩ := field
  cases access with
  | readWrite => rfl
  | writeOneToClear => rfl
  | readOnly => cases h
  | writeOnly => cases h

theorem mem_portNames_iff {field : Field} {name : String} :
    name ∈ field.portNames ↔
      field.access.isBidirectional = false ∧ name = field.ident ∨
        field.access.isBidirectional = true ∧
          ∃ direction : Direction, name = field.ident ++ direction.suffix := by
  cases h : field.access.isBidirectional with
  | false => simp [portNames_of_single h]
  | true =>
    rw [portNames_of_bidirectional h, List.mem_pair]
    constructor
    · rintro (rfl | rfl)
      · exact .inr ⟨rfl, .input, rfl⟩
      · exact .inr ⟨rfl, .output, rfl⟩
    · rintro (⟨hsingle, -⟩ | ⟨-, direction, rfl⟩)
      · cases hsingle
      · cases direction
        · exact .inl rfl
        · exact .inr rfl

/-- Names with endings are equal only if both parts are. -/
theorem append_suffix_inj {left right : String} {a b : Direction}
    (h : left ++ a.suffix = right ++ b.suffix) : left = right ∧ a = b := by
  have hlist := congrArg String.toList h
  rw [String.toList_append, String.toList_append] at hlist
  have hlength : a.suffix.toList.length = b.suffix.toList.length := by
    cases a <;> cases b <;> decide
  obtain ⟨hleft, hsuffix⟩ := List.append_inj' hlist hlength
  refine ⟨String.toList_inj.1 hleft, ?_⟩
  revert hsuffix
  cases a <;> cases b <;> decide

theorem nodup_portNames (field : Field) : field.portNames.Nodup := by
  cases h : field.access.isBidirectional with
  | false =>
    rw [portNames_of_single h]
    exact List.nodup_singleton _
  | true =>
    have hne : field.ident ++ Direction.input.suffix ≠ field.ident ++ Direction.output.suffix :=
      fun heq => Direction.noConfusion (append_suffix_inj heq).2
    rw [portNames_of_bidirectional h]
    exact List.nodup_cons.2 ⟨by simpa using hne, List.nodup_singleton _⟩

/-- A field that shadows another has a port name in common with it. -/
theorem Shadows.mem_portNames {field other : Field} (h : field.Shadows other) :
    field.ident ∈ field.portNames ∧ field.ident ∈ other.portNames := by
  obtain ⟨hfield, hother, hident⟩ := h
  exact ⟨mem_portNames_iff.2 (.inl ⟨hfield, rfl⟩), mem_portNames_iff.2 (.inr ⟨hother, hident⟩)⟩

/-- Fields of different names have a port name in common only if one shadows the other. -/
theorem shadows_of_mem_portNames {a b : Field} (hne : a.ident ≠ b.ident) {name : String}
    (ha : name ∈ a.portNames) (hb : name ∈ b.portNames) : a.Shadows b ∨ b.Shadows a := by
  rcases mem_portNames_iff.1 ha with ⟨hsingle, rfl⟩ | ⟨hboth, direction, rfl⟩ <;>
    rcases mem_portNames_iff.1 hb with ⟨hsingle', heq⟩ | ⟨hboth', direction', heq⟩
  · exact absurd heq hne
  · exact .inl ⟨hsingle, hboth', direction', heq⟩
  · exact .inr ⟨hsingle', hboth, direction, heq.symm⟩
  · exact absurd (append_suffix_inj heq).1 hne

end Field

/-! ## The names of several fields -/

/-- Fields of distinct names have ports of distinct names if no field shadows another. -/
theorem Field.nodup_flatMap_portNames_iff {fields : List Field}
    (h : (fields.map (·.ident)).Nodup) :
    (fields.flatMap portNames).Nodup ↔ ∀ a ∈ fields, ∀ b ∈ fields, ¬a.Shadows b := by
  rw [List.nodup_flatMap, and_iff_right fun field _ => field.nodup_portNames]
  constructor
  · intro hdisjoint a ha b hb hshadows
    -- a field has one port or two, so that it does not shadow itself
    have hne : a ≠ b := by
      rintro rfl
      have htrue := hshadows.2.1
      rw [hshadows.1] at htrue
      cases htrue
    have hsymm : Std.Symm (Function.onFun List.Disjoint portNames) :=
      ⟨fun _ _ hab _ hright hleft => hab hleft hright⟩
    have hapart : a.portNames.Disjoint b.portNames := hdisjoint.forall ha hb hne
    exact hapart hshadows.mem_portNames.1 hshadows.mem_portNames.2
  · intro hshadows
    refine (List.pairwise_map.1 h).imp_of_mem fun {a b} ha hb hne name hname hname' => ?_
    rcases shadows_of_mem_portNames hne hname hname' with hab | hba
    · exact hshadows a ha b hb hab
    · exact hshadows b hb a ha hba

namespace Wrapper

/-- No fixed name ends like the port of a field that has two. -/
theorem append_suffix_notMem_reservedNames (ident : String) (direction : Direction) :
    ident ++ direction.suffix ∉ reservedNames := by
  have hends : ∀ name ∈ reservedNames, ∀ direction : Direction,
      ¬direction.suffix.toList <:+ name.toList := by
    intro name hname direction
    revert name
    cases direction <;> decide
  intro hmem
  refine hends _ hmem direction ?_
  rw [String.toList_append]
  exact List.suffix_append _ _

/-- A field has the port of a fixed name only if it has a single port. -/
theorem mem_portNames_of_reserved {field : Field} {name : String}
    (hname : name ∈ field.portNames) (hreserved : name ∈ reservedNames) :
    field.access.isBidirectional = false ∧ field.ident ∈ reservedNames := by
  rcases Field.mem_portNames_iff.1 hname with ⟨hsingle, rfl⟩ | ⟨-, direction, rfl⟩
  · exact ⟨hsingle, hreserved⟩
  · exact absurd hreserved (append_suffix_notMem_reservedNames field.ident direction)

theorem nodup_reservedNames : reservedNames.Nodup := by
  decide

/-- The fixed names and those of the field ports are distinct exactly if the fields stay
apart. -/
theorem nodup_names_iff {fields : List Field} (h : (fields.map (·.ident)).Nodup) :
    (reservedNames ++ fields.flatMap Field.portNames).Nodup ↔ NamesApart fields := by
  rw [List.nodup_append, Field.nodup_flatMap_portNames_iff h, and_iff_right nodup_reservedNames]
  constructor
  · rintro ⟨hshadows, hdisjoint⟩
    refine ⟨fun field hfield hsingle hreserved => ?_, hshadows⟩
    have hname := Field.mem_portNames_iff.2 (.inl ⟨hsingle, rfl⟩)
    exact hdisjoint _ hreserved _ (List.mem_flatMap.2 ⟨field, hfield, hname⟩) rfl
  · intro hapart
    refine ⟨hapart.not_shadows, ?_⟩
    rintro name hreserved _ hname rfl
    obtain ⟨field, hfield, hname⟩ := List.mem_flatMap.1 hname
    obtain ⟨hsingle, hident⟩ := mem_portNames_of_reserved hname hreserved
    exact hapart.not_reserved field hfield hsingle hident

/-! ## The names of a map -/

/-- The field ports of a packed map have the names that its fields contribute. -/
theorem perm_fieldPorts {map : RegisterMap} (h : map.Packed) :
    ((fieldPorts map).map (·.ident)).Perm (map.fields.flatMap Field.portNames) := by
  have hvisited : (map.visited.map (·.field)).Perm map.fields := by
    have hperm := (Declaration.perm_visitingOrder map.fields).map (·.field)
    rw [Declaration.field_ofFields] at hperm
    rw [RegisterMap.visited, h.layout_eq]
    exact hperm
  have hnames : (fieldPorts map).map (·.ident) =
      (map.visited.map (·.field)).flatMap Field.portNames := by
    rw [fieldPorts, List.map_flatMap, List.flatMap_map]
    rfl
  rw [hnames]
  exact hvisited.flatMap_right _

/-- The wrapper declares the fixed names and those of the field ports. -/
theorem perm_declaredNames {map : RegisterMap} (h : map.Packed) :
    (declaredNames map).Perm (reservedNames ++ map.fields.flatMap Field.portNames) := by
  let system := Bus.systemPorts.map (·.ident)
  let bus := Bus.signals.map (·.ident)
  let words := [WordArray.into.ident, WordArray.outOf.ident]
  let names := (fieldPorts map).map (·.ident)
  have hdeclared : declaredNames map = system ++ (names ++ (bus ++ words)) := by
    simp [declaredNames, document, ports, system, bus, words, names, portDeclaration,
      Bus.Signal.port, wordSignal, Function.comp_def]
  have hreserved : reservedNames = system ++ (bus ++ words) := by
    simp [reservedNames, system, bus, words]
  rw [hdeclared, hreserved, List.append_assoc]
  exact (List.perm_append_comm.trans ((perm_fieldPorts h).append_left _)).append_left system

/-- A packed map declares distinct names exactly if its fields stay apart. -/
theorem nodup_declaredNames_iff {map : RegisterMap} (h : map.Packed) :
    (declaredNames map).Nodup ↔ NamesApart map.fields := by
  rw [(perm_declaredNames h).nodup_iff]
  exact nodup_names_iff h.packable.nodup

end Wrapper

namespace Template

/-- The template declares a signal for each field port. -/
theorem nodup_signals {map : RegisterMap} (h : map.Packed)
    (hapart : Wrapper.NamesApart map.fields) :
    ((document map).signals.map (·.ident)).Nodup := by
  have hsignals : (document map).signals.map (·.ident) =
      (Wrapper.fieldPorts map).map (·.ident) := by
    simp [document, signal, Function.comp_def]
  rw [hsignals, (Wrapper.perm_fieldPorts h).nodup_iff]
  exact (Field.nodup_flatMap_portNames_iff h.packable.nodup).2 hapart.not_shadows

/-- The template connects ports of the wrapper, each once. -/
theorem nodup_connections {map : RegisterMap} (h : map.Packed)
    (hapart : Wrapper.NamesApart map.fields) :
    ∀ inst ∈ (document map).instances, (inst.ports.map (·.name)).Nodup := by
  have hnames : (wrapper map).ports.map (·.name) =
      Bus.systemPorts.map (·.ident) ++ Bus.signals.map (·.ident) ++
        (Wrapper.fieldPorts map).map (·.ident) := by
    simp [wrapper, Bus.systemConnections, Bus.systemPorts, Bus.connections,
      Verilog.Connection.direct, Function.comp_def]
  have hsublist : (Bus.systemPorts.map (·.ident) ++ Bus.signals.map (·.ident)).Sublist
      Wrapper.reservedNames :=
    List.sublist_append_left _ _
  intro inst hinst
  obtain rfl : inst = wrapper map := List.mem_singleton.1 hinst
  rw [hnames, ((Wrapper.perm_fieldPorts h).append_left _).nodup_iff]
  exact ((Wrapper.nodup_names_iff h.packable.nodup).2 hapart).sublist
    (hsublist.append (List.Sublist.refl _))

end Template

namespace RegisterMap

/-- The wrapper of a packed map declares every name once exactly if no field with a single
port has a fixed name or that of another field's port.  The template, which connects to
these ports, then declares no signal twice and connects no port twice. -/
theorem nodup_declaredNames_pack {palette : Palette} {map : RegisterMap}
    (h : (map.pack palette).2 = .ok ()) :
    ((Wrapper.declaredNames (map.pack palette).1).Nodup ↔ Wrapper.NamesApart map.fields) ∧
      (Wrapper.NamesApart map.fields →
        ((Template.document (map.pack palette).1).signals.map (·.ident)).Nodup ∧
          ∀ inst ∈ (Template.document (map.pack palette).1).instances,
            (inst.ports.map (·.name)).Nodup) := by
  have hpacked := packed_pack h
  rw [← fields_pack palette map]
  refine ⟨Wrapper.nodup_declaredNames_iff hpacked, fun hapart => ?_⟩
  exact ⟨Template.nodup_signals hpacked hapart, Template.nodup_connections hpacked hapart⟩

/-- Names that differ only in an ending stay apart if both fields have two ports. -/
theorem nodup_declaredNames_pack_endings :
    let map := (new ⟨"acme", "csr", "timer", none⟩ none).addFields
      [⟨"level", 4, .readWrite, 1⟩, ⟨"level_i", 1, .writeOneToClear, 2⟩, ⟨"HSEL", 1, .readWrite, 1⟩,
        ⟨"level_", 8, .readOnly, 1⟩]
    (map.pack .plain).2 = .ok () ∧ Wrapper.NamesApart map.fields ∧
      (Wrapper.declaredNames (map.pack .plain).1).Nodup := by
  intro map
  have hapart : Wrapper.NamesApart map.fields := by
    refine ⟨by decide, fun field hfield other hother hshadows => ?_⟩
    obtain ⟨hsingle, hboth, direction, hident⟩ := hshadows
    revert field other
    cases direction <;> decide
  exact ⟨rfl, hapart, (nodup_declaredNames_pack rfl).1.2 hapart⟩

/-- Fields of distinct names whose ports meet: one is called like the clock, one like the
input of another field. -/
theorem declaredNames_pack_repeated :
    let clock := (new ⟨"acme", "csr", "timer", none⟩ none).addFields [⟨"CLK", 1, .readOnly, 1⟩]
    let level := (new ⟨"acme", "csr", "timer", none⟩ none).addFields
      [⟨"level", 4, .readWrite, 1⟩, ⟨"level_i", 1, .readOnly, 1⟩]
    ((∀ field ∈ clock.fields, Vlnv.isIdentifier field.ident.toList) ∧
        (clock.pack .plain).2 = .ok () ∧
        ¬(Wrapper.declaredNames (clock.pack .plain).1).Nodup) ∧
      (∀ field ∈ level.fields, Vlnv.isIdentifier field.ident.toList) ∧
        (level.pack .plain).2 = .ok () ∧
        ¬(Wrapper.declaredNames (level.pack .plain).1).Nodup := by
  intro clock level
  refine ⟨⟨by decide, rfl, fun hnodup => ?_⟩, by decide, rfl, fun hnodup => ?_⟩
  · have hapart : Wrapper.NamesApart clock.fields :=
      (Wrapper.nodup_declaredNames_iff (packed_pack rfl)).1 hnodup
    exact hapart.not_reserved ⟨"CLK", 1, .readOnly, 1⟩ (by decide) rfl (by decide)
  · have hapart : Wrapper.NamesApart level.fields :=
      (Wrapper.nodup_declaredNames_iff (packed_pack rfl)).1 hnodup
    exact hapart.not_shadows ⟨"level_i", 1, .readOnly, 1⟩ (by decide)
      ⟨"level", 4, .readWrite, 1⟩ (by decide) ⟨rfl, rfl, .input, by decide⟩

end RegisterMap

end RegMap
