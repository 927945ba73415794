import RegMap.Proofs.NextFit

/-!
# The shape of a map

The allocator sees of a replica only its access kind and its width.  Maps that declare the same
replicas in this sense have registers of the same shape, whatever the fields are called, whichever
comes first and however the replicas are distributed over them.

* `Layout.shapes_sequence`: fields that agree in both sort keys can be visited in another order,
  but the kinds and widths come in one order only.
* `Row.shape_ofReplicas`: rows are cut by kinds and widths, and not where a field ends.
* `Redeclares` lists what can be changed about the declarations, and
  `RegisterMap.sameShape_pack` says what stays.
-/

namespace RegMap

/-! ## Shapes -/

/-- Access kind and width, which all replicas of a field share. -/
def Field.shape (field : Field) : Access × UInt8 :=
  (field.access, field.width)

/-- The shape of a replica is that of its field. -/
def Replica.shape (replica : Replica) : Access × UInt8 :=
  replica.field.shape

/-- The shapes of all replicas of some fields. -/
def replicaShapes (fields : List Field) : List (Access × UInt8) :=
  fields.flatMap fun field => List.replicate field.count.toNat field.shape

/-- What is left of a register without the names of its occupants: where it is, its kind, and the
offset and width of each occupant. -/
structure Register.Shape where
  address : UInt32
  access : Access
  ranges : List (UInt8 × UInt8)

/-- The shape of a register: all of it but the names of what it holds. -/
def Register.shape (register : Register) : Register.Shape :=
  ⟨register.address, register.access, register.occupants.map fun o => (o.offset, o.width)⟩

/-- Other declarations with the same replicas, but for their names: any with the same shapes, in
particular the same fields in another order, or single fields in the place of a replicated one. -/
inductive Redeclares (fields others : List Field) : Prop where
  | sameShapes (hperm : (replicaShapes fields).Perm (replicaShapes others))
  | reorder (hperm : fields.Perm others)
  | split {before after singles : List Field} {field : Field}
      (hfields : fields = before ++ field :: after) (hothers : others = before ++ singles ++ after)
      (hlength : singles.length = field.count.toNat)
      (hsingles : ∀ single ∈ singles, single.shape = field.shape ∧ single.count = 1)

theorem replicaShapes_append (fields others : List Field) :
    replicaShapes (fields ++ others) = replicaShapes fields ++ replicaShapes others :=
  List.flatMap_append

theorem replicaShapes_of_single {singles : List Field} {shape : Access × UInt8}
    (h : ∀ single ∈ singles, single.shape = shape ∧ single.count = 1) :
    replicaShapes singles = List.replicate singles.length shape := by
  induction singles with
  | nil => rfl
  | cons single rest ih =>
    obtain ⟨⟨hshape, hcount⟩, hrest⟩ := List.forall_mem_cons.1 h
    have htail := ih hrest
    unfold replicaShapes at htail ⊢
    rw [List.flatMap_cons, htail, hshape, hcount]
    rfl

theorem Redeclares.perm_replicaShapes {fields others : List Field} (h : Redeclares fields others) :
    (replicaShapes fields).Perm (replicaShapes others) := by
  cases h with
  | sameShapes hperm => exact hperm
  | reorder hperm => exact hperm.flatMap_right _
  | @split before after singles field hfields hothers hlength hsingles =>
    subst hfields hothers
    have hfield : replicaShapes (field :: after) =
        List.replicate field.count.toNat field.shape ++ replicaShapes after :=
      List.flatMap_cons
    rw [List.append_assoc, replicaShapes_append, replicaShapes_append, hfield,
      replicaShapes_append, replicaShapes_of_single hsingles, hlength]

/-! ## The order of the shapes -/

/-- Whether replicas of one shape may be placed before those of another. -/
def ShapeLE (a b : Access × UInt8) : Prop :=
  a.1.keyword < b.1.keyword ∨ a.1 = b.1 ∧ b.2 ≤ a.2

theorem ShapeLE.antisymm {a b : Access × UInt8} (hab : ShapeLE a b) (hba : ShapeLE b a) :
    a = b := by
  rcases hab with hab | ⟨haccess, hab⟩ <;> rcases hba with hba | ⟨haccess', hba⟩
  · exact absurd hba (lt_asymm hab)
  · exact absurd (haccess' ▸ hab) (lt_irrefl _)
  · exact absurd (haccess ▸ hba) (lt_irrefl _)
  · exact Prod.ext haccess (UInt8.le_antisymm hba hab)

namespace Layout

theorem perm_shapes_sequence (fields : List Field) :
    ((sequence (ofFields fields).visited).map Replica.shape).Perm (replicaShapes fields) := by
  have hshapes : (sequence (Declaration.ofFields fields)).map Replica.shape =
      replicaShapes fields := by
    have hdeclaration (declaration : Declaration) : declaration.replicas.map Replica.shape =
        List.replicate declaration.field.count.toNat declaration.field.shape := by
      rw [List.eq_replicate_iff, List.length_map, declaration.length_replicas]
      refine ⟨rfl, List.forall_mem_map.2 fun replica hreplica => ?_⟩
      rw [Replica.shape, Declaration.field_of_mem_replicas hreplica]
    rw [sequence, List.map_flatMap, replicaShapes, ← Declaration.field_ofFields fields,
      List.flatMap_map, Declaration.field_ofFields]
    exact List.flatMap_congr fun declaration _ => hdeclaration declaration
  rw [← hshapes]
  exact (perm_sequence fields).map _

theorem pairwise_shapes_sequence (fields : List Field) :
    ((sequence (ofFields fields).visited).map Replica.shape).Pairwise ShapeLE := by
  rw [List.pairwise_map]
  refine pairwise_sequence (R := fun a b => ShapeLE a.shape b.shape) ?_ ?_
  · intro field
    exact .inr ⟨rfl, UInt8.le_refl _⟩
  · refine (Declaration.pairwise_visitingOrder fields).imp fun {a b} hab => ?_
    exact (Field.precedes_iff a.field b.field).1 hab.precedes

/-- The shapes that are declared determine the order in which they are placed. -/
theorem shapes_sequence {fields others : List Field}
    (h : (replicaShapes fields).Perm (replicaShapes others)) :
    (sequence (ofFields fields).visited).map Replica.shape =
      (sequence (ofFields others).visited).map Replica.shape := by
  have hperm := (perm_shapes_sequence fields).trans (h.trans (perm_shapes_sequence others).symm)
  exact hperm.eq_of_pairwise (fun _ _ _ _ => ShapeLE.antisymm) (pairwise_shapes_sequence fields)
    (pairwise_shapes_sequence others)

end Layout

/-! ## Rows -/

namespace Row

/-- The kind of the row and the widths in it. -/
def shape (row : Row) : Access × List UInt8 :=
  (row.access, row.replicas.map (·.width))

/-- Offsets and widths of what lies side by side from an offset on. -/
def rangesFrom (offset : Nat) : List UInt8 → List (UInt8 × UInt8)
  | [] => []
  | width :: rest => (UInt8.ofNat offset, width) :: rangesFrom (offset + width.toNat) rest

theorem bits_eq (row : Row) : row.bits = (row.shape.2.map (·.toNat)).sum := by
  rw [shape, List.map_map]
  rfl

theorem shape_single (replica : Replica) :
    (single replica).shape = (replica.shape.1, [replica.shape.2]) := rfl

theorem shape_push (row : Row) (replica : Replica) :
    (row.push replica).shape = (row.shape.1, row.shape.2 ++ [replica.shape.2]) := by
  simp [shape, Replica.shape, Field.shape, Replica.width]

/-- Whether a replica fits depends on shapes only. -/
theorem fits_congr {row other : Row} {replica next : Replica} (hrow : row.shape = other.shape)
    (h : replica.shape = next.shape) : row.fits replica = other.fits next := by
  have hbits : row.bits = other.bits := by rw [bits_eq, bits_eq, hrow]
  have haccess : row.access = other.access := congrArg Prod.fst hrow
  have hreplica : replica.access = next.access := congrArg Prod.fst h
  have hwidth : replica.width = next.width := congrArg Prod.snd h
  rw [fits, fits, hbits, haccess, hreplica, hwidth]

theorem shape_fill {row other : Row} {replicas others : List Replica}
    (hrow : row.shape = other.shape)
    (h : replicas.map Replica.shape = others.map Replica.shape) :
    (row.fill replicas).map shape = (other.fill others).map shape := by
  -- both open rows grow or are closed together
  induction replicas generalizing row other others with
  | nil =>
    obtain rfl : others = [] := by simpa using h.symm
    simpa [fill] using hrow
  | cons replica rest ih =>
    obtain ⟨next, more, rfl, hreplica, hrest⟩ := List.map_eq_cons_iff.1 h.symm
    rw [fill, fill, fits_congr hrow hreplica.symm]
    split
    · apply ih _ hrest.symm
      rw [shape_push, shape_push, hrow, hreplica]
    · have hsingle : (single replica).shape = (single next).shape := by
        rw [shape_single, shape_single, hreplica]
      rw [List.map_cons, List.map_cons, hrow, ih hsingle hrest.symm]

/-- Rows are cut by shapes only. -/
theorem shape_ofReplicas {replicas others : List Replica}
    (h : replicas.map Replica.shape = others.map Replica.shape) :
    (ofReplicas replicas).map shape = (ofReplicas others).map shape := by
  cases replicas with
  | nil =>
    obtain rfl : others = [] := by simpa using h.symm
    rfl
  | cons replica rest =>
    obtain ⟨next, more, rfl, hreplica, hrest⟩ := List.map_eq_cons_iff.1 h.symm
    apply shape_fill _ hrest.symm
    rw [shape_single, shape_single, hreplica]

theorem ranges_occupantsFrom (offset : Nat) (replicas : List Replica) :
    (occupantsFrom offset replicas).map (fun o => (o.offset, o.width)) =
      rangesFrom offset (replicas.map (·.width)) := by
  induction replicas generalizing offset with
  | nil => rfl
  | cons replica rest ih => simp [occupantsFrom, rangesFrom, ih]

/-- The registers of rows have the shapes that the rows have. -/
theorem shape_toRegisters (rows : List Row) :
    (toRegisters rows).map Register.shape =
      (rows.map shape).mapIdx fun index shape =>
        ⟨Address.ofIndex index, shape.1, rangesFrom 0 shape.2⟩ := by
  induction rows using List.reverseRecOn with
  | nil => rfl
  | append_singleton rows row ih =>
    simp [ih, List.mapIdx_append, Register.shape, toRegister, occupants, ranges_occupantsFrom,
      shape]

end Row

/-- Fields whose replicas have the same shapes get registers of the same shapes. -/
theorem Layout.shapes_registers {fields others : List Field}
    (h : (replicaShapes fields).Perm (replicaShapes others)) :
    (ofFields fields).registers.toList.map Register.shape =
      (ofFields others).registers.toList.map Register.shape := by
  rw [registers_ofFields, registers_ofFields, Row.shape_toRegisters, Row.shape_toRegisters, rows,
    rows, Row.shape_ofReplicas (shapes_sequence h)]

/-! ## Maps -/

namespace RegisterMap

/-- The maps have as many registers, at the same addresses, of the same kinds and with the same
ranges of bits, and so the same access vector. -/
structure SameShape (map other : RegisterMap) : Prop where
  registerCount_eq : map.registerCount = other.registerCount
  shapes_eq : map.registers.map (·.shape) = other.registers.map (·.shape)
  accessVector_eq : map.accessVector = other.accessVector

theorem sameShape_of_shapes_eq {map other : RegisterMap}
    (h : map.registers.map (·.shape) = other.registers.map (·.shape)) : map.SameShape other where
  registerCount_eq := by
    have hlength := congrArg List.length h
    rwa [List.length_map, List.length_map] at hlength
  shapes_eq := h
  accessVector_eq := by
    have haccess := congrArg (List.map (·.access)) h
    rw [List.map_map, List.map_map] at haccess
    exact congrArg AccessVector.mk haccess

/-- Replicas of the same kinds and widths are packed into registers of the same shapes. -/
theorem sameShape_pack {palette palette' : Palette} {map other : RegisterMap}
    (hredeclares : Redeclares map.fields other.fields) (h : (map.pack palette).2 = .ok ())
    (h' : (other.pack palette').2 = .ok ()) :
    (map.pack palette).1.SameShape (other.pack palette').1 := by
  apply sameShape_of_shapes_eq
  rw [(packed_pack h).registers_eq, (packed_pack h').registers_eq, fields_pack, fields_pack]
  exact Layout.shapes_registers hredeclares.perm_replicaShapes

/-- Four replicas of twelve bits, as three and one and as two and two. -/
theorem sameShape_pack_regrouped :
    let map := (new ⟨"acme", "csr", "timer", none⟩ none).addFields
      [⟨"lane", 12, .readWrite, 3⟩, ⟨"state", 2, .readOnly, 1⟩, ⟨"mode", 12, .readWrite, 1⟩]
    let other := (new ⟨"acme", "csr", "timer", none⟩ none).addFields
      [⟨"low", 12, .readWrite, 2⟩, ⟨"high", 12, .readWrite, 2⟩, ⟨"busy", 2, .readOnly, 1⟩]
    Redeclares map.fields other.fields ∧ (map.pack .plain).2 = .ok () ∧
      (other.pack .plain).2 = .ok () ∧ (map.pack .plain).1.SameShape (other.pack .plain).1 := by
  have hredeclares : Redeclares
      [⟨"lane", 12, .readWrite, 3⟩, ⟨"state", 2, .readOnly, 1⟩, ⟨"mode", 12, .readWrite, 1⟩]
      [⟨"low", 12, .readWrite, 2⟩, ⟨"high", 12, .readWrite, 2⟩, ⟨"busy", 2, .readOnly, 1⟩] :=
    .sameShapes (by decide)
  exact ⟨hredeclares, rfl, rfl, sameShape_pack hredeclares rfl rfl⟩

end RegisterMap

end RegMap
