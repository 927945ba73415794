import RegMap.Register

/-!
# Layouts

A layout places every replica of the declared fields. Fields are visited by
access keyword, then by descending width; fields that agree in both keep their
order. Each replica goes behind the one before it, in the same register, unless
the access kind changes or it would reach past bit 31: then it opens the next
register.

The place of a replica is written down twice, in the register as an occupant and
with the field as a slot.
-/

namespace RegMap

/-! ## Visiting order -/

/-- Whether a field may be visited before another: its access keyword is less,
or the same and it is at least as wide. -/
def Field.precedes (a b : Field) : Bool :=
  a.access.keyword < b.access.keyword || (a.access = b.access && b.width ≤ a.width)

namespace Declaration

/-- The declarations in visiting order. The sort is stable. -/
def visitingOrder (declarations : List Declaration) : List Declaration :=
  declarations.mergeSort fun a b => a.field.precedes b.field

/-- The declarations in the order in which they were made. -/
def inOrder (declarations : List Declaration) : List Declaration :=
  declarations.mergeSort fun a b => a.index ≤ b.index

theorem ofFields_append (fields : List Field) (field : Field) :
    ofFields (fields ++ [field]) = ofFields fields ++ [⟨fields.length, field⟩] := by
  simp [ofFields, List.zipIdx_append]

@[simp] theorem field_ofFields (fields : List Field) :
    (ofFields fields).map (·.field) = fields := by
  rw [ofFields, List.map_map]
  exact List.zipIdx_map_fst 0 fields

/-- The fields of a map are numbered from zero. -/
theorem index_ofFields (fields : List Field) :
    (ofFields fields).map (·.index) = List.range fields.length := by
  rw [ofFields, List.map_map, List.range_eq_range']
  exact List.zipIdx_map_snd 0 fields

theorem pairwise_ofFields (fields : List Field) :
    (ofFields fields).Pairwise fun a b => a.index < b.index := by
  rw [← List.pairwise_map, index_ofFields]
  exact List.pairwise_lt_range

theorem mem_ofFields {fields : List Field} {declaration : Declaration} :
    declaration ∈ ofFields fields ↔ fields[declaration.index]? = some declaration.field := by
  simp only [ofFields, List.mem_map, Prod.exists, List.mem_zipIdx_iff_getElem?]
  constructor
  · rintro ⟨field, index, h, rfl⟩
    exact h
  · intro h
    exact ⟨declaration.field, declaration.index, h, rfl⟩

theorem eq_of_index_eq {fields : List Field} {a b : Declaration} (ha : a ∈ ofFields fields)
    (hb : b ∈ ofFields fields) (h : a.index = b.index) : a = b := by
  obtain ⟨i, f⟩ := a
  obtain ⟨j, g⟩ := b
  rw [mem_ofFields] at ha hb
  simp_all

/-- However the declarations of a map were visited, putting them in order gives
back the order of their declaration. -/
theorem inOrder_of_perm {fields : List Field} {declarations : List Declaration}
    (hperm : declarations.Perm (ofFields fields)) : inOrder declarations = ofFields fields := by
  have hsorted : (inOrder declarations).Pairwise fun a b => a.index ≤ b.index := by
    have h : (inOrder declarations).Pairwise fun a b => decide (a.index ≤ b.index) :=
      List.pairwise_mergeSort (fun a b c => by simpa using Nat.le_trans)
        (fun a b => by simpa using Nat.le_total _ _) declarations
    simpa only [decide_eq_true_eq] using h
  have hall : (inOrder declarations).Perm (ofFields fields) :=
    (List.mergeSort_perm declarations _).trans hperm
  refine hall.eq_of_pairwise ?_ hsorted ((pairwise_ofFields fields).imp Nat.le_of_lt)
  intro a b ha hb hab hba
  exact eq_of_index_eq (hall.mem_iff.1 ha) hb (Nat.le_antisymm hab hba)

end Declaration

/-! ## Layouts -/

/-- Where one replica is. -/
structure Slot where
  register : Nat
  offset : UInt8
deriving DecidableEq

/-- One replica in its register. -/
structure Placement where
  replica : UInt32
  slot : Slot
  address : UInt32
  width : UInt8
deriving DecidableEq

namespace Placement

/-- The index of the register in the engine's word arrays. -/
def word (placement : Placement) : Nat :=
  Address.word placement.address

/-- The first bit of a placement in its register. -/
def offset (placement : Placement) : UInt8 :=
  placement.slot.offset

/-- The last bit of the replica. -/
def msb (placement : Placement) : UInt8 :=
  placement.offset + placement.width - 1

/-- The bits of the replica as a part-select. -/
def slice (placement : Placement) : String :=
  s!"[{placement.msb}:{placement.offset}]"

end Placement

/-- The declarations in visiting order, the registers by ascending address, and
for each field, in the order of declaration, the slots of its replicas. -/
structure Layout where
  visited : List Declaration
  registers : Array Register
  slots : Array (Array Slot)

/-! ## Allocation -/

/-- What the allocator has written so far, and the bit at which the register
that it filled last goes on. -/
structure Allocator where
  registers : Array Register
  slots : Array (Array Slot)
  current : Option Slot

namespace Allocator

/-- Where a replica goes on in the current register: it has to be of the
register's access kind and to end inside the register. -/
def room? (allocator : Allocator) (replica : Replica) : Option Slot :=
  allocator.current.filter fun slot =>
    (allocator.registers[slot.register]?.any fun register => register.access = replica.access) &&
      slot.offset.toNat + replica.width.toNat ≤ registerWidth

/-- The allocator with one more register, which is empty. -/
def openRegister (allocator : Allocator) (access : Access) : Allocator :=
  { allocator with
    registers :=
      allocator.registers.push ⟨Address.ofIndex allocator.registers.size, access, []⟩ }

/-- The allocator once it has written a replica into a slot: to the register and
to the field. -/
def write (allocator : Allocator) (replica : Replica) (slot : Slot) : Allocator where
  registers := allocator.registers.modify slot.register fun register =>
    { register with occupants := register.occupants ++ [⟨replica, slot.offset, replica.width⟩] }
  slots := allocator.slots.modify replica.declaration.index (·.push slot)
  current := some ⟨slot.register, slot.offset + replica.width⟩

/-- The allocator after one more replica. -/
def place (allocator : Allocator) (replica : Replica) : Allocator :=
  match allocator.room? replica with
  | some slot => allocator.write replica slot
  | none =>
    let slot : Slot := ⟨allocator.registers.size, 0⟩
    (allocator.openRegister replica.access).write replica slot

/-- The allocator after all replicas of a field. -/
def placeField (allocator : Allocator) (declaration : Declaration) : Allocator :=
  declaration.replicas.foldl place allocator

@[simp] theorem size_slots_place (allocator : Allocator) (replica : Replica) :
    (allocator.place replica).slots.size = allocator.slots.size := by
  unfold place
  split <;> simp [write, openRegister]

@[simp] theorem size_slots_foldl_place (allocator : Allocator) (replicas : List Replica) :
    (replicas.foldl place allocator).slots.size = allocator.slots.size := by
  induction replicas generalizing allocator with
  | nil => rfl
  | cons replica rest ih => rw [List.foldl_cons, ih, size_slots_place]

end Allocator

namespace Layout

/-- No registers, no slots, and the fields in the order in which they were declared. -/
def unpacked (fields : List Field) : Layout :=
  ⟨Declaration.ofFields fields, #[], .replicate fields.length #[]⟩

/-- The layout with nothing placed and the fields back in order. -/
def cleared (layout : Layout) : Layout :=
  ⟨Declaration.inOrder layout.visited, #[], layout.slots.map fun _ => #[]⟩

/-- The layout with one more field, which has no slots. -/
def declare (layout : Layout) (declaration : Declaration) : Layout :=
  { layout with
    visited := layout.visited ++ [declaration]
    slots := layout.slots.push #[] }

/-- The layout once the replicas of all fields are placed. -/
def allocate (layout : Layout) : Layout :=
  let visited := Declaration.visitingOrder layout.visited
  let allocator := visited.foldl Allocator.placeField ⟨layout.registers, layout.slots, none⟩
  ⟨visited, allocator.registers, allocator.slots⟩

/-- The layout of a list of fields. -/
def ofFields (fields : List Field) : Layout :=
  (unpacked fields).allocate

/-- The replicas of the fields, in the order in which they are placed. -/
def sequence (visited : List Declaration) : List Replica :=
  visited.flatMap (·.replicas)

/-- Field by field or one replica after the other, the allocator does the same. -/
theorem foldl_placeField (visited : List Declaration) (allocator : Allocator) :
    visited.foldl Allocator.placeField allocator =
      (sequence visited).foldl Allocator.place allocator := by
  simp only [sequence, List.foldl_flatMap]
  rfl

/-- The slots of the field that was declared at an index. -/
def slotsOf (layout : Layout) (index : Nat) : List Slot :=
  (layout.slots[index]?.getD #[]).toList

/-- The placements of a field, one for each slot whose register is there. -/
def placements (layout : Layout) (declaration : Declaration) : List Placement :=
  (layout.slotsOf declaration.index).zipIdx.filterMap fun (slot, number) =>
    layout.registers[slot.register]?.map fun register =>
      ⟨UInt32.ofNat number, slot, register.address, declaration.field.width⟩

/-! ### Clearing -/

theorem cleared_unpacked (fields : List Field) : (unpacked fields).cleared = unpacked fields := by
  simp only [cleared, unpacked, Array.map_replicate, Declaration.inOrder_of_perm (.refl _)]

theorem declare_unpacked (fields : List Field) (field : Field) :
    (unpacked fields).declare ⟨fields.length, field⟩ = unpacked (fields ++ [field]) := by
  simp [declare, unpacked, Declaration.ofFields_append, Array.replicate_succ]

@[simp] theorem size_slots_ofFields (fields : List Field) :
    (ofFields fields).slots.size = fields.length := by
  simp [ofFields, allocate, unpacked, foldl_placeField]

/-- Clearing undoes an allocation. -/
theorem cleared_ofFields (fields : List Field) : (ofFields fields).cleared = unpacked fields := by
  have hperm : (ofFields fields).visited.Perm (Declaration.ofFields fields) :=
    List.mergeSort_perm _ _
  simp only [cleared, unpacked, Declaration.inOrder_of_perm hperm]
  rw [Array.map_const', size_slots_ofFields]

end Layout

end RegMap
