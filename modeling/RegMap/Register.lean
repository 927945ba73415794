import RegMap.Field

/-!
# Registers

A register is one 32-bit word of the map. It holds replicas of declared fields,
all of the register's access kind, at offsets where they do not meet. Nothing
in `Register` enforces this: `Register.validate` finds out, for any occupants,
however they came to be where they are.
-/

namespace RegMap

/-- A field with its place among the declarations of a map. -/
structure Declaration where
  index : Nat
  field : Field
deriving DecidableEq

/-- One of the equal parts of a declared field. -/
structure Replica where
  declaration : Declaration
  number : UInt32
deriving DecidableEq

namespace Declaration

/-- The fields of a map with their places. -/
def ofFields (fields : List Field) : List Declaration :=
  fields.zipIdx.map fun (field, index) => ⟨index, field⟩

/-- The replicas of a field, in order. -/
def replicas (declaration : Declaration) : List Replica :=
  (List.range declaration.field.count.toNat).map fun n => ⟨declaration, UInt32.ofNat n⟩

end Declaration

namespace Replica

/-- The field of which it is a part. -/
def field (replica : Replica) : Field :=
  replica.declaration.field

/-- The access kind, which is that of the field. -/
def access (replica : Replica) : Access :=
  replica.field.access

/-- The width, which all replicas of a field share. -/
def width (replica : Replica) : UInt8 :=
  replica.field.width

/-- The replica's name in listings and messages. -/
def name (replica : Replica) : String :=
  replica.field.replicaName replica.number

end Replica

/-- A replica in a register: bits `offset` to `offset + width - 1`. -/
structure Occupant where
  replica : Replica
  offset : UInt8
  width : UInt8
deriving DecidableEq

namespace Occupant

/-- The first bit after the occupant. -/
def stop (occupant : Occupant) : Nat :=
  occupant.offset.toNat + occupant.width.toNat

/-- The last bit of the occupant. -/
def msb (occupant : Occupant) : UInt8 :=
  occupant.offset + occupant.width - 1

end Occupant

/-- One word of the map, with what resides in it. -/
structure Register where
  address : UInt32
  access : Access
  occupants : List Occupant
deriving DecidableEq

namespace Register

/-- The index of the register in the engine's word arrays. -/
def word (register : Register) : Nat :=
  Address.word register.address

/-- The register as the listing heads its occupants. -/
def text (register : Register) : String :=
  s!"{register.access.keyword}:{Address.text register.address}:"

/-- How many bits the occupants have together. -/
def bits (register : Register) : Nat :=
  (register.occupants.map (·.width.toNat)).foldr (· + ·) 0

/-- The bits of the occupants as they are counted: as a sum of 32-bit words, which wraps. -/
def occupiedBits (register : Register) : Nat :=
  let total := register.occupants.foldl (fun total occupant => total + occupant.width.toUInt32) 0
  total.toNat

/-- Adding up words that wrap is adding up numbers, up to the size of a word. -/
theorem toNat_foldl_width (occupants : List Occupant) (total : UInt32) :
    (occupants.foldl (fun total occupant => total + occupant.width.toUInt32) total).toNat =
      (total.toNat + (occupants.map (·.width.toNat)).foldr (· + ·) 0) % UInt32.size := by
  induction occupants generalizing total with
  | nil => exact (Nat.mod_eq_of_lt total.toNat_lt).symm
  | cons occupant rest ih =>
    have hsize : UInt32.size = 2 ^ 32 := rfl
    rw [List.foldl_cons, ih, UInt32.toNat_add, UInt8.toNat_toUInt32, List.map_cons,
      List.foldr_cons, hsize]
    omega

theorem occupiedBits_eq_mod (register : Register) :
    register.occupiedBits = register.bits % UInt32.size := by
  unfold occupiedBits bits
  rw [toNat_foldl_width, UInt32.toNat_zero, Nat.zero_add]

theorem occupiedBits_le_bits (register : Register) : register.occupiedBits ≤ register.bits := by
  rw [occupiedBits_eq_mod]
  exact Nat.mod_le _ _

/-! ## Validity -/

/-- The occupants by ascending offset. Occupants at one offset keep their order. -/
def byOffset (register : Register) : List Occupant :=
  register.occupants.mergeSort fun a b => a.offset ≤ b.offset

/-- Every pair of occupants of which the second starts before the first stops.
In a list by ascending offset these are the pairs that share a bit, and the
search behind an occupant ends at the first that starts where it stops. -/
def overlappingPairs : List Occupant → List (Occupant × Occupant)
  | [] => []
  | first :: rest =>
    (rest.takeWhile fun other => other.offset.toNat < first.stop).map (first, ·) ++
      overlappingPairs rest

/-- The last bit that two overlapping occupants share, as a 32-bit word. -/
def lastSharedBit (a b : Occupant) : UInt32 :=
  UInt32.ofNat (min a.stop b.stop) - 1

/-- The finding that two occupants overlap, the one with the lower offset first. -/
def overlapFinding (a b : Occupant) : Finding :=
  .overlap a.replica.name b.replica.name s!"{b.offset}...{lastSharedBit a b}"

/-- What is wrong with the register: too many bits, fields of another kind, and
occupants that overlap. -/
def findings (register : Register) : List Finding :=
  (if register.occupiedBits > registerWidth then
    [.overflow register.occupiedBits registerWidth] else []) ++
  (register.occupants.filter (·.replica.access ≠ register.access)).map
    (fun occupant =>
      .mixedAccess occupant.replica.name occupant.replica.access register.access) ++
  (overlappingPairs register.byOffset).map fun (a, b) => overlapFinding a b

/-- The findings, told about the register inside a place. -/
def validate (palette : Palette) (register : Register) (context : Context) : Diagnostics :=
  let inside := context.push (Context.registerSegment register.address)
  .ofList (register.findings.map (·.at palette inside))

end Register

end RegMap
