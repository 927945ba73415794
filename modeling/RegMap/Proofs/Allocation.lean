import RegMap.Proofs.Rows

/-!
# What the allocator writes

The allocator writes every replica twice, as an occupant of a register and as
a slot of its field.  This module relates both to the rows into which the
replicas are cut.

* `occupancy` lists the occupants of all registers in the order of their
  allocation, each with the index of its register.
* `Allocator.Shows` is the invariant: the registers hold some rows, and the slots
  of a field are the field's entries in the occupancy of these registers.
* `Allocator.Holds` adds which of the rows is open.  A step extends the open row
  if the replica fits, and closes it if not.
* `registers_ofFields` and `slotsOf_ofFields` are the results of a whole run.
-/

namespace RegMap

/-! ## Occupancy -/

/-- The occupants of all registers, each with the index of its register. -/
def occupancy (registers : List Register) : List (Nat × Occupant) :=
  registers.zipIdx.flatMap fun (register, index) => register.occupants.map (index, ·)

@[simp] theorem occupancy_nil : occupancy [] = [] := rfl

@[simp] theorem occupancy_append_singleton (registers : List Register) (register : Register) :
    occupancy (registers ++ [register]) =
      occupancy registers ++ register.occupants.map (registers.length, ·) := by
  simp [occupancy, List.zipIdx_append]

theorem mem_occupancy {registers : List Register} {index : Nat} {occupant : Occupant} :
    (index, occupant) ∈ occupancy registers ↔
      ∃ register, registers[index]? = some register ∧ occupant ∈ register.occupants := by
  simp only [occupancy, List.mem_flatMap, Prod.exists, List.mem_zipIdx_iff_getElem?,
    List.mem_map, Prod.mk.injEq]
  constructor
  · intro hexists
    obtain ⟨register, _, hregister, _, hoccupant, rfl, rfl⟩ := hexists
    exact ⟨register, hregister, hoccupant⟩
  · intro hexists
    obtain ⟨register, hregister, hoccupant⟩ := hexists
    exact ⟨register, index, hregister, occupant, hoccupant, rfl, rfl⟩

/-- The slot of an entry of the occupancy. -/
def entrySlot (entry : Nat × Occupant) : Slot :=
  ⟨entry.1, entry.2.offset⟩

/-- The entries of the field that was declared at an index. -/
def entriesOf (index : Nat) (entries : List (Nat × Occupant)) : List (Nat × Occupant) :=
  entries.filter fun entry => entry.2.replica.declaration.index = index

/-- Rows as registers, at ascending addresses. -/
def Row.toRegisters (rows : List Row) : List Register :=
  rows.mapIdx Row.toRegister

@[simp] theorem Row.length_toRegisters (rows : List Row) :
    (Row.toRegisters rows).length = rows.length := by
  simp [Row.toRegisters]

@[simp] theorem Row.toRegisters_append_singleton (rows : List Row) (row : Row) :
    Row.toRegisters (rows ++ [row]) = Row.toRegisters rows ++ [row.toRegister rows.length] := by
  simp [Row.toRegisters, List.mapIdx_append]

namespace Allocator

private theorem modify_length_append {α : Type} (xs : List α) (x : α) (f : α → α) :
    (xs ++ [x]).modify xs.length f = xs ++ [f x] := by
  induction xs with
  | nil => rfl
  | cons y ys ih => simp [ih]

/-! ## What is written -/

/-- The registers hold the rows, and the slots of every field are its entries in
the occupancy of the registers. -/
structure Shows (allocator : Allocator) (rows : List Row) : Prop where
  registers : allocator.registers.toList = Row.toRegisters rows
  slots : ∀ index slots, allocator.slots[index]? = some slots →
    slots.toList = (entriesOf index (occupancy (Row.toRegisters rows))).map entrySlot

theorem Shows.size_registers {allocator : Allocator} {rows : List Row}
    (h : allocator.Shows rows) : allocator.registers.size = rows.length := by
  rw [← Array.length_toList, h.registers, Row.length_toRegisters]

/-- A register is opened for a row that is still empty. -/
theorem Shows.openRegister {allocator : Allocator} {rows : List Row}
    (h : allocator.Shows rows) (access : Access) :
    (allocator.openRegister access).Shows (rows ++ [⟨access, []⟩]) where
  registers := by
    simp [Allocator.openRegister, h.registers, h.size_registers, Row.toRegister, Row.occupants,
      Row.occupantsFrom]
  slots := by
    simpa [Allocator.openRegister, Row.toRegister, Row.occupants, Row.occupantsFrom] using h.slots

/-- A replica that is written behind the last row joins this row. -/
theorem Shows.write {allocator : Allocator} {closed : List Row} {row : Row}
    (h : allocator.Shows (closed ++ [row])) (replica : Replica) :
    (allocator.write replica ⟨closed.length, UInt8.ofNat row.bits⟩).Shows
      (closed ++ [row.push replica]) where
  registers := by
    have hlength := Row.length_toRegisters closed
    simp only [Allocator.write, Array.toList_modify, h.registers, Row.toRegisters_append_singleton]
    rw [← hlength, modify_length_append]
    simp [Row.toRegister]
  slots := by
    intro index slots hslots
    simp only [Allocator.write, Array.getElem?_modify] at hslots
    have hentries : entriesOf index (occupancy (Row.toRegisters (closed ++ [row.push replica]))) =
        entriesOf index (occupancy (Row.toRegisters (closed ++ [row]))) ++
          entriesOf index [(closed.length, ⟨replica, UInt8.ofNat row.bits, replica.width⟩)] := by
      simp [entriesOf, Row.toRegister]
    rw [hentries, List.map_append]
    by_cases hindex : replica.declaration.index = index
    · rw [if_pos hindex, Option.map_eq_some_iff] at hslots
      obtain ⟨old, hold, rfl⟩ := hslots
      simp [h.slots index old hold, entriesOf, entrySlot, hindex]
    · rw [if_neg hindex] at hslots
      simp [h.slots index slots hslots, entriesOf, hindex]

/-! ## One step -/

/-- The allocator shows closed rows and an open one, at whose end it goes on. -/
structure Holds (allocator : Allocator) (closed : List Row) (row : Row) : Prop where
  shows_rows : allocator.Shows (closed ++ [row])
  grown : row.Grown
  current : allocator.current = some ⟨closed.length, UInt8.ofNat row.bits⟩

/-- There is room for a replica exactly if it fits the open row. -/
theorem Holds.room? {allocator : Allocator} {closed : List Row} {row : Row}
    (h : allocator.Holds closed row) (replica : Replica) :
    allocator.room? replica =
      if row.fits replica then some ⟨closed.length, UInt8.ofNat row.bits⟩ else none := by
  have hoffset : (UInt8.ofNat row.bits).toNat = row.bits := by
    rw [UInt8.toNat_ofNat', Nat.mod_eq_of_lt h.grown.bits_lt]
  have hregister : allocator.registers[closed.length]? = some (row.toRegister closed.length) := by
    rw [← Array.getElem?_toList, h.shows_rows.registers]
    simp
  simp [Allocator.room?, h.current, Option.filter, hregister, hoffset, Row.fits, Row.toRegister]

theorem Holds.place_of_fits {allocator : Allocator} {closed : List Row} {row : Row}
    (h : allocator.Holds closed row) {replica : Replica} (hfits : row.fits replica) :
    (allocator.place replica).Holds closed (row.push replica) := by
  have hplace : allocator.place replica =
      allocator.write replica ⟨closed.length, UInt8.ofNat row.bits⟩ := by
    simp [place, h.room?, hfits]
  rw [hplace]
  refine ⟨h.shows_rows.write replica, .push h.grown hfits, ?_⟩
  simp [Allocator.write]

/-- Without room, a replica starts a row of its own. -/
theorem Shows.place_of_no_room {allocator : Allocator} {rows : List Row}
    (h : allocator.Shows rows) {replica : Replica} (hroom : allocator.room? replica = none) :
    (allocator.place replica).Holds rows (.single replica) := by
  have hplace : allocator.place replica =
      (allocator.openRegister replica.access).write replica ⟨rows.length, 0⟩ := by
    simp [place, hroom, h.size_registers]
  rw [hplace]
  refine ⟨(h.openRegister replica.access).write replica, .single replica, ?_⟩
  simp [Allocator.write]

theorem Holds.place_of_not_fits {allocator : Allocator} {closed : List Row} {row : Row}
    (h : allocator.Holds closed row) {replica : Replica} (hfits : ¬row.fits replica) :
    (allocator.place replica).Holds (closed ++ [row]) (.single replica) :=
  h.shows_rows.place_of_no_room (by simp [h.room?, hfits])

/-! ## A whole run -/

theorem Holds.foldl_place {allocator : Allocator} {closed : List Row} {row : Row}
    (h : allocator.Holds closed row) (replicas : List Replica) :
    (replicas.foldl place allocator).Shows (closed ++ row.fill replicas) := by
  -- which rows are closed and which one is open changes with every replica
  induction replicas generalizing allocator closed row with
  | nil => exact h.shows_rows
  | cons replica rest ih =>
    rw [List.foldl_cons, Row.fill]
    by_cases hfits : row.fits replica
    · rw [if_pos hfits]
      exact ih (h.place_of_fits hfits)
    · rw [if_neg hfits]
      simpa using ih (h.place_of_not_fits hfits)

/-- Started with nothing written, the allocator writes the rows. -/
theorem shows_foldl_place {allocator : Allocator} (h : allocator.Shows [])
    (hcurrent : allocator.current = none) (replicas : List Replica) :
    (replicas.foldl place allocator).Shows (Row.ofReplicas replicas) := by
  cases replicas with
  | nil => exact h
  | cons replica rest =>
    have hroom : allocator.room? replica = none := by simp [Allocator.room?, hcurrent]
    simpa [Row.ofReplicas] using (h.place_of_no_room hroom).foldl_place rest

end Allocator

namespace Layout

/-- The rows into which the replicas of some fields are cut. -/
def rows (fields : List Field) : List Row :=
  Row.ofReplicas (sequence (ofFields fields).visited)

theorem shows_ofFields (fields : List Field) :
    (Allocator.mk (ofFields fields).registers (ofFields fields).slots none).Shows
      (rows fields) := by
  let start : Allocator := ⟨#[], .replicate fields.length #[], none⟩
  have hstart : start.Shows [] := by
    refine ⟨rfl, ?_⟩
    intro index slots hslots
    obtain ⟨_, rfl⟩ := Array.getElem?_eq_some_iff.1 hslots
    simp [start, Row.toRegisters, entriesOf]
  have hrun := Allocator.shows_foldl_place hstart rfl (sequence (ofFields fields).visited)
  rw [← foldl_placeField] at hrun
  exact ⟨hrun.registers, hrun.slots⟩

/-- The registers of a layout are the rows into which the replicas are cut. -/
theorem registers_ofFields (fields : List Field) :
    (ofFields fields).registers.toList = Row.toRegisters (rows fields) :=
  (shows_ofFields fields).registers

/-- The slots of a field are the places of its occupants. -/
theorem slotsOf_ofFields {fields : List Field} {index : Nat} (h : index < fields.length) :
    (ofFields fields).slotsOf index =
      (entriesOf index (occupancy (ofFields fields).registers.toList)).map entrySlot := by
  have hsize : (ofFields fields).slots.size = fields.length := size_slots_ofFields fields
  obtain ⟨slots, hslots⟩ : ∃ slots, (ofFields fields).slots[index]? = some slots :=
    ⟨_, Array.getElem?_eq_getElem (hsize ▸ h)⟩
  rw [slotsOf, hslots, registers_ofFields]
  exact (shows_ofFields fields).slots index slots hslots

end Layout

end RegMap
