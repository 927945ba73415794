import Mathlib.Algebra.GroupWithZero.Nat
import Mathlib.Data.List.Chain
import RegMap.Layout

/-!
# Rows

The allocator works on numbered registers and offsets.  This module has the same
result without either: the replicas are cut into rows, one for each register,
and the rows are laid out afterwards.  A replica's offset is then the width of
what its row has before it.

There are three groups.

* The cut.  `Row.fill` goes on with an open row, `Row.ofReplicas` starts with
  none, and `replicas_ofReplicas` says that nothing is lost or moved.
* What a row is like.  `Row.Grown` says how a row comes about: it starts with one
  replica, and every other one fits when it joins.  `Row.Closes` relates
  a row to the next, whose first replica did not fit.
* The occupants of a row.  `Row.occupantsFrom` lays the replicas side by side.
-/

namespace RegMap

/-- The replicas that share a register, and their access kind. -/
structure Row where
  access : Access
  replicas : List Replica

namespace Row

/-! ## The cut -/

/-- The row that a replica opens. -/
def single (replica : Replica) : Row :=
  ⟨replica.access, [replica]⟩

/-- The bits that the row takes up. -/
def bits (row : Row) : Nat :=
  (row.replicas.map (·.width.toNat)).sum

/-- Whether a replica can join the row: it has the row's access kind and ends
inside the register. -/
def fits (row : Row) (replica : Replica) : Bool :=
  row.access = replica.access && row.bits + replica.width.toNat ≤ registerWidth

/-- The row with one more replica at its end. -/
def push (row : Row) (replica : Replica) : Row :=
  { row with replicas := row.replicas ++ [replica] }

/-- The open row and those after it, once the given replicas have come. -/
def fill (row : Row) : List Replica → List Row
  | [] => [row]
  | replica :: rest =>
    if row.fits replica then
      fill (row.push replica) rest
    else
      row :: fill (single replica) rest

/-- The rows into which a sequence of replicas is cut. -/
def ofReplicas : List Replica → List Row
  | [] => []
  | replica :: rest => fill (single replica) rest

@[simp] theorem access_single (replica : Replica) : (single replica).access = replica.access := rfl

@[simp] theorem access_push (row : Row) (replica : Replica) :
    (row.push replica).access = row.access := rfl

@[simp] theorem replicas_push (row : Row) (replica : Replica) :
    (row.push replica).replicas = row.replicas ++ [replica] := rfl

@[simp] theorem bits_push (row : Row) (replica : Replica) :
    (row.push replica).bits = row.bits + replica.width.toNat := by
  simp [bits]

@[simp] theorem bits_single (replica : Replica) :
    (single replica).bits = replica.width.toNat := by
  simp [bits, single]

theorem fits_iff (row : Row) (replica : Replica) :
    row.fits replica ↔
      row.access = replica.access ∧ row.bits + replica.width.toNat ≤ registerWidth := by
  simp [fits]

theorem replicas_fill (row : Row) (replicas : List Replica) :
    (row.fill replicas).flatMap (·.replicas) = row.replicas ++ replicas := by
  fun_induction fill row replicas with
  | case1 row => simp
  | case2 row replica rest _ ih => simpa using ih
  | case3 row replica rest _ ih => simpa [single] using ih

/-- The rows hold all replicas, in their order. -/
theorem replicas_ofReplicas (replicas : List Replica) :
    (ofReplicas replicas).flatMap (·.replicas) = replicas := by
  cases replicas with
  | nil => rfl
  | cons replica rest => exact replicas_fill (single replica) rest

/-! ## What a row is like -/

/-- A row starts with one replica, and every other one fits when it joins. -/
inductive Grown : Row → Prop where
  | single (replica : Replica) : Grown (.single replica)
  | push {row : Row} {replica : Replica} (hrow : Grown row) (hfits : row.fits replica) :
      Grown (row.push replica)

theorem Grown.replicas_ne_nil {row : Row} (h : row.Grown) : row.replicas ≠ [] := by
  cases h <;> simp [Row.single]

theorem Grown.access_eq {row : Row} (h : row.Grown) :
    ∀ replica ∈ row.replicas, replica.access = row.access := by
  induction h with
  | single replica => simp [Row.single]
  | @push row replica _ hfits ih =>
    intro other hother
    rw [replicas_push, List.mem_append, List.mem_singleton] at hother
    rcases hother with hold | rfl
    · exact ih other hold
    · exact ((fits_iff row other).1 hfits).1.symm

/-- A row never takes up more bits than a register has, unless its first replica
alone does. -/
theorem Grown.bits_le {row : Row} {bound : Nat} (h : row.Grown) (hbound : registerWidth ≤ bound)
    (hwidth : ∀ replica ∈ row.replicas, replica.width.toNat ≤ bound) : row.bits ≤ bound := by
  cases h with
  | single replica =>
    rw [bits_single]
    exact hwidth replica (by simp [Row.single])
  | @push row replica _ hfits =>
    rw [bits_push]
    exact ((fits_iff row replica).1 hfits).2.trans hbound

/-- Every offset inside a row is a number of eight bits, whatever the widths are. -/
theorem Grown.bits_lt {row : Row} (h : row.Grown) : row.bits < 256 := by
  have hbits : row.bits ≤ 255 := by
    refine h.bits_le (by decide) fun replica _ => ?_
    exact Nat.le_of_lt_succ replica.width.toNat_lt
  omega

theorem grown_of_mem_fill {row : Row} (h : row.Grown) (replicas : List Replica) :
    ∀ other ∈ row.fill replicas, other.Grown := by
  fun_induction fill row replicas with
  | case1 row => simpa using h
  | case2 row replica rest hfits ih => exact ih (.push h hfits)
  | case3 row replica rest hfits ih =>
    intro other hother
    rcases List.mem_cons.1 hother with rfl | hother
    · exact h
    · exact ih (.single replica) other hother

theorem grown_of_mem_ofReplicas (replicas : List Replica) :
    ∀ row ∈ ofReplicas replicas, row.Grown := by
  cases replicas with
  | nil => simp [ofReplicas]
  | cons replica rest => exact grown_of_mem_fill (.single replica) rest

theorem length_le_of_grown {rows : List Row} (h : ∀ row ∈ rows, row.Grown) :
    rows.length ≤ (rows.flatMap (·.replicas)).length := by
  induction rows with
  | nil => simp
  | cons row rest ih =>
    rw [List.forall_mem_cons] at h
    have hrow := List.length_pos_of_ne_nil h.1.replicas_ne_nil
    have hrest := ih h.2
    rw [List.flatMap_cons, List.length_append, List.length_cons]
    omega

/-- The first replica of the next row could not join this one. -/
def Closes (row next : Row) : Prop :=
  ∃ replica rest, next.replicas = replica :: rest ∧ ¬row.fits replica

/-- The open row comes first and keeps what it has. -/
theorem fill_eq_cons (row : Row) (replicas : List Replica) :
    ∃ more rows, row.fill replicas = ⟨row.access, row.replicas ++ more⟩ :: rows := by
  fun_induction fill row replicas with
  | case1 row => exact ⟨[], [], by simp⟩
  | case2 row replica rest _ ih =>
    obtain ⟨more, rows, h⟩ := ih
    exact ⟨replica :: more, rows, by simp [h]⟩
  | case3 row replica rest _ ih => exact ⟨[], _, by simp; rfl⟩

theorem isChain_fill (row : Row) (replicas : List Replica) :
    (row.fill replicas).IsChain Closes := by
  fun_induction fill row replicas with
  | case1 row => exact .singleton row
  | case2 row replica rest _ ih => exact ih
  | case3 row replica rest hfits ih =>
    obtain ⟨more, rows, h⟩ := fill_eq_cons (single replica) rest
    rw [h] at ih ⊢
    exact .cons_cons ⟨replica, more, by simp [single], hfits⟩ ih

/-- A row is closed only when the next replica does not fit. -/
theorem isChain_ofReplicas (replicas : List Replica) :
    (ofReplicas replicas).IsChain Closes := by
  cases replicas with
  | nil => exact .nil
  | cons replica rest => exact isChain_fill (single replica) rest

/-! ## The occupants of a row -/

/-- The replicas side by side, the first at the given bit. -/
def occupantsFrom (offset : Nat) : List Replica → List Occupant
  | [] => []
  | replica :: rest =>
    ⟨replica, UInt8.ofNat offset, replica.width⟩
      :: occupantsFrom (offset + replica.width.toNat) rest

/-- The replicas of a row side by side, from bit zero on. -/
def occupants (row : Row) : List Occupant :=
  occupantsFrom 0 row.replicas

/-- A row as the register with an index. -/
def toRegister (index : Nat) (row : Row) : Register :=
  ⟨Address.ofIndex index, row.access, row.occupants⟩

theorem occupantsFrom_append (offset : Nat) (left right : List Replica) :
    occupantsFrom offset (left ++ right) =
      occupantsFrom offset left ++
        occupantsFrom (offset + (left.map (·.width.toNat)).sum) right := by
  induction left generalizing offset with
  | nil => simp [occupantsFrom]
  | cons replica rest ih => simp [occupantsFrom, ih, Nat.add_assoc]

theorem replica_occupantsFrom (offset : Nat) (replicas : List Replica) :
    (occupantsFrom offset replicas).map (·.replica) = replicas := by
  induction replicas generalizing offset with
  | nil => rfl
  | cons replica rest ih => simp [occupantsFrom, ih]

theorem width_of_mem_occupantsFrom {offset : Nat} {replicas : List Replica} {occupant : Occupant}
    (h : occupant ∈ occupantsFrom offset replicas) : occupant.width = occupant.replica.width := by
  induction replicas generalizing offset with
  | nil => simp [occupantsFrom] at h
  | cons replica rest ih =>
    rw [occupantsFrom, List.mem_cons] at h
    rcases h with rfl | h
    · rfl
    · exact ih h

@[simp] theorem replica_occupants (row : Row) : row.occupants.map (·.replica) = row.replicas :=
  replica_occupantsFrom 0 row.replicas

theorem replica_mem_of_mem_occupants (row : Row) {occupant : Occupant}
    (h : occupant ∈ row.occupants) : occupant.replica ∈ row.replicas := by
  rw [← row.replica_occupants]
  exact List.mem_map_of_mem h

@[simp] theorem occupants_push (row : Row) (replica : Replica) :
    (row.push replica).occupants =
      row.occupants ++ [⟨replica, UInt8.ofNat row.bits, replica.width⟩] := by
  simp [occupants, occupantsFrom_append, occupantsFrom, bits]

end Row

end RegMap
