import RegMap.Proofs.Rows

/-!
# Occupants side by side

`Tiles first occupants stop` says that the occupants cover the bits from `first`
up to `stop`, one directly behind the other.  The occupants of a row tile the bits
that the row takes up; the other lemmas say what this means for offsets, for pairs
of occupants and for single bits.
-/

namespace RegMap

/-- The occupants lie side by side from one bit up to another. -/
def Tiles (first : Nat) : List Occupant → Nat → Prop
  | [], stop => first = stop
  | occupant :: rest, stop =>
    occupant.offset.toNat = first ∧ Tiles (first + occupant.width.toNat) rest stop

/-- Whether an occupant has a bit. -/
def Occupant.Covers (occupant : Occupant) (bit : Nat) : Prop :=
  occupant.offset.toNat ≤ bit ∧ bit < occupant.stop

namespace Tiles

variable {first stop : Nat} {occupants : List Occupant}

theorem stop_eq (h : Tiles first occupants stop) :
    stop = first + (occupants.map (·.width.toNat)).sum := by
  induction occupants generalizing first with
  | nil => simpa using Eq.symm h
  | cons occupant rest ih =>
    obtain ⟨-, hrest⟩ := h
    rw [ih hrest, List.map_cons, List.sum_cons, Nat.add_assoc]

/-- An occupant starts where those before it stop. -/
theorem offset_eq (h : Tiles first occupants stop) {k : Nat} {occupant : Occupant}
    (hk : occupants[k]? = some occupant) :
    occupant.offset.toNat = first + ((occupants.take k).map (·.width.toNat)).sum := by
  induction occupants generalizing first k with
  | nil => simp at hk
  | cons head rest ih =>
    obtain ⟨hhead, hrest⟩ := h
    cases k with
    | zero =>
      rw [List.getElem?_cons_zero, Option.some.injEq] at hk
      subst hk
      simpa using hhead
    | succ k =>
      rw [List.getElem?_cons_succ] at hk
      rw [ih hrest hk, List.take_succ_cons, List.map_cons, List.sum_cons, Nat.add_assoc]

theorem first_le_stop (h : Tiles first occupants stop) : first ≤ stop := by
  rw [h.stop_eq]
  omega

theorem first_le (h : Tiles first occupants stop) :
    ∀ occupant ∈ occupants, first ≤ occupant.offset.toNat := by
  intro occupant hoccupant
  obtain ⟨k, hk⟩ := List.mem_iff_getElem?.1 hoccupant
  rw [h.offset_eq hk]
  omega

theorem stop_le (h : Tiles first occupants stop) :
    ∀ occupant ∈ occupants, occupant.stop ≤ stop := by
  induction occupants generalizing first with
  | nil => simp
  | cons head rest ih =>
    obtain ⟨hhead, hrest⟩ := h
    intro occupant hoccupant
    rcases List.mem_cons.1 hoccupant with rfl | hoccupant
    · rw [Occupant.stop, hhead]
      exact hrest.first_le_stop
    · exact ih hrest occupant hoccupant

/-- The last occupant stops where all do. -/
theorem stop_getLast? (h : Tiles first occupants stop) :
    ∀ occupant ∈ occupants.getLast?, occupant.stop = stop := by
  induction occupants generalizing first with
  | nil => simp
  | cons head rest ih =>
    obtain ⟨hhead, hrest⟩ := h
    cases rest with
    | nil =>
      have hstop : first + head.width.toNat = stop := hrest
      simp [Occupant.stop, hhead, hstop]
    | cons next rest => simpa using ih hrest

/-- No two occupants meet. -/
theorem pairwise (h : Tiles first occupants stop) :
    occupants.Pairwise fun a b => a.stop ≤ b.offset.toNat := by
  induction occupants generalizing first with
  | nil => exact .nil
  | cons head rest ih =>
    obtain ⟨hhead, hrest⟩ := h
    refine .cons (fun occupant hoccupant => ?_) (ih hrest)
    rw [Occupant.stop, hhead]
    exact hrest.first_le occupant hoccupant

/-- Every bit belongs to exactly one occupant. -/
theorem existsUnique_covers (h : Tiles first occupants stop) {bit : Nat} (hfirst : first ≤ bit)
    (hstop : bit < stop) :
    ∃! k : Nat, ∃ occupant, occupants[k]? = some occupant ∧ occupant.Covers bit := by
  induction occupants generalizing first with
  | nil =>
    have : first = stop := h
    omega
  | cons head rest ih =>
    obtain ⟨hhead, hrest⟩ := h
    by_cases hbit : bit < first + head.width.toNat
    · refine ⟨0, ⟨head, rfl, by omega, by rw [Occupant.stop]; omega⟩, ?_⟩
      intro k hexists
      obtain ⟨occupant, hk, hcovers, -⟩ := hexists
      cases k with
      | zero => rfl
      | succ k =>
        have := hrest.first_le occupant (List.mem_of_getElem? hk)
        omega
    · obtain ⟨k, hk, hunique⟩ := ih hrest (by omega)
      refine ⟨k + 1, by simpa using hk, ?_⟩
      intro j hj
      cases j with
      | zero =>
        obtain ⟨occupant, h0, hcovers⟩ := hj
        obtain rfl : head = occupant := by simpa using h0
        have := hcovers.2
        rw [Occupant.stop] at this
        omega
      | succ j => rw [hunique j (by simpa using hj)]

end Tiles

namespace Row

theorem tiles_occupantsFrom (offset : Nat) (replicas : List Replica)
    (h : offset + (replicas.map (·.width.toNat)).sum < 256) :
    Tiles offset (occupantsFrom offset replicas)
      (offset + (replicas.map (·.width.toNat)).sum) := by
  induction replicas generalizing offset with
  | nil => rfl
  | cons replica rest ih =>
    rw [List.map_cons, List.sum_cons, ← Nat.add_assoc] at h ⊢
    refine ⟨?_, ih _ h⟩
    rw [UInt8.toNat_ofNat', Nat.mod_eq_of_lt (by omega)]

/-- The occupants of a row tile the bits that it takes up. -/
theorem Grown.tiles {row : Row} (h : row.Grown) : Tiles 0 row.occupants row.bits := by
  have hlt : 0 + row.bits < 256 := by
    rw [Nat.zero_add]
    exact h.bits_lt
  have htiles := tiles_occupantsFrom 0 row.replicas hlt
  rwa [Nat.zero_add] at htiles

theorem Grown.bits_eq {row : Row} (h : row.Grown) (index : Nat) :
    (row.toRegister index).bits = row.bits := by
  have hstop := h.tiles.stop_eq
  rw [Nat.zero_add] at hstop
  exact hstop.symm

theorem Grown.occupants_ne_nil {row : Row} (h : row.Grown) : row.occupants ≠ [] := by
  intro hnil
  have hreplicas := row.replica_occupants
  rw [hnil] at hreplicas
  exact h.replicas_ne_nil hreplicas.symm

theorem Grown.access_of_mem_occupants {row : Row} (h : row.Grown) {occupant : Occupant}
    (hoccupant : occupant ∈ row.occupants) : occupant.replica.access = row.access :=
  h.access_eq _ (row.replica_mem_of_mem_occupants hoccupant)

theorem Grown.head?_occupants {row : Row} (h : row.Grown) :
    ∀ occupant ∈ row.occupants.head?, occupant.offset = 0 ∧
      ∃ rest, row.replicas = occupant.replica :: rest := by
  intro occupant hoccupant
  obtain ⟨replica, rest, hreplicas⟩ := List.exists_cons_of_ne_nil h.replicas_ne_nil
  rw [occupants, hreplicas, occupantsFrom, List.head?_cons, Option.mem_some] at hoccupant
  subst hoccupant
  exact ⟨rfl, rest, hreplicas⟩

end Row

end RegMap
