import RegMap.Proofs.Occupancy
import RegMap.Proofs.Validity

/-!
# Packing is next-fit

A packed map has its replicas in visiting order, and a replica opens a register
exactly when it has to: when its access kind is another, or when it would not end
inside the register.  `Follows` states this for two consecutive replicas, and
`Layout.NextFit` for a whole layout.  Together they determine the registers.
-/

namespace RegMap

/-- The access kinds in the order in which their registers lie. -/
def Access.registerOrder : List Access :=
  [.readOnly, .readWrite, .writeOneToClear, .writeOnly]

/-- How a replica is placed behind the one before it.  The bits that the register
of the first one has by then are those up to its end. -/
structure Follows (registers : List Register) (entry next : Nat × Occupant) : Prop where
  opens_iff : next.1 ≠ entry.1 ↔
    next.2.replica.access ≠ entry.2.replica.access ∨
      registerWidth < entry.2.stop + next.2.replica.width.toNat
  opened : next.1 ≠ entry.1 → next.1 = entry.1 + 1 ∧ next.2.offset = 0 ∧
    ∃ register, registers[entry.1]? = some register ∧ register.bits = entry.2.stop
  joined : next.1 = entry.1 → next.2.offset.toNat = entry.2.stop

/-- The layout visits the fields in order, places their replicas in that order, and
opens a register for a replica exactly when it has to. -/
structure Layout.NextFit (layout : Layout) (fields : List Field) : Prop where
  perm_visited : layout.visited.Perm (Declaration.ofFields fields)
  pairwise_visited : layout.visited.Pairwise Declaration.Before
  unique_visited : ∀ declarations : List Declaration,
    declarations.Perm (Declaration.ofFields fields) → declarations.Pairwise Declaration.Before →
      declarations = layout.visited
  replicas_eq : (occupancy layout.registers.toList).map (·.2.replica) =
    layout.visited.flatMap (·.replicas)
  starts : ∀ entry ∈ (occupancy layout.registers.toList).head?, entry.1 = 0 ∧ entry.2.offset = 0
  isChain : (occupancy layout.registers.toList).IsChain (Follows layout.registers.toList)
  accesses_eq : layout.registers.toList.map (·.access) =
    Access.registerOrder.flatMap fun access =>
      List.replicate ((layout.registers.toList.map (·.access)).count access) access

/-! ## Inside a row -/

namespace Row

/-- How an occupant of a row comes behind the one before it. -/
def Joins (occupant next : Occupant) : Prop :=
  next.offset.toNat = occupant.stop ∧ next.replica.access = occupant.replica.access ∧
    occupant.stop + next.replica.width.toNat ≤ registerWidth

theorem Grown.isChain_joins {row : Row} (h : row.Grown) : row.occupants.IsChain Joins := by
  induction h with
  | single replica => exact .singleton _
  | @push row replica hrow hfits ih =>
    obtain ⟨haccess, hbits⟩ := (fits_iff row replica).1 hfits
    rw [occupants_push]
    refine ih.append (.singleton _) fun last hlast next hnext => ?_
    obtain rfl : ⟨replica, UInt8.ofNat row.bits, replica.width⟩ = next := by simpa using hnext
    have hstop := hrow.tiles.stop_getLast? last hlast
    have hlastAccess := hrow.access_of_mem_occupants (List.mem_of_getLast? hlast)
    refine ⟨?_, ?_, ?_⟩
    · rw [hstop, UInt8.toNat_ofNat', Nat.mod_eq_of_lt hrow.bits_lt]
    · rw [hlastAccess, haccess]
    · rw [hstop]
      exact hbits

/-! ## From row to row -/

theorem occupancy_toRegisters (rows : List Row) :
    occupancy (toRegisters rows) =
      (rows.mapIdx fun index row => row.occupants.map (index, ·)).flatten := by
  induction rows using List.reverseRecOn with
  | nil => rfl
  | append_singleton rows row ih => simp [ih, List.mapIdx_append, toRegister]

/-- The first replica of a row opens its register because it has to. -/
theorem follows_of_closes {registers : List Register} {row next : Row} {index : Nat}
    (hrow : row.Grown) (hnext : next.Grown) (hcloses : row.Closes next)
    (hregister : registers[index]? = some (row.toRegister index)) {occupant first : Occupant}
    (hoccupant : occupant ∈ row.occupants.getLast?) (hfirst : first ∈ next.occupants.head?) :
    Follows registers (index, occupant) (index + 1, first) := by
  obtain ⟨replica, rest, hreplicas, hfits⟩ := hcloses
  obtain ⟨hoffset, rest', hreplicas'⟩ := hnext.head?_occupants first hfirst
  obtain ⟨rfl, -⟩ : replica = first.replica ∧ rest = rest' := by
    simpa [hreplicas] using hreplicas'
  have hstop := hrow.tiles.stop_getLast? occupant hoccupant
  have haccess := hrow.access_of_mem_occupants (List.mem_of_getLast? hoccupant)
  refine ⟨⟨fun _ => ?_, fun _ => by simp⟩, fun _ => ⟨rfl, hoffset, _, hregister, ?_⟩, by simp⟩
  · rw [fits_iff, not_and_or, Nat.not_le] at hfits
    rw [haccess, hstop]
    exact hfits.imp_left Ne.symm
  · rw [hrow.bits_eq, hstop]

/-- A replica that is not the first of its row joined it because it could. -/
theorem follows_of_joins {registers : List Register} {occupant next : Occupant} (index : Nat)
    (h : Joins occupant next) : Follows registers (index, occupant) (index, next) := by
  obtain ⟨hoffset, haccess, hbits⟩ := h
  refine ⟨⟨fun hne => absurd rfl hne, ?_⟩, fun hne => absurd rfl hne, fun _ => hoffset⟩
  intro hor
  rcases hor with hne | hlt
  · exact absurd haccess hne
  · dsimp only at hlt
    omega

/-- Row by row, every replica follows the one before it. -/
theorem isChain_follows {rows : List Row} (hgrown : ∀ row ∈ rows, row.Grown)
    (hchain : rows.IsChain Closes) :
    (occupancy (toRegisters rows)).IsChain (Follows (toRegisters rows)) := by
  rw [occupancy_toRegisters]
  refine (List.isChain_flatten ?_).2 ⟨?_, ?_⟩
  · intro hnil
    obtain ⟨index, hindex, hmap⟩ := List.mem_mapIdx.1 hnil
    rw [List.map_eq_nil_iff] at hmap
    exact (hgrown _ (List.getElem_mem hindex)).occupants_ne_nil hmap
  · -- inside a row
    intro entries hentries
    obtain ⟨index, hindex, rfl⟩ := List.mem_mapIdx.1 hentries
    refine (List.isChain_map _).2 ((hgrown _ (List.getElem_mem hindex)).isChain_joins.imp ?_)
    intro occupant next hjoins
    exact follows_of_joins index hjoins
  · -- from the last occupant of a row to the first of the next
    refine List.isChain_iff_getElem.2 fun index hindex => ?_
    rw [List.length_mapIdx] at hindex
    have hcloses := List.isChain_iff_getElem.1 hchain index hindex
    simp only [List.getElem_mapIdx, List.getLast?_map, List.head?_map, Option.mem_def,
      Option.map_eq_some_iff, forall_exists_index, and_imp]
    intro entry occupant hoccupant hentry next first hfirst hnext
    subst hentry hnext
    refine follows_of_closes (hgrown _ (List.getElem_mem _)) (hgrown _ (List.getElem_mem _))
      hcloses ?_ hoccupant hfirst
    rw [toRegisters, List.getElem?_mapIdx, List.getElem?_eq_getElem (Nat.lt_of_succ_lt hindex)]
    rfl

theorem starts_of_mem_head? {rows : List Row} (hgrown : ∀ row ∈ rows, row.Grown) :
    ∀ entry ∈ (occupancy (toRegisters rows)).head?, entry.1 = 0 ∧ entry.2.offset = 0 := by
  intro entry hentry
  cases rows with
  | nil => simp [toRegisters] at hentry
  | cons row rest =>
    have hrow := hgrown row List.mem_cons_self
    rw [occupancy_toRegisters, List.mapIdx_cons, List.flatten_cons, List.head?_append_of_ne_nil]
      at hentry
    · rw [List.head?_map, Option.mem_def, Option.map_eq_some_iff] at hentry
      obtain ⟨first, hfirst, rfl⟩ := hentry
      exact ⟨rfl, (hrow.head?_occupants first hfirst).1⟩
    · simpa using hrow.occupants_ne_nil

/-! ## Access kinds -/

theorem access_toRegisters (rows : List Row) :
    (toRegisters rows).map (·.access) = rows.map (·.access) := by
  induction rows using List.reverseRecOn with
  | nil => rfl
  | append_singleton rows row ih => simp [ih, toRegister]

/-- Rows come in the order of their access keywords if their replicas do. -/
theorem pairwise_keyword {rows : List Row} (hgrown : ∀ row ∈ rows, row.Grown)
    (h : (rows.flatMap (·.replicas)).Pairwise (·.access.keyword ≤ ·.access.keyword)) :
    rows.Pairwise (·.access.keyword ≤ ·.access.keyword) := by
  refine (List.pairwise_flatMap.1 h).2.imp_of_mem fun {row next} hrow hnext hle => ?_
  obtain ⟨replica, hreplica⟩ := List.exists_mem_of_ne_nil _ (hgrown row hrow).replicas_ne_nil
  obtain ⟨first, hfirst⟩ := List.exists_mem_of_ne_nil _ (hgrown next hnext).replicas_ne_nil
  rw [← (hgrown row hrow).access_eq replica hreplica,
    ← (hgrown next hnext).access_eq first hfirst]
  exact hle replica hreplica first hfirst

end Row

/-- Sorted by keyword, the kinds come in blocks. -/
theorem Access.eq_blocks_of_pairwise {accesses : List Access}
    (h : accesses.Pairwise (·.keyword ≤ ·.keyword)) :
    accesses = registerOrder.flatMap fun access =>
      List.replicate (accesses.count access) access := by
  have hperm : accesses.Perm (registerOrder.flatMap fun access =>
      List.replicate (accesses.count access) access) := by
    refine List.perm_iff_count.2 fun access => ?_
    cases access <;> simp [registerOrder, List.count_replicate]
  refine hperm.eq_of_pairwise (fun a b _ _ hab hba => ?_) h ?_
  · exact keyword_injective (le_antisymm hab hba)
  · refine List.pairwise_flatMap.2 ⟨fun access _ => ?_, ?_⟩
    · exact List.pairwise_replicate.2 (.inr le_rfl)
    · have hsorted : registerOrder.Pairwise (·.keyword ≤ ·.keyword) := by decide
      refine hsorted.imp fun {a b} hab x hx y hy => ?_
      rw [List.eq_of_mem_replicate hx, List.eq_of_mem_replicate hy]
      exact hab

namespace Layout

theorem pairwise_keyword_sequence (fields : List Field) :
    (sequence (ofFields fields).visited).Pairwise (·.access.keyword ≤ ·.access.keyword) := by
  refine pairwise_sequence (R := (·.access.keyword ≤ ·.access.keyword)) (fun _ => le_rfl) ?_
  exact (Declaration.pairwise_visitingOrder fields).imp Declaration.Before.keyword_le

theorem nextFit_ofFields (fields : List Field) : (ofFields fields).NextFit fields := by
  have hgrown := Row.grown_of_mem_ofReplicas (sequence (ofFields fields).visited)
  have hregisters := registers_ofFields fields
  refine ⟨Declaration.perm_visitingOrder fields, Declaration.pairwise_visitingOrder fields, ?_,
    replicas_occupancy fields, ?_, ?_, ?_⟩
  · intro declarations hperm hsorted
    exact (Declaration.visitingOrder_eq hperm hsorted).symm
  · rw [hregisters]
    exact Row.starts_of_mem_head? hgrown
  · rw [hregisters]
    exact Row.isChain_follows hgrown (Row.isChain_ofReplicas _)
  · apply Access.eq_blocks_of_pairwise
    rw [hregisters, Row.access_toRegisters, List.pairwise_map]
    apply Row.pairwise_keyword hgrown
    rw [Row.replicas_ofReplicas]
    exact pairwise_keyword_sequence fields

end Layout

/-- Packing is next-fit over the fields in visiting order. -/
theorem RegisterMap.nextFit_layout_pack {palette : Palette} {map : RegisterMap}
    (h : (map.pack palette).2 = .ok ()) : (map.pack palette).1.layout.NextFit map.fields := by
  rw [layout_pack h]
  exact Layout.nextFit_ofFields map.fields

/-- Two kinds, a tie in access and width, and a replica that does not fit. -/
theorem RegisterMap.nextFit_layout_pack_tie :
    let map := (new ⟨"acme", "csr", "timer", none⟩ none).addFields
      [⟨"narrow", 4, .readWrite, 1⟩, ⟨"first", 8, .readWrite, 2⟩, ⟨"second", 8, .readWrite, 2⟩,
        ⟨"state", 2, .readOnly, 1⟩]
    (map.pack .plain).2 = .ok () ∧ (map.pack .plain).1.layout.NextFit map.fields :=
  ⟨rfl, nextFit_layout_pack rfl⟩

end RegMap
