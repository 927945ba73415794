import RegMap.Proofs.Charges
import RegMap.Proofs.Kinds

/-!
# How many registers are needed

The registers of a packed map are one of many ways to let replicas share registers.  Two kinds of
others are compared with it.

* `Cuts`: registers that keep the replicas in the order in which they are placed.  None of
  these has fewer registers (`RegisterMap.fewestRuns_pack`).
* `Assigns`: registers that hold the replicas in any order.  One of these can have fewer
  (`RegisterMap.not_minimal_pack`), but of no access kind half as many, for large maps not even
  three fifths, and where the widths of a kind are `Regular` as many
  (`RegisterMap.nearlyMinimal_pack`).

Both come from the tight cuts of the widths of a kind.
-/

namespace RegMap

/-! ## Other ways to share registers -/

/-- Replicas that can share a register: they have one access kind, and together they are not
wider than a register. -/
structure Shareable (replicas : List Replica) : Prop where
  access_eq : ∀ a ∈ replicas, ∀ b ∈ replicas, a.access = b.access
  width_le : (replicas.map (·.width.toNat)).sum ≤ registerWidth

/-- A sequence of replicas is cut into runs, each of which can share a register. -/
structure Cuts (replicas : List Replica) (runs : List (List Replica)) : Prop where
  flatten_eq : runs.flatten = replicas
  ne_nil : ∀ run ∈ runs, run ≠ []
  shareable : ∀ run ∈ runs, Shareable run

/-- Replicas are assigned to registers, each to one, so that those of every register can share
it. -/
structure Assigns (replicas : List Replica) (groups : List (List Replica)) : Prop where
  perm : groups.flatten.Perm replicas
  shareable : ∀ group ∈ groups, Shareable group

/-- The groups that hold a replica of a kind. -/
def groupsOf (access : Access) (groups : List (List Replica)) : List (List Replica) :=
  groups.filter fun group => group.any (·.access = access)

namespace RegisterMap

/-- The replicas of each register. -/
def groups (map : RegisterMap) : List (List Replica) :=
  map.registers.map fun register => register.occupants.map (·.replica)

/-- The registers cut the replicas, in the order in which they are placed, and no other cut of
them has fewer runs. -/
structure FewestRuns (map : RegisterMap) : Prop where
  cuts : Cuts (Layout.sequence map.visited) map.groups
  length_le : ∀ runs, Cuts (Layout.sequence map.visited) runs → map.registerCount ≤ runs.length

/-- The widths of a kind leave no choice that matters: all of them divide a register, or equally
many of each fit one. -/
def Regular (map : RegisterMap) (access : Access) : Prop :=
  (∀ field ∈ map.fields, field.access = access → field.width.toNat ∣ registerWidth) ∨
    ∃ number, ∀ field ∈ map.fields, field.access = access →
      registerWidth / field.width.toNat = number

/-- The registers compared with groups of replicas: fewer than twice as many, at most 261/160 times
as many and less than two and a half more of each kind, and no more of a kind that has at most two
registers or regular widths. -/
structure ComesNear (map : RegisterMap) (groups : List (List Replica)) : Prop where
  countOf_lt : ∀ access, map.countOf access ≠ 0 →
    map.countOf access < 2 * (groupsOf access groups).length
  mul_countOf_le : ∀ access,
    160 * map.countOf access ≤ 261 * (groupsOf access groups).length + 385
  countOf_le : ∀ access, map.countOf access ≤ 2 ∨ map.Regular access →
    map.countOf access ≤ (groupsOf access groups).length
  registerCount_lt : map.registerCount ≠ 0 → map.registerCount < 2 * groups.length
  mul_registerCount_le : 160 * map.registerCount ≤ 261 * groups.length + 4 * 385
  registerCount_le : (∀ access, map.countOf access ≤ 2 ∨ map.Regular access) →
    map.registerCount ≤ groups.length

/-- The registers are an assignment of the replicas, and come near any other. -/
structure NearlyMinimal (map : RegisterMap) : Prop where
  assigns : Assigns (Layout.sequence (Declaration.ofFields map.fields)) map.groups
  comesNear : ∀ groups, Assigns (Layout.sequence (Declaration.ofFields map.fields)) groups →
    map.ComesNear groups

end RegisterMap

/-! ## Groups of a kind -/

namespace Shareable

variable {group : List Replica}

theorem any_iff (h : Shareable group) {replica : Replica} (hreplica : replica ∈ group)
    (access : Access) : group.any (·.access = access) ↔ replica.access = access := by
  rw [List.any_eq_true]
  constructor
  · intro hany
    obtain ⟨other, hother, haccess⟩ := hany
    rw [h.access_eq replica hreplica other hother]
    exact of_decide_eq_true haccess
  · intro haccess
    exact ⟨replica, hreplica, decide_eq_true haccess⟩

/-- A group is of a kind as a whole. -/
theorem filter_eq (h : Shareable group) (access : Access) :
    group.filter (·.access = access) = if group.any (·.access = access) then group else [] := by
  by_cases hany : group.any (·.access = access)
  · rw [if_pos hany, List.filter_eq_self]
    intro replica hreplica
    exact decide_eq_true ((h.any_iff hreplica access).1 hany)
  · rw [if_neg hany, List.filter_eq_nil_iff]
    intro replica hreplica haccess
    exact hany ((h.any_iff hreplica access).2 (of_decide_eq_true haccess))

end Shareable

section

variable {groups : List (List Replica)} (h : ∀ group ∈ groups, Shareable group) (access : Access)

include h

/-- The groups of a kind hold the replicas of the kind. -/
theorem flatten_groupsOf :
    (groupsOf access groups).flatten = groups.flatten.filter (·.access = access) := by
  induction groups with
  | nil => rfl
  | cons group groups ih =>
    obtain ⟨hgroup, hgroups⟩ := List.forall_mem_cons.1 h
    rw [List.flatten_cons, List.filter_append, hgroup.filter_eq, ← ih hgroups, groupsOf, groupsOf,
      List.filter_cons]
    split <;> simp

/-- Every group counts for at most one kind. -/
theorem length_groupsOf :
    (groupsOf access groups).length = (groups.filterMap (·.head?)).countP (·.access = access) := by
  induction groups with
  | nil => rfl
  | cons group groups ih =>
    obtain ⟨hgroup, hgroups⟩ := List.forall_mem_cons.1 h
    have hrest := ih hgroups
    rw [groupsOf] at hrest ⊢
    cases group with
    | nil => exact hrest
    | cons replica rest =>
      have hany := hgroup.any_iff List.mem_cons_self access
      rw [List.filter_cons, List.filterMap_cons, List.head?_cons, List.countP_cons]
      by_cases haccess : replica.access = access
      · rw [if_pos (hany.2 haccess), List.length_cons, hrest]
        simp [haccess]
      · rw [if_neg (hany.not.2 haccess), hrest]
        simp [haccess]

/-- No group counts for two kinds. -/
theorem sum_length_groupsOf_le :
    (Access.all.map fun access => (groupsOf access groups).length).sum ≤ groups.length := by
  simp only [length_groupsOf h]
  rw [Access.sum_countP]
  exact List.length_filterMap_le _ _

/-- The widths of the groups of a kind fit a register each. -/
theorem sum_widths_groupsOf :
    ∀ widths ∈ (groupsOf access groups).map (List.map (·.width.toNat)),
      widths.sum ≤ registerWidth := by
  rw [List.forall_mem_map]
  intro group hgroup
  exact (h group (List.mem_of_mem_filter hgroup)).width_le

theorem flatten_widths_groupsOf :
    ((groupsOf access groups).map (List.map (·.width.toNat))).flatten =
      (groups.flatten.filter (·.access = access)).map (·.width.toNat) := by
  rw [← List.map_flatten, flatten_groupsOf h]

end

/-! ## The registers of a map -/

namespace Layout

variable {fields : List Field}

theorem replicas_registers (fields : List Field) :
    ((ofFields fields).registers.toList.map fun register => register.occupants.map (·.replica)) =
      (rows fields).map (·.replicas) := by
  rw [registers_ofFields]
  generalize rows fields = all
  induction all using List.reverseRecOn with
  | nil => rfl
  | append_singleton rows row ih => simp [ih, Row.toRegister]

theorem shareable_of_mem_rows (h : Packable fields) {row : Row} (hrow : row ∈ rows fields) :
    Shareable row.replicas := by
  have hgrown := Row.grown_of_mem_ofReplicas _ row hrow
  exact ⟨fun a ha b hb => (hgrown.access_eq a ha).trans (hgrown.access_eq b hb).symm,
    bits_le_of_mem_rows h hrow⟩

/-- The groups and the rows of a kind have the same widths. -/
theorem perm_widths_groupsOf {groups : List (List Replica)}
    (h : Assigns (sequence (Declaration.ofFields fields)) groups) (access : Access) :
    ((rowsOf access fields).map Row.widths).flatten.Perm
      ((groupsOf access groups).map (List.map (·.width.toNat))).flatten := by
  rw [flatten_rowsOf, flatten_widths_groupsOf h.shareable, widthsOf]
  exact (((perm_sequence fields).trans h.perm.symm).filter _).map _

end Layout

namespace RegisterMap

variable {map : RegisterMap}

theorem Packed.groups_eq (h : map.Packed) :
    map.groups = (Layout.rows map.fields).map (·.replicas) := by
  rw [groups, h.registers_eq, Layout.replicas_registers]

theorem Packed.registerCount_eq (h : map.Packed) :
    map.registerCount = (Layout.rows map.fields).length := by
  have hgroups := congrArg List.length h.groups_eq
  rwa [groups, List.length_map, List.length_map] at hgroups

theorem Packed.visited_eq (h : map.Packed) :
    map.visited = (Layout.ofFields map.fields).visited := by
  rw [visited, h.layout_eq]

theorem sum_countOf (map : RegisterMap) : (Access.all.map map.countOf).sum = map.registerCount :=
  Access.sum_countP Register.access map.registers

/-- Bounds of the registers of each kind by the groups of the kind add up. -/
theorem mul_registerCount_le_of_groupsOf {groups : List (List Replica)} {a b c : Nat}
    (hshareable : ∀ group ∈ groups, Shareable group)
    (h : ∀ access, a * map.countOf access ≤ b * (groupsOf access groups).length + c) :
    a * map.registerCount ≤ b * groups.length + 4 * c :=
  calc a * map.registerCount = (Access.all.map fun access => a * map.countOf access).sum := by
        rw [← sum_countOf, List.sum_map_mul_left]
    _ ≤ (Access.all.map fun access => b * (groupsOf access groups).length + c).sum :=
        List.sum_le_sum fun access _ => h access
    _ = b * (Access.all.map fun access => (groupsOf access groups).length).sum + 4 * c := by
        rw [List.sum_map_add, List.sum_map_mul_left, List.map_const', List.sum_replicate_nat]
        rfl
    _ ≤ b * groups.length + 4 * c := by
        have hle := Nat.mul_le_mul_left b (sum_length_groupsOf_le hshareable)
        omega

/-- Registers that are no more than the groups of each kind are no more than all groups. -/
theorem registerCount_le_of_groupsOf {groups : List (List Replica)}
    (hshareable : ∀ group ∈ groups, Shareable group)
    (h : ∀ access, map.countOf access ≤ (groupsOf access groups).length) :
    map.registerCount ≤ groups.length := by
  have hkinds (access : Access) :
      1 * map.countOf access ≤ 1 * (groupsOf access groups).length + 0 := by
    simpa using h access
  have hle := mul_registerCount_le_of_groupsOf hshareable hkinds
  omega

theorem Packed.cuts (h : map.Packed) : Cuts (Layout.sequence map.visited) map.groups := by
  rw [h.groups_eq, h.visited_eq]
  refine ⟨?_, ?_, ?_⟩
  · rw [← List.flatMap_def]
    exact Row.replicas_ofReplicas _
  · rw [List.forall_mem_map]
    exact fun row hrow => (Row.grown_of_mem_ofReplicas _ row hrow).replicas_ne_nil
  · rw [List.forall_mem_map]
    exact fun row hrow => Layout.shareable_of_mem_rows h.packable hrow

/-! ## Keeping the order -/

theorem Packed.fewestRuns (h : map.Packed) : map.FewestRuns where
  cuts := h.cuts
  length_le := by
    intro runs hruns
    refine registerCount_le_of_groupsOf hruns.shareable fun access => ?_
    have hwidths : Layout.widthsOf access map.fields =
        ((groupsOf access runs).map (List.map (·.width.toNat))).flatten := by
      rw [flatten_widths_groupsOf hruns.shareable, hruns.flatten_eq, h.visited_eq, Layout.widthsOf]
    have hunder : List.SublistForall₂ (· ≤ ·) (Layout.widthsOf access map.fields)
        ((groupsOf access runs).map (List.map (·.width.toNat))).flatten := by
      rw [hwidths]
      exact (List.Sublist.refl _).sublistForall₂
    have hle := Layout.length_rowsOf_le access (sum_widths_groupsOf hruns.shareable access) hunder
    rwa [List.length_map, ← h.countOf_eq] at hle

/-- Packing opens as few registers as the order of the replicas allows. -/
theorem fewestRuns_pack {palette : Palette} (h : (map.pack palette).2 = .ok ()) :
    (map.pack palette).1.FewestRuns :=
  (packed_pack h).fewestRuns

/-- Two kinds, of which one spills into a second register. -/
theorem fewestRuns_pack_spill :
    let map := (new ⟨"acme", "csr", "timer", none⟩ none).addFields
      [⟨"lane", 12, .readWrite, 3⟩, ⟨"mode", 8, .readWrite, 1⟩, ⟨"state", 8, .readOnly, 1⟩]
    (map.pack .plain).2 = .ok () ∧ (map.pack .plain).1.FewestRuns :=
  ⟨rfl, fewestRuns_pack rfl⟩

/-! ## Any order -/

theorem Packed.assigns (h : map.Packed) :
    Assigns (Layout.sequence (Declaration.ofFields map.fields)) map.groups where
  perm := by
    rw [h.cuts.flatten_eq, h.visited_eq]
    exact Layout.perm_sequence map.fields
  shareable := h.cuts.shareable

section

variable {groups : List (List Replica)} (access : Access) (h : map.Packed)
  (hgroups : Assigns (Layout.sequence (Declaration.ofFields map.fields)) groups)

include h hgroups

/-- The registers of a kind are a tight cut of its widths, which descend and are those of its
fields, and the groups of the kind distribute the same widths. -/
theorem Packed.exists_runs : ∃ runs others : List (List Nat),
    runs.length = map.countOf access ∧ others.length = (groupsOf access groups).length ∧
      TightRuns runs ∧ runs.flatten.Pairwise (· ≥ ·) ∧
      (∀ width ∈ runs.flatten,
        ∃ field ∈ map.fields, field.access = access ∧ field.width.toNat = width ∧ field.Valid) ∧
      runs.flatten.Perm others.flatten ∧ ∀ other ∈ others, other.sum ≤ registerWidth := by
  refine ⟨(Layout.rowsOf access map.fields).map Row.widths,
    (groupsOf access groups).map (List.map (·.width.toNat)), ?_, List.length_map _,
    Layout.tightRuns_rowsOf access map.fields, ?_, ?_, Layout.perm_widths_groupsOf hgroups access,
    sum_widths_groupsOf hgroups.shareable access⟩
  · rw [List.length_map, h.countOf_eq]
  · rw [Layout.flatten_rowsOf]
    exact Layout.pairwise_widthsOf access map.fields
  · intro width hwidth
    rw [Layout.flatten_rowsOf] at hwidth
    obtain ⟨field, hfield, haccess, heq⟩ := Layout.mem_widthsOf hwidth
    exact ⟨field, hfield, haccess, heq, h.packable.valid field hfield⟩

theorem Packed.countOf_lt_two_mul (hne : map.countOf access ≠ 0) :
    map.countOf access < 2 * (groupsOf access groups).length := by
  obtain ⟨runs, others, hruns, hothers, htight, -, hwidths, hperm, hsum⟩ :=
    h.exists_runs access hgroups
  rw [← hruns] at hne ⊢
  rw [← hothers]
  refine htight.length_lt_two_mul hperm (List.length_eq_zero_iff.not.1 hne) ?_ hsum
  intro width hwidth
  obtain ⟨field, -, -, rfl, hvalid⟩ := hwidths width hwidth
  exact hvalid.width_pos

theorem Packed.mul_countOf_le :
    160 * map.countOf access ≤ 261 * (groupsOf access groups).length + 385 := by
  obtain ⟨runs, others, hruns, hothers, htight, hsorted, hwidths, hperm, hsum⟩ :=
    h.exists_runs access hgroups
  rw [← hruns, ← hothers]
  refine htight.mul_length_le hperm hsorted ?_ hsum
  intro width hwidth
  obtain ⟨field, -, -, rfl, hvalid⟩ := hwidths width hwidth
  exact ⟨hvalid.width_pos, hvalid.width_le⟩

theorem Packed.countOf_le_of_regular (hregular : map.Regular access) :
    map.countOf access ≤ (groupsOf access groups).length := by
  obtain ⟨runs, others, hruns, hothers, htight, hsorted, hwidths, hperm, hsum⟩ :=
    h.exists_runs access hgroups
  rw [← hruns, ← hothers]
  rcases hregular with hdvd | ⟨number, hdiv⟩
  · refine htight.length_le_of_dvd hperm hsorted ?_ hsum
    intro width hwidth
    obtain ⟨field, hfield, haccess, rfl, -⟩ := hwidths width hwidth
    exact hdvd field hfield haccess
  · refine htight.length_le_of_div_eq hperm hsorted ?_ number ?_ hsum
    · intro width hwidth
      obtain ⟨field, -, -, rfl, hvalid⟩ := hwidths width hwidth
      exact ⟨hvalid.width_pos, hvalid.width_le⟩
    · intro width hwidth
      obtain ⟨field, hfield, haccess, rfl, -⟩ := hwidths width hwidth
      exact hdiv field hfield haccess

theorem Packed.countOf_le (hcase : map.countOf access ≤ 2 ∨ map.Regular access) :
    map.countOf access ≤ (groupsOf access groups).length := by
  rcases hcase with htwo | hregular
  · by_cases hne : map.countOf access = 0
    · omega
    · have hlt := h.countOf_lt_two_mul access hgroups hne
      omega
  · exact h.countOf_le_of_regular access hgroups hregular

end

/-- What comes near for each kind comes near for all of them together. -/
theorem Packed.comesNear (h : map.Packed) {groups : List (List Replica)}
    (hgroups : Assigns (Layout.sequence (Declaration.ofFields map.fields)) groups) :
    map.ComesNear groups where
  countOf_lt := fun access => h.countOf_lt_two_mul access hgroups
  mul_countOf_le := fun access => h.mul_countOf_le access hgroups
  countOf_le := fun access => h.countOf_le access hgroups
  registerCount_lt := by
    intro hne
    have htotal := sum_countOf map
    have hgroups_le := sum_length_groupsOf_le hgroups.shareable
    simp only [Access.all, List.map_cons, List.map_nil, List.sum_cons, List.sum_nil]
      at htotal hgroups_le
    have hkinds (access : Access) : map.countOf access = 0 ∨
        map.countOf access < 2 * (groupsOf access groups).length :=
      or_iff_not_imp_left.2 (h.countOf_lt_two_mul access hgroups)
    have hro := hkinds .readOnly
    have hrw := hkinds .readWrite
    have hwo := hkinds .writeOnly
    have hw1c := hkinds .writeOneToClear
    omega
  mul_registerCount_le :=
    mul_registerCount_le_of_groupsOf hgroups.shareable fun access => h.mul_countOf_le access hgroups
  registerCount_le := fun hcase =>
    registerCount_le_of_groupsOf hgroups.shareable fun access =>
      h.countOf_le access hgroups (hcase access)

theorem Packed.nearlyMinimal (h : map.Packed) : map.NearlyMinimal where
  assigns := h.assigns
  comesNear := fun _ => h.comesNear

/-- Packing comes near the least number of registers, and reaches it for regular widths. -/
theorem nearlyMinimal_pack {palette : Palette} (h : (map.pack palette).2 = .ok ()) :
    (map.pack palette).1.NearlyMinimal :=
  (packed_pack h).nearlyMinimal

/-- Widths that divide a register beside some that do not. -/
theorem nearlyMinimal_pack_mixed :
    let map := (new ⟨"acme", "csr", "timer", none⟩ none).addFields
      [⟨"lane", 20, .readWrite, 2⟩, ⟨"gain", 12, .readWrite, 2⟩, ⟨"state", 8, .readOnly, 5⟩]
    (map.pack .plain).2 = .ok () ∧ (map.pack .plain).1.NearlyMinimal :=
  ⟨rfl, nearlyMinimal_pack rfl⟩

/-- Four widths that fill a register together.  160 replicas of each are cut into 261 rows, just
as many as the factor says. -/
example :
    (Row.ofReplicas (Layout.sequence [⟨0, ⟨"lane", 17, .readWrite, 160⟩⟩,
      ⟨1, ⟨"gain", 11, .readWrite, 160⟩⟩, ⟨2, ⟨"mode", 3, .readWrite, 160⟩⟩,
      ⟨3, ⟨"busy", 1, .readWrite, 160⟩⟩])).length = 261 := by
  decide +kernel

/-- Two registers are enough for two replicas of twenty and two of twelve bits, one of each in
either, but the order in which they are placed has both wide ones first, and takes three. -/
theorem not_minimal_pack :
    let map := (new ⟨"acme", "csr", "timer", none⟩ none).addFields
      [⟨"lane", 20, .readWrite, 2⟩, ⟨"gain", 12, .readWrite, 2⟩]
    (map.pack .plain).2 = .ok () ∧
      ∃ groups, Assigns (Layout.sequence (Declaration.ofFields map.fields)) groups ∧
        groups.length = 2 ∧ (map.pack .plain).1.registerCount = 3 := by
  intro map
  let lane : Declaration := ⟨0, ⟨"lane", 20, .readWrite, 2⟩⟩
  let gain : Declaration := ⟨1, ⟨"gain", 12, .readWrite, 2⟩⟩
  have hshareable (n : UInt32) : Shareable [⟨lane, n⟩, ⟨gain, n⟩] := by
    refine ⟨?_, Nat.le_refl 32⟩
    simp [Replica.access, Replica.field, lane, gain]
  have hvisited : (Layout.ofFields map.fields).visited = [lane, gain] :=
    Declaration.visitingOrder_eq (.refl _) (by simp [Declaration.Before, lane, gain])
  have hcount : (map.pack .plain).1.registerCount = 3 := by
    rw [(packed_pack rfl).registerCount_eq, fields_pack, Layout.rows, hvisited]
    rfl
  refine ⟨rfl, [[⟨lane, 0⟩, ⟨gain, 0⟩], [⟨lane, 1⟩, ⟨gain, 1⟩]], ⟨?_, ?_⟩, rfl, hcount⟩
  · exact .cons _ (.swap _ _ _)
  · simpa using ⟨hshareable 0, hshareable 1⟩

end RegisterMap

end RegMap
