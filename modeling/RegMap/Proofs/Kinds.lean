import RegMap.Proofs.Cuts
import RegMap.Proofs.Legality
import RegMap.Proofs.NextFit

/-!
# The registers of one access kind

No register is shared by two access kinds, and the kinds are placed one after the other.  So the
registers of a kind are those that its replicas would get by themselves, and their number is
that of a tight cut of the widths of the kind.

* `Row.filter_ofReplicas`: the kinds are cut independently of each other.
* `Layout.tightRuns_rowsOf`, `Layout.flatten_rowsOf` and `Layout.pairwise_widthsOf`: the rows of
  a kind are a tight cut of its widths, which descend.
* `Layout.countP_widthsOf` counts the widths of a kind by the declared fields.
* `Access.length_le_of_countP` adds up what is known of each kind.
-/

namespace RegMap

/-! ## Adding up the kinds -/

namespace Access

theorem sum_countP {α : Type} (kind : α → Access) (xs : List α) :
    (all.map fun access => xs.countP (kind · = access)).sum = xs.length := by
  induction xs with
  | nil => rfl
  | cons x xs ih =>
    simp only [all, List.map_cons, List.map_nil, List.sum_cons, List.sum_nil, List.countP_cons,
      List.length_cons] at ih ⊢
    cases kind x <;> simp <;> omega

theorem length_le_of_countP {α β : Type} (kind : α → Access) (kind' : β → Access) {xs : List α}
    {ys : List β} (h : ∀ access, xs.countP (kind · = access) ≤ ys.countP (kind' · = access)) :
    xs.length ≤ ys.length := by
  rw [← sum_countP kind xs, ← sum_countP kind' ys]
  exact List.sum_le_sum fun access _ => h access

end Access

/-! ## Rows of one kind -/

namespace Row

/-- The widths of the replicas in a row. -/
def widths (row : Row) : List Nat :=
  row.replicas.map (·.width.toNat)

theorem filter_eq_nil_of_lt {access : Access} {replicas : List Replica}
    (h : ∀ replica ∈ replicas, access.keyword < replica.access.keyword) :
    replicas.filter (·.access = access) = [] := by
  rw [List.filter_eq_nil_iff]
  intro replica hreplica heq
  rw [decide_eq_true_eq] at heq
  exact lt_irrefl _ (heq ▸ h replica hreplica)

/-- Of the rows that an open row and the replicas after it make, those of a kind are the ones
that the replicas of the kind make, behind the open row if it is of the kind. -/
theorem filter_fill (access : Access) (row : Row) {replicas : List Replica}
    (hsorted : replicas.Pairwise (·.access.keyword ≤ ·.access.keyword))
    (hrow : ∀ replica ∈ replicas, row.access.keyword ≤ replica.access.keyword) :
    (row.fill replicas).filter (·.access = access) =
      if row.access = access then row.fill (replicas.filter (·.access = access))
      else ofReplicas (replicas.filter (·.access = access)) := by
  fun_induction fill row replicas with
  | case1 row => by_cases h : row.access = access <;> simp [h, fill, ofReplicas]
  | case2 row replica rest hfits ih =>
    obtain ⟨hreplica, hrest⟩ := List.pairwise_cons.1 hsorted
    have haccess : row.access = replica.access := ((fits_iff row replica).1 hfits).1
    rw [ih hrest (fun other hother => haccess ▸ hreplica other hother)]
    by_cases h : row.access = access
    · simp [← haccess, h, fill, hfits]
    · simp [← haccess, h]
  | case3 row replica rest hfits ih =>
    obtain ⟨hreplica, hrest⟩ := List.pairwise_cons.1 hsorted
    have htail := ih hrest hreplica
    by_cases hopen : row.access = access <;> by_cases hnext : replica.access = access
    · simp [hopen, hnext, htail, fill, hfits]
    · -- the kind ends with the open row
      have hlt : access.keyword < replica.access.keyword := by
        refine lt_of_le_of_ne (hopen ▸ hrow replica List.mem_cons_self) fun heq => hnext ?_
        exact (Access.keyword_injective heq).symm
      have hnone : rest.filter (·.access = access) = [] :=
        filter_eq_nil_of_lt fun other hother => lt_of_lt_of_le hlt (hreplica other hother)
      rw [hnone] at htail
      simp [hopen, hnext, hnone, htail, fill, ofReplicas]
    · simp [hopen, hnext, htail, ofReplicas]
    · simp [hopen, hnext, htail]

theorem filter_ofReplicas (access : Access) {replicas : List Replica}
    (hsorted : replicas.Pairwise (·.access.keyword ≤ ·.access.keyword)) :
    (ofReplicas replicas).filter (·.access = access) =
      ofReplicas (replicas.filter (·.access = access)) := by
  cases replicas with
  | nil => rfl
  | cons replica rest =>
    obtain ⟨hreplica, hrest⟩ := List.pairwise_cons.1 hsorted
    rw [ofReplicas, filter_fill access (single replica) hrest hreplica]
    by_cases h : replica.access = access <;> simp [h, ofReplicas]

/-- Replicas of one kind are cut only where the next one would reach past the register. -/
theorem tightRuns_fill {row : Row} {replicas : List Replica} (hne : row.replicas ≠ [])
    (h : ∀ replica ∈ replicas, replica.access = row.access) :
    TightRuns ((row.fill replicas).map widths) := by
  fun_induction fill row replicas with
  | case1 row => exact .single (by simpa [widths] using hne)
  | case2 row replica rest hfits ih =>
    exact ih (by simp) fun other hother => h other (List.mem_cons_of_mem replica hother)
  | case3 row replica rest hfits ih =>
    obtain ⟨hreplica, hrest⟩ := List.forall_mem_cons.1 h
    have htail := ih (by simp [single]) fun other hother => (hrest other hother).trans hreplica.symm
    have hover : registerWidth < row.widths.sum + replica.width.toNat := by
      rw [fits_iff, not_and, Nat.not_le] at hfits
      exact hfits hreplica.symm
    obtain ⟨more, rows, hfill⟩ := fill_eq_cons (single replica) rest
    rw [hfill] at htail ⊢
    exact .cons (by simpa [widths] using hne) hover htail

theorem tightRuns_ofReplicas (access : Access) {replicas : List Replica}
    (h : ∀ replica ∈ replicas, replica.access = access) :
    TightRuns ((ofReplicas replicas).map widths) := by
  cases replicas with
  | nil => exact .nil
  | cons replica rest =>
    obtain ⟨hreplica, hrest⟩ := List.forall_mem_cons.1 h
    exact tightRuns_fill (by simp [single]) fun other hother =>
      (hrest other hother).trans hreplica.symm

end Row

/-! ## The widths of a kind -/

/-- How many replicas of a kind and of at least some width a field has. -/
def Field.replicasReaching (access : Access) (bound : Nat) (field : Field) : Nat :=
  if field.access = access ∧ bound ≤ field.width.toNat then field.count.toNat else 0

/-- A field's replicas are of one kind and of one width, and so count all or not at all. -/
theorem Declaration.countP_replicas (declaration : Declaration) (access : Access) (bound : Nat) :
    declaration.replicas.countP (fun replica =>
        bound ≤ replica.width.toNat && replica.access = access) =
      declaration.field.replicasReaching access bound := by
  by_cases h : declaration.field.access = access ∧ bound ≤ declaration.field.width.toNat
  · rw [Field.replicasReaching, if_pos h, ← declaration.length_replicas, List.countP_eq_length]
    intro replica hreplica
    simp [Replica.width, Replica.access, field_of_mem_replicas hreplica, h]
  · rw [Field.replicasReaching, if_neg h, List.countP_eq_zero]
    intro replica hreplica
    simp only [Replica.width, Replica.access, field_of_mem_replicas hreplica,
      Bool.and_eq_true, decide_eq_true_eq]
    exact fun hand => h hand.symm

namespace Layout

/-- The widths of the replicas of a kind, in the order in which they are placed. -/
def widthsOf (access : Access) (fields : List Field) : List Nat :=
  ((sequence (ofFields fields).visited).filter (·.access = access)).map (·.width.toNat)

/-- The rows of a kind. -/
def rowsOf (access : Access) (fields : List Field) : List Row :=
  (rows fields).filter (·.access = access)

section

variable (access : Access) (fields : List Field)

theorem rowsOf_eq : rowsOf access fields =
    Row.ofReplicas ((sequence (ofFields fields).visited).filter (·.access = access)) :=
  Row.filter_ofReplicas access (pairwise_keyword_sequence fields)

theorem tightRuns_rowsOf : TightRuns ((rowsOf access fields).map Row.widths) := by
  rw [rowsOf_eq]
  refine Row.tightRuns_ofReplicas access fun replica hreplica => ?_
  simpa using (List.mem_filter.1 hreplica).2

theorem flatten_rowsOf :
    ((rowsOf access fields).map Row.widths).flatten = widthsOf access fields := by
  have hmap : (rowsOf access fields).flatMap Row.widths =
      ((rowsOf access fields).flatMap (·.replicas)).map (·.width.toNat) := by
    rw [List.map_flatMap]
    rfl
  rw [← List.flatMap_def, hmap, rowsOf_eq, Row.replicas_ofReplicas, widthsOf]

/-- A kind has no more rows than there are runs that hold at least as much, width for width. -/
theorem length_rowsOf_le {fields : List Field} {others : List (List Nat)}
    (hle : ∀ other ∈ others, other.sum ≤ registerWidth)
    (hunder : List.SublistForall₂ (· ≤ ·) (widthsOf access fields) others.flatten) :
    (rowsOf access fields).length ≤ others.length := by
  rw [← flatten_rowsOf] at hunder
  have hlength := (tightRuns_rowsOf access fields).length_le_of_sublistForall₂ hle hunder
  rwa [List.length_map] at hlength

/-- There is a row of a kind for every register of the kind. -/
theorem length_rowsOf :
    (rowsOf access fields).length =
      (ofFields fields).registers.toList.countP (·.access = access) := by
  have hcount := congrArg (List.countP (· = access)) (Row.access_toRegisters (rows fields))
  rw [List.countP_map, List.countP_map] at hcount
  rw [rowsOf, ← List.countP_eq_length_filter, registers_ofFields]
  exact hcount.symm

/-- The widths of a kind descend. -/
theorem pairwise_widthsOf : (widthsOf access fields).Pairwise (· ≥ ·) := by
  have hfields : (sequence (ofFields fields).visited).Pairwise fun a b =>
      a.field.access = access → b.field.access = access → b.field.width ≤ a.field.width := by
    refine pairwise_sequence
      (R := fun a b => a.access = access → b.access = access → b.width ≤ a.width)
      (fun _ _ _ => UInt8.le_refl _) ?_
    refine (Declaration.pairwise_visitingOrder fields).imp fun {a b} hab ha hb => ?_
    rcases (Field.precedes_iff _ _).1 hab.precedes with hlt | ⟨-, hle⟩
    · exact absurd (ha ▸ hb ▸ hlt) (lt_irrefl _)
    · exact hle
  rw [widthsOf, List.pairwise_map, List.pairwise_filter]
  refine hfields.imp fun {a b} hab ha hb => ?_
  exact UInt8.le_iff_toNat_le.1 (hab (of_decide_eq_true ha) (of_decide_eq_true hb))

/-- A width of a kind is that of a declared field. -/
theorem mem_widthsOf {access : Access} {fields : List Field} {width : Nat}
    (h : width ∈ widthsOf access fields) :
    ∃ field ∈ fields, field.access = access ∧ field.width.toNat = width := by
  obtain ⟨replica, hreplica, rfl⟩ := List.mem_map.1 h
  obtain ⟨hsequence, haccess⟩ := List.mem_filter.1 hreplica
  have hdeclared := Declaration.mem_ofFields.1 (mem_visited.1 (mem_sequence.1 hsequence).1)
  exact ⟨replica.field, List.mem_of_getElem? hdeclared, of_decide_eq_true haccess, rfl⟩

/-- How many widths of a kind reach a bound. -/
theorem countP_widthsOf (bound : Nat) :
    (widthsOf access fields).countP (bound ≤ ·) =
      (fields.map (Field.replicasReaching access bound)).sum := by
  rw [widthsOf, List.countP_map, List.countP_filter, (perm_sequence fields).countP_eq, sequence,
    List.countP_flatMap, ← Declaration.field_ofFields fields, List.map_map,
    Declaration.field_ofFields]
  exact congrArg List.sum (List.map_congr_left fun declaration _ =>
    declaration.countP_replicas access bound)

/-- The widths in a row of a kind fit a register. -/
theorem sum_le_of_mem_rowsOf {fields : List Field} (h : Packable fields) :
    ∀ widths ∈ (rowsOf access fields).map Row.widths, widths.sum ≤ registerWidth := by
  rw [List.forall_mem_map]
  exact fun row hrow => bits_le_of_mem_rows h (List.mem_of_mem_filter hrow)

end

end Layout

namespace RegisterMap

/-- How many registers of a kind a map has. -/
def countOf (map : RegisterMap) (access : Access) : Nat :=
  map.registers.countP (·.access = access)

theorem Packed.countOf_eq {map : RegisterMap} (h : map.Packed) (access : Access) :
    map.countOf access = (Layout.rowsOf access map.fields).length := by
  rw [countOf, h.registers_eq, Layout.length_rowsOf]

end RegisterMap

end RegMap
