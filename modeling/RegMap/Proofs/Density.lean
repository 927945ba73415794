import Mathlib.Algebra.Order.Floor.Div
import RegMap.Proofs.Addressing
import RegMap.Proofs.Kinds

/-!
# How full the registers are

A register is left for the next one of its kind because a replica did not fit, and the replicas of
a kind come widest first.  So that replica is no wider than any that the register holds, and there
is less room left than one of them takes.

* `mul_length_lt` is this for a single run of widths, and `TightRuns.pairwise_dense` for all runs
  of a descending cut: each of them is dense if any run comes after it.
* `Layout.pairwise_dense_rows` gives it back to the rows of all kinds together, of which a row of
  the same kind has to come after.
* `Layout.sum_widthsOf` adds up the widths of a kind by the declared fields, and bounds the
  registers of the kind.
-/

namespace RegMap

/-! ## Runs of widths -/

/-- Widths that leave too little room for one that is no wider take up more than their part of a
register, which is `m` of `m + 1` for `m` widths. -/
theorem mul_length_lt {run : List Nat} {width : Nat} (hne : run ≠ []) (hle : ∀ w ∈ run, width ≤ w)
    (hover : registerWidth < run.sum + width) :
    registerWidth * run.length < run.sum * (run.length + 1) := by
  have hsum : run.length * width ≤ run.sum := by
    simpa using List.card_nsmul_le_sum run width hle
  calc registerWidth * run.length
      < (run.sum + width) * run.length :=
        Nat.mul_lt_mul_of_pos_right hover (List.length_pos_of_ne_nil hne)
    _ = run.sum * run.length + run.length * width := by rw [Nat.add_mul, Nat.mul_comm width]
    _ ≤ run.sum * (run.length + 1) := by
        rw [Nat.mul_succ]
        omega

/-- In a descending cut, every run that another one comes after is dense. -/
theorem TightRuns.pairwise_dense {runs : List (List Nat)} (h : TightRuns runs)
    (hsorted : runs.flatten.Pairwise (· ≥ ·)) :
    runs.Pairwise fun run _ => registerWidth * run.length < run.sum * (run.length + 1) := by
  induction h with
  | nil => exact .nil
  | single hne => exact List.pairwise_singleton _ _
  | @cons run next width runs hne hover hruns ih =>
    rw [List.flatten_cons, List.pairwise_append] at hsorted
    obtain ⟨-, hrest, hcross⟩ := hsorted
    have hle : ∀ w ∈ run, width ≤ w := fun w hw => hcross w hw width (by simp)
    refine .cons (fun _ _ => ?_) (ih hrest)
    exact mul_length_lt hne hle hover

/-! ## Rows and widths of a kind -/

/-- The replicas of a field are of one kind. -/
theorem Declaration.filter_replicas (declaration : Declaration) (access : Access) :
    declaration.replicas.filter (·.access = access) =
      if declaration.field.access = access then declaration.replicas else [] := by
  have haccess : ∀ replica ∈ declaration.replicas, replica.access = declaration.field.access := by
    intro replica hreplica
    rw [Replica.access, field_of_mem_replicas hreplica]
  split
  · rename_i heq
    rw [List.filter_eq_self]
    intro replica hreplica
    rw [haccess replica hreplica]
    exact decide_eq_true heq
  · rename_i hne
    rw [List.filter_eq_nil_iff]
    intro replica hreplica
    rw [haccess replica hreplica]
    simpa using hne

namespace Layout

/-- A row is dense if another row of its kind comes after it. -/
theorem pairwise_dense_rows (fields : List Field) :
    (rows fields).Pairwise fun row later => later.access = row.access →
      registerWidth * row.replicas.length < row.bits * (row.replicas.length + 1) := by
  have hkind (access : Access) : (rows fields).Pairwise fun row later =>
      row.access = access → later.access = access →
        registerWidth * row.replicas.length < row.bits * (row.replicas.length + 1) := by
    have hdense := (tightRuns_rowsOf access fields).pairwise_dense (by
      rw [flatten_rowsOf]
      exact pairwise_widthsOf access fields)
    rw [List.pairwise_map, rowsOf, List.pairwise_filter] at hdense
    simpa [Row.widths, Row.bits] using hdense
  rw [List.pairwise_iff_forall_sublist]
  intro row later hsub haccess
  exact List.pairwise_iff_forall_sublist.1 (hkind row.access) hsub rfl haccess

/-- The widths of a kind are those of all replicas that its fields have. -/
theorem sum_widthsOf (access : Access) (fields : List Field) :
    (widthsOf access fields).sum = ((fields.filter (·.access = access)).map Field.bits).sum := by
  have hfield (declaration : Declaration) :
      ((declaration.replicas.filter (·.access = access)).map (·.width.toNat)).sum =
        if declaration.field.access = access then declaration.field.bits else 0 := by
    rw [declaration.filter_replicas]
    split
    · exact declaration.sum_width_replicas
    · rfl
  calc (widthsOf access fields).sum
      = (((sequence (Declaration.ofFields fields)).filter (·.access = access)).map
          (·.width.toNat)).sum :=
        (((perm_sequence fields).filter _).map _).sum_eq
    _ = ((Declaration.ofFields fields).map fun declaration =>
          if declaration.field.access = access then declaration.field.bits else 0).sum := by
        rw [sequence, List.filter_flatMap, List.map_flatMap, List.flatMap_def, List.sum_flatten,
          List.map_map]
        exact congrArg List.sum (List.map_congr_left fun declaration _ => hfield declaration)
    _ = (fields.map fun field => if field.access = access then field.bits else 0).sum := by
        rw [← Declaration.field_ofFields fields, List.map_map, Declaration.field_ofFields]
        rfl
    _ = ((fields.filter (·.access = access)).map Field.bits).sum := by
        rw [List.sum_map_ite]
        simp

end Layout

/-! ## Registers -/

/-- With `m` occupants, more than `m` of `m + 1` parts of the register are occupied, and so more
than half of it. -/
structure Register.Dense (register : Register) : Prop where
  mul_lt : registerWidth * register.occupants.length <
    register.bits * (register.occupants.length + 1)
  half_lt : registerWidth / 2 < register.bits

/-- The register of a row is dense if the row is. -/
theorem Row.Grown.dense {row : Row} (h : row.Grown)
    (hdense : registerWidth * row.replicas.length < row.bits * (row.replicas.length + 1))
    (index : Nat) : (row.toRegister index).Dense := by
  have hlength : (row.toRegister index).occupants.length = row.replicas.length := by
    rw [← row.replica_occupants, List.length_map]
    rfl
  refine ⟨?_, ?_⟩
  · rw [hlength, h.bits_eq]
    exact hdense
  · rw [h.bits_eq]
    have hpos : 0 < row.replicas.length := List.length_pos_of_ne_nil h.replicas_ne_nil
    unfold registerWidth at hdense ⊢
    by_contra hle
    have hmul : row.bits * (row.replicas.length + 1) ≤ 16 * (row.replicas.length + 1) :=
      Nat.mul_le_mul_right _ (by omega)
    omega

namespace RegisterMap

/-- How many bits the replicas of a kind have together. -/
def bitsOf (map : RegisterMap) (access : Access) : Nat :=
  ((map.fields.filter (·.access = access)).map Field.bits).sum

/-- Every register that another one of its kind comes after is dense, and a kind has less than
twice as many registers as its bits would fill. -/
structure SparseOnlyLast (map : RegisterMap) : Prop where
  dense : ∀ index register, map.registers[index]? = some register →
    (∃ later ∈ map.registers.drop (index + 1), later.access = register.access) → register.Dense
  countOf_lt : ∀ access, 1 ≤ map.bitsOf access →
    map.countOf access < 2 * (map.bitsOf access ⌈/⌉ registerWidth)

theorem Packed.dense_of_later {map : RegisterMap} (h : map.Packed) {index : Nat}
    {register later : Register} (hregister : map.registers[index]? = some register)
    (hlater : later ∈ map.registers.drop (index + 1)) (haccess : later.access = register.access) :
    register.Dense := by
  obtain ⟨k, hk⟩ := List.mem_iff_getElem?.1 hlater
  rw [List.getElem?_drop] at hk
  rw [h.registers_eq] at hregister hk
  obtain ⟨row, hrow, hgrown, rfl⟩ := Layout.getElem?_registers map.fields hregister
  obtain ⟨next, hnext, -, rfl⟩ := Layout.getElem?_registers map.fields hk
  obtain ⟨hindex, rfl⟩ := List.getElem?_eq_some_iff.1 hrow
  obtain ⟨hindex', rfl⟩ := List.getElem?_eq_some_iff.1 hnext
  have hpair := List.pairwise_iff_getElem.1 (Layout.pairwise_dense_rows map.fields) index
    (index + 1 + k) hindex hindex' (by omega)
  exact hgrown.dense (hpair haccess) index

theorem Packed.countOf_lt {map : RegisterMap} (h : map.Packed) {access : Access}
    (hpos : 1 ≤ map.bitsOf access) :
    map.countOf access < 2 * (map.bitsOf access ⌈/⌉ registerWidth) := by
  let runs := (Layout.rowsOf access map.fields).map Row.widths
  have hcount : map.countOf access = runs.length := by
    rw [h.countOf_eq, List.length_map]
  have hflatten : runs.flatten = Layout.widthsOf access map.fields :=
    Layout.flatten_rowsOf access map.fields
  have hsum : runs.flatten.sum = map.bitsOf access := by
    rw [hflatten, Layout.sum_widthsOf, bitsOf]
  have hne : runs ≠ [] := by
    intro hnil
    rw [hnil] at hsum
    simp at hsum
    omega
  have hwidths : ∀ width ∈ runs.flatten, 0 < width := by
    intro width hwidth
    rw [hflatten] at hwidth
    obtain ⟨field, hfield, -, rfl⟩ := Layout.mem_widthsOf hwidth
    exact (h.packable.valid field hfield).width_pos
  have hhalf : registerWidth * (runs.length / 2) < runs.flatten.sum :=
    (Layout.tightRuns_rowsOf access map.fields).half_length_lt hne hwidths
  rw [hcount, Nat.ceilDiv_eq_add_pred_div]
  rw [hsum] at hhalf
  unfold registerWidth at hhalf ⊢
  omega

/-- Packing leaves room only in the last register of each kind. -/
theorem sparseOnlyLast_pack {palette : Palette} {map : RegisterMap}
    (h : (map.pack palette).2 = .ok ()) : (map.pack palette).1.SparseOnlyLast where
  dense := fun _ _ hregister hlater => by
    obtain ⟨later, hlater, haccess⟩ := hlater
    exact (packed_pack h).dense_of_later hregister hlater haccess
  countOf_lt := fun _ => (packed_pack h).countOf_lt

/-- Five replicas of eleven bits leave ten bits of two registers and most of a third one. -/
theorem sparseOnlyLast_pack_lanes :
    let map := (new ⟨"acme", "csr", "timer", none⟩ none).addFields
      [⟨"lane", 11, .readWrite, 5⟩, ⟨"state", 2, .readOnly, 1⟩]
    (map.pack .plain).2 = .ok () ∧ (map.pack .plain).1.SparseOnlyLast :=
  ⟨rfl, sparseOnlyLast_pack rfl⟩

end RegisterMap

end RegMap
