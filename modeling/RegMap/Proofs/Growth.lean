import RegMap.Proofs.Minimality
import RegMap.Proofs.Shrinking

/-!
# One more field

A field that is declared last is visited behind all that precede it and before all others.  The
replicas in front of it are placed as before, because placing goes by prefixes; those of later
kinds are placed as before in registers of their own, which only come later.

* `Row.occupancy_append` and `Row.ofReplicas_append` say this of a sequence of replicas in two
  parts: the first part keeps its places, and a second part of other kinds has those that it
  would have by itself, behind the rows of the first.
* `Declaration.visitingOrder_append` finds the parts of the visiting order.
* `RegisterMap.extends_pack` puts both together for the slots of the fields.
-/

namespace RegMap

/-! ## Sequences in two parts -/

/-- The same bits so many registers later. -/
def Slot.raise (slot : Slot) (registers : Nat) : Slot :=
  { slot with register := slot.register + registers }

/-- The rows of a sequence of replicas, occupant by occupant. -/
def Row.entries (replicas : List Replica) : List (Nat × Occupant) :=
  occupancy (toRegisters (ofReplicas replicas))

namespace Row

theorem replica_entries (replicas : List Replica) :
    (entries replicas).map (·.2.replica) = replicas := by
  rw [entries, replicas_occupancy_toRegisters, replicas_ofReplicas]

/-- Rows behind others are laid out as by themselves, but in later registers. -/
theorem occupancy_append (left right : List Row) :
    occupancy (toRegisters (left ++ right)) =
      occupancy (toRegisters left) ++
        (occupancy (toRegisters right)).map fun entry => (entry.1 + left.length, entry.2) := by
  induction right using List.reverseRecOn with
  | nil => simp [toRegisters]
  | append_singleton right row ih =>
    rw [← List.append_assoc, toRegisters_append_singleton, occupancy_append_singleton, ih,
      toRegisters_append_singleton, occupancy_append_singleton, List.map_append, List.append_assoc]
    simp [toRegister, Nat.add_comm]

/-- Of replicas that come after others, some join the last of the rows that these have. -/
theorem fill_append (row : Row) (left right : List Replica) :
    ∃ closed last, row.fill left = closed ++ [last] ∧
      row.fill (left ++ right) = closed ++ last.fill right := by
  fun_induction fill row left with
  | case1 row => exact ⟨[], row, rfl, rfl⟩
  | case2 row replica rest hfits ih =>
    obtain ⟨closed, last, hleft, hall⟩ := ih
    exact ⟨closed, last, hleft, by simpa [fill, hfits] using hall⟩
  | case3 row replica rest hfits ih =>
    obtain ⟨closed, last, hleft, hall⟩ := ih
    exact ⟨row :: closed, last, by rw [hleft]; rfl, by simpa [fill, hfits] using hall⟩

/-- What comes after some replicas does not move them. -/
theorem entries_prefix (left right : List Replica) : entries left <+: entries (left ++ right) := by
  cases left with
  | nil => exact List.nil_prefix
  | cons replica rest =>
    obtain ⟨closed, last, hleft, hall⟩ := fill_append (single replica) rest right
    obtain ⟨more, rows, hfill⟩ := fill_eq_cons last right
    let row : Row := ⟨last.access, last.replicas ++ more⟩
    -- the open row keeps its occupants when it grows
    have hrow : occupancy (toRegisters [last]) <+: occupancy (toRegisters [row]) := by
      simp [row, toRegisters, occupancy, toRegister, occupants, occupantsFrom_append]
    have hlast : occupancy (toRegisters [last]) <+: occupancy (toRegisters ([row] ++ rows)) := by
      rw [occupancy_append]
      exact hrow.trans (List.prefix_append _ _)
    rw [List.cons_append, entries, entries, ofReplicas, ofReplicas, hleft, hall, hfill,
      occupancy_append, occupancy_append]
    exact (List.prefix_append_right_inj _).2 (hlast.map _)

theorem ofReplicas_append {left right : List Replica}
    (h : ∀ a ∈ left, ∀ b ∈ right, a.access ≠ b.access) :
    ofReplicas (left ++ right) = ofReplicas left ++ ofReplicas right := by
  cases left with
  | nil => rfl
  | cons replica rest =>
    cases right with
    | nil => simp [ofReplicas]
    | cons next more =>
      obtain ⟨closed, last, hleft, hall⟩ := fill_append (single replica) rest (next :: more)
      have hlast : last ∈ ofReplicas (replica :: rest) := by
        rw [ofReplicas, hleft]
        simp
      have hfits : ¬last.fits next := by
        intro hfits
        have hgrown := grown_of_mem_ofReplicas _ last hlast
        obtain ⟨a, ha⟩ := List.exists_mem_of_ne_nil _ hgrown.replicas_ne_nil
        have hmem : a ∈ replica :: rest := by
          rw [← replicas_ofReplicas (replica :: rest)]
          exact List.mem_flatMap.2 ⟨last, hlast, ha⟩
        apply h a hmem next List.mem_cons_self
        rw [hgrown.access_eq a ha]
        exact ((fits_iff last next).1 hfits).1
      rw [List.cons_append, ofReplicas, ofReplicas, ofReplicas, hall, hleft, fill, if_neg hfits]
      simp

/-! ### The slots of a field -/

/-- The slots of the field that was declared at an index, if the replicas are placed like this. -/
def slots (index : Nat) (replicas : List Replica) : List Slot :=
  (entriesOf index (entries replicas)).map entrySlot

theorem entriesOf_eq_nil {index : Nat} {placed : List (Nat × Occupant)}
    (h : ∀ replica ∈ placed.map (·.2.replica), replica.declaration.index ≠ index) :
    entriesOf index placed = [] := by
  rw [List.forall_mem_map] at h
  rw [entriesOf, List.filter_eq_nil_iff]
  intro entry hentry
  simpa using h entry hentry

/-- What comes after a field does not move it. -/
theorem slots_append_left {index : Nat} {left right : List Replica}
    (h : ∀ replica ∈ right, replica.declaration.index ≠ index) :
    slots index (left ++ right) = slots index left := by
  obtain ⟨more, hmore⟩ := entries_prefix left right
  have hreplicas : more.map (·.2.replica) = right := by
    have hall := replica_entries (left ++ right)
    rw [← hmore, List.map_append, replica_entries] at hall
    exact List.append_cancel_left hall
  have hnone : entriesOf index more = [] := by
    apply entriesOf_eq_nil
    rwa [hreplicas]
  rw [entriesOf] at hnone
  rw [slots, slots, ← hmore, entriesOf, List.filter_append, hnone, List.append_nil]
  rfl

/-- What comes before a field in other kinds moves it by whole registers. -/
theorem slots_append_right {index : Nat} {left right : List Replica}
    (hkinds : ∀ a ∈ left, ∀ b ∈ right, a.access ≠ b.access)
    (h : ∀ replica ∈ left, replica.declaration.index ≠ index) :
    slots index (left ++ right) =
      (slots index right).map (·.raise (ofReplicas left).length) := by
  have hnone : entriesOf index (entries left) = [] := by
    apply entriesOf_eq_nil
    rwa [replica_entries]
  rw [entriesOf] at hnone
  rw [slots, slots, entries, ofReplicas_append hkinds, occupancy_append, entriesOf,
    List.filter_append, ← entries, hnone, List.nil_append, List.filter_map, List.map_map,
    List.map_map]
  rfl

end Row

/-! ## The visiting order -/

/-- A sorted list is cut where a property ends that goes down. -/
theorem exists_append_of_pairwise {α : Type} {R : α → α → Prop} {P : α → Prop} {xs : List α}
    (h : xs.Pairwise R) (hdown : ∀ a b, R a b → P b → P a) :
    ∃ front back, xs = front ++ back ∧ (∀ x ∈ front, P x) ∧ ∀ x ∈ back, ¬P x := by
  induction xs with
  | nil => exact ⟨[], [], rfl, by simp, by simp⟩
  | cons x xs ih =>
    obtain ⟨hx, hxs⟩ := List.pairwise_cons.1 h
    by_cases hP : P x
    · obtain ⟨front, back, rfl, hfront, hback⟩ := ih hxs
      exact ⟨x :: front, back, rfl, List.forall_mem_cons.2 ⟨hP, hfront⟩, hback⟩
    · refine ⟨[], x :: xs, rfl, by simp, List.forall_mem_cons.2 ⟨hP, ?_⟩⟩
      exact fun y hy hPy => hP (hdown x y (hx y hy) hPy)

namespace Declaration

/-- A field that is declared last is visited behind all that precede it, and before the others
of its kind and those of later kinds. -/
theorem visitingOrder_append (fields : List Field) (field : Field) :
    ∃ front near later,
      visitingOrder (ofFields fields) = front ++ near ++ later ∧
      visitingOrder (ofFields (fields ++ [field])) =
        front ++ ⟨fields.length, field⟩ :: near ++ later ∧
      (∀ d ∈ front, d.field.precedes field) ∧
      (∀ d ∈ near, d.field.access = field.access ∧ d.field.width < field.width) ∧
      ∀ d ∈ later, field.access.keyword < d.field.access.keyword := by
  have hsorted := pairwise_visitingOrder fields
  obtain ⟨front, back, horder, hfront, hback⟩ :=
    exists_append_of_pairwise (P := fun d => d.field.precedes field) hsorted
      fun _ _ hab hb => Field.precedes_trans _ _ _ hab.precedes hb
  rw [horder, List.pairwise_append] at hsorted
  obtain ⟨hfrontSorted, hbackSorted, hcross⟩ := hsorted
  have hdown : ∀ a b : Declaration, a.Before b →
      b.field.access.keyword ≤ field.access.keyword →
        a.field.access.keyword ≤ field.access.keyword :=
    fun a b hab hb => le_trans hab.keyword_le hb
  obtain ⟨near, later, rfl, hnear, hlater⟩ :=
    exists_append_of_pairwise (P := fun d => d.field.access.keyword ≤ field.access.keyword)
      hbackSorted hdown
  have hindex : ∀ d ∈ front, d.index < fields.length := by
    intro d hd
    have hmem : d ∈ visitingOrder (ofFields fields) := by
      rw [horder]
      exact List.mem_append_left _ hd
    rw [(perm_visitingOrder fields).mem_iff, mem_ofFields] at hmem
    exact (List.getElem?_eq_some_iff.1 hmem).1
  refine ⟨front, near, later, ?_, ?_, hfront, ?_, fun d hd => not_le.1 (hlater d hd)⟩
  · rw [horder, List.append_assoc]
  · rw [List.append_assoc, List.cons_append]
    apply visitingOrder_eq
    · have hperm := perm_visitingOrder fields
      rw [horder] at hperm
      rw [ofFields_append]
      exact List.perm_middle.trans
        ((List.perm_append_singleton _ _).symm.trans (hperm.append_right _))
    · refine List.pairwise_append.2 ⟨hfrontSorted, .cons ?_ hbackSorted, ?_⟩
      · exact fun d hd => before_of_not_precedes (hback d hd)
      · intro a ha b hb
        rcases List.mem_cons.1 hb with rfl | hb
        · exact before_of_precedes (hfront a ha) (hindex a ha)
        · exact hcross a ha b hb
  · intro d hd
    have hle := hnear d hd
    have hnot := hback d (List.mem_append_left _ hd)
    rw [Field.precedes_iff, not_or, not_lt, not_and, UInt8.not_le] at hnot
    have haccess := Access.keyword_injective (le_antisymm hle hnot.1)
    exact ⟨haccess, hnot.2 haccess⟩

end Declaration

/-! ## Layouts -/

/-- Another valid field with a name of its own can be laid out as well. -/
theorem Packable.append_singleton {fields : List Field} {field : Field} (h : Packable fields)
    (hvalid : field.Valid) (hfresh : field.ident ∉ fields.map (·.ident)) :
    Packable (fields ++ [field]) where
  nodup := by
    rw [List.map_append, List.map_singleton]
    exact h.nodup.append (List.nodup_singleton _) (List.disjoint_singleton.2 hfresh)
  valid := List.forall_mem_append.2 ⟨h.valid, List.forall_mem_singleton.2 hvalid⟩

namespace Layout

theorem sequence_append (front back : List Declaration) :
    sequence (front ++ back) = sequence front ++ sequence back :=
  List.flatMap_append

variable {fields : List Field} {field : Field}

section

variable {front back : List Declaration} (hvisited : (ofFields fields).visited = front ++ back)

include hvisited

theorem slotsOf_eq {declaration : Declaration} (h : declaration ∈ front ++ back) :
    (ofFields fields).slotsOf declaration.index =
      Row.slots declaration.index (sequence front ++ sequence back) := by
  rw [← hvisited, mem_visited, Declaration.mem_ofFields] at h
  have hindex := (List.getElem?_eq_some_iff.1 h).1
  rw [slotsOf_ofFields hindex, registers_ofFields, rows, hvisited, sequence_append]
  rfl

/-- No two declarations have one index, as far as the two parts are concerned. -/
theorem index_ne {a b : Declaration} (ha : a ∈ front) (hb : b ∈ back) : a.index ≠ b.index := by
  have hindex := pairwise_index_visited fields
  rw [hvisited, List.pairwise_append] at hindex
  exact hindex.2.2 a ha b hb

/-- The fields that are visited first have their slots whatever comes after them. -/
theorem slotsOf_front {declaration : Declaration} (h : declaration ∈ front) :
    (ofFields fields).slotsOf declaration.index =
      Row.slots declaration.index (sequence front) := by
  rw [slotsOf_eq hvisited (List.mem_append_left _ h)]
  apply Row.slots_append_left
  intro replica hreplica
  exact (index_ne hvisited h (mem_sequence.1 hreplica).1).symm

variable (hkinds : ∀ a ∈ front, ∀ b ∈ back, a.field.access ≠ b.field.access)

include hkinds

theorem rows_eq :
    rows fields = Row.ofReplicas (sequence front) ++ Row.ofReplicas (sequence back) := by
  rw [rows, hvisited, sequence_append]
  apply Row.ofReplicas_append
  intro a ha b hb
  exact hkinds _ (mem_sequence.1 ha).1 _ (mem_sequence.1 hb).1

/-- Fields of later kinds have their slots behind the rows of those before them. -/
theorem slotsOf_back {declaration : Declaration} (h : declaration ∈ back) :
    (ofFields fields).slotsOf declaration.index =
      (Row.slots declaration.index (sequence back)).map
        (·.raise (Row.ofReplicas (sequence front)).length) := by
  rw [slotsOf_eq hvisited (List.mem_append_right _ h)]
  apply Row.slots_append_right
  · intro a ha b hb
    exact hkinds _ (mem_sequence.1 ha).1 _ (mem_sequence.1 hb).1
  · intro replica hreplica
    exact index_ne hvisited (mem_sequence.1 hreplica).1 h

end

/-- What precedes the last field is not moved by it. -/
theorem slotsOf_append_of_precedes {declaration : Declaration}
    (h : declaration ∈ Declaration.ofFields fields)
    (hprecedes : declaration.field.precedes field) :
    (ofFields (fields ++ [field])).slotsOf declaration.index =
      (ofFields fields).slotsOf declaration.index := by
  obtain ⟨front, near, later, hold, hnew, -, hnear, hlater⟩ :=
    Declaration.visitingOrder_append fields field
  have hfront : declaration ∈ front := by
    have hmem : declaration ∈ front ++ near ++ later := hold ▸ mem_visited.2 h
    rw [Field.precedes_iff] at hprecedes
    rw [List.mem_append, List.mem_append] at hmem
    rcases hmem with (hmem | hmem) | hmem
    · exact hmem
    · obtain ⟨haccess, hwidth⟩ := hnear _ hmem
      rcases hprecedes with hlt | ⟨-, hle⟩
      · exact absurd (haccess ▸ hlt) (lt_irrefl _)
      · exact absurd hle (UInt8.not_le.2 hwidth)
    · have hlt := hlater _ hmem
      rcases hprecedes with hlt' | ⟨haccess, -⟩
      · exact absurd hlt' (lt_asymm hlt)
      · exact absurd (haccess ▸ hlt) (lt_irrefl _)
  rw [List.append_assoc] at hold hnew
  rw [slotsOf_front hold hfront, slotsOf_front hnew hfront]

/-- The rows of more fields are no fewer. -/
theorem length_rows_mono {smaller : List Field} (hpackable : Packable fields)
    (h : ∀ access bound, (smaller.map (Field.replicasReaching access bound)).sum ≤
      (fields.map (Field.replicasReaching access bound)).sum) :
    (rows smaller).length ≤ (rows fields).length := by
  apply Access.length_le_of_countP Row.access Row.access
  intro access
  rw [List.countP_eq_length_filter, List.countP_eq_length_filter]
  exact length_rowsOf_mono hpackable (h access)

/-- The last field moves what is of later kinds by as many registers as there are more. -/
theorem exists_growth (hpackable : Packable (fields ++ [field])) :
    ∃ growth, (rows (fields ++ [field])).length = (rows fields).length + growth ∧
      ∀ declaration ∈ Declaration.ofFields fields,
        field.access.keyword < declaration.field.access.keyword →
          (ofFields (fields ++ [field])).slotsOf declaration.index =
            ((ofFields fields).slotsOf declaration.index).map (·.raise growth) := by
  obtain ⟨front, near, later, hold, hnew, hfront, hnear, hlater⟩ :=
    Declaration.visitingOrder_append fields field
  have hkeyword : ∀ d ∈ front ++ ⟨fields.length, field⟩ :: near,
      d.field.access.keyword ≤ field.access.keyword := by
    intro d hd
    rcases List.mem_append.1 hd with hd | hd
    · exact Field.keyword_le_of_precedes (hfront d hd)
    · rcases List.mem_cons.1 hd with rfl | hd
      · exact le_rfl
      · rw [(hnear d hd).1]
  have hkinds' : ∀ a ∈ front ++ ⟨fields.length, field⟩ :: near, ∀ b ∈ later,
      a.field.access ≠ b.field.access := by
    intro a ha b hb haccess
    exact absurd (hkeyword a ha) (not_le.2 (haccess ▸ hlater b hb))
  have hsub : front ++ near ⊆ front ++ ⟨fields.length, field⟩ :: near :=
    ((List.sublist_cons_self _ near).append_left front).subset
  have hkinds : ∀ a ∈ front ++ near, ∀ b ∈ later, a.field.access ≠ b.field.access :=
    fun a ha => hkinds' a (hsub ha)
  have hrows := congrArg List.length (rows_eq hold hkinds)
  have hrows' := congrArg List.length (rows_eq hnew hkinds')
  have hle : (rows fields).length ≤ (rows (fields ++ [field])).length := by
    apply length_rows_mono hpackable
    intro access bound
    rw [List.map_append, List.sum_append]
    exact Nat.le_add_right _ _
  rw [List.length_append] at hrows hrows'
  refine ⟨(rows (fields ++ [field])).length - (rows fields).length, by omega, ?_⟩
  intro declaration hdeclaration hlt
  have hmem : declaration ∈ later := by
    have hmem : declaration ∈ front ++ near ++ later := hold ▸ mem_visited.2 hdeclaration
    rcases List.mem_append.1 hmem with hmem | hmem
    · exact absurd (hkeyword _ (hsub hmem)) (not_le.2 hlt)
    · exact hmem
  rw [slotsOf_back hold hkinds hmem, slotsOf_back hnew hkinds' hmem, List.map_map]
  refine List.map_congr_left fun slot _ => ?_
  simp only [Function.comp_apply, Slot.raise, Slot.mk.injEq, and_true]
  omega

end Layout

/-! ## Maps -/

namespace RegisterMap

/-- What a further field leaves alone in the layout of a map: the slots of the fields that precede
it, and the slots of fields of later kinds but for registers that are there in addition. -/
structure Extends (map grown : RegisterMap) (field : Field) : Prop where
  slots_eq : ∀ declaration ∈ Declaration.ofFields map.fields,
    declaration.field.access.keyword < field.access.keyword ∨
        declaration.field.access = field.access ∧ field.width ≤ declaration.field.width →
      grown.slots declaration = map.slots declaration
  exists_growth : ∃ growth, grown.registerCount = map.registerCount + growth ∧
    ∀ declaration ∈ Declaration.ofFields map.fields,
      field.access.keyword < declaration.field.access.keyword →
        grown.slots declaration = (map.slots declaration).map (·.raise growth)

theorem Packed.extends_of_fields_eq {map grown : RegisterMap} {field : Field} (h : map.Packed)
    (hgrown : grown.Packed) (hfields : grown.fields = map.fields ++ [field]) :
    map.Extends grown field where
  slots_eq := by
    intro declaration hdeclaration hprecedes
    rw [slots, slots, h.layout_eq, hgrown.layout_eq, hfields]
    exact Layout.slotsOf_append_of_precedes hdeclaration ((Field.precedes_iff _ _).2 hprecedes)
  exists_growth := by
    rw [hgrown.registerCount_eq, h.registerCount_eq, hfields]
    have hpackable := hgrown.packable
    rw [hfields] at hpackable
    obtain ⟨growth, hrows, hslots⟩ := Layout.exists_growth hpackable
    refine ⟨growth, hrows, fun declaration hdeclaration hlt => ?_⟩
    rw [slots, slots, h.layout_eq, hgrown.layout_eq, hfields]
    exact hslots declaration hdeclaration hlt

/-- With a further field of its own name, a map can still be packed, and only the narrower fields
of its kind are placed anew. -/
theorem extends_pack {palette palette' : Palette} {map grown : RegisterMap} {field : Field}
    (hfields : grown.fields = map.fields ++ [field]) (h : (map.pack palette).2 = .ok ())
    (hvalid : field.Valid) (hfresh : field.ident ∉ map.fields.map (·.ident)) :
    (grown.pack palette').2 = .ok () ∧
      (map.pack palette).1.Extends (grown.pack palette').1 field := by
  have hok : (grown.pack palette').2 = .ok () := by
    rw [pack_eq_ok_iff, hfields]
    exact ((pack_eq_ok_iff palette map).1 h).append_singleton hvalid hfresh
  refine ⟨hok, (packed_pack h).extends_of_fields_eq (packed_pack hok) ?_⟩
  rw [fields_pack, fields_pack, hfields]

/-- A field of ten bits comes between two of its kind, takes a register of its own, and moves what
may only be written by one register. -/
theorem extends_pack_between :
    let map := (new ⟨"acme", "csr", "timer", none⟩ none).addFields
      [⟨"state", 8, .readOnly, 1⟩, ⟨"lane", 12, .readWrite, 2⟩, ⟨"mode", 4, .readWrite, 1⟩,
        ⟨"start", 2, .writeOnly, 1⟩]
    let field : Field := ⟨"gain", 10, .readWrite, 1⟩
    let grown := (map.pack .plain).1.addField field
    grown.fields = map.fields ++ [field] ∧ (map.pack .plain).2 = .ok () ∧ field.Valid ∧
      field.ident ∉ map.fields.map (·.ident) ∧ (grown.pack .plain).2 = .ok () ∧
        (map.pack .plain).1.Extends (grown.pack .plain).1 field := by
  intro map field grown
  have hfields : grown.fields = map.fields ++ [field] := by
    rw [fields_addField, fields_pack]
  have hvalid : field.Valid := ⟨by decide, by decide, by decide⟩
  have hfresh : field.ident ∉ map.fields.map (·.ident) := by decide
  exact ⟨hfields, rfl, hvalid, hfresh, extends_pack hfields rfl hvalid hfresh⟩

end RegisterMap

end RegMap
