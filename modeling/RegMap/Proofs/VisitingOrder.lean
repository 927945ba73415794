import Mathlib.Order.Basic
import Mathlib.Data.String.Basic
import RegMap.Layout

/-!
# The visiting order

Fields are visited by access keyword, as a text, then by descending width, then
by declaration.  The order is total and strict on the declarations of a map, so
it determines the visiting order: `visitingOrder_eq` needs no reference to the sort.
-/

namespace RegMap

namespace Field

theorem precedes_iff (a b : Field) :
    a.precedes b ↔
      a.access.keyword < b.access.keyword ∨ a.access = b.access ∧ b.width ≤ a.width := by
  simp [precedes]

theorem keyword_le_of_precedes {a b : Field} (h : a.precedes b) :
    a.access.keyword ≤ b.access.keyword := by
  rcases (precedes_iff a b).1 h with hlt | ⟨haccess, -⟩
  · exact le_of_lt hlt
  · rw [haccess]

theorem precedes_total (a b : Field) : a.precedes b || b.precedes a := by
  rw [Bool.or_eq_true, precedes_iff, precedes_iff]
  rcases lt_trichotomy a.access.keyword b.access.keyword with h | h | h
  · exact .inl (.inl h)
  · have haccess := Access.keyword_injective h
    rcases UInt8.le_total b.width a.width with hwidth | hwidth
    · exact .inl (.inr ⟨haccess, hwidth⟩)
    · exact .inr (.inr ⟨haccess.symm, hwidth⟩)
  · exact .inr (.inl h)

theorem precedes_trans (a b c : Field) (hab : a.precedes b) (hbc : b.precedes c) :
    a.precedes c := by
  rw [precedes_iff] at hab hbc ⊢
  rcases hab with hab | ⟨hab, hwab⟩ <;> rcases hbc with hbc | ⟨hbc, hwbc⟩
  · exact .inl (lt_trans hab hbc)
  · exact .inl (hbc ▸ hab)
  · exact .inl (hab ▸ hbc)
  · exact .inr ⟨hab.trans hbc, UInt8.le_trans hwbc hwab⟩

end Field

namespace Declaration

/-- Whether a declaration is visited before another: by access keyword, then by
descending width, then by declaration. -/
def Before (a b : Declaration) : Prop :=
  a.field.access.keyword < b.field.access.keyword ∨
    a.field.access.keyword = b.field.access.keyword ∧
      (b.field.width < a.field.width ∨ a.field.width = b.field.width ∧ a.index < b.index)

theorem Before.asymm {a b : Declaration} (hab : a.Before b) (hba : b.Before a) : False := by
  rcases hab with hab | ⟨hab, hwab⟩ <;> rcases hba with hba | ⟨hba, hwba⟩
  · exact lt_asymm hab hba
  · exact lt_irrefl _ (hba ▸ hab)
  · exact lt_irrefl _ (hab ▸ hba)
  · rw [UInt8.lt_iff_toNat_lt, ← UInt8.toNat_inj] at hwab hwba
    omega

theorem Before.precedes {a b : Declaration} (h : a.Before b) : a.field.precedes b.field := by
  rw [Field.precedes_iff]
  rcases h with hlt | ⟨hkeyword, hlt | ⟨heq, -⟩⟩
  · exact .inl hlt
  · exact .inr ⟨Access.keyword_injective hkeyword, UInt8.le_of_lt hlt⟩
  · exact .inr ⟨Access.keyword_injective hkeyword, UInt8.le_of_eq heq.symm⟩

theorem Before.keyword_le {a b : Declaration} (h : a.Before b) :
    a.field.access.keyword ≤ b.field.access.keyword :=
  Field.keyword_le_of_precedes h.precedes

/-- Of two declarations that may come in this order, the earlier one comes first. -/
theorem before_of_precedes {a b : Declaration} (h : a.field.precedes b.field)
    (hlt : a.index < b.index) : a.Before b := by
  rcases (Field.precedes_iff _ _).1 h with hkeyword | ⟨haccess, hwidth⟩
  · exact .inl hkeyword
  · refine .inr ⟨congrArg Access.keyword haccess, ?_⟩
    rcases UInt8.lt_or_eq_of_le hwidth with hwider | heq
    · exact .inl hwider
    · exact .inr ⟨heq.symm, hlt⟩

/-- Declarations that may not come in the other order come in this one. -/
theorem before_of_not_precedes {a b : Declaration} (h : ¬b.field.precedes a.field) :
    a.Before b := by
  rw [Field.precedes_iff, not_or, not_and, not_lt] at h
  obtain ⟨hkeyword, hwidth⟩ := h
  rcases lt_or_eq_of_le hkeyword with hlt | heq
  · exact .inl hlt
  · refine .inr ⟨heq, .inl ?_⟩
    exact UInt8.not_le.1 (hwidth (Access.keyword_injective heq).symm)

/-- Two declarations that are sorted, by number if they tie, are in order. -/
theorem before_of_zipIdxLE {a b : Declaration} (hne : a.index ≠ b.index)
    (h : List.zipIdxLE (fun a b : Declaration => a.field.precedes b.field)
      (a, a.index) (b, b.index)) :
    a.Before b := by
  simp only [List.zipIdxLE] at h
  split at h
  · rename_i hab
    by_cases hba : b.field.precedes a.field
    · rw [if_pos hba, decide_eq_true_eq] at h
      exact before_of_precedes hab (lt_of_le_of_ne h hne)
    · exact before_of_not_precedes hba
  · simp at h

theorem zipIdx_ofFields (fields : List Field) :
    (ofFields fields).zipIdx = (ofFields fields).map fun declaration =>
      (declaration, declaration.index) := by
  apply List.ext_getElem?
  intro i
  simp only [ofFields, List.getElem?_zipIdx, List.getElem?_map]
  cases fields[i]? <;> simp

theorem perm_visitingOrder (fields : List Field) :
    (visitingOrder (ofFields fields)).Perm (ofFields fields) :=
  List.mergeSort_perm _ _

theorem pairwise_visitingOrder (fields : List Field) :
    (visitingOrder (ofFields fields)).Pairwise Before := by
  have htrans (a b c : Declaration) := Field.precedes_trans a.field b.field c.field
  have htotal (a b : Declaration) := Field.precedes_total a.field b.field
  have hsorted := List.pairwise_mergeSort (List.zipIdxLE_trans htrans)
    (List.zipIdxLE_total htotal) (ofFields fields).zipIdx
  have hdistinct : ((ofFields fields).zipIdx.mergeSort
      (List.zipIdxLE fun a b => a.field.precedes b.field)).Pairwise (·.1.index ≠ ·.1.index) := by
    refine ((List.mergeSort_perm _ _).pairwise_iff Ne.symm).2 ?_
    rw [zipIdx_ofFields, List.pairwise_map]
    exact (pairwise_ofFields fields).imp Nat.ne_of_lt
  rw [visitingOrder, ← List.mergeSort_zipIdx, List.pairwise_map]
  refine (hsorted.and hdistinct).imp_of_mem ?_
  intro left right hleft hright hand
  rw [List.mem_mergeSort, zipIdx_ofFields, List.mem_map] at hleft hright
  obtain ⟨a, -, rfl⟩ := hleft
  obtain ⟨b, -, rfl⟩ := hright
  exact before_of_zipIdxLE hand.2 hand.1

/-- The declarations in increasing order are in visiting order. -/
theorem visitingOrder_eq {fields : List Field} {declarations : List Declaration}
    (hperm : declarations.Perm (ofFields fields)) (hsorted : declarations.Pairwise Before) :
    visitingOrder (ofFields fields) = declarations :=
  ((perm_visitingOrder fields).trans hperm.symm).eq_of_pairwise
    (fun _ _ _ _ hab hba => (hab.asymm hba).elim) (pairwise_visitingOrder fields) hsorted

end Declaration

end RegMap
