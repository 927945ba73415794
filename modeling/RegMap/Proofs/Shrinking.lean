import RegMap.Proofs.Kinds

/-!
# Fewer, narrower and smaller fields

Taking something away from the declared fields never costs a register, although it can move
replicas to other places.

* `Shrinks` lists what can be taken away: a field, replicas of a field, or bits of a field.
* `Shrinks.sum_replicasReaching_le`: whatever is taken away, no bound is reached by more
  replicas of a kind.
* `Layout.length_rowsOf_mono`: then the widths of a kind, which descend, lie under those
  that there were, and a tight cut of them has no more runs.
-/

namespace RegMap

/-- What the declared fields can be after a part of one of them is taken away: the whole field,
some of its replicas, or some of its bits. -/
inductive Shrinks : List Field → List Field → Prop where
  | remove (before after : List Field) (field : Field) :
      Shrinks (before ++ field :: after) (before ++ after)
  | lower (before after : List Field) (field : Field) {count : UInt32} (hpos : 1 ≤ count)
      (hlt : count < field.count) :
      Shrinks (before ++ field :: after) (before ++ { field with count } :: after)
  | narrow (before after : List Field) (field : Field) {width : UInt8} (hpos : 1 ≤ width)
      (hlt : width < field.width) :
      Shrinks (before ++ field :: after) (before ++ { field with width } :: after)

/-- A field can be replaced by a valid one of the same name. -/
theorem Packable.replace {before after : List Field} {field other : Field}
    (h : Packable (before ++ field :: after)) (hident : other.ident = field.ident)
    (hvalid : other.Valid) : Packable (before ++ other :: after) where
  nodup := by
    have hnodup := h.nodup
    rw [List.map_append, List.map_cons] at hnodup ⊢
    rwa [hident]
  valid := by
    intro member hmember
    rcases List.mem_append.1 hmember with hbefore | hrest
    · exact h.valid member (List.mem_append_left _ hbefore)
    · rcases List.mem_cons.1 hrest with rfl | hafter
      · exact hvalid
      · exact h.valid member (List.mem_append_right _ (List.mem_cons_of_mem _ hafter))

namespace Shrinks

variable {fields smaller : List Field}

/-- No bound is reached by more replicas of a kind than before. -/
theorem sum_replicasReaching_le (h : Shrinks fields smaller) (access : Access) (bound : Nat) :
    (smaller.map (Field.replicasReaching access bound)).sum ≤
      (fields.map (Field.replicasReaching access bound)).sum := by
  cases h with
  | remove before after field =>
    simp only [List.map_append, List.sum_append, List.map_cons, List.sum_cons]
    omega
  | @lower before after field count hpos hlt =>
    have hle : Field.replicasReaching access bound { field with count } ≤
        field.replicasReaching access bound := by
      have hcount := UInt32.lt_iff_toNat_lt.1 hlt
      simp only [Field.replicasReaching]
      split <;> omega
    simp only [List.map_append, List.sum_append, List.map_cons, List.sum_cons]
    omega
  | @narrow before after field width hpos hlt =>
    have hle : Field.replicasReaching access bound { field with width } ≤
        field.replicasReaching access bound := by
      have hwidth := UInt8.lt_iff_toNat_lt.1 hlt
      simp only [Field.replicasReaching]
      by_cases hreach : bound ≤ width.toNat
      · simp [hreach, hreach.trans hwidth.le]
      · simp [hreach]
    simp only [List.map_append, List.sum_append, List.map_cons, List.sum_cons]
    omega

/-- What is left can be laid out if all could. -/
theorem packable (h : Shrinks fields smaller) (hpackable : Packable fields) : Packable smaller := by
  cases h with
  | remove before after field =>
    have hsub : (before ++ after).Sublist (before ++ field :: after) :=
      (List.Sublist.refl before).append (List.sublist_cons_self field after)
    exact ⟨(hsub.map _).nodup hpackable.nodup,
      fun other hother => hpackable.valid other (hsub.mem hother)⟩
  | @lower before after field count hpos hlt =>
    obtain ⟨hwidth, hle, -⟩ := hpackable.valid field (by simp)
    exact hpackable.replace rfl ⟨hwidth, hle, UInt32.le_iff_toNat_le.1 hpos⟩
  | @narrow before after field width hpos hlt =>
    obtain ⟨-, hle, hcount⟩ := hpackable.valid field (by simp)
    have hwidth := UInt8.lt_iff_toNat_lt.1 hlt
    exact hpackable.replace rfl ⟨UInt8.le_iff_toNat_le.1 hpos, hwidth.le.trans hle, hcount⟩

end Shrinks

/-- A kind has no more rows if no bound is reached by more of its replicas. -/
theorem Layout.length_rowsOf_mono {access : Access} {fields smaller : List Field}
    (hpackable : Packable fields)
    (h : ∀ bound, (smaller.map (Field.replicasReaching access bound)).sum ≤
      (fields.map (Field.replicasReaching access bound)).sum) :
    (rowsOf access smaller).length ≤ (rowsOf access fields).length := by
  have hunder : List.SublistForall₂ (· ≤ ·) (widthsOf access smaller)
      ((rowsOf access fields).map Row.widths).flatten := by
    rw [flatten_rowsOf]
    refine sublistForall₂_of_countP (pairwise_widthsOf access smaller)
      (pairwise_widthsOf access fields) fun bound => ?_
    rw [countP_widthsOf, countP_widthsOf]
    exact h bound
  have hle := length_rowsOf_le access (sum_le_of_mem_rowsOf access hpackable) hunder
  rwa [List.length_map] at hle

namespace RegisterMap

/-- When something is taken away from fields that can be packed, the rest can be packed as well,
with no more registers of any kind. -/
theorem registerCount_pack_of_shrinks {palette palette' : Palette} {map smaller : RegisterMap}
    (hshrinks : Shrinks map.fields smaller.fields) (h : (map.pack palette).2 = .ok ()) :
    (smaller.pack palette').2 = .ok () ∧
      (∀ access,
        (smaller.pack palette').1.countOf access ≤ (map.pack palette).1.countOf access) ∧
      (smaller.pack palette').1.registerCount ≤ (map.pack palette).1.registerCount := by
  have hpackable := (pack_eq_ok_iff palette map).1 h
  have hsmaller := (pack_eq_ok_iff palette' smaller).2 (hshrinks.packable hpackable)
  have hcount (access : Access) :
      (smaller.pack palette').1.countOf access ≤ (map.pack palette).1.countOf access := by
    rw [(packed_pack hsmaller).countOf_eq, (packed_pack h).countOf_eq, fields_pack, fields_pack]
    exact Layout.length_rowsOf_mono hpackable (hshrinks.sum_replicasReaching_le access)
  exact ⟨hsmaller, hcount, Access.length_le_of_countP Register.access Register.access hcount⟩

/-- Without one bit, a field of seventeen comes behind another one of sixteen, and both share a
register. -/
theorem registerCount_pack_of_shrinks_narrower :
    let map := (new ⟨"acme", "csr", "timer", none⟩ none).addFields
      [⟨"first", 16, .readWrite, 1⟩, ⟨"second", 17, .readWrite, 1⟩]
    let smaller := (new ⟨"acme", "csr", "timer", none⟩ none).addFields
      [⟨"first", 16, .readWrite, 1⟩, ⟨"second", 16, .readWrite, 1⟩]
    Shrinks map.fields smaller.fields ∧ (map.pack .plain).2 = .ok () ∧
      (smaller.pack .plain).2 = .ok () ∧
        (∀ access,
          (smaller.pack .plain).1.countOf access ≤ (map.pack .plain).1.countOf access) ∧
        (smaller.pack .plain).1.registerCount ≤ (map.pack .plain).1.registerCount := by
  have hshrinks : Shrinks [⟨"first", 16, .readWrite, 1⟩, ⟨"second", 17, .readWrite, 1⟩]
      [⟨"first", 16, .readWrite, 1⟩, ⟨"second", 16, .readWrite, 1⟩] :=
    .narrow [⟨"first", 16, .readWrite, 1⟩] [] ⟨"second", 17, .readWrite, 1⟩ (by decide) (by decide)
  exact ⟨hshrinks, rfl, registerCount_pack_of_shrinks hshrinks rfl⟩

end RegisterMap

end RegMap
