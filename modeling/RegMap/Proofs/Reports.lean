import Mathlib.Data.List.Induction
import Mathlib.Data.List.Nodup
import RegMap.Diagnostic.Set

/-!
# Reports by context

Diagnostics come in any order, some of them more than once and those of one context with others in
between.  A report tells each of them once, together with the others of its context.

* `firstSeen` are the entries of a list where they are seen first.  These are what a set keeps
  (`Diagnostics.toList_ofList_eq_firstSeen`).
* `Diagnostics.Group.record_of_mem` and `Diagnostics.Group.record_of_notMem`: all that one more
  diagnostic does to the groups.
* `Diagnostics.ByContext` says of groups that they are some diagnostics by context, and
  `Diagnostics.ByContext.record` keeps it while diagnostics are recorded one after the other.
* `Diagnostics.existsUnique_reported`: what a set keeps of any diagnostics, and how its report tells
  them in blocks of lines.
-/

namespace RegMap

/-! ## First occurrences -/

section

variable {α : Type} [DecidableEq α]

/-- The entries of a list that are not among those before them. -/
def firstSeen (entries : List α) : List α :=
  (entries.zipIdx.filter fun numbered => numbered.1 ∉ entries.take numbered.2).map (·.1)

theorem firstSeen_append_singleton (entries : List α) (entry : α) :
    firstSeen (entries ++ [entry]) =
      if entry ∈ entries then firstSeen entries else firstSeen entries ++ [entry] := by
  -- an entry sees only those before it, so that a last one changes nothing for them
  have hbefore : entries.zipIdx.filter
        (fun numbered => numbered.1 ∉ (entries ++ [entry]).take numbered.2) =
      entries.zipIdx.filter fun numbered => numbered.1 ∉ entries.take numbered.2 := by
    apply List.filter_congr
    intro numbered hnumbered
    have hindex := (List.getElem?_eq_some_iff.1 (List.mem_zipIdx_iff_getElem?.1 hnumbered)).1
    rw [List.take_append_of_le_length (Nat.le_of_lt hindex)]
  unfold firstSeen
  rw [List.zipIdx_append, List.filter_append, hbefore]
  by_cases hmem : entry ∈ entries <;> simp [hmem]

@[simp] theorem mem_firstSeen {entries : List α} {entry : α} :
    entry ∈ firstSeen entries ↔ entry ∈ entries := by
  induction entries using List.reverseRecOn with
  | nil => simp [firstSeen]
  | append_singleton entries last ih =>
    rw [firstSeen_append_singleton, List.mem_append, List.mem_singleton]
    split
    · rename_i hmem
      rw [ih]
      constructor
      · exact Or.inl
      · intro h
        cases h with
        | inl h => exact h
        | inr h => exact h ▸ hmem
    · rw [List.mem_append, ih, List.mem_singleton]

theorem nodup_firstSeen (entries : List α) : (firstSeen entries).Nodup := by
  induction entries using List.reverseRecOn with
  | nil => simp [firstSeen]
  | append_singleton entries last ih =>
    rw [firstSeen_append_singleton]
    split
    · exact ih
    · rename_i hmem
      apply List.Nodup.append ih (List.nodup_singleton last)
      simpa using hmem

end

namespace Diagnostics

/-- A set keeps diagnostics where they are seen first. -/
theorem toList_ofList_eq_firstSeen (inserted : List Diagnostic) :
    (ofList inserted).toList = firstSeen inserted := by
  induction inserted using List.reverseRecOn with
  | nil => rfl
  | append_singleton inserted last ih =>
    have hlast : ofList (inserted ++ [last]) = (ofList inserted).insert last := by
      unfold ofList insertAll
      rw [List.foldl_append]
      rfl
    rw [hlast, toList_insert, firstSeen_append_singleton]
    simp only [ih, mem_firstSeen]

/-! ## Groups -/

namespace Group

/-- The group with one more diagnostic, if it is of the same context. -/
def extend (diagnostic : Diagnostic) (group : Group) : Group :=
  if group.context = diagnostic.context then
    { group with diagnostics := group.diagnostics ++ [diagnostic] }
  else
    group

@[simp] theorem context_extend (diagnostic : Diagnostic) (group : Group) :
    (group.extend diagnostic).context = group.context := by
  unfold extend
  split <;> rfl

variable {groups : List Group} {diagnostic : Diagnostic}

/-- If its context has a group, a diagnostic is added to it. -/
theorem record_of_mem (hnodup : (groups.map (·.context)).Nodup)
    (h : diagnostic.context ∈ groups.map (·.context)) :
    record groups diagnostic = groups.map (extend diagnostic) := by
  induction groups with
  | nil => simp at h
  | cons group rest ih =>
    rw [List.map_cons, List.nodup_cons] at hnodup
    rw [List.map_cons, List.mem_cons] at h
    rw [record, List.map_cons, extend]
    by_cases heq : group.context = diagnostic.context
    · have hother : ∀ other ∈ rest, extend diagnostic other = id other := by
        intro other hother
        have hne : other.context ≠ diagnostic.context := by
          intro hcontext
          apply hnodup.1
          rw [heq, ← hcontext]
          exact List.mem_map_of_mem hother
        rw [extend, if_neg hne, id]
      have hrest : rest.map (extend diagnostic) = rest :=
        (List.map_congr_left hother).trans (List.map_id rest)
      rw [if_pos heq, if_pos heq, hrest]
    · have hmem : diagnostic.context ∈ rest.map (·.context) := by
        cases h with
        | inl h => exact absurd h.symm heq
        | inr h => exact h
      rw [if_neg heq, if_neg heq, ih hnodup.2 hmem]

/-- If its context has no group, a diagnostic is in one of its own behind the others. -/
theorem record_of_notMem (h : diagnostic.context ∉ groups.map (·.context)) :
    record groups diagnostic = groups ++ [⟨diagnostic.context, [diagnostic]⟩] := by
  induction groups with
  | nil => rfl
  | cons group rest ih =>
    rw [List.map_cons, List.mem_cons, not_or] at h
    rw [record, if_neg (Ne.symm h.1), ih h.2, List.cons_append]

/-- Nothing that is recorded is lost or told twice. -/
theorem perm_record (groups : List Group) (diagnostic : Diagnostic) :
    ((record groups diagnostic).flatMap (·.diagnostics)).Perm
      (groups.flatMap (·.diagnostics) ++ [diagnostic]) := by
  induction groups with
  | nil => exact .refl _
  | cons group rest ih =>
    unfold record
    split
    · rw [List.flatMap_cons, List.flatMap_cons, List.append_assoc, List.append_assoc]
      exact List.perm_append_comm.append_left group.diagnostics
    · rw [List.flatMap_cons, List.flatMap_cons, List.append_assoc]
      exact ih.append_left group.diagnostics

end Group

/-- Groups are the given diagnostics by context: a group for each context, in the order in which the
contexts are first seen, with the diagnostics of the context in order. -/
structure ByContext (groups : List Group) (diagnostics : List Diagnostic) : Prop where
  contexts_eq : groups.map (·.context) = firstSeen (diagnostics.map (·.context))
  diagnostics_eq : ∀ group ∈ groups,
    group.diagnostics = diagnostics.filter (·.context = group.context)

namespace ByContext

variable {groups : List Group} {diagnostics : List Diagnostic}

theorem nil : ByContext [] [] :=
  ⟨rfl, by simp⟩

theorem nodup_contexts (h : ByContext groups diagnostics) : (groups.map (·.context)).Nodup := by
  rw [h.contexts_eq]
  exact nodup_firstSeen _

theorem mem_contexts (h : ByContext groups diagnostics) {context : Context} :
    context ∈ groups.map (·.context) ↔
      ∃ diagnostic ∈ diagnostics, diagnostic.context = context := by
  rw [h.contexts_eq, mem_firstSeen, List.mem_map]

/-- One more diagnostic is put where it belongs. -/
theorem record (h : ByContext groups diagnostics) (diagnostic : Diagnostic) :
    ByContext (Group.record groups diagnostic) (diagnostics ++ [diagnostic]) := by
  have hseen : diagnostic.context ∈ diagnostics.map (·.context) ↔
      diagnostic.context ∈ groups.map (·.context) := by
    rw [h.contexts_eq, mem_firstSeen]
  -- either way the group of its context is the only one that changes
  by_cases hmem : diagnostic.context ∈ groups.map (·.context)
  · rw [Group.record_of_mem h.nodup_contexts hmem]
    constructor
    · rw [List.map_append, List.map_singleton, firstSeen_append_singleton, if_pos (hseen.2 hmem),
        ← h.contexts_eq]
      simp
    · intro group hgroup
      obtain ⟨old, hold, rfl⟩ := List.mem_map.1 hgroup
      rw [Group.context_extend, List.filter_append, ← h.diagnostics_eq old hold, Group.extend]
      by_cases heq : old.context = diagnostic.context
      · simp [heq]
      · simp [heq, Ne.symm heq]
  · rw [Group.record_of_notMem hmem]
    constructor
    · rw [List.map_append, List.map_append, List.map_singleton, List.map_singleton,
        firstSeen_append_singleton, if_neg (mt hseen.1 hmem), ← h.contexts_eq]
    · intro group hgroup
      rw [List.mem_append, List.mem_singleton] at hgroup
      cases hgroup with
      | inl hold =>
        have hne : diagnostic.context ≠ group.context := by
          intro heq
          apply hmem
          rw [heq]
          exact List.mem_map_of_mem hold
        rw [List.filter_append, ← h.diagnostics_eq group hold]
        simp [hne]
      | inr hnew =>
        have hnone : diagnostics.filter (·.context = diagnostic.context) = [] := by
          rw [List.filter_eq_nil_iff]
          intro other hother hcontext
          exact hmem (h.mem_contexts.2 ⟨other, hother, of_decide_eq_true hcontext⟩)
        subst hnew
        simp [hnone]

theorem foldl_record (diagnostics : List Diagnostic) :
    ByContext (diagnostics.foldl Group.record []) diagnostics := by
  induction diagnostics using List.reverseRecOn with
  | nil => exact .nil
  | append_singleton diagnostics last ih =>
    rw [List.foldl_append]
    exact ih.record last

theorem perm_foldl_record (diagnostics : List Diagnostic) :
    ((diagnostics.foldl Group.record []).flatMap (·.diagnostics)).Perm diagnostics := by
  induction diagnostics using List.reverseRecOn with
  | nil => exact .refl _
  | append_singleton diagnostics last ih =>
    rw [List.foldl_append]
    exact (Group.perm_record _ last).trans (ih.append_right [last])

/-- The groups are determined by the diagnostics. -/
theorem unique {others : List Group} (h : ByContext groups diagnostics)
    (hothers : ByContext others diagnostics) : groups = others := by
  have heq {groups : List Group} (h : ByContext groups diagnostics) :
      groups = (groups.map (·.context)).map fun context =>
        ⟨context, diagnostics.filter (·.context = context)⟩ := by
    have hgroup : ∀ group ∈ groups,
        (⟨group.context, diagnostics.filter (·.context = group.context)⟩ : Group) = id group := by
      intro group hgroup
      rw [← h.diagnostics_eq group hgroup, id]
    rw [List.map_map]
    exact ((List.map_congr_left hgroup).trans (List.map_id groups)).symm
  rw [heq h, heq hothers, h.contexts_eq, hothers.contexts_eq]

/-- No group is empty. -/
theorem diagnostics_ne_nil (h : ByContext groups diagnostics) {group : Group}
    (hgroup : group ∈ groups) : group.diagnostics ≠ [] := by
  obtain ⟨diagnostic, hdiagnostic, hcontext⟩ :=
    h.mem_contexts.1 (List.mem_map_of_mem hgroup)
  rw [h.diagnostics_eq group hgroup]
  apply List.ne_nil_of_mem (a := diagnostic)
  simp [hdiagnostic, hcontext]

theorem perm (h : ByContext groups diagnostics) :
    (groups.flatMap (·.diagnostics)).Perm diagnostics := by
  rw [h.unique (foldl_record diagnostics)]
  exact perm_foldl_record diagnostics

end ByContext

/-! ## Reports -/

/-- What stands above the diagnostics of a context. -/
def heading (palette : Palette) (context : Context) : List String :=
  if context.segments = [] then [] else ["in " ++ context.text palette ++ ":"]

/-- A group as it is told, one entry below the other. -/
def Group.entries (palette : Palette) (group : Group) : List String :=
  heading palette group.context ++ group.diagnostics.map (·.text palette)

theorem Group.text_eq_intercalate (palette : Palette) {group : Group}
    (h : group.diagnostics ≠ []) :
    group.text palette = "\n".intercalate (group.entries palette) := by
  obtain ⟨first, rest, hdiagnostics⟩ := List.exists_cons_of_ne_nil h
  unfold Group.text Group.entries heading Context.isRoot
  by_cases hroot : group.context.segments = []
  · rw [if_pos hroot, hroot, List.nil_append]
    rfl
  · have hempty : group.context.segments.isEmpty = false := by simpa using hroot
    rw [if_neg hroot, hempty, hdiagnostics, List.map_cons, List.singleton_append,
      String.intercalate_cons_cons]
    simp [String.append_assoc, toString]

/-- What becomes of diagnostics that are inserted into a set.  Each of them is kept once, where it
is seen first.  The report tells the groups of those that are kept, with an empty line between
groups and a heading for every context but the root. -/
structure Reported (palette : Palette) (inserted : List Diagnostic) (groups : List Group) :
    Prop where
  toList_eq : (ofList inserted).toList = firstSeen inserted
  report_eq : (ofList inserted).report palette =
    "\n\n".intercalate (groups.map fun group => "\n".intercalate (group.entries palette))
  byContext : ByContext groups (firstSeen inserted)
  nodup_contexts : (groups.map (·.context)).Nodup
  diagnostics_ne_nil : ∀ group ∈ groups, group.diagnostics ≠ []
  perm : (groups.flatMap (·.diagnostics)).Perm (firstSeen inserted)
  count_eq : ∀ diagnostic ∈ inserted, (groups.flatMap (·.diagnostics)).count diagnostic = 1

/-- Whatever is inserted, a report tells each diagnostic once, and under no context but its own. -/
theorem existsUnique_reported (palette : Palette) (inserted : List Diagnostic) :
    ∃! groups, Reported palette inserted groups := by
  have htoList := toList_ofList_eq_firstSeen inserted
  have hgroups : ByContext (ofList inserted).groups (firstSeen inserted) := by
    unfold groups
    rw [htoList]
    exact .foldl_record (firstSeen inserted)
  refine ⟨(ofList inserted).groups, ?_, fun _ hothers => hothers.byContext.unique hgroups⟩
  constructor
  · exact htoList
  · unfold report
    congr 1
    apply List.map_congr_left
    intro group hgroup
    exact group.text_eq_intercalate palette (hgroups.diagnostics_ne_nil hgroup)
  · exact hgroups
  · exact hgroups.nodup_contexts
  · intro group hgroup
    exact hgroups.diagnostics_ne_nil hgroup
  · exact hgroups.perm
  · intro diagnostic hdiagnostic
    rw [hgroups.perm.count_eq]
    exact List.count_eq_one_of_mem (nodup_firstSeen inserted) (mem_firstSeen.2 hdiagnostic)

/-- Contexts that take turns are told in one block each. -/
example :
    let inserted : List Diagnostic :=
      [(Finding.zeroCount 0).at .plain (.field "a"), (Finding.zeroCount 0).at .plain (.field "b"),
        Finding.empty.at .plain .root, (Finding.zeroCount 0).at .plain (.field "a"),
        (Finding.duplicateField "a").at .plain (.field "a")]
    (ofList inserted).report .plain =
      "in field a:\n" ++
      "error[E0003]: field count 0 must be at least 1\n" ++
      "error[E0006]: field [a] is declared more than once\n\n" ++
      "in field b:\n" ++
      "error[E0003]: field count 0 must be at least 1\n\n" ++
      "warning[E2000]: no fields are declared, the register file would be empty" := by
  decide +kernel

end Diagnostics

end RegMap
