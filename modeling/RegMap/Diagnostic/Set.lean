import RegMap.Diagnostic

/-!
# Sets of diagnostics

Diagnostics are collected in a set that remembers the order in which they were
first seen: a diagnostic that is already there is not told twice. A report
groups the set by context.
-/

namespace RegMap

/-- Diagnostics in the order in which they were first seen. -/
structure Diagnostics where
  toList : List Diagnostic
  nodup : toList.Nodup

namespace Diagnostics

/-- No diagnostics. -/
def none : Diagnostics := ⟨[], .nil⟩

instance : Inhabited Diagnostics := ⟨none⟩

/-- A set has the diagnostics of its list. -/
instance : Membership Diagnostic Diagnostics :=
  ⟨fun set diagnostic => diagnostic ∈ set.toList⟩

instance (diagnostic : Diagnostic) (set : Diagnostics) : Decidable (diagnostic ∈ set) :=
  inferInstanceAs (Decidable (diagnostic ∈ set.toList))

/-- Whether there is nothing to tell. -/
def isEmpty (set : Diagnostics) : Bool :=
  set.toList.isEmpty

/-- The set with one more diagnostic, after those it has. -/
def insert (set : Diagnostics) (diagnostic : Diagnostic) : Diagnostics :=
  if h : diagnostic ∈ set.toList then
    set
  else
    ⟨set.toList ++ [diagnostic], by
      refine List.nodup_append.2 ⟨set.nodup, by simp, ?_⟩
      intro a ha b hb hab
      simp only [List.mem_singleton] at hb
      exact h (hb ▸ hab ▸ ha)⟩

/-- The set with more diagnostics, in their order. -/
def insertAll (set : Diagnostics) (diagnostics : List Diagnostic) : Diagnostics :=
  diagnostics.foldl insert set

/-- The set of some diagnostics, each where it was first told. -/
def ofList (diagnostics : List Diagnostic) : Diagnostics :=
  none.insertAll diagnostics

/-- The diagnostics of both sets, those of the left one first. -/
def union (set more : Diagnostics) : Diagnostics :=
  set.insertAll more.toList

/-- Sets are joined with `++`. -/
instance : Append Diagnostics := ⟨union⟩

@[simp] theorem toList_none : none.toList = [] := rfl

theorem toList_insert (set : Diagnostics) (diagnostic : Diagnostic) :
    (set.insert diagnostic).toList =
      if diagnostic ∈ set.toList then set.toList else set.toList ++ [diagnostic] := by
  unfold insert
  split <;> simp_all

@[simp] theorem mem_insert {set : Diagnostics} {a b : Diagnostic} :
    a ∈ (set.insert b).toList ↔ a ∈ set.toList ∨ a = b := by
  rw [toList_insert]
  split
  · constructor
    · exact Or.inl
    · rintro (h | rfl) <;> assumption
  · simp

theorem mem_insertAll {set : Diagnostics} {diagnostics : List Diagnostic} {a : Diagnostic} :
    a ∈ (set.insertAll diagnostics).toList ↔ a ∈ set.toList ∨ a ∈ diagnostics := by
  unfold insertAll
  induction diagnostics generalizing set with
  | nil => simp
  | cons b rest ih =>
    rw [List.foldl_cons, ih, mem_insert, List.mem_cons]
    exact or_assoc

theorem mem_ofList {diagnostics : List Diagnostic} {a : Diagnostic} :
    a ∈ (ofList diagnostics).toList ↔ a ∈ diagnostics := by
  simp [ofList, mem_insertAll]

/-- Diagnostics are put behind those of the set that they are not among, of equal ones the
first. -/
theorem toList_insertAll (set : Diagnostics) (diagnostics : List Diagnostic) :
    (set.insertAll diagnostics).toList =
      set.toList ++ (diagnostics.removeAll set.toList).eraseDups := by
  unfold insertAll
  induction diagnostics generalizing set with
  | nil => simp
  | cons first rest ih =>
    rw [List.foldl_cons, ih, toList_insert, List.cons_removeAll]
    by_cases h : first ∈ set.toList
    · simp [h]
    · have hrest : rest.removeAll (set.toList ++ [first]) =
          (rest.removeAll set.toList).filter fun other => !other == first := by
        simp [List.removeAll, List.filter_filter, Bool.and_comm, Bool.beq_eq_decide_eq]
      simp [h, hrest, List.eraseDups_cons]

theorem toList_ofList (diagnostics : List Diagnostic) :
    (ofList diagnostics).toList = diagnostics.eraseDups := by
  simp [ofList, toList_insertAll]

/-! ## Tallies -/

/-- How many diagnostics are warnings. -/
def warnings (set : Diagnostics) : Nat :=
  set.toList.countP fun diagnostic => diagnostic.rank = .warning

/-- How many diagnostics are errors. -/
def errors (set : Diagnostics) : Nat :=
  set.toList.countP fun diagnostic => diagnostic.rank = .error

/-! ## Reports -/

/-- The diagnostics of one context, in order. -/
structure Group where
  context : Context
  diagnostics : List Diagnostic
deriving DecidableEq

namespace Group

/-- The groups with one more diagnostic: behind the others of its context, or else in a
group of its own behind the other groups. -/
def record : List Group → Diagnostic → List Group
  | [], diagnostic => [⟨diagnostic.context, [diagnostic]⟩]
  | group :: rest, diagnostic =>
    if group.context = diagnostic.context then
      { group with diagnostics := group.diagnostics ++ [diagnostic] } :: rest
    else
      group :: record rest diagnostic

/-- The part of a report that tells a group. Only the root has no heading. -/
def text (palette : Palette) (group : Group) : String :=
  let lines := "\n".intercalate (group.diagnostics.map (·.text palette))
  if group.context.isRoot then lines else s!"in {group.context.text palette}:\n{lines}"

end Group

/-- The diagnostics of the set by context, one after the other put into its group. -/
def groups (set : Diagnostics) : List Group :=
  set.toList.foldl Group.record []

/-- The set as text: a part for each group, with an empty line between parts. -/
def report (palette : Palette) (set : Diagnostics) : String :=
  "\n\n".intercalate (set.groups.map (·.text palette))

end Diagnostics

end RegMap
