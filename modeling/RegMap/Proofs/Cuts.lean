import Mathlib.Algebra.BigOperators.Ring.List
import Mathlib.Algebra.Order.BigOperators.Group.List
import Mathlib.Algebra.Order.Group.Nat
import Mathlib.Data.List.Forall2
import Mathlib.Data.Nat.Prime.Basic
import RegMap.Address

/-!
# Sequences of widths cut into runs

How many registers an access kind gets depends on the widths of its replicas and on nothing
else.  This module compares ways to distribute widths over runs that fit a register, without
replicas and without registers.

* `TightRuns` is the trace of a cut that starts a run only where the next width would reach
  past the register.
* `TightRuns.length_le_of_sublistForall₂`: such a cut stays ahead of every other cut, even of
  one of a sequence that has more or larger widths.
* `TightRuns.half_length_lt` and `TightRuns.length_mul_lt` count what the runs hold.
* `TightRuns.length_lt_two_mul` and `TightRuns.length_le_of_weight`: so the runs are less than
  twice as many as those of a distribution in any order, and no more where each of them can be
  given a weight that no run of the distribution exceeds.
* `sublistForall₂_of_countP` compares descending sequences by how many widths reach a bound.
-/

namespace RegMap

/-- Runs of widths, none of them empty, in which the first width of each run would not have
fitted the run before it. -/
inductive TightRuns : List (List Nat) → Prop where
  | nil : TightRuns []
  | single {run : List Nat} (hne : run ≠ []) : TightRuns [run]
  | cons {run next : List Nat} {width : Nat} {runs : List (List Nat)} (hne : run ≠ [])
      (hover : registerWidth < run.sum + width) (hruns : TightRuns ((width :: next) :: runs)) :
      TightRuns (run :: (width :: next) :: runs)

/-! ## Widths under other widths -/

/-- What lies under a sequence in two parts has two parts. -/
theorem sublistForall₂_append {widths left right : List Nat}
    (h : List.SublistForall₂ (· ≤ ·) widths (left ++ right)) :
    ∃ under rest, widths = under ++ rest ∧ List.SublistForall₂ (· ≤ ·) under left ∧
      List.SublistForall₂ (· ≤ ·) rest right := by
  obtain ⟨above, hunder, habove⟩ := List.sublistForall₂_iff.1 h
  obtain ⟨first, second, rfl, hfirst, hsecond⟩ := List.sublist_append_iff.1 habove
  refine ⟨widths.take first.length, widths.drop first.length,
    (List.take_append_drop _ _).symm, ?_, ?_⟩
  · exact List.sublistForall₂_iff.2
      ⟨first, List.forall₂_take_append _ _ _ hunder, hfirst⟩
  · exact List.sublistForall₂_iff.2
      ⟨second, List.forall₂_drop_append _ _ _ hunder, hsecond⟩

/-- Of two descending sequences, one lies under the other if for every bound it has no more
widths that reach the bound. -/
theorem sublistForall₂_of_countP {widths others : List Nat} (hwidths : widths.Pairwise (· ≥ ·))
    (hothers : others.Pairwise (· ≥ ·))
    (h : ∀ bound, widths.countP (bound ≤ ·) ≤ others.countP (bound ≤ ·)) :
    List.SublistForall₂ (· ≤ ·) widths others := by
  -- the first of each sequence is its largest, and taking both away keeps the comparison
  induction widths generalizing others with
  | nil => exact .nil
  | cons width rest ih =>
    obtain ⟨hfirst, hrest⟩ := List.pairwise_cons.1 hwidths
    cases others with
    | nil => simpa using h width
    | cons other more =>
      obtain ⟨hother, hmore⟩ := List.pairwise_cons.1 hothers
      have hle : width ≤ other := by
        by_contra hlt
        have hnone : (other :: more).countP (width ≤ ·) = 0 := by
          rw [List.countP_eq_zero]
          intro value hvalue
          rcases List.mem_cons.1 hvalue with rfl | hvalue
          · simpa using hlt
          · have := hother value hvalue
            simp only [decide_eq_true_eq]
            omega
        have hcount := h width
        rw [hnone] at hcount
        simp at hcount
      refine .cons hle (ih hrest hmore fun bound => ?_)
      have hcount := h bound
      by_cases hbound : bound ≤ width
      · simpa [List.countP_cons, hbound, hbound.trans hle] using hcount
      · have hnone : rest.countP (bound ≤ ·) = 0 := by
          rw [List.countP_eq_zero]
          intro value hvalue
          have := hfirst value hvalue
          simp only [decide_eq_true_eq]
          omega
        omega

/-- A run is full once it has as many widths as fit. -/
theorem le_length_of_div_eq {run : List Nat} {width number : Nat}
    (hrun : ∀ w ∈ run, registerWidth / w = number) (hwidth : registerWidth / width = number)
    (hover : registerWidth < run.sum + width) : number ≤ run.length := by
  have hmul (w : Nat) (hw : registerWidth / w = number) : w * number ≤ registerWidth :=
    hw ▸ Nat.mul_div_le registerWidth w
  have hsum : run.sum * number ≤ run.length * registerWidth := by
    have hbound : ∀ value ∈ run.map (· * number), value ≤ registerWidth := by
      rw [List.forall_mem_map]
      exact fun w hw => hmul w (hrun w hw)
    simpa [List.sum_map_mul_right] using List.sum_le_card_nsmul _ registerWidth hbound
  by_contra hlt
  have hlength : run.length < number := by simpa using hlt
  have hboth : (run.sum + width) * number ≤ registerWidth * number :=
    calc (run.sum + width) * number
        ≤ run.length * registerWidth + registerWidth := by
          rw [Nat.add_mul]
          exact Nat.add_le_add hsum (hmul width hwidth)
      _ = registerWidth * (run.length + 1) := by rw [Nat.mul_succ, Nat.mul_comm]
      _ ≤ registerWidth * number := Nat.mul_le_mul_left _ hlength
  exact Nat.not_lt_of_le (Nat.le_of_mul_le_mul_right hboth (Nat.zero_lt_of_lt hlength)) hover

namespace TightRuns

variable {runs others : List (List Nat)}

theorem flatten_ne_nil (h : TightRuns runs) (hne : runs ≠ []) : runs.flatten ≠ [] := by
  cases h with
  | nil => exact absurd rfl hne
  | single hrun => simpa using hrun
  | cons hrun hover hruns => simp

/-! ## Staying ahead -/

/-- Widths that fit a register end inside the first run, if a run follows. -/
theorem suffix_of_append_eq {run rest left right : List Nat} {width : Nat}
    (hover : registerWidth < run.sum + width) (hleft : left.sum ≤ registerWidth)
    (h : run ++ width :: rest = left ++ right) : (width :: rest) <:+ right := by
  rcases List.append_eq_append_iff.1 h with ⟨more, rfl, hmore⟩ | ⟨more, -, rfl⟩
  · cases more with
    | nil => exact ⟨[], hmore⟩
    | cons first more =>
      obtain ⟨rfl, -⟩ := List.cons.inj hmore
      rw [List.sum_append, List.sum_cons] at hleft
      omega
  · exact ⟨more, rfl⟩

/-- A tight cut stays ahead: runs that fit a register and together hold at least as much, width
for width, are no fewer. -/
theorem length_le_of_sublistForall₂ (h : TightRuns runs)
    (hle : ∀ other ∈ others, other.sum ≤ registerWidth)
    (hunder : List.SublistForall₂ (· ≤ ·) runs.flatten others.flatten) :
    runs.length ≤ others.length := by
  -- each of the other runs is used up by at most one of ours
  induction others generalizing runs with
  | nil =>
    by_cases hruns : runs = []
    · simp [hruns]
    · cases hflatten : runs.flatten with
      | nil => exact absurd hflatten (h.flatten_ne_nil hruns)
      | cons width rest =>
        rw [hflatten] at hunder
        cases hunder
  | cons other others ih =>
    obtain ⟨hother, hothers⟩ := List.forall_mem_cons.1 hle
    cases h with
    | nil => simp
    | single hne => simp
    | @cons run next width runs hne hover hruns =>
      obtain ⟨left, right, hparts, hleft, hright⟩ := sublistForall₂_append hunder
      have hsum : left.sum ≤ registerWidth := (hleft.sum_le_sum (by simp)).trans hother
      have hsuffix : (width :: (next ++ runs.flatten)) <:+ right :=
        suffix_of_append_eq hover hsum (by simpa using hparts)
      have hrest : List.SublistForall₂ (· ≤ ·) ((width :: next) :: runs).flatten
          others.flatten := by
        have hsub : List.SublistForall₂ (· ≤ ·) (width :: (next ++ runs.flatten)) right :=
          hsuffix.sublist.sublistForall₂
        simpa using IsTrans.trans _ _ _ hsub hright
      have hlength := ih hruns hothers hrest
      simp only [List.length_cons] at hlength ⊢
      omega

/-! ## Counting what the runs hold -/

theorem sum_pos {run : List Nat} (hne : run ≠ []) (hpos : ∀ width ∈ run, 0 < width) :
    0 < run.sum := by
  obtain ⟨width, rest, rfl⟩ := List.exists_cons_of_ne_nil hne
  have hwidth := hpos width List.mem_cons_self
  rw [List.sum_cons]
  omega

theorem sum_flatten_le {bound : Nat} (hle : ∀ other ∈ others, other.sum ≤ bound) :
    others.flatten.sum ≤ bound * others.length := by
  rw [List.sum_flatten, Nat.mul_comm]
  simpa using List.sum_le_card_nsmul (others.map List.sum) bound (by simpa using hle)

/-- Two runs in a row hold more than a register. -/
theorem half_length_lt : ∀ {runs : List (List Nat)}, TightRuns runs → runs ≠ [] →
    (∀ width ∈ runs.flatten, 0 < width) → registerWidth * (runs.length / 2) < runs.flatten.sum
  | [], _, hne, _ => absurd rfl hne
  | [run], .single hrun, _, hpos => by
    have hsum := sum_pos hrun (by simpa using hpos)
    simpa using hsum
  | [_, _], .cons _ hover _, _, _ => by
    simp
    omega
  | _ :: (_ :: _) :: (_ :: _) :: runs, .cons _ hover (.cons _ _ hruns), _, hpos => by
    have hrest := half_length_lt hruns (by simp) fun width hwidth => hpos width (by simp_all)
    have hhalf : (runs.length + 3) / 2 = (runs.length + 1) / 2 + 1 := by omega
    rw [List.length_cons] at hrest
    rw [List.length_cons, List.length_cons, List.length_cons, hhalf, Nat.mul_succ]
    simp only [List.flatten_cons, List.sum_append, List.sum_cons] at hrest ⊢
    omega

/-- If every run that another one follows has a certain weight, the runs together have more than
the weight of all but one.  What is known of a run that is followed: its widths are at least as
large as the one that did not fit it. -/
theorem length_mul_lt {P : Nat → Prop} {weight : Nat → Nat} {full : Nat} (h : TightRuns runs)
    (hne : runs ≠ []) (hsorted : runs.flatten.Pairwise (· ≥ ·))
    (hP : ∀ width ∈ runs.flatten, P width) (hpos : ∀ width, P width → 0 < weight width)
    (hfull : ∀ (run : List Nat) (width : Nat), (∀ w ∈ run, P w ∧ width ≤ w) → P width →
      registerWidth < run.sum + width → full ≤ (run.map weight).sum) :
    full * runs.length < (runs.flatten.map weight).sum + full := by
  induction h with
  | nil => exact absurd rfl hne
  | @single run hrun =>
    have hweights : ∀ value ∈ run.map weight, 0 < value := by
      rw [List.forall_mem_map]
      exact fun width hwidth => hpos width (hP width (by simpa using hwidth))
    have hsum := sum_pos (List.map_eq_nil_iff.not.2 hrun) hweights
    simpa using hsum
  | @cons run next width runs hrun hover hruns ih =>
    rw [List.flatten_cons, List.pairwise_append] at hsorted
    obtain ⟨-, hrest, hcross⟩ := hsorted
    rw [List.flatten_cons, List.forall_mem_append] at hP
    have hlt := ih (by simp) hrest hP.2
    have hle : full ≤ (run.map weight).sum :=
      hfull run width (fun w hw => ⟨hP.1 w hw, hcross w hw width (by simp)⟩)
        (hP.2 width (by simp)) hover
    rw [List.length_cons, List.flatten_cons, List.map_append, List.sum_append, Nat.mul_succ]
    omega

/-! ## Distributions in any order -/

/-- Of two widths that divide a register, the smaller divides the larger. -/
theorem dvd_of_le_of_dvd {width other : Nat} (hwidth : width ∣ registerWidth)
    (hother : other ∣ registerWidth) (hle : width ≤ other) : width ∣ other := by
  obtain ⟨i, -, rfl⟩ := (Nat.dvd_prime_pow (m := 5) Nat.prime_two).1 hwidth
  obtain ⟨j, -, rfl⟩ := (Nat.dvd_prime_pow (m := 5) Nat.prime_two).1 hother
  exact Nat.pow_dvd_pow 2 ((Nat.pow_le_pow_iff_right (by decide)).1 hle)

section

variable (h : TightRuns runs) (hperm : runs.flatten.Perm others.flatten)

include h hperm

/-- Runs of any order that hold the same widths are more than half as many. -/
theorem length_lt_two_mul (hne : runs ≠ []) (hpos : ∀ width ∈ runs.flatten, 0 < width)
    (hle : ∀ other ∈ others, other.sum ≤ registerWidth) : runs.length < 2 * others.length := by
  have hhalf := h.half_length_lt hne hpos
  have hsum : runs.flatten.sum ≤ registerWidth * others.length := by
    rw [hperm.sum_eq]
    exact sum_flatten_le hle
  have hlt := Nat.lt_of_mul_lt_mul_left (hhalf.trans_le hsum)
  omega

/-- Runs of any order that hold the same widths are no fewer if none of them has more than the
weight that every tight run but the last has. -/
theorem length_le_of_weight (P : Nat → Prop) (weight : Nat → Nat) (full : Nat)
    (hsorted : runs.flatten.Pairwise (· ≥ ·)) (hP : ∀ width ∈ runs.flatten, P width)
    (hpos : ∀ width, P width → 0 < weight width)
    (hfull : ∀ (run : List Nat) (width : Nat), (∀ w ∈ run, P w ∧ width ≤ w) → P width →
      registerWidth < run.sum + width → full ≤ (run.map weight).sum)
    (hothers : ∀ other ∈ others, (∀ w ∈ other, P w) → (other.map weight).sum ≤ full) :
    runs.length ≤ others.length := by
  by_cases hne : runs = []
  · simp [hne]
  have hlt := h.length_mul_lt hne hsorted hP hpos hfull
  have hsum : (runs.flatten.map weight).sum ≤ full * others.length := by
    have hbound : ∀ weights ∈ others.map (List.map weight), weights.sum ≤ full := by
      rw [List.forall_mem_map]
      intro other hother
      refine hothers other hother fun w hw => hP w ?_
      exact hperm.mem_iff.2 (List.mem_flatten_of_mem hother hw)
    rw [(hperm.map weight).sum_eq, List.map_flatten]
    simpa using sum_flatten_le hbound
  have hmul : full * runs.length < full * (others.length + 1) := by
    rw [Nat.mul_succ]
    omega
  exact Nat.lt_succ_iff.1 (Nat.lt_of_mul_lt_mul_left hmul)

/-- Widths that divide a register fill every run but the last. -/
theorem length_le_of_dvd (hsorted : runs.flatten.Pairwise (· ≥ ·))
    (hdvd : ∀ width ∈ runs.flatten, width ∣ registerWidth)
    (hle : ∀ other ∈ others, other.sum ≤ registerWidth) : runs.length ≤ others.length := by
  refine h.length_le_of_weight hperm (· ∣ registerWidth) id registerWidth hsorted hdvd ?_ ?_ ?_
  · exact fun width hwidth => Nat.pos_of_dvd_of_pos hwidth (by decide)
  · intro run width hrun hwidth hover
    rw [List.map_id]
    have hsum : width ∣ run.sum := List.dvd_sum fun w hw =>
      dvd_of_le_of_dvd hwidth (hrun w hw).1 (hrun w hw).2
    -- what is left of the register is a multiple of the width and less than it
    by_contra hlt
    have hleft : width ≤ registerWidth - run.sum :=
      Nat.le_of_dvd (by omega) (Nat.dvd_sub hwidth hsum)
    omega
  · intro other hother _
    rw [List.map_id]
    exact hle other hother

/-- Widths of which equally many fit a register fill every run but the last with that many. -/
theorem length_le_of_div_eq (hsorted : runs.flatten.Pairwise (· ≥ ·))
    (hrange : ∀ width ∈ runs.flatten, 0 < width ∧ width ≤ registerWidth) (number : Nat)
    (hdiv : ∀ width ∈ runs.flatten, registerWidth / width = number)
    (hle : ∀ other ∈ others, other.sum ≤ registerWidth) : runs.length ≤ others.length := by
  by_cases hne : runs = []
  · simp [hne]
  have hpos : 0 < number := by
    obtain ⟨width, hwidth⟩ := List.exists_mem_of_ne_nil _ (h.flatten_ne_nil hne)
    rw [← hdiv width hwidth]
    exact Nat.div_pos (hrange width hwidth).2 (hrange width hwidth).1
  refine h.length_le_of_weight hperm (registerWidth / · = number) (fun _ => 1) number hsorted hdiv
    (fun _ _ => Nat.one_pos) ?_ ?_
  · intro run width hrun hwidth hover
    simpa using le_length_of_div_eq (fun w hw => (hrun w hw).1) hwidth hover
  · intro other hother hwidths
    have hsum : other.length * (registerWidth + 1) ≤ other.sum * (number + 1) := by
      have hbound : ∀ value ∈ other.map (· * (number + 1)), registerWidth + 1 ≤ value := by
        rw [List.forall_mem_map]
        intro w hw
        have hw0 : 0 < w := Nat.pos_of_ne_zero fun hzero => by
          have hzero' := hwidths w hw
          simp [hzero] at hzero'
          omega
        rw [← hwidths w hw]
        exact Nat.lt_mul_div_succ registerWidth hw0
      simpa [List.sum_map_mul_right] using List.card_nsmul_le_sum _ (registerWidth + 1) hbound
    by_contra hlt
    have hlength : number < other.length := by simpa using hlt
    have hboth : (registerWidth + 1) * (number + 1) ≤ other.sum * (number + 1) := by
      rw [Nat.mul_comm]
      exact (Nat.mul_le_mul_right _ hlength).trans hsum
    have hover := Nat.le_of_mul_le_mul_right hboth (Nat.succ_pos number)
    exact Nat.not_succ_le_self _ (hover.trans (hle other hother))

end

end TightRuns

end RegMap
