import RegMap.Proofs.Cuts

/-!
# Charging widths for registers

A width of which `n` fit a register is charged the `n`-th part of one.  Where a descending cut
stays with widths of which equally many fit, every run but the last is charged for a whole
register, and there are few widths at which that number changes.  No widths that fit a register
together are charged for much more than one.

* `TightRuns.mul_length_le_charge`: a descending cut has as many runs as its widths are charged
  for, but for a `slack` that does not depend on how many they are.
* `sum_charge_le`: what widths that fit a register can be charged for.
* `TightRuns.mul_length_le`: a descending cut has at most 261/160 times as many runs as
  any distribution of its widths, and less than two and a half more.
-/

namespace RegMap

/-- The charge for a width, in parts of 1/480 of a register. -/
def charge (width : Nat) : Nat :=
  480 / (registerWidth / width)

/-- What a cut whose widths are at most the bound can leave unused, in the same parts: some of the
last register, and some of one for every smaller width of which more fit than of the next. -/
def slack (bound : Nat) : Nat :=
  465 + (((List.range bound).filter fun width =>
    registerWidth / width ≠ registerWidth / (width + 1)).map fun width => 15 * (width - 1)).sum

/-- The largest charge for widths that have so many bits together. -/
def largestCharge (bits : Nat) : Nat :=
  [0, 15, 30, 48, 63, 80, 96, 120, 135, 160, 175, 240, 255, 270, 288, 303, 320, 480, 495, 510, 528,
    543, 560, 576, 600, 615, 640, 655, 720, 735, 750, 768, 783].getD bits 0

/-! ## Charges -/

theorem mul_charge {width : Nat} (hpos : 0 < width) (hle : width ≤ registerWidth) :
    registerWidth / width * charge width = 480 := by
  have hall : ∀ width ≤ 32, 0 < width → 32 / width * charge width = 480 := by decide
  exact hall width hle hpos

/-- Nothing is charged less than its share of the bits. -/
theorem le_charge {width : Nat} (hle : width ≤ registerWidth) : 15 * width ≤ charge width := by
  have hall : ∀ width ≤ 32, 15 * width ≤ charge width := by decide
  exact hall width hle

theorem le_sum_charge {run : List Nat} (hle : ∀ width ∈ run, width ≤ registerWidth) :
    15 * run.sum ≤ (run.map charge).sum := by
  induction run with
  | nil => simp
  | cons width run ih =>
    obtain ⟨hwidth, hrun⟩ := List.forall_mem_cons.1 hle
    have hcharge := le_charge hwidth
    have hrest := ih hrun
    rw [List.map_cons, List.sum_cons, List.sum_cons]
    omega

/-- A run of widths of which equally many fit is charged for a register once it is full. -/
theorem le_sum_charge_of_full {run : List Nat} {width : Nat} (hpos : 0 < width)
    (hle : width ≤ registerWidth)
    (hrun : ∀ other ∈ run, registerWidth / other = registerWidth / width)
    (hover : registerWidth < run.sum + width) : 480 ≤ (run.map charge).sum := by
  have hlength : registerWidth / width ≤ run.length :=
    le_length_of_div_eq hrun rfl hover
  have hcharges : run.map charge = List.replicate run.length (charge width) := by
    rw [List.eq_replicate_iff]
    refine ⟨List.length_map _, ?_⟩
    rw [List.forall_mem_map]
    intro other hother
    rw [charge, charge, hrun other hother]
  calc 480 = registerWidth / width * charge width := (mul_charge hpos hle).symm
    _ ≤ run.length * charge width := Nat.mul_le_mul_right _ hlength
    _ = (run.map charge).sum := by rw [hcharges, List.sum_replicate_nat]

/-- Widths that fit together are charged no more than the table says. -/
theorem sum_charge_le {widths : List Nat} {bits : Nat} (hbits : bits ≤ registerWidth)
    (hle : widths.sum ≤ bits) : (widths.map charge).sum ≤ largestCharge bits := by
  have hall : ∀ bits ≤ 32, ∀ width ≤ bits,
      charge width + largestCharge (bits - width) ≤ largestCharge bits := by decide
  induction widths generalizing bits with
  | nil => simp
  | cons width widths ih =>
    rw [List.sum_cons] at hle
    have hrest : (widths.map charge).sum ≤ largestCharge (bits - width) :=
      ih (by omega) (by omega)
    have hwidth := hall bits hbits width (by omega)
    rw [List.map_cons, List.sum_cons]
    omega

/-! ## Slack -/

theorem slack_mono {width bound : Nat} (h : width ≤ bound) : slack width ≤ slack bound := by
  have hsub := ((List.range_sublist.2 h).filter fun width =>
    registerWidth / width ≠ registerWidth / (width + 1)).map fun width => 15 * (width - 1)
  exact Nat.add_le_add_left (hsub.sum_le_sum (by simp)) _

/-- The last run is charged for something. -/
theorem le_charge_add_slack {width : Nat} (hpos : 0 < width) (hle : width ≤ registerWidth) :
    480 ≤ charge width + slack width := by
  have hall : ∀ width ≤ 32, 0 < width → 480 ≤ charge width + slack width := by decide
  exact hall width hle hpos

/-- Where the number of widths that fit changes, the bits that a run leaves unused are less than
the width that did not fit it. -/
theorem slack_add_le {width bound : Nat} (hbound : bound ≤ registerWidth) (hle : width ≤ bound)
    (hne : registerWidth / width ≠ registerWidth / bound) :
    slack width + 15 * width ≤ slack bound + 15 := by
  have hall : ∀ bound ≤ 32, ∀ width ≤ bound, 32 / width ≠ 32 / bound →
      slack width + 15 * width ≤ slack bound + 15 := by decide
  exact hall bound hbound width hle hne

namespace TightRuns

variable {runs others : List (List Nat)}

/-- What a descending cut is charged for lacks at most the slack. -/
theorem mul_length_le_charge (h : TightRuns runs) (hsorted : runs.flatten.Pairwise (· ≥ ·))
    (hpos : ∀ width ∈ runs.flatten, 0 < width) {bound : Nat} (hbound : bound ≤ registerWidth)
    (hle : ∀ width ∈ runs.flatten, width ≤ bound) :
    480 * runs.length ≤ (runs.flatten.map charge).sum + slack bound := by
  induction h generalizing bound with
  | nil => simp
  | @single run hrun =>
    obtain ⟨width, rest, rfl⟩ := List.exists_cons_of_ne_nil hrun
    have hwidth : width ≤ bound := hle width (by simp)
    have hlast := le_charge_add_slack (hpos width (by simp)) (hwidth.trans hbound)
    have hslack := slack_mono hwidth
    simp only [List.flatten_singleton, List.map_cons, List.sum_cons, List.length_singleton]
    omega
  | @cons run next width runs hrun hover hruns ih =>
    rw [List.flatten_cons, List.pairwise_append] at hsorted
    obtain ⟨-, hrest, hcross⟩ := hsorted
    rw [List.flatten_cons, List.forall_mem_append] at hpos hle
    have hwidth : width ≤ bound := hle.2 width (by simp)
    have hwidth_pos : 0 < width := hpos.2 width (by simp)
    have hbelow : ∀ other ∈ ((width :: next) :: runs).flatten, other ≤ width := by
      intro other hother
      rw [List.flatten_cons, List.cons_append] at hrest hother
      rcases List.mem_cons.1 hother with rfl | hother
      · exact Nat.le_refl _
      · exact (List.pairwise_cons.1 hrest).1 other hother
    have htail := ih hrest hpos.2 (hwidth.trans hbound) hbelow
    rw [List.length_cons, List.flatten_cons, List.map_append, List.sum_append]
    by_cases hsame : registerWidth / width = registerWidth / bound
    · -- the widths of the run are between two of which equally many fit
      have hfit : ∀ other ∈ run, registerWidth / other = registerWidth / width := by
        intro other hother
        have hlow : width ≤ other := hcross other hother width (by simp)
        have hfewer := Nat.div_le_div_left hlow hwidth_pos (a := registerWidth)
        have hmore := Nat.div_le_div_left (hle.1 other hother) (hpos.1 other hother)
          (a := registerWidth)
        omega
      have hfull := le_sum_charge_of_full hwidth_pos (hwidth.trans hbound) hfit hover
      have hslack := slack_mono hwidth
      omega
    · have hshare := le_sum_charge fun other hother => (hle.1 other hother).trans hbound
      have hslack := slack_add_le hbound hwidth hsame
      rw [registerWidth] at hover
      omega

/-- A descending cut has few more runs than any distribution of its widths over registers. -/
theorem mul_length_le (h : TightRuns runs) (hperm : runs.flatten.Perm others.flatten)
    (hsorted : runs.flatten.Pairwise (· ≥ ·))
    (hrange : ∀ width ∈ runs.flatten, 0 < width ∧ width ≤ registerWidth)
    (hle : ∀ other ∈ others, other.sum ≤ registerWidth) :
    160 * runs.length ≤ 261 * others.length + 385 := by
  have hslack : slack registerWidth = 1155 := by decide
  have hlargest : largestCharge registerWidth = 783 := by decide
  have hlength := h.mul_length_le_charge hsorted (fun width hwidth => (hrange width hwidth).1)
    (Nat.le_refl registerWidth) fun width hwidth => (hrange width hwidth).2
  have hcharges : (runs.flatten.map charge).sum ≤ 783 * others.length := by
    have hbound : ∀ charges ∈ others.map (List.map charge), charges.sum ≤ 783 := by
      rw [List.forall_mem_map, ← hlargest]
      exact fun other hother => sum_charge_le (Nat.le_refl _) (hle other hother)
    rw [(hperm.map charge).sum_eq, List.map_flatten]
    simpa using sum_flatten_le hbound
  omega

end TightRuns

end RegMap
