import Mathlib.Data.List.Permutation
import RegMap.Proofs.Tiling

/-!
# What the validation of a register finds

The validation goes through the occupants by ascending offset and ends its search for overlaps
behind an occupant at the first one that starts where the occupant stops.  What it has to find is
said here of all pairs of occupants, wherever they lie and in whatever order they are listed.

* `Register.sublist_byOffset_iff`: sorting brings each pair into one order, that of the offsets or,
  at one offset, the old one (`Register.filter_byOffset`).
* `Register.mem_overlappingPairs_iff`: in this order the search misses no pair.
* `Register.mem_findings_iff` says of every finding when it is made, and `Register.exact_validate`
  what is told.
* `Register.safe_of_isEmpty_validate`: what nothing is told about is safe to be wired, as far as it
  lies inside the word.  An occupant above free bits may not, which is not looked at
  (`Register.not_inside_of_isEmpty_validate`).
-/

namespace RegMap

namespace Occupant

instance (occupant : Occupant) : DecidablePred occupant.Covers := fun _ =>
  inferInstanceAs (Decidable (_ ∧ _))

/-- Whether two occupants have a bit in common. -/
def Meets (a b : Occupant) : Prop :=
  ∃ bit, a.Covers bit ∧ b.Covers bit

theorem Meets.symm {a b : Occupant} (h : a.Meets b) : b.Meets a := by
  obtain ⟨bit, ha, hb⟩ := h
  exact ⟨bit, hb, ha⟩

/-- Of two occupants, the one that starts later starts inside the other if they meet. -/
theorem meets_iff {a b : Occupant} (hle : a.offset ≤ b.offset) (hwidth : 0 < b.width.toNat) :
    a.Meets b ↔ b.offset.toNat < a.stop := by
  rw [UInt8.le_iff_toNat_le] at hle
  constructor
  · rintro ⟨bit, hleft, hright⟩
    exact Nat.lt_of_le_of_lt hright.1 hleft.2
  · intro hlt
    refine ⟨b.offset.toNat, ⟨hle, hlt⟩, Nat.le_refl _, ?_⟩
    exact Nat.lt_add_of_pos_right hwidth

/-- The common bits are those from the larger offset on, up to the smaller end. -/
theorem covers_and_covers_iff {a b : Occupant} {bit : Nat} :
    a.Covers bit ∧ b.Covers bit ↔
      max a.offset.toNat b.offset.toNat ≤ bit ∧ bit < min a.stop b.stop := by
  simp only [Covers]
  omega

end Occupant

namespace Register

/-! ## Pairs in order -/

/-- Occupants at two places of a register, by ascending offset.  Those at one offset are in the
order of their places. -/
inductive InOrder (register : Register) (a b : Occupant) : Prop where
  | lower (ha : a ∈ register.occupants) (hb : b ∈ register.occupants) (h : a.offset < b.offset)
  | level (h : a.offset = b.offset) (hplaces : [a, b].Sublist register.occupants)

variable {register : Register} {a b : Occupant}

theorem InOrder.offset_le (h : register.InOrder a b) : a.offset ≤ b.offset := by
  cases h with
  | lower _ _ h => exact UInt8.le_of_lt h
  | level h _ => exact UInt8.le_of_eq h

theorem InOrder.mem (h : register.InOrder a b) :
    a ∈ register.occupants ∧ b ∈ register.occupants := by
  cases h with
  | lower ha hb _ => exact ⟨ha, hb⟩
  | level _ hplaces => exact ⟨hplaces.subset (by simp), hplaces.subset (by simp)⟩

theorem mem_byOffset : a ∈ register.byOffset ↔ a ∈ register.occupants :=
  List.mem_mergeSort

theorem sublist_byOffset_of_pairwise {occupants : List Occupant}
    (hsorted : occupants.Pairwise fun a b => a.offset ≤ b.offset)
    (h : occupants.Sublist register.occupants) : occupants.Sublist register.byOffset := by
  refine List.sublist_mergeSort ?_ ?_ (hsorted.imp fun {a b} hab => by simpa using hab) h
  · simpa using fun a b c : Occupant => UInt8.le_trans
  · simpa using fun a b : Occupant => UInt8.le_total a.offset b.offset

theorem pairwise_byOffset (register : Register) :
    register.byOffset.Pairwise fun a b => a.offset ≤ b.offset := by
  have hsorted : register.byOffset.Pairwise fun a b => decide (a.offset ≤ b.offset) = true :=
    List.pairwise_mergeSort (by simpa using fun a b c : Occupant => UInt8.le_trans)
      (by simpa using fun a b : Occupant => UInt8.le_total a.offset b.offset) register.occupants
  exact hsorted.imp fun {a b} hab => by simpa using hab

/-- Sorting leaves the occupants at one offset as they are. -/
theorem filter_byOffset (register : Register) (offset : UInt8) :
    register.byOffset.filter (·.offset = offset) =
      register.occupants.filter (·.offset = offset) := by
  have hlevel : (register.occupants.filter (·.offset = offset)).Pairwise
      fun a b => a.offset ≤ b.offset := by
    refine List.pairwise_of_forall_mem_list fun a ha b hb => ?_
    have hoffset : a.offset = offset := by simpa using List.of_mem_filter ha
    have hoffset' : b.offset = offset := by simpa using List.of_mem_filter hb
    exact UInt8.le_of_eq (hoffset.trans hoffset'.symm)
  have hsublist := (sublist_byOffset_of_pairwise hlevel List.filter_sublist).filter
    (fun occupant => occupant.offset = offset)
  have hlength := ((List.mergeSort_perm register.occupants fun a b => a.offset ≤ b.offset).filter
    (fun occupant => occupant.offset = offset)).length_eq
  rw [List.filter_filter] at hsublist
  simp only [Bool.and_self] at hsublist
  exact (hsublist.eq_of_length hlength.symm).symm

/-- Different occupants come one before the other. -/
theorem sublist_or_sublist {occupants : List Occupant} (ha : a ∈ occupants) (hb : b ∈ occupants)
    (hne : a ≠ b) : [a, b].Sublist occupants ∨ [b, a].Sublist occupants := by
  obtain ⟨before, behind, rfl⟩ := List.append_of_mem ha
  rw [List.mem_append, List.mem_cons, or_iff_right hne.symm] at hb
  rcases hb with hbefore | hbehind
  · exact .inr ((List.singleton_sublist.2 hbefore).append
      (List.singleton_sublist.2 List.mem_cons_self))
  · exact .inl (((List.singleton_sublist.2 hbehind).cons_cons a).trans
      (List.sublist_append_right before _))

/-- Sorted, the occupants have each pair in its order. -/
theorem sublist_byOffset_iff : [a, b].Sublist register.byOffset ↔ register.InOrder a b := by
  constructor
  · intro h
    have hle := register.pairwise_byOffset.forall_sublist h
    rcases UInt8.lt_or_eq_of_le hle with hlt | heq
    · exact .lower (mem_byOffset.1 (h.subset (by simp))) (mem_byOffset.1 (h.subset (by simp))) hlt
    · refine .level heq ?_
      have hlevel := h.filter (fun occupant => occupant.offset = b.offset)
      rw [filter_byOffset, List.filter_eq_self.2 (by simp [heq])] at hlevel
      exact hlevel.trans List.filter_sublist
  · intro h
    cases h with
    | lower ha hb hlt =>
      have hne : a ≠ b := fun heq => UInt8.ne_of_lt hlt (congrArg Occupant.offset heq)
      rcases sublist_or_sublist (mem_byOffset.2 ha) (mem_byOffset.2 hb) hne with hsublist | hsublist
      · exact hsublist
      · exact absurd (register.pairwise_byOffset.forall_sublist hsublist) (UInt8.not_le.2 hlt)
    | level heq hplaces =>
      refine sublist_byOffset_of_pairwise ?_ hplaces
      simpa using UInt8.le_of_eq heq

/-! ## The search -/

/-- By ascending offset, the occupants up to the first that starts too late are all that start in
time. -/
theorem takeWhile_eq_filter {occupants : List Occupant}
    (hsorted : occupants.Pairwise fun a b => a.offset ≤ b.offset) (stop : Nat) :
    occupants.takeWhile (·.offset.toNat < stop) = occupants.filter (·.offset.toNat < stop) := by
  induction hsorted with
  | nil => rfl
  | @cons next rest hnext _ ih =>
    by_cases hlt : next.offset.toNat < stop
    · simp [hlt, ih]
    · have hlate : ∀ other ∈ rest, stop ≤ other.offset.toNat := fun other hother =>
        (Nat.not_lt.1 hlt).trans (UInt8.le_iff_toNat_le.1 (hnext other hother))
      simpa [hlt] using hlate

/-- Among occupants by ascending offset, the search finds every pair of which the second starts
before the first stops. -/
theorem mem_overlappingPairs_iff {occupants : List Occupant}
    (hsorted : occupants.Pairwise fun a b => a.offset ≤ b.offset) :
    (a, b) ∈ overlappingPairs occupants ↔
      [a, b].Sublist occupants ∧ b.offset.toNat < a.stop := by
  induction hsorted with
  | nil => simp [overlappingPairs]
  | @cons first rest _ hrest ih =>
    rw [overlappingPairs, takeWhile_eq_filter hrest, List.mem_append, ih, List.sublist_cons_iff]
    simp only [List.mem_map, List.mem_filter, decide_eq_true_eq, Prod.mk.injEq, List.cons.injEq]
    constructor
    · rintro (⟨other, ⟨hother, hlt⟩, rfl, rfl⟩ | ⟨hsublist, hlt⟩)
      · exact ⟨.inr ⟨[other], ⟨rfl, rfl⟩, List.singleton_sublist.2 hother⟩, hlt⟩
      · exact ⟨.inl hsublist, hlt⟩
    · rintro ⟨hsublist | ⟨_, ⟨rfl, rfl⟩, hmem⟩, hlt⟩
      · exact .inr ⟨hsublist, hlt⟩
      · exact .inl ⟨b, ⟨List.singleton_sublist.1 hmem, hlt⟩, rfl, rfl⟩

/-- The pairs that are found are those that meet, each in its order. -/
theorem mem_overlappingPairs_byOffset_iff
    (hwidth : ∀ occupant ∈ register.occupants, 0 < occupant.width.toNat) :
    (a, b) ∈ overlappingPairs register.byOffset ↔ register.InOrder a b ∧ a.Meets b := by
  rw [mem_overlappingPairs_iff register.pairwise_byOffset, sublist_byOffset_iff]
  refine and_congr_right fun horder => ?_
  exact (Occupant.meets_iff horder.offset_le (hwidth b horder.mem.2)).symm

/-! ## Findings -/

/-- The last common bit is a 32-bit word that does not wrap, as there is a bit before the end. -/
theorem toNat_lastSharedBit_add_one (h : a.Meets b) :
    (lastSharedBit a b).toNat + 1 = min a.stop b.stop := by
  obtain ⟨bit, hbit⟩ := h
  have hlt : bit < min a.stop b.stop := (Occupant.covers_and_covers_iff.1 hbit).2
  have hoffset : a.offset.toNat < 256 := a.offset.toNat_lt
  have hwidth : a.width.toNat < 256 := a.width.toNat_lt
  have hsmall : min a.stop b.stop < UInt32.size := by
    have hsize : UInt32.size = 4294967296 := rfl
    have hstop : a.stop = a.offset.toNat + a.width.toNat := rfl
    omega
  have hword : (UInt32.ofNat (min a.stop b.stop)).toNat = min a.stop b.stop :=
    UInt32.toNat_ofNat_of_lt hsmall
  have hone : (1 : UInt32) ≤ UInt32.ofNat (min a.stop b.stop) := by
    rw [UInt32.le_iff_toNat_le, hword]
    exact Nat.one_le_of_lt hlt
  rw [lastSharedBit, UInt32.toNat_sub_of_le _ _ hone, hword]
  exact Nat.sub_add_cancel (Nat.one_le_of_lt hlt)

/-- What is wrong with a register, whatever its occupants: together they have too many bits, which
are counted in a 32-bit word, one is of another kind, or two share bits, which are told from the
larger offset to the smaller end. -/
inductive Finds (register : Register) : Finding → Prop where
  | overflow (h : registerWidth < register.bits % UInt32.size) :
      register.Finds (.overflow (register.bits % UInt32.size) registerWidth)
  | mixedAccess {occupant : Occupant} (h : occupant ∈ register.occupants)
      (hne : occupant.replica.access ≠ register.access) :
      register.Finds
        (.mixedAccess occupant.replica.name occupant.replica.access register.access)
  | overlap {a b : Occupant} (h : register.InOrder a b) (hmeets : a.Meets b) :
      register.Finds (.overlap a.replica.name b.replica.name
        s!"{max a.offset.toNat b.offset.toNat}...{min a.stop b.stop - 1}")

theorem overlapFinding_eq (h : register.InOrder a b) (hmeets : a.Meets b) :
    overlapFinding a b = .overlap a.replica.name b.replica.name
      s!"{max a.offset.toNat b.offset.toNat}...{min a.stop b.stop - 1}" := by
  have hfirst : max a.offset.toNat b.offset.toNat = b.offset.toNat :=
    Nat.max_eq_right (UInt8.le_iff_toNat_le.1 h.offset_le)
  have hlast : min a.stop b.stop - 1 = (lastSharedBit a b).toNat := by
    rw [← toNat_lastSharedBit_add_one hmeets, Nat.add_sub_cancel]
  rw [overlapFinding, hfirst, hlast]
  rfl

theorem bits_eq_sum (register : Register) :
    register.bits = (register.occupants.map (·.width.toNat)).sum := rfl

/-- The bits of up to 2²⁴ occupants can be counted in a 32-bit word. -/
theorem bits_lt (h : register.occupants.length ≤ 2 ^ 24) : register.bits < UInt32.size := by
  have hsize : UInt32.size = 4294967296 := rfl
  have hsum : register.bits ≤ register.occupants.length * 255 := by
    rw [bits_eq_sum]
    induction register.occupants with
    | nil => simp
    | cons occupant rest ih =>
      have hwidth : occupant.width.toNat < 256 := occupant.width.toNat_lt
      rw [List.map_cons, List.sum_cons, List.length_cons]
      omega
  omega

theorem mem_findings_iff
    (hwidth : ∀ occupant ∈ register.occupants, 0 < occupant.width.toNat) {finding : Finding} :
    finding ∈ register.findings ↔ register.Finds finding := by
  simp only [findings, List.mem_append, List.mem_ite_nil_right, List.mem_singleton, List.mem_map,
    List.mem_filter, decide_eq_true_eq, Prod.exists, mem_overlappingPairs_byOffset_iff hwidth,
    occupiedBits_eq_mod]
  constructor
  · rintro ((⟨hbits, rfl⟩ | ⟨occupant, ⟨hmem, hne⟩, rfl⟩) | ⟨a, b, ⟨horder, hmeets⟩, rfl⟩)
    · exact .overflow hbits
    · exact .mixedAccess hmem hne
    · rw [overlapFinding_eq horder hmeets]
      exact .overlap horder hmeets
  · intro h
    cases h with
    | overflow h => exact .inl (.inl ⟨h, rfl⟩)
    | mixedAccess h hne => exact .inl (.inr ⟨_, ⟨h, hne⟩, rfl⟩)
    | overlap h hmeets => exact .inr ⟨_, _, ⟨h, hmeets⟩, overlapFinding_eq h hmeets⟩

/-- Occupants that meet have an order, in which they are found. -/
theorem exists_inOrder_iff : (∃ a b, register.InOrder a b ∧ a.Meets b) ↔
    ∃ a b, [a, b].Sublist register.occupants ∧ a.Meets b := by
  constructor
  · rintro ⟨a, b, horder, hmeets⟩
    cases horder with
    | lower ha hb hlt =>
      have hne : a ≠ b := fun heq => UInt8.ne_of_lt hlt (congrArg Occupant.offset heq)
      rcases sublist_or_sublist ha hb hne with hsublist | hsublist
      · exact ⟨a, b, hsublist, hmeets⟩
      · exact ⟨b, a, hsublist, hmeets.symm⟩
    | level _ hplaces => exact ⟨a, b, hplaces, hmeets⟩
  · rintro ⟨a, b, hplaces, hmeets⟩
    have ha : a ∈ register.occupants := hplaces.subset (by simp)
    have hb : b ∈ register.occupants := hplaces.subset (by simp)
    by_cases heq : a.offset = b.offset
    · exact ⟨a, b, .level heq hplaces, hmeets⟩
    · rcases UInt8.lt_or_lt_of_ne heq with hlt | hlt
      · exact ⟨a, b, .lower ha hb hlt, hmeets⟩
      · exact ⟨b, a, .lower hb ha hlt, hmeets.symm⟩

/-! ## What is told -/

theorem mem_validate_iff (palette : Palette) (context : Context)
    (hwidth : ∀ occupant ∈ register.occupants, 0 < occupant.width.toNat) {diagnostic : Diagnostic} :
    diagnostic ∈ register.validate palette context ↔ ∃ finding, register.Finds finding ∧
      diagnostic =
        finding.at palette (context.push (Context.registerSegment register.address)) := by
  have hmem : diagnostic ∈ register.validate palette context ↔
      diagnostic ∈ (register.validate palette context).toList := Iff.rfl
  rw [hmem, validate, Diagnostics.mem_ofList, List.mem_map]
  refine exists_congr fun finding => ?_
  rw [mem_findings_iff hwidth, eq_comm]

/-- A kind of finding is told exactly if there is a finding of this kind. -/
theorem exists_kind_iff (palette : Palette) (context : Context)
    (hwidth : ∀ occupant ∈ register.occupants, 0 < occupant.width.toNat) (kind : Kind) :
    (∃ diagnostic, diagnostic ∈ register.validate palette context ∧ diagnostic.kind = kind) ↔
      ∃ finding, register.Finds finding ∧ finding.kind = kind := by
  simp only [mem_validate_iff palette context hwidth]
  constructor
  · rintro ⟨_, ⟨finding, hfinds, rfl⟩, hkind⟩
    exact ⟨finding, hfinds, hkind⟩
  · rintro ⟨finding, hfinds, hkind⟩
    exact ⟨_, ⟨finding, hfinds, rfl⟩, hkind⟩

/-- What is told about a register: every finding, in the register's place, and nothing else.  So
all occupants that meet are told, and the bits that they share reach to the one that is told as the
last, which is not cut to a word.  Bits beyond the word are told unless there are so many that the
32-bit word in which they are counted wraps, which takes more than 2²⁴ occupants. -/
structure Exact (register : Register) (palette : Palette) (context : Context) : Prop where
  mem_validate_iff : ∀ diagnostic, diagnostic ∈ register.validate palette context ↔
    ∃ finding, register.Finds finding ∧
      diagnostic = finding.at palette (context.push (Context.registerSegment register.address))
  overflow_iff :
    (∃ diagnostic, diagnostic ∈ register.validate palette context ∧
      diagnostic.kind = .overflow) ↔
    registerWidth < register.bits % UInt32.size
  overflow_iff_of_lt : register.bits < UInt32.size →
    ((∃ diagnostic, diagnostic ∈ register.validate palette context ∧
      diagnostic.kind = .overflow) ↔
    registerWidth < (register.occupants.map (·.width.toNat)).sum)
  bits_lt : register.occupants.length ≤ 2 ^ 24 → register.bits < UInt32.size
  mixedAccess_iff :
    (∃ diagnostic, diagnostic ∈ register.validate palette context ∧
      diagnostic.kind = .mixedAccess) ↔
    ∃ occupant ∈ register.occupants, occupant.replica.access ≠ register.access
  overlap_iff :
    (∃ diagnostic, diagnostic ∈ register.validate palette context ∧
      diagnostic.kind = .overlap) ↔
    ∃ a b, [a, b].Sublist register.occupants ∧ a.Meets b
  covers_iff : ∀ a b : Occupant, a.Meets b → ∀ bit, a.Covers bit ∧ b.Covers bit ↔
    max a.offset.toNat b.offset.toNat ≤ bit ∧ bit ≤ (lastSharedBit a b).toNat

/-- A register that overflows is told unless its bits cannot be counted. -/
theorem overflow_iff (palette : Palette) (context : Context)
    (hwidth : ∀ occupant ∈ register.occupants, 0 < occupant.width.toNat) :
    (∃ diagnostic, diagnostic ∈ register.validate palette context ∧ diagnostic.kind = .overflow) ↔
      registerWidth < register.bits % UInt32.size := by
  rw [exists_kind_iff palette context hwidth]
  constructor
  · intro ⟨finding, hfinds, hkind⟩
    cases hfinds with
    | overflow h => exact h
    | mixedAccess => cases hkind
    | overlap => cases hkind
  · intro h
    exact ⟨_, .overflow h, rfl⟩

/-- Whether an occupant of the register has a bit. -/
def Holds (register : Register) (bit : Nat) : Prop :=
  ∃ occupant ∈ register.occupants, occupant.Covers bit

instance (register : Register) : DecidablePred register.Holds := fun _ =>
  inferInstanceAs (Decidable (∃ occupant ∈ register.occupants, _))

/-- How many of the bits below one no occupant has. -/
def freeBelow (register : Register) (bit : Nat) : Nat :=
  (List.range bit).countP fun lower => ¬register.Holds lower

/-- The bits of all occupants, one after the other. -/
def held (register : Register) : List Nat :=
  register.occupants.flatMap fun occupant =>
    List.range' occupant.offset.toNat occupant.width.toNat

theorem mem_held {bit : Nat} : bit ∈ register.held ↔ register.Holds bit := by
  simp only [held, Holds, List.mem_flatMap, List.mem_range'_1, Occupant.Covers, Occupant.stop]

theorem length_held (register : Register) : register.held.length = register.bits := by
  simp [held, bits_eq_sum]

/-- Occupants that have their bits for themselves have few, as offsets and widths are octets. -/
theorem bits_lt_of_apart (h : register.occupants.Pairwise fun a b => ¬a.Meets b) :
    register.bits < UInt32.size := by
  have hnodup : register.held.Nodup := by
    refine List.nodup_flatMap.2 ⟨fun _ _ => List.nodup_range', h.imp fun hapart bit ha hb => ?_⟩
    exact hapart ⟨bit, List.mem_range'_1.1 ha, List.mem_range'_1.1 hb⟩
  have hsubset : register.held ⊆ List.range 510 := by
    intro bit hbit
    obtain ⟨occupant, -, -, hstop⟩ := mem_held.1 hbit
    have hoffset : occupant.offset.toNat < 256 := occupant.offset.toNat_lt
    have hwidth : occupant.width.toNat < 256 := occupant.width.toNat_lt
    unfold Occupant.stop at hstop
    rw [List.mem_range]
    omega
  calc register.bits = register.held.length := register.length_held.symm
    _ ≤ (List.range 510).length := hnodup.length_le_of_subset hsubset
    _ = 510 := List.length_range
    _ < UInt32.size := by decide

/-- Of the bits below one, no more are held than the occupants have together. -/
theorem countP_holds_le (register : Register) (bit : Nat) :
    (List.range bit).countP (fun lower => register.Holds lower) ≤ register.bits := by
  have hsubset : (List.range bit).filter (fun lower => register.Holds lower) ⊆ register.held := by
    intro lower hlower
    exact mem_held.2 (by simpa using List.of_mem_filter hlower)
  rw [List.countP_eq_length_filter, ← length_held]
  exact (List.nodup_range.filter _).length_le_of_subset hsubset

theorem le_bits_add_freeBelow (register : Register) (bit : Nat) :
    bit ≤ register.bits + register.freeBelow bit := by
  have hsplit := List.length_eq_countP_add_countP (fun lower => decide (register.Holds lower))
    (l := List.range bit)
  have hheld := register.countP_holds_le bit
  simp only [List.length_range, decide_eq_true_eq] at hsplit
  unfold freeBelow
  omega

/-- The occupants have bits of their own and the register's kind, and together they fit a word.
An occupant ends behind the word by as many bits at most as are free below its end: one that has no
free bits below it lies inside the word. -/
structure Safe (register : Register) : Prop where
  bits_le : (register.occupants.map (·.width.toNat)).sum ≤ registerWidth
  access_eq : ∀ occupant ∈ register.occupants, occupant.replica.access = register.access
  apart : register.occupants.Pairwise fun a b => ¬a.Meets b
  stop_le : ∀ occupant ∈ register.occupants,
    occupant.stop ≤ registerWidth + register.freeBelow occupant.stop

/-- A register about which nothing is told is safe. -/
theorem safe_of_isEmpty_validate {palette : Palette} {context : Context}
    (hwidth : ∀ occupant ∈ register.occupants, 0 < occupant.width.toNat)
    (h : (register.validate palette context).isEmpty = true) : register.Safe := by
  have hnone : ∀ finding, ¬register.Finds finding := by
    intro finding hfinds
    have hmem := (mem_validate_iff palette context hwidth).2 ⟨finding, hfinds, rfl⟩
    rw [Diagnostics.isEmpty, List.isEmpty_iff] at h
    exact List.ne_nil_of_mem hmem h
  have hapart : register.occupants.Pairwise fun a b => ¬a.Meets b := by
    refine List.pairwise_iff_forall_sublist.2 fun {a b} hplaces hmeets => ?_
    obtain ⟨a, b, horder, hmeets⟩ := exists_inOrder_iff.2 ⟨a, b, hplaces, hmeets⟩
    exact hnone _ (.overlap horder hmeets)
  -- bits that are counted right, as no two occupants share one
  have hcounted : register.bits % UInt32.size = register.bits :=
    Nat.mod_eq_of_lt (bits_lt_of_apart hapart)
  have hbits : register.bits ≤ registerWidth := by
    rw [← hcounted]
    exact Nat.not_lt.1 fun hlt => hnone _ (.overflow hlt)
  refine ⟨hbits, ?_, hapart, ?_⟩
  · intro occupant hmem
    by_contra hne
    exact hnone _ (.mixedAccess hmem hne)
  · intro occupant _
    exact (register.le_bits_add_freeBelow occupant.stop).trans (Nat.add_le_add_right hbits _)

/-- Occupants of one kind with free bits between them, of which the last one ends with the word. -/
theorem safe_of_isEmpty_validate_gaps :
    let lane : Declaration := ⟨0, ⟨"lane", 4, .readOnly, 3⟩⟩
    let register : Register :=
      ⟨0, .readOnly, [⟨⟨lane, 1⟩, 28, 4⟩, ⟨⟨lane, 0⟩, 0, 4⟩, ⟨⟨lane, 2⟩, 8, 4⟩]⟩
    (∀ occupant ∈ register.occupants, 0 < occupant.width.toNat) ∧
      (register.validate .plain .root).isEmpty = true ∧ register.Safe := by
  intro lane register
  have hwidth : ∀ occupant ∈ register.occupants, 0 < occupant.width.toNat := by decide
  have hvalidate : (register.validate .plain .root).isEmpty = true := by cbv
  exact ⟨hwidth, hvalidate, safe_of_isEmpty_validate hwidth hvalidate⟩

/-- Nothing is told about an occupant behind the word. -/
theorem not_inside_of_isEmpty_validate :
    let high : Declaration := ⟨0, ⟨"high", 1, .readWrite, 1⟩⟩
    let register : Register := ⟨0, .readWrite, [⟨⟨high, 0⟩, 40, 1⟩]⟩
    (∀ occupant ∈ register.occupants, 0 < occupant.width.toNat) ∧
      (register.validate .plain .root).isEmpty = true ∧
        ¬∀ occupant ∈ register.occupants, occupant.stop ≤ registerWidth := by
  decide +kernel

end Register

end RegMap
