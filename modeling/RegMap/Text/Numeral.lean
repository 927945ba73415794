/-!
# Numerals

Natural numbers written as digits in some base up to 16, most significant digit
first.
-/

namespace RegMap.Text

/-- The value of a character as a digit. Letters of both cases count from ten. -/
def digitValue? (c : Char) : Option Nat :=
  if '0' ≤ c ∧ c ≤ '9' then some (c.toNat - '0'.toNat)
  else if 'a' ≤ c ∧ c ≤ 'f' then some (c.toNat - 'a'.toNat + 10)
  else if 'A' ≤ c ∧ c ≤ 'F' then some (c.toNat - 'A'.toNat + 10)
  else none

/-- The value of a character as a digit of a base. -/
def digit? (base : Nat) (c : Char) : Option Nat :=
  (digitValue? c).filter (· < base)

/-- Reads on from the value of the digits so far. -/
def numeralFrom? (base : Nat) : Nat → List Char → Option Nat
  | value, [] => some value
  | value, c :: rest =>
    match digit? base c with
    | some digit => numeralFrom? base (value * base + digit) rest
    | none => none

/-- The number that digits of a base stand for. There has to be one at least. -/
def numeral? (base : Nat) : List Char → Option Nat
  | [] => none
  | digits => numeralFrom? base 0 digits

theorem numeralFrom?_append (base value : Nat) (left right : List Char) :
    numeralFrom? base value (left ++ right) =
      (numeralFrom? base value left).bind fun value => numeralFrom? base value right := by
  induction left generalizing value with
  | nil => rfl
  | cons c rest ih =>
    rw [List.cons_append, numeralFrom?, numeralFrom?]
    cases digit? base c with
    | none => rfl
    | some digit => exact ih (value * base + digit)

theorem digit?_digitChar {base digit : Nat} (hbase : base ≤ 16) (h : digit < base) :
    digit? base digit.digitChar = some digit := by
  have hvalue : ∀ n < 16, digitValue? (Nat.digitChar n) = some n := by decide
  unfold digit?
  rw [hvalue digit (by omega)]
  simp [h]

/-- Zeros in front of a number do not count. -/
theorem numeralFrom?_zeros {base : Nat} (hbase : 0 < base) (count : Nat) (rest : List Char) :
    numeralFrom? base 0 (List.replicate count '0' ++ rest) = numeralFrom? base 0 rest := by
  have hzero : digit? base '0' = some 0 := by
    simp [digit?, digitValue?, hbase]
  induction count with
  | zero => rfl
  | succ count ih =>
    rw [List.replicate_succ, List.cons_append, numeralFrom?, hzero]
    simpa using ih

/-- The digits of a number stand for it. -/
theorem numeralFrom?_toDigits {base : Nat} (hbase : 1 < base) (hlimit : base ≤ 16) (n : Nat) :
    numeralFrom? base 0 (Nat.toDigits base n) = some n := by
  induction n using Nat.strongRecOn with
  | ind n ih =>
    by_cases hlt : n < base
    · rw [Nat.toDigits_of_lt_base hlt]
      simp [numeralFrom?, digit?_digitChar hlimit hlt]
    · have hle : base ≤ n := by omega
      have hmod : n % base < base := Nat.mod_lt n (by omega)
      rw [Nat.toDigits_of_base_le hbase hle, numeralFrom?_append,
        ih (n / base) (Nat.div_lt_self (by omega) hbase)]
      simp [numeralFrom?, digit?_digitChar hlimit hmod, Nat.div_add_mod']

/-- Nothing but digits is in the digits of a number. -/
theorem notMem_toDigits {base : Nat} (hbase : 1 < base) (hlimit : base ≤ 16) {c : Char}
    (hc : digitValue? c = none) (n : Nat) : c ∉ Nat.toDigits base n := by
  have hdigit : digit? base c = none := by
    unfold digit?
    rw [hc]
    rfl
  intro hmem
  obtain ⟨before, behind, hdigits⟩ := List.append_of_mem hmem
  have hvalue := numeralFrom?_toDigits hbase hlimit n
  rw [hdigits, numeralFrom?_append] at hvalue
  simp [numeralFrom?, hdigit] at hvalue

theorem numeral?_toDigits {base : Nat} (hbase : 1 < base) (hlimit : base ≤ 16) (count n : Nat) :
    numeral? base (List.replicate count '0' ++ Nat.toDigits base n) = some n := by
  have hne : List.replicate count '0' ++ Nat.toDigits base n ≠ [] := by
    simp [Nat.toDigits_ne_nil]
  unfold numeral?
  split
  · contradiction
  · rw [numeralFrom?_zeros (by omega), numeralFrom?_toDigits hbase hlimit]

end RegMap.Text
