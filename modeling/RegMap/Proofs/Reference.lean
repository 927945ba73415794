import Mathlib.Data.List.Basic
import RegMap.Text.Numeral
import RegMap.Wrapper

/-!
# References to signals

Both sides of an assignment are texts.  One is an element of a field's port, `name`
or `name[n]`; the other is a slice of an engine's word, `csri[w][m:l]`.  Theorems
about the bits that are driven need the way back from the text.

* `Verilog.signalName` is the name in front of the first bracket, which is all of
  an identifier (`signalName_element`, `signalName_text`).
* `PartSelect` is a slice as numbers, and `PartSelect.text_injective` says that two
  slices with one text are one slice.
* `Port.number_of_element_eq` does the same for the elements of an array.
-/

namespace RegMap

/-- The name of the signal that a text refers to. -/
def Verilog.signalName (text : String) : String :=
  String.ofList (text.toList.takeWhile (· ≠ '['))

/-- The bits `msb` down to `lsb` of a word. -/
structure PartSelect where
  words : WordArray
  word : Nat
  msb : Nat
  lsb : Nat

namespace PartSelect

/-- A slice as it stands in an assignment. -/
def text (select : PartSelect) : String :=
  s!"{select.words.ident}[{select.word}][{select.msb}:{select.lsb}]"

/-- Whether a slice has a bit of a word. -/
def Covers (select : PartSelect) (word bit : Nat) : Prop :=
  select.word = word ∧ select.lsb ≤ bit ∧ bit ≤ select.msb

end PartSelect

namespace Verilog

/-! ## Texts with brackets -/

private theorem append_cons_inj {left left' right right' : List Char} {c : Char}
    (hleft : c ∉ left) (hleft' : c ∉ left') :
    left ++ c :: right = left' ++ c :: right' ↔ left = left' ∧ right = right' := by
  induction left generalizing left' with
  | nil =>
    cases left' with
    | nil => simp
    | cons head rest =>
      have hne : c ≠ head := fun heq => hleft' (by simp [heq])
      simp [hne]
  | cons head rest ih =>
    cases left' with
    | nil =>
      have hne : head ≠ c := fun heq => hleft (by simp [heq])
      simp [hne]
    | cons head' rest' =>
      have hrest := ih (fun h => hleft (.tail _ h)) (fun h => hleft' (.tail _ h))
      simp only [List.cons_append, List.cons.injEq, hrest, and_assoc]

private theorem toDigits_injective {m n : Nat} (h : Nat.toDigits 10 m = Nat.toDigits 10 n) :
    m = n := by
  rw [← Nat.ofDigitChars_ten_toDigits (n := m), h, Nat.ofDigitChars_ten_toDigits]

theorem signalName_append {name : String} (h : '[' ∉ name.toList) {rest : List Char}
    (hrest : ∀ c ∈ rest.head?, c = '[') :
    signalName (String.ofList (name.toList ++ rest)) = name := by
  have hname : ∀ c ∈ name.toList, (decide (c ≠ '[')) = true := by
    intro c hc
    rw [decide_eq_true_eq]
    intro heq
    subst heq
    exact h hc
  rw [signalName, String.toList_ofList, List.takeWhile_append_of_pos hname]
  cases rest with
  | nil => simp
  | cons c rest =>
    obtain rfl := hrest c rfl
    simp

theorem notMem_of_isIdentifier {name : List Char} (h : Vlnv.isIdentifier name) :
    '[' ∉ name := by
  cases name with
  | nil => simp
  | cons c rest =>
    rw [Vlnv.isIdentifier, Bool.and_eq_true, List.all_eq_true] at h
    rw [List.mem_cons, not_or]
    refine ⟨?_, fun hmem => ?_⟩
    · intro heq
      subst heq
      exact absurd h.1 (by decide)
    · exact absurd (h.2 _ hmem) (by decide)

end Verilog

open Verilog

/-! ## Slices -/

namespace PartSelect

theorem toList_text (select : PartSelect) :
    select.text.toList = select.words.ident.toList ++
      '[' :: (Nat.toDigits 10 select.word ++ ']' ::
        '[' :: (Nat.toDigits 10 select.msb ++ ':' ::
          (Nat.toDigits 10 select.lsb ++ [']']))) := by
  simp [text, toString, Nat.toList_repr]

theorem bracket_notMem_ident (words : WordArray) : '[' ∉ words.ident.toList := by
  cases words <;> decide

theorem ident_injective {words words' : WordArray}
    (h : words.ident.toList = words'.ident.toList) : words = words' := by
  revert h
  cases words <;> cases words' <;> decide

theorem text_injective {select select' : PartSelect} (h : select.text = select'.text) :
    select = select' := by
  have hdigits {c : Char} (hc : Text.digitValue? c = none) (n : Nat) : c ∉ Nat.toDigits 10 n :=
    Text.notMem_toDigits (by omega) (by omega) hc n
  have hlist := congrArg String.toList h
  rw [toList_text, toList_text,
    append_cons_inj (bracket_notMem_ident _) (bracket_notMem_ident _),
    append_cons_inj (hdigits (by decide) _) (hdigits (by decide) _), List.cons.injEq,
    append_cons_inj (hdigits (by decide) _) (hdigits (by decide) _),
    List.append_cancel_right_eq] at hlist
  obtain ⟨hwords, hword, -, hmsb, hlsb⟩ := hlist
  obtain ⟨words, word, msb, lsb⟩ := select
  obtain ⟨words', word', msb', lsb'⟩ := select'
  obtain rfl := ident_injective hwords
  obtain rfl := toDigits_injective hword
  obtain rfl := toDigits_injective hmsb
  obtain rfl := toDigits_injective hlsb
  rfl

theorem signalName_text (select : PartSelect) : signalName select.text = select.words.ident := by
  have htext := String.ofList_toList (s := select.text)
  rw [toList_text] at htext
  rw [← htext]
  exact signalName_append (bracket_notMem_ident _) (by simp)

end PartSelect

/-! ## Elements of ports -/

namespace Port

theorem element_of_count_le {port : Port} (h : ¬port.count > 1) (number : UInt32) :
    port.element number = port.ident := by
  rw [element, if_neg h]

theorem toList_element {port : Port} (h : port.count > 1) (number : UInt32) :
    (port.element number).toList =
      port.ident.toList ++ '[' :: (Nat.toDigits 10 number.toNat ++ [']']) := by
  rw [element, if_pos h]
  simp [toString, Nat.toList_repr]

theorem signalName_element {port : Port} (h : '[' ∉ port.ident.toList) (number : UInt32) :
    signalName (port.element number) = port.ident := by
  by_cases hcount : port.count > 1
  · have htext := String.ofList_toList (s := port.element number)
    rw [toList_element hcount] at htext
    rw [← htext]
    exact signalName_append h (by simp)
  · rw [element_of_count_le hcount]
    have hname : signalName (String.ofList (port.ident.toList ++ [])) = port.ident :=
      signalName_append h (by simp)
    rwa [List.append_nil, String.ofList_toList] at hname

/-- Different elements of an array have different texts. -/
theorem number_of_element_eq {port : Port} (hcount : port.count > 1) {a b : UInt32}
    (h : port.element a = port.element b) : a = b := by
  have hlist := congrArg String.toList h
  rw [toList_element hcount, toList_element hcount, List.append_cancel_left_eq, List.cons.injEq,
    List.append_cancel_right_eq] at hlist
  exact UInt32.toNat_inj.1 (toDigits_injective hlist.2)

end Port

end RegMap
