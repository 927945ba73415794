/-!
# Splitting text

A text is cut at every occurrence of a separator. There is always one segment
more than there are separators, and joining the segments with the separator
gives back the text.
-/

namespace RegMap.Text

/-- The segments of a text between separators. -/
def segments (separator : Char) : List Char → List (List Char)
  | [] => [[]]
  | c :: rest =>
    if c = separator then
      [] :: segments separator rest
    else
      match segments separator rest with
      | [] => [[c]]
      | first :: more => (c :: first) :: more

theorem segments_ne_nil (separator : Char) (text : List Char) :
    segments separator text ≠ [] := by
  fun_cases segments separator text <;> simp

theorem join_segments (separator : Char) (text : List Char) :
    [separator].intercalate (segments separator text) = text := by
  fun_induction segments separator text with
  | case1 => rfl
  | case2 rest ih =>
    cases h : segments separator rest with
    | nil => exact absurd h (segments_ne_nil separator rest)
    | cons first more => simpa [h, List.intercalate_cons_cons] using ih
  | case3 c rest _ hnil => exact absurd hnil (segments_ne_nil separator rest)
  | case4 c rest _ first more hcons ih =>
    cases more with
    | nil => simpa [hcons] using ih
    | cons second more => simpa [hcons, List.intercalate_cons_cons] using ih

theorem segments_of_notMem {separator : Char} {text : List Char} (h : separator ∉ text) :
    segments separator text = [text] := by
  induction text with
  | nil => rfl
  | cons c rest ih =>
    rw [List.mem_cons, not_or] at h
    simp [segments, Ne.symm h.1, ih h.2]

/-- What is put behind a text without another separator goes to its last segment. -/
theorem exists_segments_append {separator : Char} {right : List Char} (h : separator ∉ right)
    (left : List Char) :
    ∃ before last, segments separator (left ++ right) = before ++ [last ++ right] := by
  induction left with
  | nil => exact ⟨[], [], segments_of_notMem h⟩
  | cons c rest ih =>
    obtain ⟨before, last, hsegments⟩ := ih
    by_cases hc : c = separator
    · exact ⟨[] :: before, last, by simp [segments, hc, hsegments]⟩
    · cases before with
      | nil => exact ⟨[], c :: last, by simp [segments, hc, hsegments]⟩
      | cons first more => exact ⟨(c :: first) :: more, last, by simp [segments, hc, hsegments]⟩

end RegMap.Text
