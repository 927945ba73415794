import Mathlib.Algebra.Group.Int.Defs
import RegMap.Proofs.Properties

/-!
# Which properties violate what

A declaration is all or nothing: either each of its properties respects its constraints, and then
the last value of each attribute counts, or all that are violated are told.

* `Attribute.Sets` and `Attribute.Violates` say of one property what it sets, or what is wrong with
  it (`Attribute.ofProperty_of_sets`, `Attribute.ofProperty_of_violates`).
* `Field.Declared.set` follows the attributes of a field while they are set one after the other,
  and `Field.declared_foldl_set` through all of them.
* `Field.tells_findings`: a finding for every violating property, in order.
* `Field.allOrNothing_ofProperties` puts both outcomes together.
-/

namespace RegMap

/-! ## Single properties -/

namespace Attribute

/-- What a property sets that respects its constraints: a width from 1 to 32, the access kind of a
keyword, or a count from 1 to 2³² - 1. -/
inductive Sets : String × Property → Attribute → Prop where
  | width {value : Int} {word : UInt8} (hpos : 1 ≤ value) (hle : value ≤ 32)
      (hword : word.toNat = value) : Sets ("width", .integer value) (.width word)
  | access (kind : Access) : Sets ("type", .text kind.keyword) (.access kind)
  | count {value : Int} {word : UInt32} (hpos : 1 ≤ value) (hlt : value < 2 ^ 32)
      (hword : word.toNat = value) : Sets ("count", .integer value) (.count word)

/-- What is wrong with a property that violates a constraint.  Of a known key first the sort of the
value counts, then the value. -/
inductive Violates : String × Property → Finding → Prop where
  | tooWide {value : Int} (h : 32 < value) :
      Violates ("width", .integer value) (.widthExceeded value 32)
  | tooNarrow {value : Int} (h : value < 1) :
      Violates ("width", .integer value) (.zeroWidth value 32)
  | noKeyword {text : String} (h : text ∉ ["ro", "rw", "wo", "w1c"]) :
      Violates ("type", .text text) (.invalidAccess text)
  | noCount {value : Int} (h : value < 1 ∨ 2 ^ 32 ≤ value) :
      Violates ("count", .integer value) (.zeroCount value)
  | noInteger {key : String} {value : Property} (hkey : key = "width" ∨ key = "count")
      (h : ∀ number, value ≠ .integer number) :
      Violates (key, value) (.invalidProperty key "an integer" value.describe)
  | noText {value : Property} (h : ∀ text, value ≠ .text text) :
      Violates ("type", value) (.invalidProperty "type" "an access type" value.describe)
  | unknown {key : String} (h : key ∉ ["width", "type", "count"]) (value : Property) :
      Violates (key, value) (.unknownProperty key ["width", "type", "count"])

theorem ofKeyword?_eq_none_iff {text : String} :
    Access.ofKeyword? text = none ↔ text ∉ ["ro", "rw", "wo", "w1c"] := by
  change List.find? (fun access : Access => access.keyword == text) Access.all = none ↔
    text ∉ Access.all.map Access.keyword
  simp [List.find?_eq_none]

theorem ofProperty_of_sets {property : String × Property} {attr : Attribute}
    (h : Sets property attr) : ofProperty property.1 property.2 = .ok attr := by
  cases h with
  | @width value word hpos hle hword =>
    have hvalue : UInt8.ofNat value.toNat = word := by
      rw [← hword]
      simp
    have hlimit : (registerWidth : Int) = 32 := rfl
    simp only [ofProperty]
    rw [if_neg (by omega), if_neg (by omega), hvalue]
  | access kind => simp only [ofProperty, Access.ofKeyword?_keyword]
  | @count value word hpos hlt hword =>
    have hvalue : UInt32.ofNat value.toNat = word := by
      rw [← hword]
      simp
    simp only [ofProperty]
    rw [if_pos ⟨hpos, by simpa using hlt⟩, hvalue]

theorem ofProperty_of_violates {property : String × Property} {finding : Finding}
    (h : Violates property finding) : ofProperty property.1 property.2 = .error finding := by
  have hlimit : (registerWidth : Int) = 32 := rfl
  cases h with
  | tooWide h =>
    simp only [ofProperty]
    rw [if_pos (by omega)]
    rfl
  | tooNarrow h =>
    simp only [ofProperty]
    rw [if_neg (by omega), if_pos h]
    rfl
  | noKeyword h => simp only [ofProperty, ofKeyword?_eq_none_iff.2 h]
  | noCount h =>
    have hsize : (UInt32.size : Int) = 4294967296 := rfl
    simp only [ofProperty]
    rw [if_neg (by omega)]
  | @noInteger key value hkey h =>
    rcases hkey with rfl | rfl <;> cases value with
    | integer number => exact absurd rfl (h number)
    | text _ => rfl
    | other _ => rfl
  | @noText value h =>
    cases value with
    | integer _ => rfl
    | text text => exact absurd rfl (h text)
    | other _ => rfl
  | @unknown key h value =>
    simp only [List.mem_cons, List.not_mem_nil, or_false, not_or] at h
    obtain ⟨hwidth, htype, hcount⟩ := h
    rw [ofProperty.eq_def]
    split <;> first | rfl | contradiction

/-- Every property sets something or violates something. -/
theorem sets_or_violates (property : String × Property) :
    (∃ attr, Sets property attr) ∨ ∃ finding, Violates property finding := by
  obtain ⟨key, value⟩ := property
  by_cases hkey : key ∈ ["width", "type", "count"]
  · simp only [List.mem_cons, List.not_mem_nil, or_false] at hkey
    rcases hkey with rfl | rfl | rfl
    · cases value with
      | integer value =>
        by_cases hwide : 32 < value
        · exact .inr ⟨_, .tooWide hwide⟩
        · by_cases hnarrow : value < 1
          · exact .inr ⟨_, .tooNarrow hnarrow⟩
          · have hword : (UInt8.ofNat value.toNat).toNat = value := by
              rw [UInt8.toNat_ofNat']
              omega
            exact .inl ⟨_, .width (Int.not_lt.1 hnarrow) (Int.not_lt.1 hwide) hword⟩
      | text _ => exact .inr ⟨_, .noInteger (.inl rfl) nofun⟩
      | other _ => exact .inr ⟨_, .noInteger (.inl rfl) nofun⟩
    · cases value with
      | text text =>
        by_cases hkeyword : text ∈ ["ro", "rw", "wo", "w1c"]
        · have hkind : text ∈ Access.all.map Access.keyword := hkeyword
          obtain ⟨kind, -, rfl⟩ := List.mem_map.1 hkind
          exact .inl ⟨_, .access kind⟩
        · exact .inr ⟨_, .noKeyword hkeyword⟩
      | integer _ => exact .inr ⟨_, .noText nofun⟩
      | other _ => exact .inr ⟨_, .noText nofun⟩
    · cases value with
      | integer value =>
        by_cases hcount : value < 1 ∨ 2 ^ 32 ≤ value
        · exact .inr ⟨_, .noCount hcount⟩
        · rw [not_or, Int.not_lt, Int.not_le] at hcount
          have hword : (UInt32.ofNat value.toNat).toNat = value := by
            rw [UInt32.toNat_ofNat']
            omega
          exact .inl ⟨_, .count hcount.1 hcount.2 hword⟩
      | text _ => exact .inr ⟨_, .noInteger (.inr rfl) nofun⟩
      | other _ => exact .inr ⟨_, .noInteger (.inr rfl) nofun⟩
  · exact .inr ⟨_, .unknown hkey value⟩

theorem Violates.not_sets {property : String × Property} {finding : Finding}
    (h : Violates property finding) {attr : Attribute} : ¬Sets property attr := by
  intro hsets
  cases (ofProperty_of_violates h).symm.trans (ofProperty_of_sets hsets)

theorem Violates.unique {property : String × Property} {left right : Finding}
    (hleft : Violates property left) (hright : Violates property right) : left = right :=
  Except.error.inj ((ofProperty_of_violates hleft).symm.trans (ofProperty_of_violates hright))

end Attribute

/-! ## Fields -/

namespace Field

open Attribute (Sets Violates)

variable {palette : Palette} {ident : String} {properties : List (String × Property)}

/-- The last value that is given for a key. -/
def last? (key : String) (properties : List (String × Property)) : Option Property :=
  properties.reverse.lookup key

/-- Each attribute of a field is the last one that properties give, or else its default. -/
structure Declared (field : Field) (ident : String) (properties : List (String × Property)) :
    Prop where
  ident_eq : field.ident = ident
  width_eq : .integer field.width.toNat = (last? "width" properties).getD (.integer 32)
  access_eq : .text field.access.keyword = (last? "type" properties).getD (.text "rw")
  count_eq : .integer field.count.toNat = (last? "count" properties).getD (.integer 1)

/-- What is told of properties: of every one that violates a constraint what is wrong with it, in
order. -/
inductive Tells : List (String × Property) → List Finding → Prop where
  | nil : Tells [] []
  | sets {property : String × Property} {attr : Attribute} {rest : List (String × Property)}
      {told : List Finding} (h : Sets property attr) (hrest : Tells rest told) :
      Tells (property :: rest) told
  | violates {property : String × Property} {finding : Finding}
      {rest : List (String × Property)} {told : List Finding} (h : Violates property finding)
      (hrest : Tells rest told) : Tells (property :: rest) (finding :: told)

theorem last?_append_singleton (key : String) (property : String × Property) :
    last? key (properties ++ [property]) =
      if key = property.1 then some property.2 else last? key properties := by
  rw [last?, List.reverse_append, List.reverse_singleton, List.singleton_append, List.lookup_cons]
  by_cases hkey : key = property.1
  · simp [hkey]
  · simp [hkey, beq_eq_false_iff_ne.2 hkey, last?]

theorem declared_default (ident : String) : (default ident).Declared ident [] :=
  ⟨rfl, rfl, rfl, rfl⟩

/-- An attribute that is set replaces what was set before, and no other attribute. -/
theorem Declared.set {field : Field} (h : field.Declared ident properties)
    {property : String × Property} {attr : Attribute} (hsets : Sets property attr) :
    (field.set attr).Declared ident (properties ++ [property]) := by
  obtain ⟨hident, hwidth, haccess, hcount⟩ := h
  cases hsets with
  | width hpos hle hword =>
    refine ⟨hident, ?_, ?_, ?_⟩
    · simp [Field.set, last?_append_singleton, hword]
    · simpa [Field.set, last?_append_singleton] using haccess
    · simpa [Field.set, last?_append_singleton] using hcount
  | access kind =>
    refine ⟨hident, ?_, ?_, ?_⟩
    · simpa [Field.set, last?_append_singleton] using hwidth
    · simp [Field.set, last?_append_singleton]
    · simpa [Field.set, last?_append_singleton] using hcount
  | count hpos hlt hword =>
    refine ⟨hident, ?_, ?_, ?_⟩
    · simpa [Field.set, last?_append_singleton] using hwidth
    · simpa [Field.set, last?_append_singleton] using haccess
    · simp [Field.set, last?_append_singleton, hword]

theorem attributes_append_singleton {property : String × Property} {attr : Attribute}
    (h : Sets property attr) :
    attributes (properties ++ [property]) = attributes properties ++ [attr] := by
  have hread := Attribute.ofProperty_of_sets h
  simp [attributes, hread, Except.toOption]

theorem declared_foldl_set (ident : String)
    (h : ∀ property ∈ properties, ∃ attr, Sets property attr) :
    ((attributes properties).foldl Field.set (default ident)).Declared ident properties := by
  induction properties using List.reverseRecOn with
  | nil => exact declared_default ident
  | append_singleton properties property ih =>
    obtain ⟨attr, hsets⟩ := h property (by simp)
    have hbefore := ih fun other hother => h other (List.mem_append_left _ hother)
    rw [attributes_append_singleton hsets, List.foldl_append]
    exact hbefore.set hsets

theorem findings_cons_of_sets {property : String × Property} {attr : Attribute}
    (h : Sets property attr) (rest : List (String × Property)) :
    findings (property :: rest) = findings rest := by
  simp [findings, Attribute.ofProperty_of_sets h]

theorem findings_cons_of_violates {property : String × Property} {finding : Finding}
    (h : Violates property finding) (rest : List (String × Property)) :
    findings (property :: rest) = finding :: findings rest := by
  simp [findings, Attribute.ofProperty_of_violates h]

theorem tells_findings (properties : List (String × Property)) :
    Tells properties (findings properties) := by
  induction properties with
  | nil => exact .nil
  | cons property rest ih =>
    rcases Attribute.sets_or_violates property with ⟨attr, hsets⟩ | ⟨finding, hviolates⟩
    · rw [findings_cons_of_sets hsets]
      exact .sets hsets ih
    · rw [findings_cons_of_violates hviolates]
      exact .violates hviolates ih

/-- Nothing is told exactly if no constraint is violated. -/
theorem Tells.eq_nil_iff {told : List Finding} (h : Tells properties told) :
    told = [] ↔ ∀ property ∈ properties, ∃ attr, Sets property attr := by
  induction h with
  | nil => simp
  | sets h _ ih =>
    rw [ih, List.forall_mem_cons]
    exact (and_iff_right ⟨_, h⟩).symm
  | violates h _ _ =>
    refine iff_of_false (List.cons_ne_nil _ _) fun hall => ?_
    obtain ⟨attr, hsets⟩ := hall _ List.mem_cons_self
    exact h.not_sets hsets

/-- What is told of properties is determined by them. -/
theorem Tells.unique {told others : List Finding} (h : Tells properties told)
    (hothers : Tells properties others) : told = others := by
  induction h generalizing others with
  | nil =>
    cases hothers
    rfl
  | sets h _ ih =>
    cases hothers with
    | sets _ hrest => exact ih hrest
    | violates hviolates _ => exact (hviolates.not_sets h).elim
  | violates h _ ih =>
    cases hothers with
    | sets hsets _ => exact (h.not_sets hsets).elim
    | violates hviolates hrest => rw [h.unique hviolates, ih hrest]

/-- A declaration is all or nothing.  If each property respects its constraints, there is a field,
which has the last value of each attribute.  If not, everything that is wrong with the properties is
told in the context of the field, in their order, and of equal diagnostics the first one. -/
structure AllOrNothing (palette : Palette) (ident : String)
    (properties : List (String × Property)) : Prop where
  ok_iff : (∃ field, ofProperties palette ident properties = .ok field) ↔
    ∀ property ∈ properties, ∃ attr, Sets property attr
  declared : ∀ field, ofProperties palette ident properties = .ok field →
    field.Declared ident properties
  existsUnique_tells : ∃! told, Tells properties told
  error : ∀ diagnostics, ofProperties palette ident properties = .error diagnostics →
    ∀ told, Tells properties told → told ≠ [] ∧
      diagnostics.toList = (told.map (·.at palette (.field ident))).eraseDups

theorem ofProperties_of_findings_eq_nil (palette : Palette) (ident : String)
    (h : findings properties = []) : ofProperties palette ident properties =
      .ok ((attributes properties).foldl Field.set (default ident)) := by
  rw [ofProperties, h]

theorem ofProperties_of_findings_ne_nil (palette : Palette) (ident : String)
    (h : findings properties ≠ []) : ofProperties palette ident properties =
      .error (.ofList ((findings properties).map (·.at palette (.field ident)))) := by
  rw [ofProperties]
  split
  · contradiction
  · rfl

/-- Whatever is declared, and in whatever order and however often, is all or nothing. -/
theorem allOrNothing_ofProperties (palette : Palette) (ident : String)
    (properties : List (String × Property)) : AllOrNothing palette ident properties := by
  have htells := tells_findings properties
  have hunique : ∃! told, Tells properties told :=
    ⟨findings properties, htells, fun _ htold => htold.unique htells⟩
  by_cases hnil : findings properties = []
  · have hsets := htells.eq_nil_iff.1 hnil
    have hok := ofProperties_of_findings_eq_nil palette ident hnil
    refine ⟨iff_of_true ⟨_, hok⟩ hsets, ?_, hunique, ?_⟩
    · intro field hfield
      rw [hok] at hfield
      cases hfield
      exact declared_foldl_set ident hsets
    · intro diagnostics hdiagnostics
      rw [hok] at hdiagnostics
      cases hdiagnostics
  · have herror := ofProperties_of_findings_ne_nil palette ident hnil
    refine ⟨iff_of_false ?_ (mt htells.eq_nil_iff.2 hnil), ?_, hunique, ?_⟩
    · rintro ⟨field, hfield⟩
      rw [herror] at hfield
      cases hfield
    · intro field hfield
      rw [herror] at hfield
      cases hfield
    · intro diagnostics hdiagnostics told htold
      rw [herror] at hdiagnostics
      cases hdiagnostics
      rw [htold.unique htells, Diagnostics.toList_ofList]
      exact ⟨hnil, rfl⟩

/-- A violation that is repeated is told where it is first, before what comes behind it. -/
example :
    let properties : List (String × Property) :=
      [("count", .integer (2 ^ 32)), ("width", .integer 8), ("reset", .integer 0),
        ("count", .integer (2 ^ 32)), ("width", .other "a sequence")]
    (match ofProperties .plain "lane" properties with
      | .ok _ => []
      | .error diagnostics => diagnostics.toList.map (·.kind)) =
      [.zeroCount, .unknownProperty, .invalidProperty] := by
  decide +kernel

end Field

end RegMap
