import Mathlib.Data.List.Basic
import Utxo.Payload.Scalar

/-!
# What the names of simple types say

Here the kinds of simple types are told by names, apart from the table by which a payload is decoded.
The two agree.
-/

namespace Utxo.Scalar

/-! ## Kinds of names -/

/-- The names of simple types with truth values and numbers. -/
def IsNumeric (name : String) : Prop :=
  name = "bool" ∨ name = "double" ∨
    ∃ start ∈ ["int", "uint", "float"], start.toList.isPrefixOf name.toList

instance (name : String) : Decidable (IsNumeric name) :=
  inferInstanceAs (Decidable (_ ∨ _ ∨ ∃ start ∈ ["int", "uint", "float"], _))

/-- The names of simple types with truth values and integers. -/
def IsIntegral (name : String) : Prop :=
  name = "bool" ∨ "int".toList.isPrefixOf name.toList ∨ "uint".toList.isPrefixOf name.toList

instance (name : String) : Decidable (IsIntegral name) := inferInstanceAs (Decidable (_ ∨ _ ∨ _))

/-- The names of simple types with texts. -/
def IsText (name : String) : Prop := name ∈ ["varchar", "fixedchar", "text", "string"]

instance (name : String) : Decidable (IsText name) := inferInstanceAs (Decidable (_ ∈ _))

/-- The names of a kind of simple types. No two kinds share a name. -/
def IsNamed : Scalar → String → Prop
  | bool, name => name = "bool"
  | int, name => "int".toList.isPrefixOf name.toList
  | uint, name => "uint".toList.isPrefixOf name.toList
  | float, name => "float".toList.isPrefixOf name.toList ∧ name ≠ "float64"
  | float64, name => name = "float64"
  | double, name => name = "double"
  | text, name => IsText name
  | other, name => ¬IsNumeric name ∧ ¬IsText name

variable {name : String} {s : Scalar}

/-! ## Kinds have no name in common -/

theorem not_isNumeric_of_isText (h : IsText name) : ¬IsNumeric name := by
  have hall : ∀ name ∈ ["varchar", "fixedchar", "text", "string"], ¬IsNumeric name := by
    decide +kernel
  exact hall name h

theorem IsIntegral.isNumeric (h : IsIntegral name) : IsNumeric name := by
  rcases h with h | h | h
  · exact .inl h
  · exact .inr (.inr ⟨"int", by decide, h⟩)
  · exact .inr (.inr ⟨"uint", by decide, h⟩)

/-- A name cannot start in two ways of which neither starts the other. -/
theorem not_starts {a b : List Char} (hab : ¬a <+: b ∧ ¬b <+: a)
    (h : a.isPrefixOf name.toList) : ¬b.isPrefixOf name.toList := by
  rw [List.isPrefixOf_iff_prefix] at h ⊢
  intro hb
  rcases List.prefix_or_prefix_of_prefix h hb with h | h
  · exact hab.1 h
  · exact hab.2 h

/-! ## The table -/

/-- Names that are not listed are told by how they start. -/
theorem ofName_of_not_mem (h : name ∉ ["bool", "float64", "double"] ++ textNames) :
    ofName name =
      if "int".toList.isPrefixOf name.toList then int
      else if "uint".toList.isPrefixOf name.toList then uint
      else if "float".toList.isPrefixOf name.toList then float
      else other := by
  simp only [List.mem_append, List.mem_cons, List.not_mem_nil, or_false, not_or] at h
  obtain ⟨⟨hbool, hfloat64, hdouble⟩, htext⟩ := h
  rw [ofName, if_neg hbool, if_neg hfloat64, if_neg hdouble, if_neg htext]

theorem ofName_of_isText (h : IsText name) : ofName name = text := by
  have hall : ∀ name ∈ ["varchar", "fixedchar", "text", "string"], ofName name = text := by
    decide +kernel
  exact hall name h

theorem ofName_of_isNamed (h : s.IsNamed name) : ofName name = s := by
  cases s with
  | bool | float64 | double =>
    subst h
    decide
  | text => exact ofName_of_isText h
  | int =>
    have hlisted : ∀ other ∈ ["bool", "float64", "double"] ++ textNames,
        ¬"int".toList.isPrefixOf other.toList := by decide
    have hint : "int".toList.isPrefixOf name.toList := h
    rw [ofName_of_not_mem fun hmem => hlisted name hmem h, if_pos hint]
  | uint =>
    have hlisted : ∀ other ∈ ["bool", "float64", "double"] ++ textNames,
        ¬"uint".toList.isPrefixOf other.toList := by decide
    have huint : "uint".toList.isPrefixOf name.toList := h
    rw [ofName_of_not_mem fun hmem => hlisted name hmem h, if_neg (not_starts (by decide) huint),
      if_pos huint]
  | float =>
    have hlisted : ∀ other ∈ ["bool", "float64", "double"] ++ textNames,
        "float".toList.isPrefixOf other.toList → other = "float64" := by decide
    rw [ofName_of_not_mem fun hmem => h.2 (hlisted name hmem h.1),
      if_neg (not_starts (by decide) h.1), if_neg (not_starts (by decide) h.1), if_pos h.1]
  | other =>
    obtain ⟨hnumber, htext⟩ := h
    have hlisted : ∀ other ∈ ["bool", "float64", "double"] ++ textNames,
        IsNumeric other ∨ IsText other := by decide +kernel
    have hstart (start : String) (hmem : start ∈ ["int", "uint", "float"]) :
        ¬start.toList.isPrefixOf name.toList :=
      fun hstart => hnumber (.inr (.inr ⟨start, hmem, hstart⟩))
    rw [ofName_of_not_mem fun hmem => (hlisted name hmem).elim hnumber htext,
      if_neg (hstart "int" (by decide)), if_neg (hstart "uint" (by decide)),
      if_neg (hstart "float" (by decide))]

/-- Every name is one of some kind. -/
theorem exists_isNamed (name : String) : ∃ s : Scalar, s.IsNamed name := by
  by_cases hnumber : IsNumeric name
  · simp only [IsNumeric, List.mem_cons, List.not_mem_nil, or_false] at hnumber
    rcases hnumber with h | h | ⟨start, rfl | rfl | rfl, h⟩
    · exact ⟨bool, h⟩
    · exact ⟨double, h⟩
    · exact ⟨int, h⟩
    · exact ⟨uint, h⟩
    · by_cases hfloat64 : name = "float64"
      · exact ⟨float64, hfloat64⟩
      · exact ⟨float, h, hfloat64⟩
  · by_cases htext : IsText name
    · exact ⟨text, htext⟩
    · exact ⟨other, hnumber, htext⟩

/-- The table gives a name the kind whose name it is. -/
theorem ofName_eq_iff : ofName name = s ↔ s.IsNamed name := by
  constructor
  · rintro rfl
    obtain ⟨s, hs⟩ := exists_isNamed name
    rw [ofName_of_isNamed hs]
    exact hs
  · exact ofName_of_isNamed

theorem isNamed_ofName (name : String) : (ofName name).IsNamed name := ofName_eq_iff.mp rfl

/-! ## Packing -/

theorem packing?_of_isIntegral (h : IsIntegral name) : (ofName name).packing? = some .varint := by
  rcases h with h | h | h
  · rw [ofName_of_isNamed (s := bool) h]
    rfl
  · rw [ofName_of_isNamed (s := int) h]
    rfl
  · rw [ofName_of_isNamed (s := uint) h]
    rfl

theorem packing?_of_not_isNumeric (h : ¬IsNumeric name) : (ofName name).packing? = none := by
  by_cases htext : IsText name
  · rw [ofName_of_isText htext]
    rfl
  · rw [ofName_of_isNamed (s := other) ⟨h, htext⟩]
    rfl

/-- Numbers and truth values may stand together. -/
theorem exists_packing (h : IsNumeric name) :
    ∃ packing, (ofName name).packing? = some packing := by
  have hnamed := isNamed_ofName name
  cases hname : ofName name with
  | text =>
    rw [hname] at hnamed
    exact absurd h (not_isNumeric_of_isText hnamed)
  | other =>
    rw [hname] at hnamed
    exact absurd h hnamed.1
  | _ => exact ⟨_, rfl⟩

theorem packing?_ne_delimited (s : Scalar) : s.packing? ≠ some .delimited := by
  cases s <;> decide

end Utxo.Scalar
