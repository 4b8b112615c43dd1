/-
  The types of fields: a closed set of one or more values, or a type whose unions have two or more
  members and no union directly below them (`isFieldType_fieldType`). The text of such a type
  stays on one line if its phrase does, whatever the values are (`newline_notMem_fieldType`).
-/
import DocTypes.Phrase.Enumeration
import DocTypes.Proofs.Phrase.TypePhrase
import DocTypes.Proofs.Type.Literal

namespace DocTypes

open Text

namespace TypeExpr

/-- No closed set of values occurs in the type, and every union in it has two or more members,
none of which is a union. -/
inductive IsProper : TypeExpr → Prop
  | primitive (p : Primitive) : IsProper (primitive p)
  | named (n : String) : IsProper (named n)
  | array {t : TypeExpr} : IsProper t → IsProper (array t)
  | union {ts : List TypeExpr} : 2 ≤ ts.length → (∀ t ∈ ts, IsProper t) →
      (∀ t ∈ ts, ∀ us, t ≠ union us) → IsProper (union ts)

/-- A closed set of one or more values, or a type with proper unions. -/
inductive IsFieldType : TypeExpr → Prop
  | values {vs : List String} : vs ≠ [] → IsFieldType (literalSet vs)
  | proper {t : TypeExpr} : IsProper t → IsFieldType t

theorem IsOperand.isProper {t : TypeExpr} (h : t.IsOperand) : t.IsProper := by
  induction h with
  | primitive p => exact .primitive p
  | named n => exact .named n
  | array _ ih => exact .array ih

theorem IsNormal.isProper {t : TypeExpr} (h : t.IsNormal) : t.IsProper := by
  induction h with
  | operand h => exact h.isProper
  | array _ ih => exact .array ih
  | union hmany hoperands =>
    refine .union hmany (fun t ht => (hoperands t ht).isProper) ?_
    rintro t ht us rfl
    cases hoperands _ ht

end TypeExpr

namespace Phrase

open TypeExpr

/-! ## Closed sets of values -/

theorem bareValues_ne_nil {words : Bool} {s : Text} {vs : List Text}
    (h : bareValues words s = some vs) : vs ≠ [] := by
  rw [bareValues] at h
  split at h
  · cases h
  · dsimp only at h
    split at h
    · cases h
      simp
    · split at h
      · cases h
      · obtain ⟨rest, -, rfl⟩ := Option.map_eq_some_iff.1 h
        simp

/-- A closed set has at least one value. -/
theorem enumeration_ne_nil {p : Primitive} {prose : Text} {vs : List Text}
    (h : enumeration p prose = some vs) : vs ≠ [] := by
  rcases Option.or_eq_some_iff.1 h with h | ⟨-, h⟩
  · obtain ⟨o, -, h⟩ := List.exists_of_findSome?_eq_some h
    have hvs := (Option.filter_eq_some_iff.1 h).2
    rintro rfl
    cases hvs
  · obtain ⟨o, -, h⟩ := List.exists_of_findSome?_eq_some h
    exact bareValues_ne_nil h

/-- A field has the type of its phrase, or a closed set of values in its place. -/
theorem fieldType_cases (phrase description : Text) :
    fieldType phrase description = resolve phrase ∨
      ∃ vs, vs ≠ [] ∧ fieldType phrase description = .literalSet vs := by
  unfold fieldType
  dsimp only
  split
  · split
    · split
      · next vs hvs =>
        exact Or.inr ⟨_, by simpa using enumeration_ne_nil hvs, rfl⟩
      · exact Or.inl rfl
    · exact Or.inl rfl
  · exact Or.inl rfl

theorem isFieldType_fieldType (phrase description : Text) :
    (fieldType phrase description).IsFieldType := by
  rcases fieldType_cases phrase description with h | ⟨vs, hvs, h⟩
  · rw [h]
    exact .proper (isNormal_resolve phrase).isProper
  · rw [h]
    exact .values hvs

/-! ## One line -/

theorem newline_notMem_literalChar (c : Char) : '\n' ∉ literalChar c := by
  by_cases hlow : c.toNat < 0x20
  · -- the controls, by their code points
    have hall : ∀ n < 0x20, '\n' ∉ literalChar (Char.ofNat n) := by decide +kernel
    have := hall c.toNat hlow
    rwa [Char.ofNat_toNat] at this
  · have hc : '\n' ≠ c := by
      rintro rfl
      exact hlow (by decide)
    unfold literalChar
    split
    case h_8 => rw [if_neg hlow, List.mem_singleton]; exact hc
    all_goals decide

theorem newline_notMem_literalValue (v : Text) : '\n' ∉ literalValue v := by
  unfold literalValue
  split
  · next hint =>
    have hdigits : ∀ {ds : Text}, IsNumeral ds → '\n' ∉ ds :=
      fun h hmem => absurd (h.isDigit _ hmem) (by decide)
    cases isInteger64_iff.1 hint with
    | unsigned h => exact hdigits h
    | plus h => simp [hdigits h]
    | minus h => simp [hdigits h]
  · have hchars : '\n' ∉ v.flatMap literalChar := by
      rw [List.mem_flatMap]
      rintro ⟨c, -, hc⟩
      exact newline_notMem_literalChar c hc
    simp [literal, hchars]

/-- The text of a field's type has no newline, unless its phrase has. -/
theorem newline_notMem_fieldType {phrase : Text} (h : '\n' ∉ phrase) (description : Text) :
    '\n' ∉ (fieldType phrase description).text := by
  rcases fieldType_cases phrase description with htype | ⟨vs, -, htype⟩
  · rw [htype]
    exact notMem_text_resolve (by decide) h
  · rw [htype, TypeExpr.text]
    refine notMem_bars (by decide) fun t ht => ?_
    obtain ⟨v, -, rfl⟩ := List.mem_map.1 ht
    exact newline_notMem_literalValue v.toList

end Phrase

end DocTypes
