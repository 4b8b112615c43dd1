/-
  What is written for a field whose description names its values. Each value is written as a string
  literal that reads back as the value, but one that reads as an integer of 64 bits as it stands
  (`writes_literalValue`). The values found for an integer are runs of decimal digits or numerals of
  products, unless they stand between quotation marks (`isDecimal_of_mem_bareList`). Any type but a
  string or an integer keeps the text of its phrase (`text_fieldType`).
-/
import DocTypes.Proofs.Data.Json
import DocTypes.Proofs.Phrase.BareRun
import DocTypes.Proofs.Phrase.FieldType
import Mathlib.Data.List.Forall2

namespace DocTypes.Phrase

open Text TypeExpr

/-! ## Values as they are written -/

/-- How a closed set writes a value: an integer as it stands, anything else as a string literal
that reads back as the value. -/
inductive Writes : Text → Text → Prop
  | integer {v : Text} (h : IsInteger64 v) : Writes v v
  | quoted {v body : Text} (h : ¬IsInteger64 v) (hread : Data.literal? body = some (v, [])) :
      Writes v ('"' :: body)

theorem writes_literalValue (v : Text) : Writes v (literalValue v) := by
  unfold literalValue
  split
  · next h => exact .integer (isInteger64_iff.1 h)
  · next h => exact .quoted (fun hv => h (isInteger64_iff.2 hv)) (Data.literal?_literal v [])

/-! ## Values of integers -/

/-- A value is read at some place of the text. -/
theorem BareRun.exists_bareValue? {words : Bool} {s rest : Text} {entries : List (Text × Text)}
    (h : BareRun words s entries rest) {e : Text × Text} (he : e ∈ entries) :
    ∃ t, bareValue? words t = some e := by
  induction h with
  | @last s value behind hvalue =>
    rw [List.mem_singleton] at he
    exact ⟨s, he ▸ hvalue⟩
  | @more s value behind next entries rest hvalue hends hnext hrun ih =>
    rcases List.mem_cons.1 he with rfl | he
    · exact ⟨s, hvalue⟩
    · exact ih he

/-- A product is written in ASCII digits. -/
theorem isNumeral_of_product? {a b v : Text} (h : product? a b = some v) : IsNumeral v := by
  obtain ⟨m, -, h⟩ := Option.bind_eq_some_iff.1 h
  obtain ⟨n, -, h⟩ := Option.bind_eq_some_iff.1 h
  split at h
  · cases h
    exact isNumeral_toDigits (m * n)
  · cases h

/-- Without words a value consists of decimal digits. -/
theorem isDecimal_of_bareValue? {t v behind : Text} (h : bareValue? false t = some (v, behind)) :
    v ≠ [] ∧ ∀ c ∈ v, isDecimal c = true := by
  unfold bareValue? at h
  dsimp only at h
  split at h
  · next hne =>
    split at h
    · obtain ⟨product, hproduct, hp⟩ := Option.map_eq_some_iff.1 h
      cases hp
      have hnumeral := isNumeral_of_product? hproduct
      exact ⟨hnumeral.ne_nil, fun c hc => isDecimal_of_isDigit (hnumeral.isDigit c hc)⟩
    · cases h
      exact ⟨by simpa using hne, fun c hc => List.mem_takeWhile_imp hc⟩
  · cases h

theorem isDecimal_of_mem_bareList {s v : Text} {vs : List Text} (h : bareList false s = some vs)
    (hv : v ∈ vs) : v ≠ [] ∧ ∀ c ∈ v, isDecimal c = true := by
  obtain ⟨entries, rest, hrun, rfl⟩ := exists_bareRun h
  obtain ⟨e, he, rfl⟩ := List.mem_map.1 hv
  obtain ⟨t, ht⟩ := hrun.exists_bareValue? he
  exact isDecimal_of_bareValue? ht

/-- What a description may name for an integer: between quotation marks integers of 64 bits, and
otherwise numbers below `2^63` in ASCII digits. -/
structure NamesIntegers (description : Text) : Prop where
  quoted : ∀ vs ∈ (quotedKeyword.occurrences description).findSome? fun o => quotedList o.after,
    ∀ v ∈ vs, IsInteger64 v
  ascii : ∀ vs ∈ enumeration .integer description, ∀ v ∈ vs, ∀ c ∈ v,
    isDecimal c = true → c.isDigit = true
  below : ∀ vs ∈ enumeration .integer description, ∀ v ∈ vs, IsNumeral v → decimalValue v < Nat.pow 2 63

/-- The values that are found for an integer. -/
theorem isInteger64_of_mem_enumeration {description : Text} (h : NamesIntegers description)
    {vs : List Text} (hvs : enumeration .integer description = some vs) :
    ∀ v ∈ vs, IsInteger64 v := by
  intro v hv
  rcases Option.or_eq_some_iff.1 hvs with hquoted | ⟨-, hbare⟩
  · exact h.quoted vs hquoted v hv
  · obtain ⟨o, -, hlist⟩ := List.exists_of_findSome?_eq_some hbare
    obtain ⟨hne, hdecimal⟩ := isDecimal_of_mem_bareList hlist hv
    have hnumeral : IsNumeral v := ⟨hne, fun c hc => h.ascii vs hvs v hv c hc (hdecimal c hc)⟩
    exact .unsigned hnumeral (h.below vs hvs v hv hnumeral)

/-! ## The types of fields -/

theorem primitive?_eq_some_iff {t : TypeExpr} {p : Primitive} :
    t.primitive? = some p ↔ t = .primitive p := by
  cases t <;> simp [primitive?]

/-- A primitive that may be narrowed is, where values are found. -/
theorem text_fieldType_of_admits {p : Primitive} {phrase : Text} (description : Text)
    (hphrase : resolve phrase = .primitive p) (hp : p.admitsEnumeration = true) :
    (fieldType phrase description).text = (enumeration p description).elim p.typeName.toList
      fun vs => bars (vs.map literalValue) := by
  simp only [fieldType, hphrase, primitive?, if_pos hp]
  cases enumeration p description with
  | none => rfl
  | some vs => simp [TypeExpr.text, Function.comp_def]

/-- A primitive that may not be narrowed is not, nor is any other type. -/
theorem fieldType_of_not_admits {phrase : Text} (description : Text)
    (h : ∀ p, resolve phrase = .primitive p → p.admitsEnumeration = false) :
    fieldType phrase description = resolve phrase := by
  unfold fieldType
  dsimp only
  split
  · next p hp => rw [h p (primitive?_eq_some_iff.1 hp), if_neg Bool.false_ne_true]
  · rfl

theorem forall₂_literalValue (vs : List Text) : List.Forall₂ Writes vs (vs.map literalValue) := by
  rw [List.forall₂_map_right_iff, List.forall₂_same]
  exact fun v _ => writes_literalValue v

/-- The text of a field's type. A string is narrowed to string literals of the values that its
description names, each a literal unless it reads as an integer of 64 bits; an integer to the
integers that it names; and any other type is that of its phrase. -/
theorem text_fieldType (phrase description : Text) :
    (resolve phrase = .primitive .string →
      enumeration .string description = none ∧
          (fieldType phrase description).text = "string".toList ∨
        ∃ vs ts, enumeration .string description = some vs ∧ vs ≠ [] ∧
          List.Forall₂ Writes vs ts ∧ (fieldType phrase description).text = bars ts) ∧
    (resolve phrase = .primitive .integer → NamesIntegers description →
      enumeration .integer description = none ∧
          (fieldType phrase description).text = "number".toList ∨
        ∃ vs, enumeration .integer description = some vs ∧ vs ≠ [] ∧
          (∀ v ∈ vs, IsInteger64 v) ∧ (fieldType phrase description).text = bars vs) ∧
    (resolve phrase ≠ .primitive .string → resolve phrase ≠ .primitive .integer →
      fieldType phrase description = resolve phrase) := by
  refine ⟨fun hphrase => ?_, fun hphrase hnames => ?_, fun hstring hinteger => ?_⟩
  · have htext := text_fieldType_of_admits description hphrase rfl
    cases hvs : enumeration .string description with
    | none => exact Or.inl ⟨rfl, by rw [htext, hvs]; rfl⟩
    | some vs =>
      exact Or.inr ⟨vs, vs.map literalValue, rfl, enumeration_ne_nil hvs,
        forall₂_literalValue vs, by rw [htext, hvs, Option.elim_some]⟩
  · have htext := text_fieldType_of_admits description hphrase rfl
    cases hvs : enumeration .integer description with
    | none => exact Or.inl ⟨rfl, by rw [htext, hvs]; rfl⟩
    | some vs =>
      have hintegers := isInteger64_of_mem_enumeration hnames hvs
      have hmap : vs.map literalValue = vs :=
        (List.map_congr_left fun v hv => literalValue_of_isInteger64 (hintegers v hv)).trans
          (List.map_id vs)
      exact Or.inr ⟨vs, rfl, enumeration_ne_nil hvs, hintegers, by
        rw [htext, hvs, Option.elim_some, hmap]⟩
  · refine fieldType_of_not_admits description fun p hphrase => ?_
    cases p with
    | string => exact absurd hphrase hstring
    | integer => exact absurd hphrase hinteger
    | float | boolean | flag => rfl

/-- An integer with products, a string with quotation marks in a value, and a type that is not
narrowed. -/
theorem text_fieldType_sizes :
    let sizes := "Limit; must be one of 2 * 50, 3 * 50, or 100".toList
    let kinds := "Kind, can be “a \"b\"” (default) or “7”.".toList
    resolve "Integer".toList = .primitive .integer ∧ NamesIntegers sizes ∧
      (fieldType "Integer".toList sizes).text = "100 | 150 | 100".toList ∧
      resolve "String".toList = .primitive .string ∧
      (∃ vs ts, enumeration .string kinds = some vs ∧ vs ≠ [] ∧ List.Forall₂ Writes vs ts ∧
        (fieldType "String".toList kinds).text = bars ts) ∧
      resolve "Boolean".toList ≠ .primitive .string ∧
      resolve "Boolean".toList ≠ .primitive .integer ∧
      fieldType "Boolean".toList sizes = resolve "Boolean".toList := by
  intro sizes kinds
  have hinteger : resolve "Integer".toList = .primitive .integer :=
    primitive?_eq_some_iff.1 (by decide +kernel)
  have hstring : resolve "String".toList = .primitive .string :=
    primitive?_eq_some_iff.1 (by decide +kernel)
  have hboolean : resolve "Boolean".toList = .primitive .boolean :=
    primitive?_eq_some_iff.1 (by decide +kernel)
  have hnames : NamesIntegers sizes :=
    ⟨by decide +kernel, by decide +kernel, by decide +kernel⟩
  have hne (p : Primitive) (hp : p ≠ .boolean) : resolve "Boolean".toList ≠ .primitive p := by
    rw [hboolean]
    exact fun h => hp (TypeExpr.primitive.inj h).symm
  refine ⟨hinteger, hnames, ?_, hstring, ?_, hne .string (by decide), hne .integer (by decide),
    (text_fieldType "Boolean".toList sizes).2.2 (hne .string (by decide))
      (hne .integer (by decide))⟩
  · have hvalues : enumeration .integer sizes =
        some (["100", "150", "100"].map String.toList) := by decide +kernel
    rcases (text_fieldType "Integer".toList sizes).2.1 hinteger hnames with
      ⟨hnone, -⟩ | ⟨vs, hvs, -, -, htext⟩
    · rw [hvalues] at hnone
      cases hnone
    · obtain rfl := Option.some.inj (hvalues.symm.trans hvs)
      exact htext
  · refine ((text_fieldType "String".toList kinds).1 hstring).resolve_left fun h => ?_
    have hvalues : (enumeration .string kinds).isSome := by decide +kernel
    rw [h.1] at hvalues
    cases hvalues

/-- Alternatives start as the first of them does, unless that is empty. -/
theorem head?_of_bars {t : Text} {ts : List Text} {c : Char} (hc : c ≠ ' ')
    (h : (bars (t :: ts)).head? = some c) : t.head? = some c := by
  cases t with
  | cons d t => cases ts <;> exact h
  | nil =>
    cases ts with
    | nil => cases h
    | cons u us =>
      rw [bars, joinWith_cons_cons] at h
      exact absurd (Option.some.inj h) (Ne.symm hc)

/-- A string is not narrowed to string literals only: a value that reads as an integer is written
without quotation marks. And an integer is not narrowed to numbers only: words between quotation
marks, digits of other scripts and numbers from `2^63` on are written as string literals. -/
theorem text_fieldType_integer :
    (resolve "String".toList = .primitive .string ∧
      (fieldType "String".toList "must be 5".toList).text = "5".toList ∧
      "5".toList ≠ "string".toList ∧
      ¬∃ ts : List Text, (∀ t ∈ ts, ∃ v body, t = '"' :: body ∧ Data.literal? body = some (v, [])) ∧
        ts ≠ [] ∧ "5".toList = bars ts) ∧
    resolve "Integer".toList = .primitive .integer ∧
      ∀ p ∈ [("must be “a”", "\"a\""), ("must be ٥", "\"٥\""),
          ("must be 9223372036854775808", "\"9223372036854775808\"")],
        (fieldType "Integer".toList p.1.toList).text = p.2.toList ∧
        p.2.toList ≠ "number".toList ∧
        ¬∃ ts : List Text, (∀ t ∈ ts, t.head? ≠ some '"') ∧ ts ≠ [] ∧ p.2.toList = bars ts := by
  refine ⟨⟨primitive?_eq_some_iff.1 (by decide +kernel), by decide +kernel, by decide, ?_⟩,
    primitive?_eq_some_iff.1 (by decide +kernel), ?_⟩
  · rintro ⟨ts, hliterals, hne, hbars⟩
    obtain ⟨t, ts, rfl⟩ := List.exists_cons_of_ne_nil hne
    obtain ⟨v, body, rfl, -⟩ := hliterals t List.mem_cons_self
    have hmark := congrArg List.head? hbars
    cases ts <;> cases hmark
  · intro p hp
    have htext : (fieldType "Integer".toList p.1.toList).text = p.2.toList ∧
        p.2.toList ≠ "number".toList ∧ p.2.toList.head? = some '"' := by
      revert p
      decide +kernel
    refine ⟨htext.1, htext.2.1, ?_⟩
    rintro ⟨ts, hunquoted, hne, hbars⟩
    obtain ⟨t, ts, rfl⟩ := List.exists_cons_of_ne_nil hne
    exact hunquoted t List.mem_cons_self (head?_of_bars (by decide) (hbars ▸ htext.2.2))

end DocTypes.Phrase
