/-
  Numbers as texts. Runs of ASCII digits are what is read as a decimal number (`any_decimal?`), and
  with at most one sign in front what a closed set writes without quotation marks, as far as
  64 bits go (`isInteger64_iff`).
-/
import DocTypes.Proofs.Text.Words
import DocTypes.Type.Basic
import Mathlib.Tactic.MkIffOfInductiveProp

namespace DocTypes

namespace Text

/-- One or more ASCII digits. -/
@[mk_iff]
structure IsNumeral (ds : Text) : Prop where
  ne_nil : ds ≠ []
  isDigit : ∀ c ∈ ds, c.isDigit = true

instance (ds : Text) : Decidable (IsNumeral ds) := decidable_of_iff' _ (isNumeral_iff ds)

theorem isNumeral_toDigits (n : Nat) : IsNumeral (Nat.toDigits 10 n) :=
  ⟨Nat.toDigits_ne_nil, fun _ hc => Nat.isDigit_of_mem_toDigits (by decide) (by decide) hc⟩

theorem decimal?_numeral {ds : Text} (h : IsNumeral ds) : decimal? ds = some (decimalValue ds) := by
  have hne : ds.isEmpty = false := by simpa using h.ne_nil
  have hall : ds.all Char.isDigit = true := List.all_eq_true.2 h.isDigit
  rw [decimal?, hne, hall]
  rfl

theorem any_decimal? {ds : Text} {p : Nat → Bool} :
    (decimal? ds).any p = true ↔ IsNumeral ds ∧ p (decimalValue ds) = true := by
  constructor
  · intro h
    have hds : IsNumeral ds := by
      unfold decimal? at h
      split at h
      · next hall =>
        rw [Bool.and_eq_true] at hall
        exact ⟨by simpa using hall.1, List.all_eq_true.1 hall.2⟩
      · cases h
    rw [decimal?_numeral hds] at h
    exact ⟨hds, h⟩
  · rintro ⟨hds, h⟩
    rw [decimal?_numeral hds]
    exact h

end Text

open Text

/-- ASCII digits behind at most one sign, for an integer of 64 bits. -/
inductive IsInteger64 : Text → Prop
  | unsigned {ds : Text} (h : IsNumeral ds) (hlt : decimalValue ds < Nat.pow 2 63) : IsInteger64 ds
  | plus {ds : Text} (h : IsNumeral ds) (hlt : decimalValue ds < Nat.pow 2 63) : IsInteger64 ('+' :: ds)
  | minus {ds : Text} (h : IsNumeral ds) (hle : decimalValue ds ≤ Nat.pow 2 63) :
      IsInteger64 ('-' :: ds)

theorem isInteger64_iff {v : Text} : isInteger64 v = true ↔ IsInteger64 v := by
  have hsign : ∀ {ds : Text} {c : Char}, IsNumeral (c :: ds) → c.isDigit = true :=
    fun h => h.isDigit _ List.mem_cons_self
  unfold isInteger64
  split
  · next ds =>
    rw [any_decimal?, decide_eq_true_eq]
    refine ⟨fun h => .minus h.1 h.2, fun h => ?_⟩
    cases h with
    | unsigned h => exact absurd (hsign h) (by decide)
    | minus h hle => exact ⟨h, hle⟩
  · next ds =>
    rw [any_decimal?, decide_eq_true_eq]
    refine ⟨fun h => .plus h.1 h.2, fun h => ?_⟩
    cases h with
    | unsigned h => exact absurd (hsign h) (by decide)
    | plus h hlt => exact ⟨h, hlt⟩
  · next hminus hplus =>
    rw [any_decimal?, decide_eq_true_eq]
    refine ⟨fun h => .unsigned h.1 h.2, fun h => ?_⟩
    cases h with
    | unsigned h hlt => exact ⟨h, hlt⟩
    | plus => exact absurd rfl (hplus _)
    | minus => exact absurd rfl (hminus _)

instance (v : Text) : Decidable (IsInteger64 v) := decidable_of_iff _ isInteger64_iff

theorem literalValue_of_isInteger64 {v : Text} (h : IsInteger64 v) : literalValue v = v :=
  if_pos (isInteger64_iff.2 h)

end DocTypes
