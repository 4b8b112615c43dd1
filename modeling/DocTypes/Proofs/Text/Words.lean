/-
  Words in a text. A word is read exactly where the text opens with it, each character compared
  through the key (`after?_eq_some_iff`), and a run of characters up to the first that is not of
  its kind (`takeWhile_run`); what stands behind does not matter, if it starts with a character of
  another kind (`after?_append_of_head`, `takeWhile_append_of_head`). Blanks have no letter case
  and are no word characters, so what stands between blanks can be a word.
-/
import DocTypes.Text.Basic
import DocTypes.Text.Word
import Mathlib.Data.List.TakeWhile

namespace DocTypes.Text

/-! ## Deciding -/

section Deciding

variable {p : Char → Prop} [DecidablePred p]

/-- What holds of all characters of a text is decided along the text, not for every character. -/
instance (priority := high) decidableForallMem (s : Text) : Decidable (∀ c ∈ s, p c) :=
  List.decidableBAll p s

instance (priority := high) decidableForallMemOption (o : Option Char) :
    Decidable (∀ c ∈ o, p c) :=
  Option.decidableForallMem o

end Deciding

/-! ## Words -/

theorem occurs_iff {w s : Text} : occurs w s = true ↔ w <:+: s := by
  induction s with
  | nil => rw [occurs, List.isEmpty_iff, List.infix_nil]
  | cons c s ih => rw [occurs, Bool.or_eq_true, List.isPrefixOf_iff_prefix, ih, List.infix_cons_iff]

theorem after?_eq_some_iff {key : Char → Char} {w s r : Text} :
    after? key w s = some r ↔ ∃ u, s = u ++ r ∧ u.map key = w := by
  induction w generalizing s with
  | nil => simp [after?]
  | cons a w ih =>
    cases s with
    | nil => simp [after?]
    | cons c s =>
      rw [after?]
      split
      · next hc =>
        rw [ih]
        constructor
        · rintro ⟨u, rfl, rfl⟩
          exact ⟨c :: u, rfl, by rw [List.map_cons, hc]⟩
        · rintro ⟨u, hs, hu⟩
          cases u with
          | nil => cases hu
          | cons d u =>
            obtain ⟨rfl, rfl⟩ := List.cons.inj hs
            exact ⟨u, rfl, (List.cons.inj hu).2⟩
      · next hc =>
        refine iff_of_false (by simp) ?_
        rintro ⟨u, hs, hu⟩
        cases u with
        | nil => cases hu
        | cons d u =>
          obtain ⟨rfl, rfl⟩ := List.cons.inj hs
          exact hc (List.cons.inj hu).1

/-- Does one of the two texts open with the other? -/
def comparable (s t : Text) : Bool := s.isPrefixOf t || t.isPrefixOf s

theorem comparable_of_prefixes {s t u : Text} (hs : s <+: u) (ht : t <+: u) :
    comparable s t = true := by
  rw [comparable, Bool.or_eq_true, List.isPrefixOf_iff_prefix, List.isPrefixOf_iff_prefix]
  exact List.prefix_or_prefix_of_prefix hs ht

/-- A word is not read where a text opens with another. -/
theorem after?_eq_none {key : Char → Char} {w v s : Text} (hv : v <+: s.map key)
    (h : comparable w v = false) : after? key w s = none := by
  rw [Option.eq_none_iff_forall_ne_some]
  intro r hr
  obtain ⟨u, rfl, rfl⟩ := after?_eq_some_iff.1 hr
  rw [comparable_of_prefixes ((List.prefix_append u r).map key) hv] at h
  cases h

theorem eq_append_of_after? {w s r : Text} (h : after? id w s = some r) : s = w ++ r := by
  obtain ⟨u, rfl, hu⟩ := after?_eq_some_iff.1 h
  rw [← hu, List.map_id]

theorem after?_append_self (w rest : Text) : after? id w (w ++ rest) = some rest :=
  after?_eq_some_iff.2 ⟨w, rfl, List.map_id w⟩

/-- A word that holds none of the characters behind a text is read as if nothing stood there. -/
theorem after?_append_of_head (key : Char → Char) {w rest : Text}
    (h : ∀ c ∈ rest.head?, key c ∉ w) (s : Text) :
    after? key w (s ++ rest) = (after? key w s).map (· ++ rest) := by
  induction w generalizing s with
  | nil => rfl
  | cons a w ih =>
    cases s with
    | nil =>
      cases rest with
      | nil => rfl
      | cons c rest =>
        have hne : key c ≠ a := fun hc => h c rfl (hc ▸ List.mem_cons_self)
        exact if_neg hne
    | cons c s =>
      rw [List.cons_append, after?, after?]
      split
      · exact ih (fun d hd hmem => h d hd (List.mem_cons_of_mem a hmem)) s
      · rfl

theorem isPrefixOf_append_of_head {w rest : Text} (h : ∀ c ∈ rest.head?, c ∉ w) (s : Text) :
    w.isPrefixOf (s ++ rest) = w.isPrefixOf s := by
  rw [Bool.eq_iff_iff, List.isPrefixOf_iff_prefix, List.isPrefixOf_iff_prefix]
  refine ⟨fun hw => ?_, fun hw => hw.trans (List.prefix_append s rest)⟩
  rcases List.prefix_or_prefix_of_prefix hw (List.prefix_append s rest) with hs | ⟨t, rfl⟩
  · exact hs
  · have ht := (List.prefix_append_right_inj s).1 hw
    cases t with
    | nil => exact ⟨[], by rw [List.append_nil, List.append_nil]⟩
    | cons c t =>
      obtain ⟨more, rfl⟩ := ht
      exact absurd (List.mem_append_right s List.mem_cons_self) (h c rfl)

/-! ## Runs -/

section Run

variable {p : Char → Bool} {run rest : Text}

theorem takeWhile_append_of_head (h : ∀ c ∈ rest.head?, p c = false) (s : Text) :
    (s ++ rest).takeWhile p = s.takeWhile p := by
  induction s with
  | nil =>
    cases rest with
    | nil => rfl
    | cons c rest => simp [h c rfl]
  | cons c s ih => simp [List.takeWhile_cons, ih]

theorem dropWhile_append_of_head (h : ∀ c ∈ rest.head?, p c = false) (s : Text) :
    (s ++ rest).dropWhile p = s.dropWhile p ++ rest := by
  induction s with
  | nil =>
    cases rest with
    | nil => rfl
    | cons c rest => simp [h c rfl]
  | cons c s ih =>
    rw [List.cons_append, List.dropWhile_cons, List.dropWhile_cons, ih]
    split <;> rfl

theorem takeWhile_run (hrun : ∀ c ∈ run, p c = true) (hrest : ∀ c ∈ rest.head?, p c = false) :
    (run ++ rest).takeWhile p = run := by
  rw [takeWhile_append_of_head hrest, List.takeWhile_eq_self_iff]
  exact hrun

theorem dropWhile_run (hrun : ∀ c ∈ run, p c = true) (hrest : ∀ c ∈ rest.head?, p c = false) :
    (run ++ rest).dropWhile p = rest := by
  rw [dropWhile_append_of_head hrest, List.dropWhile_eq_nil_iff.2 hrun, List.nil_append]

end Run

/-! ## Digits -/

theorem isDigit_iff {c : Char} : c.isDigit = true ↔ 0x30 ≤ c.toNat ∧ c.toNat ≤ 0x39 := by
  show (decide ('0'.val ≤ c.val) && decide (c.val ≤ '9'.val)) = true ↔ _
  rw [Bool.and_eq_true, decide_eq_true_eq, decide_eq_true_eq, UInt32.le_iff_toNat_le,
    UInt32.le_iff_toNat_le]
  rfl

theorem isDecimal_of_isDigit {c : Char} (h : c.isDigit = true) : isDecimal c = true := by
  have := isDigit_iff.1 h
  rw [isDecimal_of_ascii (by omega), h]

/-! ## Letters and digits -/

theorem isNameChar_of_isUpper {c : Char} (h : c.isUpper = true) : isNameChar c = true := by
  show (c.isUpper || c.isLower || c.isDigit || c == '_') = true
  simp [h]

theorem isNameChar_of_isLower {c : Char} (h : c.isLower = true) : isNameChar c = true := by
  show (c.isUpper || c.isLower || c.isDigit || c == '_') = true
  simp [h]

theorem isNameChar_of_isDigit {c : Char} (h : c.isDigit = true) : isNameChar c = true := by
  show (c.isUpper || c.isLower || c.isDigit || c == '_') = true
  simp [h]

/-- What is a letter in lower case is a word character. -/
theorem isWord_of_foldCase {c : Char} (h : (foldCase c).isLower = true) : isWord c = true := by
  unfold foldCase at h
  split at h
  · next hc => rw [hc]; decide +kernel
  · split at h
    · next hc => rw [hc]; decide +kernel
    · refine isWord_of_isNameChar ?_
      unfold Char.toLower at h
      split at h
      · next hc => exact isNameChar_of_isUpper (decide_eq_true hc)
      · exact isNameChar_of_isLower h

/-! ## Blanks -/

/-- A blank has no other case. -/
theorem foldCase_of_blank {c : Char} (hc : isBlank c = true) : foldCase c = c := by
  unfold foldCase
  split
  · next h => rw [h] at hc; cases hc
  · split
    · next h => rw [h] at hc; cases hc
    · unfold Char.toLower
      split
      · next h =>
        have h1 : 0x41 ≤ c.toNat := UInt32.le_iff_toNat_le.1 h.1
        have h2 : c.toNat ≤ 0x5a := UInt32.le_iff_toNat_le.1 h.2
        simp only [isBlank, Bool.or_eq_true, Bool.and_eq_true, beq_iff_eq, decide_eq_true_eq]
          at hc
        omega
      · rfl

/-- The code points of the blanks. -/
def blankCodes : List Nat :=
  [0x20, 0x9, 0xa, 0xb, 0xc, 0xd, 0x85, 0xa0, 0x1680, 0x2000, 0x2001, 0x2002, 0x2003, 0x2004,
    0x2005, 0x2006, 0x2007, 0x2008, 0x2009, 0x200a, 0x2028, 0x2029, 0x202f, 0x205f, 0x3000]

theorem toNat_mem_blankCodes {c : Char} (h : isBlank c = true) : c.toNat ∈ blankCodes := by
  simp only [isBlank, Bool.or_eq_true, Bool.and_eq_true, beq_iff_eq, decide_eq_true_eq] at h
  simp only [blankCodes, List.mem_cons]
  omega

theorem isWord_of_isBlank {c : Char} (h : isBlank c = true) : isWord c = false := by
  have hall : ∀ n ∈ blankCodes, isWord (Char.ofNat n) = false := by decide +kernel
  have := hall _ (toNat_mem_blankCodes h)
  rwa [Char.ofNat_toNat] at this

end DocTypes.Text
