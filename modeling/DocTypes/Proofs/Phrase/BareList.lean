/-
  Bare values are recovered as they are written: numbers and words as they stand, and for a product
  the numeral of its exact value. What follows a value can extend neither a number nor a word
  (`Follows`), so each value is read up to its own end (`bareValue?_text`) and its qualifiers up to
  theirs (`skipQualifiers_text`). A product that is not below `2^64`, or has a factor that is not,
  refuses the whole list (`bareValues_text`); so does the enumeration of a text with one keyword
  and no quotation mark (`enumeration_bare`).
-/
import DocTypes.Proofs.Phrase.Keyword
import DocTypes.Proofs.Phrase.ValueList
import DocTypes.Proofs.Text.Plain
import DocTypes.Proofs.Type.Literal
import Mathlib.Tactic.MkIffOfInductiveProp

namespace DocTypes.Phrase

open Text

/-- A character of a bare word. -/
def isValueChar (c : Char) : Bool := c.isLower || c.isDigit || c == '_'

/-- A lower-case word that is no conjunction. -/
@[mk_iff]
structure IsValueWord (w : Text) : Prop where
  head : w.head?.any (fun c => c.isLower || c == '_') = true
  isValueChar : ∀ c ∈ w, isValueChar c = true
  ne_or : w ≠ "or".toList
  ne_and : w ≠ "and".toList

instance (w : Text) : Decidable (IsValueWord w) := decidable_of_iff' _ (isValueWord_iff w)

/-- A value without quotation marks. -/
inductive BareTerm where
  | number (digits : Text) (h : IsNumeral digits)
  | product (a b : Text) (ha : IsNumeral a) (hb : IsNumeral b)
  | word (w : Text) (h : IsValueWord w)

namespace BareTerm

def text : BareTerm → Text
  | number digits _ => digits
  | product a b _ _ => a ++ (" * ".toList ++ b)
  | word w _ => w

/-- The value, of a product the numeral of the product. -/
def value : BareTerm → Text
  | number digits _ => digits
  | product a b _ _ => Nat.toDigits 10 (decimalValue a * decimalValue b)
  | word w _ => w

def isWord : BareTerm → Bool
  | word _ _ => true
  | _ => false

/-- A product and its factors are below `2^64`. -/
def fits : BareTerm → Bool
  | product a b _ _ =>
    decimalValue a < Nat.pow 2 64 && decimalValue b < Nat.pow 2 64 &&
      decimalValue a * decimalValue b < Nat.pow 2 64
  | _ => true

end BareTerm

/-- A word of letters and digits that is no conjunction. -/
@[mk_iff]
structure IsPurposeWord (w : Text) : Prop where
  ne_nil : w ≠ []
  isAlphanum : ∀ c ∈ w, c.isAlphanum = true
  ne_or : w ≠ "or".toList
  ne_and : w ≠ "and".toList

instance (w : Text) : Decidable (IsPurposeWord w) := decidable_of_iff' _ (isPurposeWord_iff w)

/-- What a value is for, in words; nothing where there are none. -/
def purposeText : List Text → Text
  | [] => []
  | w :: ws => " for ".toList ++ joinWith [' '] (w :: ws)

/-- A bare value with its qualifiers: a remark or none, then a purpose or none. -/
structure BareItem where
  term : BareTerm
  remark : Option Text
  purpose : List Text
  remark_closed : ∀ r ∈ remark, ')' ∉ r
  isPurposeWord : ∀ w ∈ purpose, IsPurposeWord w

namespace BareItem

def qualifiers (i : BareItem) : Text := remarkText i.remark ++ purposeText i.purpose

def text (i : BareItem) : Text := i.term.text ++ i.qualifiers

end BareItem

/-! ## What follows an item -/

/-- The characters that may stand behind an item. -/
def stops : List Char := [' ', ',', '.', ';', ')']

/-- What may follow an item: a separator and more, or the end of the list. -/
inductive Follows : Text → Prop
  | separator (sep : Separator) (more : Text) : Follows (sep.text ++ more)
  | behind {s : Text} (h : ∀ c ∈ s.head?, c = '.' ∨ c = ';' ∨ c = ')') : Follows s

namespace Follows

variable {s : Text}

theorem trimStart_behind (h : ∀ c ∈ s.head?, c = '.' ∨ c = ';' ∨ c = ')') : trimStart s = s := by
  refine trimStart_of_nonblank fun c hc => ?_
  rcases h c hc with rfl | rfl | rfl <;> rfl

theorem head_mem (h : Follows s) : ∀ c ∈ s.head?, c ∈ stops := by
  cases h with
  | separator sep more => cases sep <;> rintro c ⟨⟩ <;> decide
  | behind h =>
    intro c hc
    rcases h c hc with rfl | rfl | rfl <;> decide

/-- No remark, purpose or further factor comes next. -/
theorem head_trimStart (h : Follows s) :
    ∀ c ∈ (trimStart s).head?, c ≠ '(' ∧ c ≠ 'f' ∧ c ≠ '*' := by
  cases h with
  | separator sep more => cases sep <;> rintro c ⟨⟩ <;> decide
  | behind h =>
    rw [trimStart_behind h]
    intro c hc
    rcases h c hc with rfl | rfl | rfl <;> decide

theorem dropQualifier_eq (h : Follows s) : dropQualifier s = s := by
  cases h with
  | separator sep more => cases sep <;> rfl
  | behind h =>
    cases s with
    | nil => rfl
    | cons c s =>
      refine if_pos ?_
      rcases h c rfl with rfl | rfl | rfl <;> rfl

theorem endsValues_separator (sep : Separator) (more : Text) :
    endsValues (sep.text ++ more) = false := by
  cases sep <;> rfl

theorem endsValues_behind (h : ∀ c ∈ s.head?, c = '.' ∨ c = ';' ∨ c = ')') :
    endsValues s = true := by
  rw [endsValues, trimStart_behind h]
  cases s with
  | nil => rfl
  | cons c s => rcases h c rfl with rfl | rfl | rfl <;> rfl

/-- Qualifiers do not start otherwise. -/
theorem head_qualifiers (h : Follows s) (i : BareItem) :
    ∀ c ∈ (i.qualifiers ++ s).head?, c ∈ stops := by
  unfold BareItem.qualifiers
  cases i.remark with
  | some r => rintro c ⟨⟩; decide
  | none =>
    cases i.purpose with
    | nil => exact h.head_mem
    | cons w ws => rintro c ⟨⟩; decide

end Follows

/-! ## Qualifiers -/

theorem isAlphanum_stop : ∀ c ∈ stops, c.isAlphanum = false := by decide

/-- A word of letters and digits is passed over. -/
theorem dropQualifier_word {w : Text} (hw : ∀ c ∈ w, c.isAlphanum = true) (s : Text) :
    dropQualifier (w ++ s) = dropQualifier s := by
  induction w with
  | nil => rfl
  | cons c w ih =>
    have hc := hw c List.mem_cons_self
    have hne : ∀ d ∈ stops, c ≠ d := by
      rintro d hd rfl
      rw [isAlphanum_stop _ hd] at hc
      cases hc
    have hends : endsQualifier (c :: (w ++ s)) = false := by
      have hword : ∀ conj : Text, (' ' :: conj).isPrefixOf (c :: (w ++ s)) = false := by
        intro conj
        rw [List.isPrefixOf_cons_cons, beq_false_of_ne (Ne.symm (hne ' ' (by decide))),
          Bool.false_and]
      have hmark : (c == ',' || c == ';' || c == '.' || c == ')') = false := by
        simp [hne ',' (by decide), hne ';' (by decide), hne '.' (by decide), hne ')' (by decide)]
      have hor : " or ".toList.isPrefixOf (c :: (w ++ s)) = false := hword _
      have hand : " and ".toList.isPrefixOf (c :: (w ++ s)) = false := hword _
      rw [endsQualifier, List.head?_cons, Option.any_some, hmark, hor, hand]
      rfl
    rw [List.cons_append, dropQualifier, hends, if_neg Bool.false_ne_true,
      ih fun d hd => hw d (List.mem_cons_of_mem c hd)]

/-- A text that opens with another word does not open with a conjunction and a blank. -/
theorem isPrefixOf_conjunction (conj : Text) {w s : Text} (hw : ∀ c ∈ w, c.isAlphanum = true)
    (hs : ∀ c ∈ s.head?, c.isAlphanum = false) (hconj : ∀ c ∈ conj, c.isAlphanum = true)
    (hne : w ≠ conj) : (conj ++ [' ']).isPrefixOf (w ++ s) = false := by
  rw [Bool.eq_false_iff, Ne, List.isPrefixOf_iff_prefix]
  rintro ⟨more, hmore⟩
  have htake := takeWhile_run hw hs
  rw [← hmore, List.append_assoc, takeWhile_run hconj (by rintro c ⟨⟩; decide)] at htake
  exact hne htake.symm

/-- The words of a purpose are passed over, up to what follows the item. -/
theorem dropQualifier_purpose {ws : List Text} (hne : ws ≠ [])
    (hws : ∀ w ∈ ws, IsPurposeWord w) {s : Text} (hs : Follows s) :
    dropQualifier (joinWith [' '] ws ++ s) = s := by
  induction ws with
  | nil => exact absurd rfl hne
  | cons w ws ih =>
    have hw := hws w List.mem_cons_self
    cases ws with
    | nil => rw [joinWith_singleton, dropQualifier_word hw.isAlphanum, hs.dropQualifier_eq]
    | cons u us =>
      have hu := hws u (by simp)
      have hrest : ∃ t, joinWith [' '] (u :: us) ++ s = u ++ t ∧
          ∀ c ∈ t.head?, c.isAlphanum = false := by
        cases us with
        | nil => exact ⟨s, by simp, fun c hc => isAlphanum_stop c (hs.head_mem c hc)⟩
        | cons v vs => exact ⟨_, by rw [joinWith_cons_cons, List.append_assoc], by
            rintro c ⟨⟩; decide⟩
      obtain ⟨t, ht, hhead⟩ := hrest
      have hor := isPrefixOf_conjunction "or".toList hu.isAlphanum hhead (by decide)
        hu.ne_or
      have hand := isPrefixOf_conjunction "and".toList hu.isAlphanum hhead (by decide)
        hu.ne_and
      have hends : endsQualifier (' ' :: (u ++ t)) = false := by
        refine Bool.or_eq_false_iff.2 ⟨?_, hand⟩
        exact Bool.or_eq_false_iff.2 ⟨rfl, hor⟩
      rw [joinWith_cons_cons, List.append_assoc, dropQualifier_word hw.isAlphanum,
        List.append_assoc, ht, List.singleton_append, dropQualifier, hends,
        if_neg Bool.false_ne_true, ← ht]
      exact ih (by simp) fun v hv => hws v (List.mem_cons_of_mem w hv)

/-- The qualifiers of an item are passed over, and nothing else. -/
theorem skipQualifiers_text (i : BareItem) {s : Text} (hs : Follows s) :
    skipQualifiers (i.qualifiers ++ s) = s := by
  have hhead : (trimStart (purposeText i.purpose ++ s)).head? ≠ some '(' := by
    cases i.purpose with
    | nil => exact fun h => (hs.head_trimStart _ h).1 rfl
    | cons w ws => exact fun h => absurd (Option.some.inj h) (by decide)
  have hskip := skip_remarkText i.remark_closed hhead
  simp only [skipQualifiers, BareItem.qualifiers, List.append_assoc, hskip]
  have hpurpose := i.isPurposeWord
  cases hp : i.purpose with
  | nil =>
    have hfor : after? id "for ".toList (trimStart s) = none := by
      cases ht : trimStart s with
      | nil => rfl
      | cons c t => exact if_neg (hs.head_trimStart c (by rw [ht]; rfl)).2.1
    have hnone : purposeText [] ++ s = s := rfl
    rw [hnone, hfor]
  | cons w ws =>
    rw [hp] at hpurpose
    exact dropQualifier_purpose (by simp) hpurpose hs

/-! ## Values -/

/-- A product has its exact value, or none. -/
theorem product?_eq {a b : Text} (ha : IsNumeral a) (hb : IsNumeral b) :
    product? a b = if (BareTerm.product a b ha hb).fits then
      some (BareTerm.product a b ha hb).value else none := by
  have hsize : UInt64.size = Nat.pow 2 64 := rfl
  unfold product? natural64? BareTerm.fits BareTerm.value
  rw [decimal?_numeral ha, decimal?_numeral hb, hsize]
  generalize Nat.pow 2 64 = bound
  rw [Option.filter_some, Option.filter_some]
  by_cases h1 : decimalValue a < bound <;> by_cases h2 : decimalValue b < bound <;> simp [h1, h2]

theorem isDecimal_stop : ∀ c ∈ stops, isDecimal c = false := by decide

theorem isValueChar_stop : ∀ c ∈ stops, isValueChar c = false := by decide

theorem head_of_numeral {ds : Text} (h : IsNumeral ds) (s : Text) :
    ∃ c ∈ (ds ++ s).head?, c.isDigit = true := by
  obtain ⟨c, t, rfl⟩ := List.exists_cons_of_ne_nil h.ne_nil
  exact ⟨c, rfl, h.isDigit c List.mem_cons_self⟩

theorem isValueChar_of_isDigit {c : Char} (h : c.isDigit = true) : isValueChar c = true := by
  rw [isValueChar, h, Bool.or_true, Bool.true_or]

theorem isBlank_of_isValueChar {c : Char} (h : isValueChar c = true) : isBlank c = false := by
  refine isBlank_of_isNameChar (isNameChar_iff.2 ?_)
  rw [isValueChar, Bool.or_eq_true, Bool.or_eq_true, isLower_iff, isDigit_iff, beq_iff_eq] at h
  rcases h with (h | h) | h
  · exact Or.inl (Or.inl (Or.inr h))
  · exact Or.inl (Or.inr h)
  · exact Or.inr h

theorem read_timesSign (s : Text) :
    timesSign.read s = ((Pattern.char '*').read (trimStart s)).map trimStart := by
  show (((Pattern.char '*').after blanks).toTail.followedBy blanks).read s = _
  rw [Tail.read_followedBy, read_after_blanks]
  cases (Pattern.char '*').read (trimStart s) with
  | none => rfl
  | some r => exact Tail.read_many _ _

/-- Where no sign follows there is no second factor. -/
theorem factor?_of_head {s : Text} (h : ∀ c ∈ (trimStart s).head?, c ≠ '*') : factor? s = none := by
  have hread : timesSign.read s = none := by
    rw [read_timesSign]
    cases hs : trimStart s with
    | nil => rfl
    | cons c t =>
      rw [Pattern.char, Pattern.read_one_cons, if_neg (by simpa using h c (by rw [hs]; rfl))]
      rfl
  rw [factor?, hread]

theorem factor?_text {b s : Text} (hb : IsNumeral b) (hs : ∀ c ∈ s.head?, isDecimal c = false) :
    factor? (" * ".toList ++ (b ++ s)) = some (b, s) := by
  have htrim : trimStart (b ++ s) = b ++ s := by
    obtain ⟨c, hc, hdigit⟩ := head_of_numeral hb s
    refine trimStart_of_nonblank fun d hd => ?_
    rw [Option.mem_def] at hc hd
    rw [← Option.some.inj (hc.symm.trans hd)]
    exact isBlank_of_isValueChar (isValueChar_of_isDigit hdigit)
  have hread : timesSign.read (" * ".toList ++ (b ++ s)) = some (b ++ s) := by
    rw [read_timesSign]
    exact congrArg some ((trimStart_space _).trans htrim)
  have hall : ∀ c ∈ b, isDecimal c = true := fun c hc => isDecimal_of_isDigit (hb.isDigit c hc)
  have hne : b.isEmpty = false := by simpa using hb.ne_nil
  simp only [factor?, hread, takeWhile_run hall hs, dropWhile_run hall hs, hne]
  rfl

/-- A numeral is a number or the first factor of a product. -/
theorem bareValue?_numeral (words : Bool) {ds s : Text} (h : IsNumeral ds)
    (hs : ∀ c ∈ s.head?, isDecimal c = false) :
    bareValue? words (ds ++ s) =
      match factor? s with
      | some (second, rest) => (product? ds second).map fun p => (p, rest)
      | none => some (ds, s) := by
  have hall : ∀ c ∈ ds, isDecimal c = true := fun c hc => isDecimal_of_isDigit (h.isDigit c hc)
  have hne : ds.isEmpty = false := by simpa using h.ne_nil
  simp only [bareValue?, takeWhile_run hall hs, dropWhile_run hall hs, hne]
  rfl

theorem isDecimal_of_wordStart {c : Char} (h : (c.isLower || c == '_') = true) :
    isDecimal c = false := by
  rw [Bool.or_eq_true, beq_iff_eq] at h
  rcases h with h | rfl
  · have hlower := isLower_iff.1 h
    rw [isDecimal_of_ascii (by omega), Bool.eq_false_iff]
    intro hdigit
    have := isDigit_iff.1 hdigit
    omega
  · decide

theorem bareValue?_word {w s : Text} (h : IsValueWord w)
    (hs : ∀ c ∈ s.head?, isValueChar c = false) : bareValue? true (w ++ s) = some (w, s) := by
  obtain ⟨c, t, rfl⟩ : ∃ c t, w = c :: t := List.exists_cons_of_ne_nil (by
    rintro rfl
    exact absurd h.head (by decide))
  have hstart : (c :: t ++ s).head?.any (fun c => c.isLower || c == '_') = true := h.head
  have hnone : (c :: t ++ s).takeWhile isDecimal = [] :=
    List.takeWhile_cons_of_neg (Bool.eq_false_iff.1 (isDecimal_of_wordStart hstart))
  have htake := takeWhile_run h.isValueChar hs
  have hdrop := dropWhile_run h.isValueChar hs
  simp only [bareValue?, hnone, hstart]
  exact congrArg some (congrArg₂ Prod.mk htake hdrop)

/-- A value is read up to its own end. -/
theorem bareValue?_text {words : Bool} (t : BareTerm) (hwords : t.isWord = true → words = true)
    {s : Text} (hhead : ∀ c ∈ s.head?, c ∈ stops) (hsign : ∀ c ∈ (trimStart s).head?, c ≠ '*') :
    bareValue? words (t.text ++ s) = if t.fits then some (t.value, s) else none := by
  have hdecimal : ∀ c ∈ s.head?, isDecimal c = false := fun c hc => isDecimal_stop c (hhead c hc)
  cases t with
  | number ds h =>
    rw [BareTerm.text, bareValue?_numeral words h hdecimal, factor?_of_head hsign]
    rfl
  | product a b ha hb =>
    have hsep : ∀ c ∈ (" * ".toList ++ (b ++ s)).head?, isDecimal c = false := by
      rintro c ⟨⟩
      decide
    rw [BareTerm.text, List.append_assoc, List.append_assoc, bareValue?_numeral words ha hsep,
      factor?_text hb hdecimal]
    dsimp only
    rw [product?_eq ha hb]
    split <;> rfl
  | word w h =>
    rw [BareTerm.text, hwords rfl, bareValue?_word h fun c hc => isValueChar_stop c (hhead c hc)]
    rfl

/-! ## Lists -/

/-- The values are read one by one: behind each the list ends, or a separator leads to the next. -/
theorem bareValues_eq (words : Bool) (s : Text) :
    bareValues words s = (bareValue? words s).bind fun r =>
      if endsValues (skipQualifiers r.2) then some [r.1]
      else (valueSeparator.read (skipQualifiers r.2)).bind fun next =>
        (bareValues words (trimStart next)).map (r.1 :: ·) := by
  rw [bareValues]
  split
  · next h => rw [h]; rfl
  · next value behind h =>
    rw [h]
    dsimp only [Option.bind_some]
    split
    · rfl
    · split
      · next hs => rw [hs]; rfl
      · next more hs => rw [hs]; rfl

/-- A value starts with a run of letters, digits and underscores that is no conjunction. -/
theorem BareTerm.exists_run (t : BareTerm) {s : Text} (hs : ∀ c ∈ s.head?, c ∈ stops) :
    ∃ run rest, t.text ++ s = run ++ rest ∧ run ≠ [] ∧
      (∀ c ∈ run, isValueChar c = true) ∧ (∀ c ∈ rest.head?, c ∈ stops) ∧
      run ≠ "or".toList ∧ run ≠ "and".toList := by
  have hnumeral : ∀ {ds : Text}, IsNumeral ds →
      (∀ c ∈ ds, Phrase.isValueChar c = true) ∧ ds ≠ "or".toList ∧ ds ≠ "and".toList := by
    refine fun h => ⟨fun c hc => isValueChar_of_isDigit (h.isDigit c hc), ?_, ?_⟩
    · rintro rfl
      exact absurd (h.isDigit 'o' (by decide)) (by decide)
    · rintro rfl
      exact absurd (h.isDigit 'a' (by decide)) (by decide)
  cases t with
  | number ds h => exact ⟨ds, s, rfl, h.ne_nil, (hnumeral h).1, hs, (hnumeral h).2⟩
  | product a b ha hb =>
    refine ⟨a, " * ".toList ++ (b ++ s), ?_, ha.ne_nil, (hnumeral ha).1, ?_, (hnumeral ha).2⟩
    · rw [BareTerm.text, List.append_assoc, List.append_assoc]
    · rintro c ⟨⟩
      decide
  | word w h =>
    refine ⟨w, s, rfl, ?_, h.isValueChar, hs, h.ne_or, h.ne_and⟩
    rintro rfl
    exact absurd h.head (by decide)

/-- A value is not taken for blanks or a conjunction. -/
theorem BareTerm.read_start (t : BareTerm) {s : Text} (hs : ∀ c ∈ s.head?, c ∈ stops) :
    (∀ c ∈ (t.text ++ s).head?, isBlank c = false) ∧ conjunctionWord.read (t.text ++ s) = none := by
  obtain ⟨run, rest, htext, hne, hrun, hrest, hor, hand⟩ := t.exists_run hs
  rw [htext]
  constructor
  · obtain ⟨c, run, rfl⟩ := List.exists_cons_of_ne_nil hne
    rintro d ⟨⟩
    exact isBlank_of_isValueChar (hrun c List.mem_cons_self)
  · exact read_conjunctionWord_of_run (fun _ => isBlank_of_isValueChar) (by decide) hrun
      (fun c hc => isValueChar_stop c (hrest c hc)) hor hand

/-- No sign comes behind a value. -/
theorem Follows.head_sign {s : Text} (hs : Follows s) (i : BareItem) :
    ∀ c ∈ (trimStart (i.qualifiers ++ s)).head?, c ≠ '*' := by
  unfold BareItem.qualifiers
  cases i.remark with
  | some r => rintro c ⟨⟩; decide
  | none =>
    cases i.purpose with
    | nil => exact fun c hc => (hs.head_trimStart c hc).2.2
    | cons w ws => rintro c ⟨⟩; decide

/-- An item has its value, unless it is a product that does not fit. -/
theorem bareValues_item {words : Bool} (i : BareItem) (hwords : i.term.isWord = true → words = true)
    {s : Text} (hs : Follows s) :
    bareValues words (i.text ++ s) = if i.term.fits then
      if endsValues s then some [i.term.value]
      else (valueSeparator.read s).bind fun next =>
        (bareValues words (trimStart next)).map (i.term.value :: ·)
    else none := by
  rw [BareItem.text, List.append_assoc, bareValues_eq,
    bareValue?_text i.term hwords (hs.head_qualifiers i) (hs.head_sign i)]
  split
  · rw [Option.bind_some, skipQualifiers_text i hs]
  · rfl

/-- Behind the first item of a list a separator comes, or the end. -/
theorem exists_follows (list : Listed BareItem) {behind : Text}
    (hbehind : ∀ c ∈ behind.head?, c = '.' ∨ c = ';' ∨ c = ')') :
    ∃ s, Follows s ∧ list.text BareItem.text ++ behind = list.first.text ++ s := by
  obtain ⟨i, others⟩ := list
  cases others with
  | nil => exact ⟨behind, .behind hbehind, by rw [Listed.text_single]⟩
  | cons o others => exact ⟨_, .separator o.1 (o.2.text ++ _), by
      rw [Listed.text, List.flatMap_cons, List.append_assoc, List.append_assoc, List.append_assoc]⟩

/-- The values of a list are those of its items, if all products fit. -/
theorem bareValues_text {words : Bool} (list : Listed BareItem)
    (hwords : ∀ i ∈ list.items, i.term.isWord = true → words = true) {behind : Text}
    (hbehind : ∀ c ∈ behind.head?, c = '.' ∨ c = ';' ∨ c = ')') :
    bareValues words (list.text BareItem.text ++ behind) =
      if ∀ i ∈ list.items, i.term.fits = true then some (list.items.map (·.term.value))
      else none := by
  induction list using Listed.induction with
  | single i =>
    rw [Listed.text_single, bareValues_item i (hwords i List.mem_cons_self) (.behind hbehind),
      if_pos (Follows.endsValues_behind hbehind)]
    simp [Listed.items]
  | cons i sep list ih =>
    obtain ⟨s, hs, htext⟩ := exists_follows list hbehind
    obtain ⟨hblank, hword⟩ := list.first.term.read_start (hs.head_qualifiers list.first)
    rw [← List.append_assoc, ← BareItem.text, ← htext] at hblank hword
    rw [Listed.text_cons, List.append_assoc, List.append_assoc,
      bareValues_item i (hwords i List.mem_cons_self) (.separator sep _),
      Follows.endsValues_separator, if_neg Bool.false_ne_true, read_separator sep hblank hword,
      Option.bind_some, trimStart_of_nonblank hblank,
      ih fun j hj => hwords j (List.mem_cons_of_mem i hj), Listed.items_cons]
    simp only [List.forall_mem_cons, List.map_cons]
    by_cases hfirst : i.term.fits = true
    · by_cases hothers : ∀ j ∈ list.items, j.term.fits = true <;> simp [hfirst, hothers]
    · simp [hfirst]

/-- Behind the only keyword of a text without opening marks, a list of numbers, products and, for
a string, words gives exactly its values, with any mix of separators, remarks and purposes; if a
product or a factor is not below `2^64`, there are no values at all. The list may be followed by
nothing, or by a full stop, semicolon or closing parenthesis. -/
theorem enumeration_bare (p : Primitive) (list : Listed BareItem) {front k behind prose : Text}
    (hprose : prose = front ++ k ++ ' ' :: list.text BareItem.text ++ behind)
    (hfront : ∀ c ∈ front.getLast?, isBlank c = true) (hk : k.map foldCase ∈ bareKeywords)
    (hbehind : ∀ c ∈ behind.head?, c = '.' ∨ c = ';' ∨ c = ')')
    (hwords : ∀ i ∈ list.items, i.term.isWord = true → p = .string)
    (hmarks : ∀ m ∈ openingMarks, m ∉ prose)
    (honly : ∀ o ∈ bareKeyword.occurrences prose, o.before = front) :
    enumeration p prose =
      if ∀ i ∈ list.items, i.term.fits = true then some (list.items.map (·.term.value))
      else none := by
  have htext : prose = front ++ (k ++ ' ' :: (list.text BareItem.text ++ behind)) := by
    rw [hprose]
    simp
  obtain ⟨s, hs, hfirst⟩ := exists_follows list hbehind
  have hblank := (list.first.term.read_start (hs.head_qualifiers list.first)).1
  rw [← List.append_assoc, ← BareItem.text, ← hfirst] at hblank
  rw [enumeration, findSome?_quotedKeyword_eq_none hmarks, Option.none_or]
  rw [htext] at honly ⊢
  rw [findSome?_bareKeyword hfront hk honly, bareList, trimStart_space,
    trimStart_of_nonblank hblank]
  exact bareValues_text list (fun i hi hword => beq_iff_eq.2 (hwords i hi hword)) hbehind

/-- Words that begin like conjunctions, remarks with separators in them, and a product just below
`2^64`. -/
theorem enumeration_bare_sizes :
    let list : Listed BareItem :=
      { first := ⟨.number "007".toList (by decide), none, ["big".toList, "groups".toList],
          by rintro _ ⟨⟩, by decide⟩
        others := [
          (.comma, ⟨.product "4294967296".toList "4294967295".toList (by decide) (by decide),
            some "bytes, or more".toList, [], by rintro _ ⟨⟩; decide, by decide⟩),
          (.commaOr, ⟨.word "or_1".toList (by decide), some "a; b.".toList, ["v2".toList],
            by rintro _ ⟨⟩; decide, by decide⟩),
          (.and, ⟨.word "android".toList (by decide), none, [], by rintro _ ⟨⟩, by decide⟩)] }
    let front := "Size (can be ".toList
    let k := "MUST be".toList
    let behind := ") or empty".toList
    let prose := "Size (can be MUST be 007 for big groups, 4294967296 * 4294967295 (bytes, or more)"
      ++ ", or or_1 (a; b.) for v2 and android) or empty"
    prose.toList = front ++ k ++ ' ' :: list.text BareItem.text ++ behind ∧
      (∀ c ∈ front.getLast?, isBlank c = true) ∧ k.map foldCase ∈ bareKeywords ∧
      (∀ c ∈ behind.head?, c = '.' ∨ c = ';' ∨ c = ')') ∧
      (∀ i ∈ list.items, i.term.isWord = true → Primitive.string = .string) ∧
      (∀ m ∈ openingMarks, m ∉ prose.toList) ∧
      (∀ o ∈ bareKeyword.occurrences prose.toList, o.before = front) ∧
      enumeration .string prose.toList =
        some (["007", "18446744069414584320", "or_1", "android"].map String.toList) := by
  intro list front k behind prose
  have hprose : prose.toList = front ++ k ++ ' ' :: list.text BareItem.text ++ behind := by
    decide +kernel
  have hfront : ∀ c ∈ front.getLast?, isBlank c = true := by decide
  have hk : k.map foldCase ∈ bareKeywords := by decide
  have hbehind : ∀ c ∈ behind.head?, c = '.' ∨ c = ';' ∨ c = ')' := by decide
  have hwords : ∀ i ∈ list.items, i.term.isWord = true → Primitive.string = .string :=
    fun _ _ _ => rfl
  have hmarks : ∀ m ∈ openingMarks, m ∉ prose.toList := by decide +kernel
  have honly : ∀ o ∈ bareKeyword.occurrences prose.toList, o.before = front := by decide +kernel
  have hvalues := enumeration_bare .string list hprose hfront hk hbehind hwords hmarks honly
  exact ⟨hprose, hfront, hk, hbehind, hwords, hmarks, honly, hvalues.trans (by decide +kernel)⟩

end DocTypes.Phrase
