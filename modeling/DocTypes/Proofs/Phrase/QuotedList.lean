/-
  Quoted values are recovered as they are written. A value between its marks is cut at the first
  closing one (`quotedValues_item`), and what stands behind it, a remark and a separator, leads to
  the next value (`nextValue_separator`) or to the end of the list (`nextValue_behind`). So the
  values of a list behind a keyword are those of the text, in order and as often as they stand
  there (`enumeration_quoted`).
-/
import DocTypes.Proofs.Phrase.Keyword
import DocTypes.Proofs.Phrase.ValueList
import Mathlib.Data.List.DropRight

namespace DocTypes.Phrase

open Text

/-- The marks around a quoted value. -/
inductive Marks where
  | curly
  | straight
  deriving DecidableEq, Repr

namespace Marks

def opening : Marks → Char
  | curly => '“'
  | straight => '"'

def closing : Marks → Char
  | curly => '”'
  | straight => '"'

theorem opening_mem (m : Marks) : m.opening ∈ openingMarks := by cases m <;> decide

theorem closingMark?_opening (m : Marks) : closingMark? m.opening = some m.closing := by
  cases m <;> rfl

end Marks

/-- A value between marks, which cannot hold the closing one, and a remark or none. -/
structure QuotedItem where
  marks : Marks
  value : Text
  remark : Option Text
  value_closed : marks.closing ∉ value
  remark_closed : ∀ r ∈ remark, ')' ∉ r

def QuotedItem.text (i : QuotedItem) : Text :=
  i.marks.opening :: (i.value ++ i.marks.closing :: remarkText i.remark)

theorem QuotedItem.text_append (i : QuotedItem) (rest : Text) :
    i.text ++ rest =
      i.marks.opening :: (i.value ++ i.marks.closing :: (remarkText i.remark ++ rest)) := by
  simp [text]

/-- A list of quoted values starts with an opening mark. -/
theorem exists_openingMark (list : Listed QuotedItem) (behind : Text) :
    ∃ m ∈ openingMarks, ∃ more, list.text QuotedItem.text ++ behind = m :: more := by
  refine ⟨_, list.first.marks.opening_mem, ?_⟩
  rw [Listed.text, List.append_assoc, QuotedItem.text_append]
  exact ⟨_, rfl⟩

/-! ## From value to value -/

/-- What is read between two values begins with blanks, whether they are passed over or not. -/
theorem nextValue_eq (s : Text) :
    nextValue s = trimStart (skip valueSeparator.toTail (skip parenthetical.toTail s)) := by
  have hidem : ∀ s : Text, trimStart (trimStart s) = trimStart s :=
    fun s => List.dropWhile_idempotent isBlank s
  have hremark : ∀ s : Text, trimStart (skip parenthetical.toTail (trimStart s)) =
      trimStart (skip parenthetical.toTail s) := by
    intro s
    have hread : parenthetical.read (trimStart s) = parenthetical.read s := by
      rw [read_parenthetical, read_parenthetical, hidem]
    unfold skip
    rw [hread]
    cases parenthetical.read s with
    | none => exact hidem s
    | some r => rfl
  have hseparator : ∀ s t : Text, trimStart s = trimStart t →
      trimStart (skip valueSeparator.toTail s) = trimStart (skip valueSeparator.toTail t) := by
    intro s t h
    have hread : valueSeparator.read s = valueSeparator.read t := by
      rw [read_valueSeparator, read_valueSeparator, h]
    unfold skip
    rw [hread]
    cases valueSeparator.read t with
    | none => exact h
    | some r => rfl
  exact hseparator _ _ (hremark s)

/-- Behind a remark and a separator the next value comes. -/
theorem nextValue_separator {r : Option Text} (hr : ∀ t ∈ r, ')' ∉ t) (sep : Separator)
    {m : Char} (hm : m ∈ openingMarks) (more : Text) :
    nextValue (remarkText r ++ (sep.text ++ m :: more)) = m :: more := by
  have hblank : ∀ m ∈ openingMarks, isBlank m = false := by decide
  have hword : conjunctionWord.read (m :: more) = none := by
    have hne : ∀ m ∈ openingMarks, m ≠ 'o' ∧ m ≠ 'a' := by decide
    have hor : after? id "or".toList (m :: more) = none := if_neg (hne m hm).1
    have hand : after? id "and".toList (m :: more) = none := if_neg (hne m hm).2
    rw [read_conjunctionWord, hor, hand]
    rfl
  have hhead : (trimStart (sep.text ++ m :: more)).head? ≠ some '(' := by
    cases sep <;> exact fun h => absurd (Option.some.inj h) (by decide)
  rw [nextValue_eq, skip_remarkText hr hhead,
    skip_of_read (read_separator sep (by rintro c ⟨⟩; exact hblank m hm) hword)]
  exact trimStart_of_head (hblank m hm)

/-- Behind the last value and its remark the end of the list comes. -/
theorem nextValue_behind {r : Option Text} (hr : ∀ t ∈ r, ')' ∉ t) {behind : Text}
    (hbehind : ∀ c ∈ behind.head?, c = '.' ∨ c = ';') :
    nextValue (remarkText r ++ behind) = behind := by
  have htrim : trimStart behind = behind := by
    refine trimStart_of_nonblank fun c hc => ?_
    rcases hbehind c hc with rfl | rfl <;> rfl
  have hhead : (trimStart behind).head? ≠ some '(' := by
    rw [htrim]
    intro h
    rcases hbehind _ h with h | h <;> exact absurd h (by decide)
  have hnone : valueSeparator.read behind = none := by
    refine read_valueSeparator_of_head ?_
    rw [htrim]
    intro c hc
    rcases hbehind c hc with rfl | rfl <;> decide
  rw [nextValue_eq, skip_remarkText hr hhead, skip_of_none hnone, htrim]

/-! ## Values -/

theorem cutAt_append {mark : Char} {value : Text} (h : mark ∉ value) (rest : Text) :
    cutAt mark (value ++ mark :: rest) = some (value, rest) := by
  induction value with
  | nil => rw [List.nil_append, cutAt, if_pos rfl]
  | cons c value ih =>
    rw [List.mem_cons, not_or] at h
    rw [List.cons_append, cutAt, if_neg (Ne.symm h.1), ih h.2]
    rfl

/-- A value is cut at its closing mark, and the reading goes on behind it. -/
theorem quotedValues_item (i : QuotedItem) (rest : Text) :
    quotedValues (i.text ++ rest) =
      (quotedValues (nextValue (remarkText i.remark ++ rest))).map (i.value :: ·) := by
  have hmark := i.marks.closingMark?_opening
  have hcut := cutAt_append i.value_closed (remarkText i.remark ++ rest)
  rw [i.text_append, quotedValues]
  split
  · next h => rw [hmark] at h; cases h
  · next mark h =>
    obtain rfl := Option.some.inj (hmark.symm.trans h)
    split
    · next h => rw [hcut] at h; cases h
    · next value rest' h =>
      obtain ⟨rfl, rfl⟩ := Prod.mk.inj (Option.some.inj (hcut.symm.trans h))
      rfl

theorem quotedValues_behind {behind : Text} (hbehind : ∀ c ∈ behind.head?, c = '.' ∨ c = ';') :
    quotedValues behind = some [] := by
  cases behind with
  | nil => rw [quotedValues]
  | cons c behind =>
    have hmark : closingMark? c = none := by rcases hbehind c rfl with rfl | rfl <;> rfl
    rw [quotedValues]
    split
    · rfl
    · next mark h => rw [hmark] at h; cases h

/-- The values of a list are those of its items. -/
theorem quotedValues_text (list : Listed QuotedItem) {behind : Text}
    (hbehind : ∀ c ∈ behind.head?, c = '.' ∨ c = ';') :
    quotedValues (list.text QuotedItem.text ++ behind) =
      some (list.items.map QuotedItem.value) := by
  induction list using Listed.induction with
  | single i =>
    rw [Listed.text_single, quotedValues_item, nextValue_behind i.remark_closed hbehind,
      quotedValues_behind hbehind]
    rfl
  | cons i sep list ih =>
    obtain ⟨m, hm, more, hmore⟩ := exists_openingMark list behind
    rw [Listed.text_cons, List.append_assoc, List.append_assoc, quotedValues_item, hmore,
      nextValue_separator i.remark_closed sep hm, ← hmore, ih]
    rfl

/-- Behind a keyword in any letter case, a list of quoted values with any mix of separators and
remarks gives exactly its values. Keywords in front of it do not matter, as long as no quotation
mark opens there; the list may be followed by nothing, or by a full stop or semicolon. -/
theorem enumeration_quoted (p : Primitive) (list : Listed QuotedItem) {front k behind : Text}
    (hfront : ∀ c ∈ front.getLast?, isBlank c = true) (hmarks : ∀ m ∈ openingMarks, m ∉ front)
    (hk : k.map foldCase ∈ quotedKeywords) (hbehind : ∀ c ∈ behind.head?, c = '.' ∨ c = ';') :
    enumeration p (front ++ k ++ ' ' :: list.text QuotedItem.text ++ behind) =
      some (list.items.map QuotedItem.value) := by
  have hprose : front ++ k ++ ' ' :: list.text QuotedItem.text ++ behind =
      front ++ (k ++ ' ' :: (list.text QuotedItem.text ++ behind)) := by simp
  have hvalues := quotedValues_text list hbehind
  obtain ⟨m, hm, more, hmore⟩ := exists_openingMark list behind
  have hblank : ∀ m ∈ openingMarks, isBlank m = false := by decide
  have hlist : quotedList (' ' :: m :: more) = some (list.items.map QuotedItem.value) := by
    rw [quotedList, trimStart_space, trimStart_of_head (hblank m hm), ← hmore, hvalues]
    rfl
  rw [enumeration, hprose, hmore, findSome?_quotedKeyword hfront hmarks hk hm hlist,
    Option.some_or]

/-- Values with separators and quotation marks in them, behind a keyword that the front begins and
the keyword ends. -/
theorem enumeration_quoted_kinds :
    let list : Listed QuotedItem :=
      { first := ⟨.curly, "a, \"b\"".toList, some "see “x”; one of".toList, by decide, by
          rintro _ ⟨⟩; decide⟩
        others := [(.commaOr, ⟨.straight, "“c”".toList, none, by decide, by rintro _ ⟨⟩⟩),
          (.and, ⟨.curly, [], none, by decide, by rintro _ ⟨⟩⟩),
          (.comma, ⟨.curly, "a, \"b\"".toList, none, by decide, by rintro _ ⟨⟩⟩)] }
    let front := "Always (can be ".toList
    let behind := ". “d”".toList
    (∀ c ∈ front.getLast?, isBlank c = true) ∧ (∀ m ∈ openingMarks, m ∉ front) ∧
      "EITHER".toList.map foldCase ∈ quotedKeywords ∧
      (∀ c ∈ behind.head?, c = '.' ∨ c = ';') ∧
      enumeration .integer
          (front ++ "EITHER".toList ++ ' ' :: list.text QuotedItem.text ++ behind) =
        some ["a, \"b\"".toList, "“c”".toList, [], "a, \"b\"".toList] := by
  intro list front behind
  have hfront : ∀ c ∈ front.getLast?, isBlank c = true := by decide
  have hmarks : ∀ m ∈ openingMarks, m ∉ front := by decide
  have hk : "EITHER".toList.map foldCase ∈ quotedKeywords := by decide
  have hbehind : ∀ c ∈ behind.head?, c = '.' ∨ c = ';' := by decide
  exact ⟨hfront, hmarks, hk, hbehind, enumeration_quoted .integer list hfront hmarks hk hbehind⟩

end DocTypes.Phrase
