/-
  Written types. A type is written as alternatives between separators, each a name behind the
  words of its arrays, and all of them behind the words of arrays around the whole. Such a phrase
  consists of words that are no conjunctions, with blanks between (`IsWords`). No separator fits
  within them, so cutting the phrase gives the alternatives (`split_text`), and where the first
  alternative is a bare name, the words in front belong to all of them. So the phrase gives the
  type that was written (`resolve_text`).
-/
import DocTypes.Proofs.Phrase.NormalForm
import DocTypes.Proofs.Text.Places
import Mathlib.Data.List.Basic

namespace DocTypes

open Text

/-- The type that a name stands for: a documented primitive, or else the name itself. -/
def TypeExpr.ofName (name : Text) : TypeExpr :=
  match Primitive.docNames.lookup name with
  | some p => primitive p
  | none => named (String.ofList name)

namespace Phrase

open TypeExpr Tail

/-! ## Written types -/

/-- A name of a type: the documented name of a primitive, or an identifier that is no
conjunction. -/
structure TypeName where
  text : Text
  spelled : text ∈ Primitive.docNames.map Prod.fst ∨
    isIdentifier text = true ∧ text ≠ "or".toList ∧ text ≠ "and".toList

/-- A name behind the words of its arrays. -/
structure Operand where
  layers : List ArrayWords
  name : TypeName

namespace Operand

def text (o : Operand) : Text := o.layers.flatMap ArrayWords.text ++ o.name.text

def type (o : Operand) : TypeExpr := arrays o.layers.length (ofName o.name.text)

end Operand

/-- One type alone, or the choice between two or more. -/
def oneOf : List TypeExpr → TypeExpr
  | [t] => t
  | ts => union ts

/-- Alternatives, the first a bare name, behind the words of arrays around them all. -/
structure WrittenType where
  layers : List ArrayWords
  operands : Listed Operand
  first_bare : operands.first.layers = []

namespace WrittenType

def text (w : WrittenType) : Text :=
  w.layers.flatMap ArrayWords.text ++ w.operands.text Operand.text

def type (w : WrittenType) : TypeExpr :=
  arrays w.layers.length (oneOf (w.operands.items.map Operand.type))

end WrittenType

/-! ## Words -/

/-- A character of the words of a phrase: no blank and no comma. -/
def isPhraseChar (c : Char) : Bool := !isBlank c && c != ','

theorem isPhraseChar_iff {c : Char} : isPhraseChar c = true ↔ isBlank c = false ∧ c ≠ ',' := by
  simp [isPhraseChar]

/-- A word of a phrase that is no conjunction. -/
structure IsPhraseWord (w : Text) : Prop where
  ne_nil : w ≠ []
  isPhraseChar_of_mem : ∀ c ∈ w, isPhraseChar c = true
  ne_or : w ≠ "or".toList
  ne_and : w ≠ "and".toList

/-- Words that are no conjunctions, with blanks between. -/
inductive IsWords : Text → Prop
  | word {w : Text} : IsPhraseWord w → IsWords w
  | cons {w s : Text} (gap : Gap) : IsPhraseWord w → IsWords s → IsWords (w ++ (gap.text ++ s))

/-- A word comes next, and it is no conjunction. -/
structure WordNext (s : Text) : Prop where
  head : s.head?.any isPhraseChar = true
  read_eq_none : conjunctionWord.read s = none

/-- No word goes on where blanks stand. -/
theorem isPhraseChar_gap (g : Gap) (s : Text) :
    ∀ c ∈ (g.text ++ s).head?, isPhraseChar c = false := by
  intro c hc
  obtain ⟨d, t, hg⟩ := List.exists_cons_of_ne_nil g.ne_nil
  rw [hg, List.cons_append, List.head?_cons, Option.mem_some_iff] at hc
  simp [isPhraseChar, ← hc, g.isBlank d (hg ▸ List.mem_cons_self)]

theorem IsPhraseWord.wordNext {w : Text} (h : IsPhraseWord w) {rest : Text}
    (hrest : ∀ c ∈ rest.head?, isPhraseChar c = false) : WordNext (w ++ rest) where
  head := by
    obtain ⟨c, t, rfl⟩ := List.exists_cons_of_ne_nil h.ne_nil
    exact h.isPhraseChar_of_mem c List.mem_cons_self
  read_eq_none := read_conjunctionWord_of_run (fun c hc => (isPhraseChar_iff.1 hc).1) (by decide)
    h.isPhraseChar_of_mem hrest h.ne_or h.ne_and

theorem WordNext.ne_nil {s : Text} (h : WordNext s) : s ≠ [] := by
  rintro rfl
  cases h.head

theorem WordNext.isBlank_head {s : Text} (h : WordNext s) : ∀ c ∈ s.head?, isBlank c = false := by
  intro c hc
  have hhead := h.head
  rw [Option.mem_def.1 hc] at hhead
  exact (isPhraseChar_iff.1 hhead).1

/-! ## Where alternatives are separated -/

/-- Alternatives are separated as values are, but not within a word. -/
theorem read_alternativeSeparator (s : Text) :
    alternativeSeparator.read s =
      if s.head?.any isPhraseChar then none else valueSeparator.read s := by
  have hread : alternativeSeparator.read s =
      (((Pattern.char ',').read (trimStart s)).map fun t =>
        (conjunctionWord.read (trimStart t)).getD (trimStart t)).or
          ((blanks1.read s).bind conjunctionWord.read) := by
    show ((((Pattern.char ',').after blanks).toTail.followedBy (blanks.followedBy
      conjunctionWord.toTail.optional)).or
        (blanks1.toTail.followedBy conjunctionWord.toTail)).read s = _
    rw [Tail.read_or, read_followedBy_conjunctionWord, read_after_blanks, Tail.read_followedBy]
  rw [hread, read_blanks1, read_valueSeparator]
  cases s with
  | nil => rfl
  | cons c s =>
    by_cases hblank : isBlank c = true
    · simp [isPhraseChar, hblank]
    · rw [trimStart_of_head (by simpa using hblank), Pattern.char, Pattern.read_one_cons]
      by_cases hcomma : c = ','
      · simp [isPhraseChar, hcomma]
      · simp [isPhraseChar, hblank, hcomma]

/-- No separator starts with a character of a word. -/
theorem span?_alternativeSeparator_of_isPhraseChar {c : Char} (hc : isPhraseChar c = true)
    (s : Text) : alternativeSeparator.span? (c :: s) = none := by
  rw [← Pattern.read_eq_none_iff, read_alternativeSeparator]
  exact if_pos hc

theorem freeBefore_gap {rest : Text} (g : Gap) (h : WordNext rest) :
    alternativeSeparator.FreeBefore g.text rest := by
  intro t ht hne
  obtain ⟨c, u, rfl⟩ := List.exists_cons_of_ne_nil hne
  have hblank : ∀ d ∈ c :: u, isBlank d = true := fun d hd => g.isBlank d (ht.subset hd)
  have htrim : trimStart ((c :: u) ++ rest) = rest := dropWhile_run hblank h.isBlank_head
  have hcomma : (Pattern.char ',').read rest = none := by
    have hhead := h.head
    cases rest with
    | nil => rfl
    | cons d rest =>
      rw [Pattern.char, Pattern.read_one_cons, if_neg]
      simpa using (isPhraseChar_iff.1 hhead).2
  rw [← Pattern.read_eq_none_iff, read_alternativeSeparator]
  split
  · rfl
  · rw [read_valueSeparator, htrim, hcomma, h.read_eq_none]
    rfl

/-- A separator is read up to the words behind it. -/
theorem span?_separator (sep : Separator) {s : Text} (h : WordNext s) :
    ∃ n, alternativeSeparator.span? (sep.text ++ s) = some n ∧ (sep.text ++ s).drop n = s := by
  have hread : alternativeSeparator.read (sep.text ++ s) = some s := by
    rw [read_alternativeSeparator, if_neg (by cases sep <;> exact Bool.false_ne_true)]
    exact read_separator sep h.isBlank_head h.read_eq_none
  exact Option.map_eq_some_iff.1 hread

/-- Neither a word nor blanks go on where a separator stands. -/
theorem isPhraseChar_separator (sep : Separator) (s : Text) :
    ∀ c ∈ (sep.text ++ s).head?, isPhraseChar c = false := by
  cases sep <;> (rintro c ⟨⟩; decide)

namespace IsWords

variable {s rest : Text}

theorem wordNext (h : IsWords s) (hrest : ∀ c ∈ rest.head?, isPhraseChar c = false) :
    WordNext (s ++ rest) := by
  cases h with
  | word hw => exact hw.wordNext hrest
  | @cons w s gap hw _ =>
    rw [List.append_assoc, List.append_assoc]
    exact hw.wordNext (isPhraseChar_gap gap _)

theorem freeBefore (h : IsWords s) (hrest : ∀ c ∈ rest.head?, isPhraseChar c = false) :
    alternativeSeparator.FreeBefore s rest := by
  have hword : ∀ {w rest : Text}, IsPhraseWord w → alternativeSeparator.FreeBefore w rest :=
    fun hw => .of_forall
      (fun c hc => span?_alternativeSeparator_of_isPhraseChar (hw.isPhraseChar_of_mem c hc)) _
  induction h with
  | word hw => exact hword hw
  | cons gap hw hs ih =>
    exact (hword hw).append ((freeBefore_gap gap (hs.wordNext hrest)).append ih)

theorem free (h : IsWords s) : alternativeSeparator.Free s := (h.freeBefore (by simp)).free

theorem ne_nil (h : IsWords s) : s ≠ [] := by
  cases h with
  | word hw => exact hw.ne_nil
  | cons _ hw _ => exact List.append_ne_nil_of_left_ne_nil hw.ne_nil _

theorem isBlank_last (h : IsWords s) : ∀ c ∈ s.getLast?, isBlank c = false := by
  induction h with
  | word hw =>
    exact fun c hc => (isPhraseChar_iff.1 (hw.isPhraseChar_of_mem c (List.mem_of_mem_getLast? hc))).1
  | cons gap hw hs ih =>
    rwa [← List.append_assoc, List.getLast?_append_of_ne_nil _ hs.ne_nil]

theorem isBlank_head (h : IsWords s) : ∀ c ∈ s.head?, isBlank c = false := by
  have hnext : WordNext (s ++ []) := h.wordNext (by simp)
  rw [List.append_nil] at hnext
  exact hnext.isBlank_head

theorem trim_eq (h : IsWords s) : trim s = s := trim_of_ends h.isBlank_head h.isBlank_last

end IsWords

/-! ## Written types consist of words -/

theorem isPhraseWord_of_isIdentifier {w : Text} (h : isIdentifier w = true)
    (hor : w ≠ "or".toList) (hand : w ≠ "and".toList) : IsPhraseWord w := by
  let n : Identifier := ⟨w, h⟩
  refine ⟨n.ne_nil, fun c hc => isPhraseChar_iff.2 ⟨?_, ?_⟩, hor, hand⟩
  · exact isBlank_of_isNameChar (n.isNameChar_of_mem c hc)
  · rintro rfl
    exact n.notMem rfl hc

theorem TypeName.cases (n : TypeName) :
    IsPhraseWord n.text ∨ n.text = "Float number".toList := by
  rcases n.spelled with h | ⟨h, hor, hand⟩
  · have hdoc : ∀ t ∈ Primitive.docNames.map Prod.fst, t = "Float number".toList ∨
        isIdentifier t = true ∧ t ≠ "or".toList ∧ t ≠ "and".toList := by decide
    rcases hdoc _ h with h | ⟨h, hor, hand⟩
    · exact Or.inr h
    · exact Or.inl (isPhraseWord_of_isIdentifier h hor hand)
  · exact Or.inl (isPhraseWord_of_isIdentifier h hor hand)

theorem TypeName.isWords (n : TypeName) : IsWords n.text := by
  rcases n.cases with h | h
  · exact .word h
  · have hfloat : IsPhraseWord "Float".toList := ⟨by decide, by decide, by decide, by decide⟩
    have hnumber : IsPhraseWord "number".toList := ⟨by decide, by decide, by decide, by decide⟩
    rw [h]
    exact .cons ⟨[' '], by decide, by decide⟩ hfloat (.word hnumber)

/-- A word that is "array" or "of" in some letter case. -/
theorem isPhraseWord_of_map_foldCase {u w : Text} (h : u.map foldCase = w) (hne : w ≠ [])
    (hw : ∀ c ∈ w, isPhraseChar c = true) (hor : w ≠ "or".toList) (hand : w ≠ "and".toList) :
    IsPhraseWord u := by
  have hblank : ∀ c ∈ w, isBlank c = false := fun c hc => (isPhraseChar_iff.1 (hw c hc)).1
  refine ⟨?_, fun c hc => isPhraseChar_iff.2 ⟨isBlank_of_map_foldCase h hblank c hc, ?_⟩, ?_, ?_⟩
  · rintro rfl
    exact hne h.symm
  · rintro rfl
    exact (isPhraseChar_iff.1 (hw _ (h ▸ List.mem_map_of_mem hc))).2 rfl
  · rintro rfl
    exact hor h.symm
  · rintro rfl
    exact hand h.symm

theorem ArrayWords.isPhraseWord_arrayText (w : ArrayWords) : IsPhraseWord w.arrayText :=
  isPhraseWord_of_map_foldCase w.array_eq (by decide) (by decide) (by decide) (by decide)

theorem ArrayWords.isPhraseWord_ofText (w : ArrayWords) : IsPhraseWord w.ofText :=
  isPhraseWord_of_map_foldCase w.of_eq (by decide) (by decide) (by decide) (by decide)

theorem Operand.isWords (o : Operand) : IsWords o.text := by
  obtain ⟨layers, name⟩ := o
  show IsWords (layers.flatMap ArrayWords.text ++ name.text)
  induction layers with
  | nil => exact name.isWords
  | cons w layers ih =>
    rw [List.flatMap_cons, List.append_assoc, w.text_append]
    exact .cons _ w.isPhraseWord_arrayText (.cons _ w.isPhraseWord_ofText ih)

/-! ## Cutting a phrase -/

section Split

variable {α : Type} {write : α → Text} (hwrite : ∀ a, IsWords (write a))

include hwrite

theorem wordNext_text (l : Listed α) : WordNext (l.text write) := by
  cases l using Listed.induction with
  | single a =>
    rw [Listed.text_single, ← List.append_nil (write a)]
    exact (hwrite a).wordNext (by simp)
  | cons a sep l _ =>
    rw [Listed.text_cons]
    exact (hwrite a).wordNext (isPhraseChar_separator sep _)

theorem isBlank_last_text (l : Listed α) : ∀ c ∈ (l.text write).getLast?, isBlank c = false := by
  induction l using Listed.induction with
  | single a =>
    rw [Listed.text_single]
    exact (hwrite a).isBlank_last
  | cons a sep l ih =>
    rwa [Listed.text_cons, ← List.append_assoc,
      List.getLast?_append_of_ne_nil _ (wordNext_text hwrite l).ne_nil]

theorem trim_listed (l : Listed α) : trim (l.text write) = l.text write :=
  trim_of_ends (wordNext_text hwrite l).isBlank_head (isBlank_last_text hwrite l)

/-- The pieces between separators are the items. -/
theorem split_text (l : Listed α) :
    alternativeSeparator.split (l.text write) = l.items.map write := by
  induction l using Listed.induction with
  | single a =>
    rw [Listed.text_single, Pattern.split_of_free (hwrite a).free]
    rfl
  | cons a sep l ih =>
    obtain ⟨n, hn, hdrop⟩ := span?_separator sep (wordNext_text hwrite l)
    have hsep : alternativeSeparator.split (sep.text ++ l.text write) =
        [] :: l.items.map write := by
      rw [Pattern.split_of_span hn, hdrop, ih]
    have hfree := (hwrite a).freeBefore (isPhraseChar_separator sep (l.text write))
    rw [Listed.text_cons, hfree.split hsep, List.append_nil, Listed.items_cons, List.map_cons]

theorem operands_text (l : Listed α) : operands (l.text write) = l.items.map write := by
  rw [operands, split_text hwrite, List.map_map,
    List.map_congr_left (f := trim ∘ write) (g := write) fun a _ => (hwrite a).trim_eq,
    List.filter_eq_self]
  intro t ht
  obtain ⟨a, -, rfl⟩ := List.mem_map.1 ht
  simpa using (hwrite a).ne_nil

end Split

/-! ## The type of a written type -/

theorem ArrayWords.takeWhile_text (w : ArrayWords) (s : Text) :
    (w.text ++ s).takeWhile isPhraseChar = w.arrayText := by
  rw [w.text_append]
  exact takeWhile_run w.isPhraseWord_arrayText.isPhraseChar_of_mem (isPhraseChar_gap _ _)

theorem ArrayWords.takeWhile_behind (w : ArrayWords) (s : Text) :
    (trimStart ((w.text ++ s).dropWhile isPhraseChar)).takeWhile isPhraseChar = w.ofText := by
  have hof := w.isPhraseWord_ofText.wordNext (isPhraseChar_gap w.ofGap s)
  rw [w.text_append, dropWhile_run w.isPhraseWord_arrayText.isPhraseChar_of_mem
    (isPhraseChar_gap _ _), trimStart, dropWhile_run w.arrayGap.isBlank hof.isBlank_head]
  exact takeWhile_run w.isPhraseWord_ofText.isPhraseChar_of_mem (isPhraseChar_gap _ _)

/-- The word in a separator is none or a conjunction. -/
theorem takeWhile_separator (sep : Separator) (s : Text) :
    (trimStart (sep.text ++ s)).takeWhile isPhraseChar ∈ [[], "or".toList, "and".toList] := by
  cases sep with
  | or => exact List.mem_cons_of_mem _ List.mem_cons_self
  | and => exact List.mem_cons_of_mem _ (List.mem_cons_of_mem _ List.mem_cons_self)
  | comma => exact List.mem_cons_self
  | commaOr => exact List.mem_cons_self
  | commaAnd => exact List.mem_cons_self

theorem trim_arrayWords (w : ArrayWords) {s : Text} (hne : s ≠ []) (htrim : trim s = s) :
    trim (w.text ++ s) = w.text ++ s := by
  refine trim_of_ends ?_ ?_
  · rw [w.text_append]
    exact (w.isPhraseWord_arrayText.wordNext (isPhraseChar_gap _ _)).isBlank_head
  · rw [List.getLast?_append_of_ne_nil _ hne]
    exact isBlank_last_of_trim htrim

/-- The words of arrays belong to all that follows. -/
theorem resolve_layers (layers : List ArrayWords) {s : Text} (hne : s ≠ []) (htrim : trim s = s) :
    resolve (layers.flatMap ArrayWords.text ++ s) = arrays layers.length (resolve s) := by
  have hstep : ∀ (w : ArrayWords) {t : Text}, t ≠ [] → trim t = t →
      resolve (w.text ++ t) = array (resolve t) := by
    intro w t hne htrim
    rw [resolve_eq, trim_arrayWords w hne htrim,
      read_arrayOf_eq_some_iff.2 ⟨w, rfl, isBlank_head_of_trim htrim⟩]
  have hall : layers.flatMap ArrayWords.text ++ s ≠ [] ∧
      trim (layers.flatMap ArrayWords.text ++ s) = layers.flatMap ArrayWords.text ++ s ∧
      resolve (layers.flatMap ArrayWords.text ++ s) = arrays layers.length (resolve s) := by
    induction layers with
    | nil => exact ⟨hne, htrim, rfl⟩
    | cons w layers ih =>
      obtain ⟨ihne, ihtrim, ih⟩ := ih
      rw [List.flatMap_cons, List.append_assoc]
      refine ⟨List.append_ne_nil_of_right_ne_nil _ ihne, trim_arrayWords w ihne ihtrim, ?_⟩
      rw [hstep w ihne ihtrim, ih]
      rfl
  exact hall.2.2

/-- Behind a name the words of an array do not go on: it ends the phrase, or a separator follows
it. -/
theorem read_arrayOf_name (n : TypeName) {rest : Text}
    (hrest : rest = [] ∨ ∃ (sep : Separator) (s : Text), rest = sep.text ++ s) :
    arrayOf.read (n.text ++ rest) = none := by
  rw [Option.eq_none_iff_forall_ne_some]
  intro r hr
  obtain ⟨w, heq, -⟩ := read_arrayOf_eq_some_iff.1 hr
  have harray := w.array_eq
  have hof := w.of_eq
  rw [← w.takeWhile_text r, ← heq] at harray
  rw [← w.takeWhile_behind r, ← heq] at hof
  rcases n.cases with hn | hn
  · have hstop : ∀ c ∈ rest.head?, isPhraseChar c = false := by
      rcases hrest with rfl | ⟨sep, s, rfl⟩
      · simp
      · exact isPhraseChar_separator sep s
    rw [dropWhile_run hn.isPhraseChar_of_mem hstop] at hof
    -- the word behind the name is none or a conjunction, and so not "of"
    have hword : (trimStart rest).takeWhile isPhraseChar ∈ [[], "or".toList, "and".toList] := by
      rcases hrest with rfl | ⟨sep, s, rfl⟩
      · exact List.mem_cons_self
      · exact takeWhile_separator sep s
    have hnot : ∀ t ∈ [[], "or".toList, "and".toList], t.map foldCase ≠ ofWord := by decide
    exact hnot _ hword hof
  · rw [hn] at harray
    exact absurd (show "Float".toList.map foldCase = "array".toList from harray) (by decide)

/-- A name alone gives the type that it stands for. -/
theorem resolve_name (n : TypeName) : resolve n.text = ofName n.text := by
  have harray : arrayOf.read n.text = none := by
    have := read_arrayOf_name n (Or.inl rfl)
    rwa [List.append_nil] at this
  rw [resolve_eq, n.isWords.trim_eq, harray]
  dsimp only
  rw [if_neg (Nat.not_lt.2 (length_operands_of_free n.isWords.free)), Primitive.ofDocName?_eq,
    n.isWords.trim_eq]
  rfl

theorem resolve_operand (o : Operand) : resolve o.text = o.type := by
  rw [Operand.text, resolve_layers o.layers o.name.isWords.ne_nil o.name.isWords.trim_eq,
    resolve_name]
  rfl

/-- A written type gives the type that was written. -/
theorem resolve_text (w : WrittenType) : resolve w.text = w.type := by
  obtain ⟨layers, ⟨⟨firstLayers, name⟩, others⟩, hfirst⟩ := w
  obtain rfl : firstLayers = [] := hfirst
  let l : Listed Operand := ⟨⟨[], name⟩, others⟩
  have hne : l.text Operand.text ≠ [] := (wordNext_text Operand.isWords l).ne_nil
  have htrim := trim_listed Operand.isWords l
  have htypes : (l.items.map Operand.text).map resolve = l.items.map Operand.type := by
    rw [List.map_map]
    exact List.map_congr_left fun o _ => resolve_operand o
  have hlist : resolve (l.text Operand.text) = oneOf (l.items.map Operand.type) := by
    cases others with
    | nil =>
      show resolve (Listed.text Operand.text ⟨⟨[], name⟩, []⟩) = Operand.type ⟨[], name⟩
      rw [Listed.text_single]
      exact resolve_operand _
    | cons o others =>
      have harray : arrayOf.read (l.text Operand.text) = none := by
        show arrayOf.read (name.text ++ ((o.1.text ++ o.2.text) ++ _)) = none
        rw [List.append_assoc]
        exact read_arrayOf_name name (Or.inr ⟨o.1, _, rfl⟩)
      rw [resolve_eq, htrim, harray]
      dsimp only
      rw [operands_text Operand.isWords, htypes, if_pos (by simp [l, Listed.items])]
      rfl
  exact (resolve_layers layers hne htrim).trans (congrArg _ hlist)

/-- Arrays within arrays, and alternatives with different separators, two of them arrays. -/
theorem resolve_text_nested :
    let capitals : ArrayWords :=
      { arrayText := "ARRAY".toList
        arrayGap := ⟨"\t\n".toList, by decide, by decide⟩
        ofText := "Of".toList
        ofGap := ⟨"  ".toList, by decide, by decide⟩
        array_eq := by decide
        of_eq := by decide }
    let w : WrittenType :=
      { layers := [.plain, capitals]
        operands :=
          { first := ⟨[], ⟨"Integer".toList, by decide⟩⟩
            others := [(.comma, ⟨[.plain, .plain], ⟨"Float number".toList, by decide⟩⟩),
              (.and, ⟨[], ⟨"Message".toList, by decide⟩⟩),
              (.commaOr, ⟨[capitals], ⟨"True".toList, by decide⟩⟩)] }
        first_bare := rfl }
    w.text = ("Array of ARRAY\t\nOf  Integer, Array of Array of Float number and Message, or " ++
        "ARRAY\t\nOf  True").toList ∧
      resolve w.text = array (array (union [primitive .integer, array (array (primitive .float)),
        named "Message", array (primitive .flag)])) := by
  intro capitals w
  exact ⟨by decide, resolve_text w⟩

end Phrase

end DocTypes
