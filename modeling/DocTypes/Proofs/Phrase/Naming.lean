/-
  What the rest of a sentence names. The first type word behind text that names none is found with
  all of that text before it (`find_typeWord`), and the words "array of" at the end of the text
  make the result an array, wherever in front of them the announcing words end
  (`LeadsIn.endsInArrayOf_iff`). So the result is told by what stands right before the type word
  and right behind it (`LeadsIn.returnPhraseIn?_eq`).
-/
import DocTypes.Proofs.Phrase.Alternatives
import DocTypes.Proofs.Phrase.Keyword
import DocTypes.Proofs.Phrase.Returns

namespace DocTypes.Phrase

open Text TypeExpr

/-! ## Type words -/

/-- No capital of ASCII stands in the text. -/
def NoCapital (s : Text) : Prop := ∀ c ∈ s, c.isUpper = false

instance (s : Text) : Decidable (NoCapital s) :=
  inferInstanceAs (Decidable (∀ c ∈ s, c.isUpper = false))

namespace NoCapital

variable {s t : Text}

theorem append (hs : NoCapital s) (ht : NoCapital t) : NoCapital (s ++ t) := by
  intro c hc
  rcases List.mem_append.1 hc with hc | hc
  · exact hs c hc
  · exact ht c hc

theorem of_suffix (ht : NoCapital t) (hs : s <:+ t) : NoCapital s := fun c hc => ht c (hs.subset hc)

end NoCapital

namespace IsTypeWord

variable {w : Text}

theorem ne_nil (h : IsTypeWord w) : w ≠ [] := by
  rintro rfl
  cases h.isUpper_head

theorem isWord_of_mem (h : IsTypeWord w) : ∀ c ∈ w, isWord c = true := by
  obtain ⟨hhead, htail⟩ := h
  cases w with
  | nil => cases hhead
  | cons d w =>
    intro c hc
    rcases List.mem_cons.1 hc with rfl | hc
    · exact isWord_of_isNameChar (isNameChar_of_isUpper hhead)
    · exact isWord_of_isNameChar (htail c hc)

end IsTypeWord

/-- A type word is read up to its end. -/
theorem read_typeWord {w after : Text} (hw : IsTypeWord w)
    (hafter : after.head?.any isWord = false) : typeWord.read (w ++ after) = some after := by
  obtain ⟨hhead, htail⟩ := hw
  cases w with
  | nil => cases hhead
  | cons c w =>
    have hrun : ∀ d ∈ w, isNameChar d = true := htail
    have hstop : ∀ d ∈ after.head?, isNameChar d = false := by
      intro d hd
      rw [Option.mem_def.1 hd, Option.any_some] at hafter
      rw [Bool.eq_false_iff]
      intro hname
      rw [isWord_of_isNameChar hname] at hafter
      cases hafter
    show ((Pattern.one Char.isUpper).toTail.followedBy
      ((Tail.many isNameChar).followedBy Tail.wordEnd)).read (c :: (w ++ after)) = some after
    rw [Tail.read_followedBy, Pattern.read_one_cons, if_pos (show c.isUpper = true from hhead),
      Option.bind_some,
      Tail.read_followedBy, Tail.read_many, dropWhile_run hrun hstop, Option.bind_some,
      Tail.read_wordEnd, hafter]
    rfl

/-- No type word starts in a text without capitals. -/
theorem NoCapital.freeBefore {s : Text} (h : NoCapital s) (rest : Text) :
    typeWord.FreeBefore s rest := by
  refine .of_forall (fun c hc t => ?_) rest
  have hread : (Pattern.one Char.isUpper).read (c :: t) = none := by
    rw [Pattern.read_one_cons, h c hc]
    rfl
  rw [← Pattern.read_eq_none_iff]
  show ((Pattern.one Char.isUpper).toTail.followedBy _).read (c :: t) = none
  rw [Tail.read_followedBy, hread]
  rfl

/-- The word "Array", if it belongs to the words "Array of". -/
def isArrayWord (o : Occurrence) : Bool :=
  o.found == "Array".toList && (ofNext.read o.after).isSome

/-- Text that names no type: no capital stands in it but the one of "Array of" at its end. -/
inductive NamesNone : Text → Prop
  | quiet {s : Text} : NoCapital s → NamesNone s
  | array {s : Text} : NoCapital s → s.getLast?.any isWord = false →
      NamesNone (s ++ "Array of ".toList)

theorem NamesNone.of_suffix {s t : Text} (h : NamesNone t) (hs : s <:+ t) : NamesNone s := by
  obtain ⟨v, hv⟩ := hs
  cases h with
  | quiet ht => exact .quiet (ht.of_suffix ⟨v, hv⟩)
  | @array t ht hlast =>
    rcases List.append_eq_append_iff.1 hv with ⟨c, rfl, rfl⟩ | ⟨c, -, hs⟩
    · refine .array (ht.of_suffix (List.suffix_append v c)) ?_
      rcases eq_or_ne c [] with rfl | hne
      · rfl
      · rwa [List.getLast?_append_of_ne_nil _ hne] at hlast
    · cases c with
      | nil =>
        rw [show s = [] ++ "Array of ".toList from hs.symm]
        exact .array (by decide) rfl
      | cons d c =>
        -- the capital is cut off
        have hrest : NoCapital "rray of ".toList := by decide
        exact .quiet (hrest.of_suffix ⟨c, (List.cons.inj hs).2.symm⟩)

/-- The first type word behind text that names none is found. -/
theorem find_typeWord {s w after : Text} (hs : NamesNone s) (hlast : s.getLast?.any isWord = false)
    (hw : IsTypeWord w) (hafter : after.head?.any isWord = false)
    (harray : w ≠ "Array".toList ∨ after = []) :
    (typeWord.occurrences (s ++ (w ++ after))).find? (fun o => !isArrayWord o) =
      some ⟨s.reverse, w, after⟩ := by
  have hfound : ∀ back : Text, isArrayWord ⟨back, w, after⟩ = false := by
    intro back
    rcases harray with hne | rfl
    · rw [isArrayWord, beq_eq_false_iff_ne.2 hne, Bool.false_and]
    · exact Bool.and_false _
  have hfirst : ∀ {s back : Text}, NoCapital s → (s.reverse ++ back).head?.any isWord = false →
      (typeWord.occurrencesFrom back (s ++ (w ++ after))).find? (fun o => !isArrayWord o) =
        some ⟨s.reverse ++ back, w, after⟩ := by
    intro s back hs hback
    rw [(hs.freeBefore _).occurrencesFrom,
      Pattern.occurrencesFrom_of_read hback (read_typeWord hw hafter),
      List.find?_cons_of_pos (by rw [hfound]; rfl)]
  cases hs with
  | quiet hs =>
    have hback : (s.reverse ++ []).head?.any isWord = false := by
      rwa [List.append_nil, List.head?_reverse]
    have hquiet := hfirst hs hback
    rwa [List.append_nil] at hquiet
  | @array s hs hword =>
    have hskip : typeWord.read ("Array".toList ++ (" of ".toList ++ (w ++ after))) =
        some (" of ".toList ++ (w ++ after)) :=
      read_typeWord ⟨by decide, by decide⟩ rfl
    have hback : (s.reverse ++ []).head?.any isWord = false := by
      rwa [List.append_nil, List.head?_reverse]
    have hof : ∀ back : Text,
        (!isArrayWord ⟨back, "Array".toList, " of ".toList ++ (w ++ after)⟩) = false := by
      intro back
      rfl
    rw [Pattern.occurrences, List.append_assoc, (hs.freeBefore _).occurrencesFrom]
    show (typeWord.occurrencesFrom _ ("Array".toList ++ (" of ".toList ++ (w ++ after)))).find? _ = _
    rw [Pattern.occurrencesFrom_of_read hback hskip, List.find?_cons_of_neg (by rw [hof]; decide),
      hfirst (by decide) rfl]
    simp

theorem occurrences_typeWord_eq_nil {s : Text} (h : NoCapital s) : typeWord.occurrences s = [] := by
  have := (h.freeBefore []).occurrencesFrom []
  rwa [List.append_nil, Pattern.occurrencesFrom] at this

/-- Without a capital nothing is named. -/
theorem returnPhraseIn?_eq_none {s : Text} (h : NoCapital s) : returnPhraseIn? s = none := by
  rw [returnPhraseIn?, occurrences_typeWord_eq_nil h]
  rfl

/-! ## Arrays -/

/-- The text ends with the words "array of", in any letter case. -/
def EndsInArrayOf (s : Text) : Prop :=
  ∃ (front : Text) (w : ArrayWords), s = front ++ w.text ∧ front.getLast?.any isWord = false

theorem read_arrayOfEnd (s : Text) :
    arrayOfEnd.read s = (after? foldCase "array".toList s).bind fun s =>
      (blanks1.read s).bind fun s => (after? foldCase ofWord s).bind fun s =>
        if (trimStart s).isEmpty then some (trimStart s) else none := by
  refine (read_arrayThen (blanks.followedBy Tail.atEnd) s).trans ?_
  have hend : (blanks.followedBy Tail.atEnd).read =
      fun s => if (trimStart s).isEmpty then some (trimStart s) else none := by
    funext s
    rw [Tail.read_followedBy, blanks, Tail.read_many, Option.bind_some, Tail.read, Tail.atEnd]
    show Option.map _ (if (trimStart s).isEmpty then some 0 else none) = _
    split <;> rfl
  rw [hend]

/-- In a text that ends with a blank, the words are read where they go up to the end. -/
theorem isSome_arrayOfEnd_iff {s : Text} (hlast : ∀ c ∈ s.getLast?, isBlank c = true) :
    (arrayOfEnd.span? s).isSome ↔ ∃ w : ArrayWords, s = w.text := by
  rw [Option.isSome_iff_ne_none, Ne, ← Pattern.read_eq_none_iff, ← Ne, ← Option.isSome_iff_ne_none,
    read_arrayOfEnd]
  constructor
  · intro h
    obtain ⟨r, h⟩ := Option.isSome_iff_exists.1 h
    obtain ⟨s₁, hs₁, h₁⟩ := Option.bind_eq_some_iff.1 h
    obtain ⟨s₂, hs₂, h₂⟩ := Option.bind_eq_some_iff.1 h₁
    obtain ⟨s₃, hs₃, h₃⟩ := Option.bind_eq_some_iff.1 h₂
    obtain ⟨a, rfl, ha⟩ := after?_eq_some_iff.1 hs₁
    obtain ⟨g, rfl, -⟩ := read_blanks1_eq_some_iff.1 hs₂
    obtain ⟨o, rfl, ho⟩ := after?_eq_some_iff.1 hs₃
    split at h₃
    · next hempty =>
      have hne : s₃ ≠ [] := by
        -- the word "of" does not end with a blank
        rintro rfl
        have hne : o ≠ [] := by
          rintro rfl
          cases ho
        obtain ⟨c, hc⟩ := Option.isSome_iff_exists.1 (List.getLast?_isSome.2 hne)
        have hblank := hlast c (by simp [List.getLast?_append, hc])
        rw [isBlank_of_map_foldCase ho (by decide) c (List.mem_of_mem_getLast? hc)] at hblank
        cases hblank
      have hall : ∀ c ∈ s₃, isBlank c = true :=
        List.dropWhile_eq_nil_iff.1 (List.isEmpty_iff.1 hempty)
      exact ⟨⟨a, g, o, ⟨s₃, hne, hall⟩, ha, ho⟩, rfl⟩
    · cases h₃
  · rintro ⟨w, rfl⟩
    have hof := (w.isPhraseWord_ofText.wordNext (isPhraseChar_gap w.ofGap [])).isBlank_head
    rw [List.append_nil] at hof
    rw [ArrayWords.text, after?_eq_some_iff.2 ⟨_, rfl, w.array_eq⟩, Option.bind_some,
      read_blanks1_eq_some_iff.2 ⟨_, rfl, hof⟩, Option.bind_some,
      after?_eq_some_iff.2 ⟨_, rfl, w.of_eq⟩, Option.bind_some, trimStart,
      List.dropWhile_eq_nil_iff.2 w.ofGap.isBlank]
    rfl

theorem occurrences_arrayOfEnd_iff {s : Text} (hlast : ∀ c ∈ s.getLast?, isBlank c = true) :
    arrayOfEnd.occurrences s ≠ [] ↔ EndsInArrayOf s := by
  rw [Ne, Pattern.occurrences, Pattern.occurrencesFrom_eq_nil_iff]
  have hfits : ∀ front tail : Text, s = front ++ tail → tail ≠ [] →
      (arrayOfEnd.FitsAt (front.reverse ++ []) tail ↔
        front.getLast?.any isWord = false ∧ ∃ w : ArrayWords, tail = w.text) := by
    rintro front tail rfl hne
    rw [List.getLast?_append_of_ne_nil _ hne] at hlast
    rw [Pattern.FitsAt, List.append_nil, List.head?_reverse, isSome_arrayOfEnd_iff hlast]
  constructor
  · intro h
    push Not at h
    obtain ⟨front, tail, hs, hat⟩ := h
    have hne : tail ≠ [] := by
      rintro rfl
      have := hat.2
      rw [arrayOfEnd.span?_nil] at this
      cases this
    obtain ⟨hword, w, rfl⟩ := (hfits front tail hs hne).1 hat
    exact ⟨front, w, hs, hword⟩
  · rintro ⟨front, w, hs, hword⟩ hnone
    have hne : w.text ≠ [] := by
      obtain ⟨c, hc, -⟩ := w.exists_blank_last
      exact List.ne_nil_of_mem (List.mem_of_mem_getLast? hc)
    exact hnone front w.text hs ((hfits front w.text hs hne).2 ⟨hword, w, rfl⟩)

/-! ## Announcing words -/

/-- The text `u` ends with announcing words, and `s` goes on behind them up to a type word. -/
structure LeadsIn (u s : Text) : Prop where
  announces : ∃ c ∈ u.getLast?, foldCase c = 's'
  ends : s.head?.any isWord = false
  isBlank_last : ∀ c ∈ s.getLast?, isBlank c = true
  namesNone : NamesNone s

theorem ArrayWords.foldCase_ne (w : ArrayWords) {c : Char} (hc : c ∈ w.text) :
    foldCase c ≠ 's' := by
  have hword : ∀ {u v : Text}, u.map foldCase = v → 's' ∉ v → c ∈ u → foldCase c ≠ 's' := by
    intro u v huv hs hc heq
    exact hs (huv ▸ heq ▸ List.mem_map_of_mem hc)
  have hgap : ∀ g : Gap, c ∈ g.text → foldCase c ≠ 's' := by
    intro g hc heq
    have hblank := g.isBlank c hc
    rw [← foldCase_of_blank hblank, heq] at hblank
    cases hblank
  simp only [text, List.mem_append] at hc
  rcases hc with hc | hc | hc | hc
  · exact hword w.array_eq (by decide) hc
  · exact hgap _ hc
  · exact hword w.of_eq (by decide) hc
  · exact hgap _ hc

theorem ArrayWords.isWord_head (w : ArrayWords) : w.text.head?.any isWord = true := by
  have harray := w.array_eq
  rw [text]
  cases hw : w.arrayText with
  | nil => rw [hw] at harray; cases harray
  | cons c t =>
    rw [hw, List.map_cons] at harray
    exact isWord_of_foldCase (by rw [(List.cons.inj harray).1]; rfl)

/-- The words of an array do not go back into the announcing words. -/
theorem LeadsIn.endsInArrayOf_iff {u s : Text} (h : LeadsIn u s) :
    EndsInArrayOf (u ++ s) ↔ EndsInArrayOf s := by
  obtain ⟨c, hc, hfold⟩ := h.announces
  constructor
  · rintro ⟨front, w, heq, hword⟩
    have hinside : ∀ a : Text, front = u ++ a → s = a ++ w.text → EndsInArrayOf s := by
      rintro a rfl rfl
      refine ⟨a, w, rfl, ?_⟩
      rcases eq_or_ne a [] with rfl | hne
      · rfl
      · rwa [List.getLast?_append_of_ne_nil _ hne] at hword
    rcases List.append_eq_append_iff.1 heq with ⟨a, hfront, hs⟩ | ⟨a, hu, hw⟩
    · exact hinside a hfront hs
    · rcases eq_or_ne a [] with rfl | hne
      · exact hinside [] (by rw [hu, List.append_nil, List.append_nil]) hw.symm
      · -- the last letter of the announcing words would be one of an array
        rw [hu, List.getLast?_append_of_ne_nil _ hne] at hc
        have hmem : c ∈ w.text := hw ▸ List.mem_append_left s (List.mem_of_mem_getLast? hc)
        exact absurd hfold (w.foldCase_ne hmem)
  · rintro ⟨front, w, rfl, hword⟩
    refine ⟨u ++ front, w, (List.append_assoc _ _ _).symm, ?_⟩
    rcases eq_or_ne front [] with rfl | hne
    · have hends := h.ends
      rw [List.nil_append, w.isWord_head] at hends
      cases hends
    · rwa [List.getLast?_append_of_ne_nil _ hne]

/-! ## Plurals -/

/-- The word is `stem` in the plural; words that end in "ss" are none. -/
def IsPluralOf (word stem : Text) : Prop := word = stem ++ ['s'] ∧ stem.getLast? ≠ some 's'

theorem singular_of_isPluralOf {word stem : Text} (h : IsPluralOf word stem) :
    singular word = stem := by
  obtain ⟨rfl, hlast⟩ := h
  rw [← List.head?_reverse] at hlast
  have hrev : (stem ++ ['s']).reverse = 's' :: stem.reverse := by simp
  unfold singular
  split
  · next heq =>
    rw [hrev, List.cons.injEq] at heq
    rw [heq.2] at hlast
    exact absurd rfl hlast
  · next front _ heq =>
    rw [hrev, List.cons.injEq] at heq
    rw [← heq.2, List.reverse_reverse]
  · next hnone =>
    exact absurd hrev (hnone _)

theorem singular_of_not_isPluralOf {word : Text} (h : ∀ stem, ¬ IsPluralOf word stem) :
    singular word = word := by
  unfold singular
  split
  · rfl
  · next front hnot heq =>
    refine absurd ⟨?_, ?_⟩ (h front.reverse)
    · rw [← List.reverse_reverse word, heq, List.reverse_cons]
    · rw [List.getLast?_reverse]
      intro hs
      obtain ⟨t, rfl⟩ := List.head?_eq_some_iff.1 hs
      exact hnot t rfl
  · rfl

/-- Blanks and then the word "object" or "objects" come next. -/
def ObjectNext (s : Text) : Prop :=
  ∃ (g : Gap) (w rest : Text), s = g.text ++ (w ++ rest) ∧
    w ∈ ["object".toList, "objects".toList] ∧ rest.head?.any isWord = false

theorem read_objectNext (s : Text) :
    objectNext.read s = (blanks1.read s).bind fun s => (after? id "object".toList s).bind fun s =>
      Tail.wordEnd.read (((Pattern.char 's').read s).getD s) := by
  show (blanks1.toTail.followedBy ((Pattern.exactly "object".toList).toTail.followedBy
    ((Pattern.char 's').toTail.optional.followedBy Tail.wordEnd))).read s = _
  rw [Tail.read_followedBy]
  congr 1
  funext s
  rw [Tail.read_followedBy, Pattern.exactly, Pattern.read_like]
  congr 1
  funext s
  rw [Tail.read_followedBy, Tail.read_optional, Option.bind_some]

theorem isSome_objectNext_iff {s : Text} : (objectNext.read s).isSome ↔ ObjectNext s := by
  have hend : ∀ {s : Text}, (Tail.wordEnd.read s).isSome ↔ s.head?.any isWord = false := by
    intro s
    rw [Tail.read_wordEnd]
    cases s.head?.any isWord <;> simp
  rw [read_objectNext]
  constructor
  · intro h
    obtain ⟨r, h⟩ := Option.isSome_iff_exists.1 h
    obtain ⟨s₁, hs₁, h₁⟩ := Option.bind_eq_some_iff.1 h
    obtain ⟨s₂, hs₂, h₂⟩ := Option.bind_eq_some_iff.1 h₁
    obtain ⟨g, rfl, -⟩ := read_blanks1_eq_some_iff.1 hs₁
    obtain rfl := eq_append_of_after? hs₂
    have hstop := hend.1 (Option.isSome_of_eq_some h₂)
    cases hs : (Pattern.char 's').read s₂ with
    | none =>
      rw [hs, Option.getD_none] at hstop
      exact ⟨g, "object".toList, s₂, rfl, by decide, hstop⟩
    | some t =>
      rw [hs, Option.getD_some] at hstop
      obtain rfl := Pattern.eq_cons_of_read_char hs
      exact ⟨g, "objects".toList, t, rfl, by decide, hstop⟩
  · rintro ⟨g, w, rest, rfl, hw, hrest⟩
    have hobject : ∀ t : Text, blanks1.read (g.text ++ ("object".toList ++ t)) =
        some ("object".toList ++ t) := by
      intro t
      refine read_blanks1_eq_some_iff.2 ⟨g, rfl, ?_⟩
      rintro c ⟨⟩
      decide
    simp only [List.mem_cons, List.not_mem_nil, or_false] at hw
    rcases hw with rfl | rfl
    · have hnot : (Pattern.char 's').read rest = none := by
        cases rest with
        | nil => rfl
        | cons c rest =>
          rw [Pattern.char, Pattern.read_one_cons, if_neg]
          intro hc
          rw [beq_iff_eq.1 hc] at hrest
          cases hrest
      rw [hobject, Option.bind_some, after?_append_self, Option.bind_some, hnot, Option.getD_none]
      exact hend.2 hrest
    · have hobjects : "objects".toList ++ rest = "object".toList ++ 's' :: rest := rfl
      rw [hobjects, hobject, Option.bind_some, after?_append_self, Option.bind_some, Pattern.char,
        Pattern.read_one_cons, if_pos (beq_self_eq_true 's'), Option.getD_some]
      exact hend.2 hrest

/-- A fallback behind the text is no word "object". -/
theorem objectNext_append {s rest : Text}
    (hrest : rest = [] ∨ ∃ more, rest = " otherwise ".toList ++ more) :
    ObjectNext (s ++ rest) ↔ ObjectNext s := by
  rcases hrest with rfl | ⟨more, rfl⟩
  · rw [List.append_nil]
  have hobject : ∀ w ∈ ["object".toList, "objects".toList],
      w ≠ [] ∧ (∀ c ∈ w, isWord c = true) ∧ ∃ t, w = 'o' :: 'b' :: t := by
    intro w hw
    simp only [List.mem_cons, List.not_mem_nil, or_false] at hw
    rcases hw with rfl | rfl
    · exact ⟨by decide, by decide, _, rfl⟩
    · exact ⟨by decide, by decide, _, rfl⟩
  constructor
  · rintro ⟨g, w, r, heq, hw, hr⟩
    obtain ⟨hne, hall, t, ht⟩ := hobject w hw
    rcases cut_at_word hne hall rfl heq with ⟨c, hcne, hg, hc⟩ | ⟨d, hs, rfl⟩
    · -- the blanks would go on up to "otherwise"
      obtain ⟨b, c, rfl⟩ := List.exists_cons_of_ne_nil hcne
      cases c with
      | nil =>
        rw [ht] at hc
        exact absurd (List.cons.inj (List.cons.inj (List.cons.inj hc).2).2).1 (by decide)
      | cons e c =>
        have he := g.isBlank e (hg ▸ by simp)
        rw [← (List.cons.inj (List.cons.inj hc).2).1] at he
        cases he
    · refine ⟨g, w, d, hs, hw, ?_⟩
      cases d with
      | nil => rfl
      | cons e d => exact hr
  · rintro ⟨g, w, r, rfl, hw, hr⟩
    refine ⟨g, w, r ++ (" otherwise ".toList ++ more), by simp, hw, ?_⟩
    cases r with
    | nil => rfl
    | cons e r => exact hr

/-! ## Results -/

/-- The result is named by the type word `word` between `before` and `behind`: an array behind the
words "array of", and then by the singular, unless objects are what the word counts. -/
structure Names (r : ReturnPhrase) (word before behind : Text) : Prop where
  isArray_iff : r.isArray = true ↔ EndsInArrayOf before
  typeName_singular : r.isArray = true → ¬ ObjectNext behind → ∀ stem, IsPluralOf word stem →
    r.typeName = stem
  typeName_word : (r.isArray = true → ObjectNext behind ∨ ∀ stem, ¬ IsPluralOf word stem) →
    r.typeName = word

theorem Names.congr_behind {r : ReturnPhrase} {word before behind behind' : Text}
    (h : Names r word before behind) (hbehind : ObjectNext behind ↔ ObjectNext behind') :
    Names r word before behind' where
  isArray_iff := h.isArray_iff
  typeName_singular := fun harray hobject =>
    h.typeName_singular harray fun hnext => hobject (hbehind.1 hnext)
  typeName_word := fun hword =>
    h.typeName_word fun harray => (hword harray).imp_left hbehind.2

theorem names_element {word before behind : Text} {isArray : Bool}
    (h : isArray = true ↔ EndsInArrayOf before) (fallback : Option Text) :
    Names
      { typeName :=
          if isArray && (objectNext.read behind).isNone then singular word else word
        isArray, fallback }
      word before behind where
  isArray_iff := h
  typeName_singular := by
    intro harray hobject stem hstem
    have hnone : (objectNext.read behind).isNone = true := by
      rwa [Option.isNone_iff_eq_none, ← Option.not_isSome_iff_eq_none, isSome_objectNext_iff]
    have harray' : isArray = true := harray
    rw [harray', hnone]
    exact singular_of_isPluralOf hstem
  typeName_word := by
    intro hword
    show (if _ then singular word else word) = word
    split
    · next hcond =>
      rw [Bool.and_eq_true, Option.isNone_iff_eq_none, ← Option.not_isSome_iff_eq_none,
        isSome_objectNext_iff] at hcond
      exact singular_of_not_isPluralOf ((hword hcond.1).resolve_left hcond.2)
    · rfl

/-- What is found behind announcing words and text that names none. -/
theorem LeadsIn.returnPhraseIn?_eq {u s w behind : Text} (h : LeadsIn u s) (hw : IsTypeWord w)
    (hbehind : behind.head?.any isWord = false) (harray : w ≠ "Array".toList ∨ behind = []) :
    ∃ r, returnPhraseIn? (s ++ (w ++ behind)) = some r ∧ Names r w (u ++ s) behind ∧
      r.fallback =
        (otherwiseWord.occurrences behind).findSome? fun o => otherwiseType? o.after := by
  have hlast : s.getLast?.any isWord = false := by
    rw [Option.any_eq_false]
    exact fun c hc => isWord_of_isBlank (h.isBlank_last c hc)
  have hbefore : Occurrence.before ⟨s.reverse, w, behind⟩ = s := List.reverse_reverse s
  have hiff : (!(arrayOfEnd.occurrences (Occurrence.before ⟨s.reverse, w, behind⟩)).isEmpty) =
      true ↔ EndsInArrayOf (u ++ s) := by
    rw [hbefore, h.endsInArrayOf_iff, ← occurrences_arrayOfEnd_iff h.isBlank_last,
      Bool.not_eq_true', List.isEmpty_eq_false_iff]
  exact ⟨_, congrArg (Option.map _) (find_typeWord h.namesNone hlast hw hbehind harray),
    names_element hiff _, rfl⟩

/-! ## Fallbacks -/

/-- The type word behind text without capitals is what "otherwise" leads to. -/
theorem otherwiseType?_eq {s w : Text} (hs : NoCapital s) (hlast : s.getLast?.any isWord = false)
    (hw : IsTypeWord w) : otherwiseType? (s ++ w) = some w := by
  have hrun : ∀ c ∈ s, (!c.isUpper) = true := fun c hc => by rw [hs c hc]; rfl
  have hstop : ∀ c ∈ w.head?, (!c.isUpper) = false := by
    intro c hc
    have := hw.isUpper_head
    rw [Option.mem_def.1 hc, Option.any_some] at this
    rw [this]
    rfl
  have hpiece : typeWord.piece? w = some w := by
    have hread : typeWord.read (w ++ []) = some [] := read_typeWord hw rfl
    have := Pattern.span?_of_read hread
    rw [List.append_nil] at this
    rw [Tail.piece?, this, Option.map_some, List.take_length]
  unfold otherwiseType?
  dsimp only
  rw [takeWhile_run hrun hstop, dropWhile_run hrun hstop, if_neg (by rw [hlast]; decide), hpiece]

theorem otherwiseType?_eq_none {s : Text} (hs : NoCapital s) : otherwiseType? s = none := by
  have hrun : ∀ c ∈ s, (!c.isUpper) = true := fun c hc => by rw [hs c hc]; rfl
  unfold otherwiseType?
  dsimp only
  rw [List.dropWhile_eq_nil_iff.2 hrun]
  split <;> rfl

/-- No fallback is named without a capital. -/
theorem findSome?_otherwiseType_eq_none {s : Text} (hs : NoCapital s) :
    ((otherwiseWord.occurrences s).findSome? fun o => otherwiseType? o.after) = none := by
  rw [List.findSome?_eq_none_iff]
  exact fun o ho => otherwiseType?_eq_none fun c hc =>
    hs c ((Pattern.after_suffix_of_mem_occurrences ho).subset hc)

theorem span?_otherwiseWord {s : Text} {n : Nat} (h : otherwiseWord.span? s = some n) : n = 9 := by
  obtain ⟨k, hk, h⟩ := Option.bind_eq_some_iff.1 h
  obtain ⟨m, hm, rfl⟩ := Option.map_eq_some_iff.1 h
  obtain ⟨j, hj, hm⟩ := Option.bind_eq_some_iff.1 hm
  obtain ⟨i, hi, rfl⟩ := Option.map_eq_some_iff.1 hm
  obtain ⟨r, -, rfl⟩ := Option.map_eq_some_iff.1 hj
  simp only [Pattern.one] at hk
  simp only [Tail.wordEnd] at hi
  split at hk <;> simp at hk
  split at hi <;> simp at hi
  subst hk hi
  rfl

/-- The first "otherwise" in front of a type word leads to it. -/
theorem findSome?_otherwiseType {a s w : Text} (ha : NoCapital a) (hs : NoCapital s)
    (hlast : ∀ c ∈ s.getLast?, isBlank c = true) (hw : IsTypeWord w) :
    ((otherwiseWord.occurrences (a ++ (" otherwise ".toList ++ (s ++ w)))).findSome?
      fun o => otherwiseType? o.after) = some w := by
  have hfits : otherwiseWord.FitsAt ((a ++ [' ']).reverse ++ [])
      ("otherwise ".toList ++ (s ++ w)) := by
    rw [List.reverse_append]
    exact ⟨rfl, rfl⟩
  obtain ⟨before, rest, n, heq, -, hn, hle, hhead⟩ := Pattern.exists_first hfits
  obtain rfl := span?_otherwiseWord hn
  have htext : (a ++ [' ']) ++ ("otherwise ".toList ++ (s ++ w)) =
      a ++ (" otherwise ".toList ++ (s ++ w)) := by simp
  rw [htext] at heq hhead
  -- the word ends in front of what stands before the type word
  obtain ⟨d, hd, hafter⟩ : ∃ d, a ++ (" otherwise ".toList ++ s) = (before ++ rest.take 9) ++ d ∧
      rest.drop 9 = d ++ w := by
    have hparts : (a ++ (" otherwise ".toList ++ s)) ++ w =
        (before ++ rest.take 9) ++ rest.drop 9 := by
      rw [List.append_assoc before, List.take_append_drop, ← heq]
      simp
    rcases List.append_eq_append_iff.1 hparts with ⟨c, hc, -⟩ | h
    · have hlen := congrArg List.length hc
      simp at hlen hle
      omega
    · exact h
  have hne : d ≠ [] := by
    rintro rfl
    have hlen := congrArg List.length hd
    simp at hlen hle
    omega
  have hotherwise : NoCapital " otherwise ".toList := by decide
  have hcapital : NoCapital d := (ha.append (hotherwise.append hs)).of_suffix ⟨_, hd.symm⟩
  have hword : d.getLast?.any isWord = false := by
    rw [Option.any_eq_false]
    intro c hc
    rw [← List.getLast?_append_of_ne_nil _ hne, ← hd, ← List.append_assoc] at hc
    refine isWord_of_isBlank ?_
    rcases eq_or_ne s [] with rfl | hs
    · rw [List.append_nil, List.getLast?_append] at hc
      obtain rfl := Option.some.inj hc
      rfl
    · rw [List.getLast?_append_of_ne_nil _ hs] at hc
      exact hlast c hc
  obtain ⟨os, hos⟩ := List.head?_eq_some_iff.1 hhead
  rw [Pattern.occurrences, hos, findSome?_cons_or]
  show (otherwiseType? (rest.drop 9)).or _ = _
  rw [hafter, otherwiseType?_eq hcapital hword hw, Option.some_or]

/-! ## Types -/

/-- The type of a result, by the names in it. -/
def ReturnPhrase.namedType (r : ReturnPhrase) : TypeExpr :=
  let main := if r.isArray then array (ofName r.typeName) else ofName r.typeName
  match r.fallback with
  | some w => union [main, ofName w]
  | none => main

theorem IsTypeWord.resolve_eq {w : Text} (h : IsTypeWord w) : resolve w = ofName w := by
  have hupper : w.head?.any Char.isUpper = true := h.isUpper_head
  refine resolve_name ⟨w, Or.inr ⟨h.isIdentifier, ?_, ?_⟩⟩ <;>
    (rintro rfl; cases hupper)

/-- The names of an announced result go through the primitives. -/
theorem announced?_eq (description : Text) :
    announced? description = (returnPhrase? description).map ReturnPhrase.namedType := by
  refine Option.map_congr fun r hr => ?_
  obtain ⟨rest, hr⟩ := exists_returnPhraseIn hr
  obtain ⟨hname, hfallback⟩ := isTypeWord_returnPhraseIn hr
  unfold ReturnPhrase.type ReturnPhrase.namedType
  rw [hname.resolve_eq]
  cases hf : r.fallback with
  | none => rfl
  | some w =>
    dsimp only
    rw [(hfallback w hf).resolve_eq]

end DocTypes.Phrase
