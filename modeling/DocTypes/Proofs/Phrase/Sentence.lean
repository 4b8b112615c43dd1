/-
  Sentences one after the other. A full stop and a blank behind a text that ends with neither end
  its last sentence, and the sentences of what follows come behind it (`sentences_append`). Blanks
  in front of a sentence do not count (`returnPhrase?_trimStart`). So the first sentence that
  announces a result settles it, and sentences that announce none can be put in or left out
  (`returnPhrase?_append`).
-/
import DocTypes.Proofs.Phrase.Keyword
import DocTypes.Proofs.Phrase.Returns
import DocTypes.Proofs.Phrase.ValueList
import DocTypes.Proofs.Text.Places

namespace DocTypes.Phrase

open Text

/-- The text ends neither with a full stop nor with a blank. -/
def EndsOpen (s : Text) : Prop := ∀ c ∈ s.getLast?, c ≠ '.' ∧ isBlank c = false

instance (s : Text) : Decidable (EndsOpen s) :=
  inferInstanceAs (Decidable (∀ c ∈ s.getLast?, c ≠ '.' ∧ isBlank c = false))

theorem EndsOpen.of_suffix {s t : Text} (h : EndsOpen s) (ht : t <:+ s) : EndsOpen t := by
  obtain ⟨a, rfl⟩ := ht
  intro c hc
  refine h c ?_
  rw [List.getLast?_append, Option.mem_def.1 hc, Option.some_or]
  rfl

/-! ## The end of a sentence -/

/-- A full stop ends a sentence in front of blanks, which are read with it, and at the end. -/
theorem read_sentenceEnd (s : Text) :
    sentenceEnd.read s = ((Pattern.char '.').read s).bind fun t =>
      if t.head?.all isBlank then some (trimStart t) else none := by
  show ((Pattern.char '.').toTail.followedBy (blanks1.toTail.or Tail.atEnd)).read s = _
  rw [Tail.read_followedBy]
  congr 1
  funext t
  rw [Tail.read_or, read_blanks1]
  cases t with
  | nil => rfl
  | cons c t =>
    rw [List.head?_cons, Option.any_some, Option.all_some]
    cases isBlank c <;> rfl

theorem settled_sentenceEnd : sentenceEnd.Settled := by
  refine Tail.Settled.followedBy (Tail.settled_one _) ?_
  intro s n h hn rest
  rcases Option.or_eq_some_iff.1 h with h | ⟨-, h⟩
  · show (blanks1.span? (s ++ rest)).or _ = some n
    rw [settled_blanks1 h hn rest, Option.some_or]
  · -- the end of the text is not within it
    cases s with
    | nil => exact absurd hn (Nat.not_lt_zero n)
    | cons c s => cases h

/-- Without a full stop no sentence ends. -/
theorem freeBefore_sentenceEnd {s : Text} (h : '.' ∉ s) (rest : Text) :
    sentenceEnd.FreeBefore s rest := by
  refine .of_forall (fun c hc t => ?_) rest
  have hne : c ≠ '.' := by
    rintro rfl
    exact h hc
  exact ((Pattern.startsWith_char '.').followedBy _).span?_cons hne t

/-- No sentence ends at the end of a text that stays open. -/
theorem span?_lt_of_endsOpen {s : Text} {n : Nat} (hs : EndsOpen s)
    (h : sentenceEnd.span? s = some n) : n < s.length := by
  refine Nat.lt_of_le_of_ne (sentenceEnd.span_le h) fun hn => ?_
  have hread : sentenceEnd.read s = some [] := by
    rw [Tail.read, h, Option.map_some, hn, List.drop_length]
  rw [read_sentenceEnd] at hread
  obtain ⟨t, ht, hrest⟩ := Option.bind_eq_some_iff.1 hread
  obtain rfl := Pattern.eq_cons_of_read_char ht
  split at hrest
  · have hblank : ∀ c ∈ t, isBlank c = true := List.dropWhile_eq_nil_iff.1 (Option.some.inj hrest)
    rcases eq_or_ne t [] with rfl | hne
    · exact (hs '.' rfl).1 rfl
    · obtain ⟨c, hc⟩ := Option.isSome_iff_exists.1 (List.getLast?_isSome.2 hne)
      have hopen := ((hs.of_suffix (List.suffix_cons '.' t)) c hc).2
      rw [hblank c (List.mem_of_mem_getLast? hc)] at hopen
      cases hopen
  · cases hrest

/-- Within an open text no sentence ends that did not before, whatever comes behind. -/
theorem span?_append_of_endsOpen {c : Char} {s : Text} (hs : EndsOpen (c :: s))
    (h : sentenceEnd.span? (c :: s) = none) (rest : Text) :
    sentenceEnd.span? (c :: (s ++ rest)) = none := by
  rw [← Pattern.read_eq_none_iff, read_sentenceEnd] at h ⊢
  by_cases hc : c = '.'
  · subst hc
    cases s with
    | nil => exact absurd rfl (hs '.' rfl).1
    | cons d s =>
      -- the character behind the full stop is the same
      have hd : ¬ isBlank d = true := fun hd => by
        rw [Pattern.char, Pattern.read_one_cons, if_pos (beq_self_eq_true '.'), Option.bind_some,
          List.head?_cons, Option.all_some, if_pos hd] at h
        cases h
      rw [Pattern.char, Pattern.read_one_cons, if_pos (beq_self_eq_true '.'), Option.bind_some,
        List.cons_append, List.head?_cons, Option.all_some, if_neg hd]
  · rw [Pattern.char, Pattern.read_one_cons, if_neg (by simpa using hc)]
    rfl

/-- Behind an open text, a full stop and a blank the next sentences begin. -/
theorem sentences_append {s : Text} (hs : EndsOpen s) (u : Text) :
    sentences (s ++ ('.' :: ' ' :: u)) = sentences s ++ sentences (trimStart u) := by
  unfold sentences
  induction s using sentenceEnd.pieces_induction with
  | nil =>
    have hread : sentenceEnd.read ('.' :: ' ' :: u) = some (trimStart u) := by
      rw [read_sentenceEnd]
      rfl
    obtain ⟨n, hn, hdrop⟩ := Option.map_eq_some_iff.1 hread
    rw [List.nil_append, Pattern.split_of_span hn, hdrop, Pattern.split_nil]
    rfl
  | piece s n hn ih =>
    have hlt := span?_lt_of_endsOpen hs hn
    rw [Pattern.split_of_span (settled_sentenceEnd hn hlt _), Pattern.split_of_span hn,
      List.drop_append_of_le_length (Nat.le_of_lt hlt), ih (hs.of_suffix (List.drop_suffix n s))]
    rfl
  | keep c s hnone ih =>
    rw [List.cons_append, Pattern.split_cons_of_none (span?_append_of_endsOpen hs hnone _),
      Pattern.split_cons_of_none hnone, ih (hs.of_suffix (List.suffix_cons c s))]
    obtain ⟨t, ts, ht⟩ := List.exists_cons_of_ne_nil (sentenceEnd.split_ne_nil s)
    rw [ht]
    rfl

/-! ## Blanks in front -/

theorem span?_onSuccess_of_blank {c : Char} (hc : isBlank c = true) (t : Text) :
    onSuccess.span? (c :: t) = none := by
  have hne : foldCase c ≠ 'o' := by
    rw [foldCase_of_blank hc]
    rintro rfl
    cases hc
  have hread : onSuccess.read (c :: t) = afterKeyword? "on success".toList (c :: t) :=
    read_keyword _ _
  have hafter : after? foldCase "on success".toList (c :: t) = none := if_neg hne
  rw [← Pattern.read_eq_none_iff, hread, afterKeyword?, hafter]
  rfl

theorem span?_returnsWord_of_blank {c : Char} (hc : isBlank c = true) (t : Text) :
    returnsWord.span? (c :: t) = none := by
  have hne : (c == 'R' || c == 'r') = false := by
    rw [Bool.or_eq_false_iff, beq_eq_false_iff_ne, beq_eq_false_iff_ne]
    constructor <;> (rintro rfl; cases hc)
  rw [← Pattern.read_eq_none_iff]
  show ((Pattern.one _).toTail.followedBy _).read (c :: t) = none
  rw [Tail.read_followedBy, Pattern.read_one_cons, hne]
  rfl

/-- What follows the first place of a word is the same behind blanks. -/
theorem after_head?_blanks {p : Pattern} {b : Text} (hb : ∀ c ∈ b, isBlank c = true)
    (hp : ∀ c, isBlank c = true → ∀ t, p.span? (c :: t) = none) (s : Text) :
    (p.occurrences (b ++ s)).head?.map Occurrence.after =
      (p.occurrences s).head?.map Occurrence.after := by
  have hfree : p.FreeBefore b s := .of_forall (fun c hc => hp c (hb c hc)) s
  have hword : (b.reverse ++ []).head?.any isWord = ([] : Text).head?.any isWord :=
    head?_isWord_of_last fun c hc => hb c (List.mem_of_mem_getLast? hc)
  rw [← List.head?_map, ← List.head?_map, Pattern.occurrences, Pattern.occurrences,
    hfree.occurrencesFrom, Pattern.map_after_occurrencesFrom hword]

theorem returnPhraseOfSentence?_blanks {b : Text} (hb : ∀ c ∈ b, isBlank c = true) (s : Text) :
    returnPhraseOfSentence? (b ++ s) = returnPhraseOfSentence? s := by
  unfold returnPhraseOfSentence?
  dsimp only
  rw [after_head?_blanks hb (fun _ => span?_onSuccess_of_blank),
    after_head?_blanks hb fun _ => span?_returnsWord_of_blank]

/-- What a description announces does not depend on blanks in front of it. -/
theorem returnPhrase?_trimStart (s : Text) : returnPhrase? (trimStart s) = returnPhrase? s := by
  have hs : s.takeWhile isBlank ++ trimStart s = s := List.takeWhile_append_dropWhile
  have hb : ∀ c ∈ s.takeWhile isBlank, isBlank c = true :=
    fun c hc => List.all_eq_true.1 List.all_takeWhile c hc
  have hfree : sentenceEnd.FreeBefore (s.takeWhile isBlank) (trimStart s) :=
    freeBefore_sentenceEnd (fun hmem => by cases hb '.' hmem) _
  obtain ⟨u, us, hu⟩ := List.exists_cons_of_ne_nil (sentenceEnd.split_ne_nil (trimStart s))
  calc returnPhrase? (trimStart s)
      = (returnPhraseOfSentence? u).or (us.findSome? returnPhraseOfSentence?) := by
        rw [returnPhrase?, sentences, hu, findSome?_cons_or]
    _ = returnPhrase? (s.takeWhile isBlank ++ trimStart s) := by
        rw [returnPhrase?, sentences, hfree.split hu, findSome?_cons_or,
          returnPhraseOfSentence?_blanks hb]
    _ = returnPhrase? s := by rw [hs]

/-! ## The first announcement -/

/-- The result of an operation depends on what its description announces only. -/
theorem ofDescription_congr {s t : Text} (h : returnPhrase? s = returnPhrase? t)
    (last : Option TypeExpr) :
    Resolution.ofDescription last s = Resolution.ofDescription last t := by
  unfold Resolution.ofDescription announced?
  rw [h]

/-- A description of two parts, each a number of sentences, announces what its first part does, or
else what its second does. So behind a part that announces a result the text does not matter to
the operation, and a part that announces none can be left out, in front of the rest or between
two parts. -/
theorem returnPhrase?_append {s : Text} (hs : EndsOpen s) (u : Text) :
    returnPhrase? (s ++ (". ".toList ++ u)) = (returnPhrase? s).or (returnPhrase? u) ∧
      ((returnPhrase? s).isSome → ∀ last,
        Resolution.ofDescription last (s ++ (". ".toList ++ u)) =
          Resolution.ofDescription last s) ∧
      (returnPhrase? s = none →
        (∀ last, Resolution.ofDescription last (s ++ (". ".toList ++ u)) =
          Resolution.ofDescription last u) ∧
        ∀ t, EndsOpen t → returnPhrase? (t ++ (". ".toList ++ (s ++ (". ".toList ++ u)))) =
          returnPhrase? (t ++ (". ".toList ++ u))) := by
  have happend : ∀ {s : Text}, EndsOpen s → ∀ u,
      returnPhrase? (s ++ (". ".toList ++ u)) = (returnPhrase? s).or (returnPhrase? u) := by
    intro s hs u
    rw [← returnPhrase?_trimStart u]
    show (sentences (s ++ '.' :: ' ' :: u)).findSome? _ = _
    rw [sentences_append hs, List.findSome?_append]
    rfl
  refine ⟨happend hs u, fun hsome last => ?_, fun hnone => ⟨fun last => ?_, fun t ht => ?_⟩⟩
  · obtain ⟨r, hr⟩ := Option.isSome_iff_exists.1 hsome
    exact ofDescription_congr (by rw [happend hs, hr, Option.some_or]) last
  · exact ofDescription_congr (by rw [happend hs, hnone, Option.none_or]) last
  · rw [happend ht, happend ht, happend hs, hnone, Option.none_or]

/-- An abbreviation in a part that announces nothing ends sentences as well. -/
theorem returnPhrase?_append_revoked :
    let s := "Returns the created ChatInviteLink object".toList
    let note := "Links, e.g. revoked ones, stay".toList
    let u := "Returns True if revoked.".toList
    EndsOpen s ∧ EndsOpen note ∧ (returnPhrase? s).isSome ∧ returnPhrase? note = none ∧
      returnPhrase? (s ++ (". ".toList ++ u)) =
        some ⟨"ChatInviteLink".toList, false, none⟩ ∧
      (∀ last, Resolution.ofDescription last (s ++ (". ".toList ++ u)) =
        Resolution.ofDescription last s) ∧
      (∀ last, Resolution.ofDescription last (note ++ (". ".toList ++ u)) =
        Resolution.ofDescription last u) ∧
      returnPhrase? (s ++ (". ".toList ++ (note ++ (". ".toList ++ u)))) =
        returnPhrase? (s ++ (". ".toList ++ u)) := by
  intro s note u
  have hs : EndsOpen s := by decide
  have hnote : EndsOpen note := by decide
  have hsome : (returnPhrase? s).isSome := by decide +kernel
  have hnone : returnPhrase? note = none := by decide +kernel
  obtain ⟨happend, hfirst, -⟩ := returnPhrase?_append hs u
  obtain ⟨-, -, hlater⟩ := returnPhrase?_append hnote u
  refine ⟨hs, hnote, hsome, hnone, happend.trans ?_, hfirst hsome, (hlater hnone).1,
    (hlater hnone).2 s hs⟩
  decide +kernel

end DocTypes.Phrase
