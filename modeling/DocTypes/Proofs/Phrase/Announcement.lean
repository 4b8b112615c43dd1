/-
  Announcements. A sentence announces a result by the type word behind "Returns" or "On success",
  with a fallback behind "otherwise" or none. Its result is read as it was written, unless the
  sentence opens with "Returns" and says "on success" in front of the fallback's type word, but not
  in front of its own: the words "on success" are looked for first, so then the fallback is taken
  for the result (`returnPhrase?_announcement`).
-/
import DocTypes.Proofs.Phrase.Naming
import DocTypes.Proofs.Phrase.OnSuccess
import DocTypes.Proofs.Phrase.Sentence

namespace DocTypes.Phrase

open Text TypeExpr

/-! ## Announcements -/

/-- What a sentence that announces a result opens with. -/
inductive Opening where
  | returns
  | onSuccess
  deriving DecidableEq, Repr

def Opening.text : Opening → Text
  | returns => "Returns ".toList
  | onSuccess => "On success, ".toList

/-- The words of an array, as prose writes them, or none. -/
inductive ArrayLead where
  | none
  | lower
  | capital
  deriving DecidableEq, Repr

def ArrayLead.text : ArrayLead → Text
  | none => []
  | lower => "array of ".toList
  | capital => "Array of ".toList

theorem ArrayLead.text_none : ArrayLead.none.text = [] := rfl

theorem ArrayLead.getLast?_append (l : ArrayLead) {s : Text} (hs : s.getLast? = some ' ') :
    (s ++ l.text).getLast? = some ' ' := by
  cases l with
  | none => rwa [text_none, List.append_nil]
  | lower | capital =>
    rw [List.getLast?_append_of_ne_nil s (by decide)]
    rfl

/-- Text without capitals and full stops. -/
structure IsQuiet (s : Text) : Prop where
  noCapital : NoCapital s
  noStop : '.' ∉ s

/-- Quiet text in front of a type word: none, or text that ends in a space. -/
structure Lead where
  text : Text
  quiet : IsQuiet text
  last_eq : ∀ c ∈ text.getLast?, c = ' '

/-- A lead keeps the space in front of a type word. -/
theorem Lead.getLast?_append (l : Lead) {s : Text} (hs : s.getLast? = some ' ') :
    (s ++ l.text).getLast? = some ' ' := by
  rcases eq_or_ne l.text [] with hnil | hne
  · rw [hnil, List.append_nil, hs]
  · obtain ⟨c, hc⟩ := Option.isSome_iff_exists.1 (List.getLast?_isSome.2 hne)
    rw [List.getLast?_append_of_ne_nil _ hne, hc, l.last_eq c hc]

/-- Quiet text behind a type word: none, or text that starts with a space or a comma. -/
structure Trail where
  text : Text
  quiet : IsQuiet text
  head_eq : ∀ c ∈ text.head?, c = ' ' ∨ c = ','

/-- The type for the other case. -/
structure Fallback where
  lead : Lead
  word : Text
  isTypeWord : IsTypeWord word

/-- The word in front of a fallback. -/
def otherwiseText : Text := " otherwise ".toList

def Fallback.text (f : Fallback) : Text := otherwiseText ++ (f.lead.text ++ f.word)

/-- A sentence that announces a result. -/
structure Announcement where
  opening : Opening
  lead : Lead
  array : ArrayLead
  word : Text
  isTypeWord : IsTypeWord word
  ne_array : word ≠ "Array".toList
  trail : Trail
  fallback : Option Fallback

namespace Announcement

/-- What stands in front of the type word. -/
def before (a : Announcement) : Text := a.opening.text ++ (a.lead.text ++ a.array.text)

/-- What stands behind the type word. -/
def behind (a : Announcement) : Text := a.trail.text ++ (a.fallback.map Fallback.text).getD []

/-- The sentence without its full stop. -/
def sentence (a : Announcement) : Text := a.before ++ (a.word ++ a.behind)

def text (a : Announcement) : Text := a.sentence ++ ['.']

/-- What stands in front of the type word of the fallback. -/
def beforeFallback (a : Announcement) (f : Fallback) : Text :=
  a.before ++ (a.word ++ (a.trail.text ++ (otherwiseText ++ f.lead.text)))

/-- A sentence that opens with "Returns" says "on success" in front of the fallback's type word, but
not in front of its own. -/
structure Overridden (a : Announcement) (f : Fallback) : Prop where
  opening_eq : a.opening = .returns
  notBefore : ¬ SaysOnSuccess a.before
  beforeFallback : SaysOnSuccess (a.beforeFallback f)

/-! ## The text of an announcement -/

theorem sentence_eq {a : Announcement} {f : Fallback} (h : a.fallback = some f) :
    a.sentence = a.beforeFallback f ++ f.word := by
  simp only [sentence, behind, h, Option.map_some, Option.getD_some, Fallback.text,
    beforeFallback, List.append_assoc]

/-- Behind the capital of its opening, a sentence goes on with text without capitals and then the
words of an array, up to its type word. -/
theorem exists_before_eq (a : Announcement) :
    ∃ c s, a.before = c :: (s ++ a.array.text) ∧ NoCapital s ∧ s.getLast? = some ' ' := by
  obtain ⟨c, s, hs, hcapital, hlast⟩ :
      ∃ c s, a.opening.text = c :: s ∧ NoCapital s ∧ s.getLast? = some ' ' := by
    cases a.opening with
    | returns => exact ⟨'R', "eturns ".toList, rfl, by decide, rfl⟩
    | onSuccess => exact ⟨'O', "n success, ".toList, rfl, by decide, rfl⟩
  refine ⟨c, s ++ a.lead.text, by rw [before, hs, List.cons_append, List.append_assoc], ?_, ?_⟩
  · exact hcapital.append a.lead.quiet.noCapital
  · exact a.lead.getLast?_append hlast

theorem isBlank_last_before (a : Announcement) : ∀ c ∈ a.before.getLast?, isBlank c = true := by
  obtain ⟨c, s, hs, -, hlast⟩ := a.exists_before_eq
  have hlast' := a.array.getLast?_append hlast
  have hne : s ++ a.array.text ≠ [] := List.getLast?_isSome.1 (by rw [hlast']; rfl)
  rw [hs, List.getLast?_cons_of_ne_nil hne, hlast']
  rintro d ⟨⟩
  rfl

theorem isBlank_last_beforeFallback (a : Announcement) (f : Fallback) :
    ∀ c ∈ (a.beforeFallback f).getLast?, isBlank c = true := by
  have hlast : (otherwiseText ++ f.lead.text).getLast? = some ' ' := f.lead.getLast?_append rfl
  have hne : otherwiseText ++ f.lead.text ≠ [] := List.getLast?_isSome.1 (by rw [hlast]; rfl)
  have htext : a.beforeFallback f =
      (a.before ++ (a.word ++ a.trail.text)) ++ (otherwiseText ++ f.lead.text) := by
    simp only [beforeFallback, List.append_assoc]
  rw [htext, List.getLast?_append_of_ne_nil _ hne, hlast]
  rintro c ⟨⟩
  rfl

/-- The text in front of the type word names no type, but for the opening's capital. -/
theorem namesNone_of_suffix {a : Announcement} {s : Text} (hs : s <:+ a.before)
    (hlt : s.length < a.before.length) : NamesNone s := by
  obtain ⟨c, t, ht, hcapital, hlast⟩ := a.exists_before_eq
  rw [ht] at hs hlt
  have hsuffix : s <:+ t ++ a.array.text := by
    rcases List.suffix_cons_iff.1 hs with rfl | hs
    · exact absurd hlt (Nat.lt_irrefl _)
    · exact hs
  refine NamesNone.of_suffix ?_ hsuffix
  cases a.array with
  | none => exact .quiet (by rwa [ArrayLead.text_none, List.append_nil])
  | lower => exact .quiet (hcapital.append (by decide))
  | capital =>
    refine .array hcapital ?_
    rw [hlast]
    rfl

theorem head?_behind (a : Announcement) : a.behind.head?.any isWord = false := by
  have hfallback : (((a.fallback.map Fallback.text).getD []).head?).any isWord = false := by
    cases a.fallback <;> rfl
  have htrail := a.trail.head_eq
  rw [behind]
  cases ht : a.trail.text with
  | nil => exact hfallback
  | cons c t =>
    rcases htrail c (by rw [ht]; rfl) with rfl | rfl <;> rfl

theorem saysOnSuccess_before {a : Announcement} (h : a.opening = .onSuccess) :
    SaysOnSuccess a.before := by
  refine ⟨[], "On success".toList, ", ".toList ++ (a.lead.text ++ a.array.text), ?_, ?_, rfl, rfl⟩
  · rw [before, h]
    rfl
  · decide

theorem stop_notMem_sentence (a : Announcement) : '.' ∉ a.sentence := by
  have hword : ∀ {w : Text}, IsTypeWord w → '.' ∉ w := fun hw hmem => by
    cases hw.isWord_of_mem '.' hmem
  have hopening : '.' ∉ a.opening.text := by cases a.opening <;> decide
  have harray : '.' ∉ a.array.text := by cases a.array <;> decide
  have hfallback : '.' ∉ (a.fallback.map Fallback.text).getD [] := by
    cases a.fallback with
    | none => exact List.not_mem_nil
    | some f =>
      have hotherwise : '.' ∉ otherwiseText := by decide
      simp only [Option.map_some, Option.getD_some, Fallback.text, List.mem_append, not_or]
      exact ⟨hotherwise, f.lead.quiet.noStop, hword f.isTypeWord⟩
  simp only [sentence, before, behind, List.mem_append, not_or]
  exact ⟨⟨hopening, a.lead.quiet.noStop, harray⟩, hword a.isTypeWord, a.trail.quiet.noStop,
    hfallback⟩

/-- The full stop ends the only sentence. -/
theorem returnPhrase?_text (a : Announcement) :
    returnPhrase? a.text = returnPhraseOfSentence? a.sentence := by
  have hspan : sentenceEnd.span? ['.'] = some 1 := rfl
  have hend : sentenceEnd.split ['.'] = [[], []] := by
    rw [Pattern.split_of_span hspan, List.drop_one, List.tail_cons, Pattern.split_nil]
  have hempty : returnPhraseOfSentence? [] = none := by
    have hnil : ∀ p : Pattern, p.occurrences [] = [] := fun p => by
      rw [Pattern.occurrences, Pattern.occurrencesFrom]
    unfold returnPhraseOfSentence?
    dsimp only
    rw [hnil, hnil]
    rfl
  have hsentences : sentences a.text = [a.sentence, []] := by
    rw [sentences, text, (freeBefore_sentenceEnd a.stop_notMem_sentence _).split hend,
      List.append_nil]
  rw [returnPhrase?, hsentences, findSome?_cons_or, findSome?_cons_or, hempty,
    List.findSome?_nil, Option.or_none, Option.or_none]

/-! ## What is announced -/

/-- The fallback is the word behind the first "otherwise". -/
theorem findSome?_behind (a : Announcement) :
    ((otherwiseWord.occurrences a.behind).findSome? fun o => otherwiseType? o.after) =
      a.fallback.map Fallback.word := by
  rw [behind]
  cases a.fallback with
  | none =>
    rw [Option.map_none, Option.getD_none, List.append_nil]
    exact findSome?_otherwiseType_eq_none a.trail.quiet.noCapital
  | some f =>
    refine findSome?_otherwiseType a.trail.quiet.noCapital f.lead.quiet.noCapital ?_ f.isTypeWord
    intro c hc
    rw [f.lead.last_eq c hc]
    rfl

theorem objectNext_behind (a : Announcement) :
    ObjectNext a.behind ↔ ObjectNext a.trail.text := by
  refine objectNext_append ?_
  cases a.fallback with
  | none => exact Or.inl rfl
  | some f => exact Or.inr ⟨_, rfl⟩

/-- Behind announcing words in front of the type word, the result is read as it was written. -/
theorem returnPhraseIn?_of_leadsIn {a : Announcement} {u s : Text} (hs : a.before = u ++ s)
    (hne : u ≠ []) (hannounces : ∃ c ∈ u.getLast?, foldCase c = 's')
    (hends : s.head?.any isWord = false) :
    ∃ r, returnPhraseIn? (s ++ (a.word ++ a.behind)) = some r ∧
      Names r a.word a.before a.trail.text ∧ r.fallback = a.fallback.map Fallback.word := by
  have hsuffix : s <:+ a.before := ⟨u, hs.symm⟩
  have hlt : s.length < a.before.length := by
    have := List.length_pos_iff.2 hne
    rw [hs, List.length_append]
    omega
  have hleads : LeadsIn u s := by
    refine ⟨hannounces, hends, fun c hc => ?_, namesNone_of_suffix hsuffix hlt⟩
    exact a.isBlank_last_before c (by rw [hs, List.getLast?_append, hc]; rfl)
  obtain ⟨r, hr, hnames, hfallback⟩ :=
    hleads.returnPhraseIn?_eq a.isTypeWord a.head?_behind (Or.inl a.ne_array)
  rw [← hs] at hnames
  exact ⟨r, hr, hnames.congr_behind a.objectNext_behind, hfallback.trans a.findSome?_behind⟩

theorem returnPhraseOfSentence?_of_onSuccess {s rest : Text} {r : ReturnPhrase}
    (hrest : (onSuccess.occurrences s).head?.map Occurrence.after = some rest)
    (hr : returnPhraseIn? rest = some r) : returnPhraseOfSentence? s = some r := by
  unfold returnPhraseOfSentence?
  dsimp only
  rw [hrest, Option.bind_some, hr, Option.some_or]

/-- Where "on success" comes before the type word, the result is found behind it. -/
theorem returnPhraseOfSentence?_of_before {a : Announcement} (h : SaysOnSuccess a.before) :
    ∃ r, returnPhraseOfSentence? a.sentence = some r ∧
      Names r a.word a.before a.trail.text ∧ r.fallback = a.fallback.map Fallback.word := by
  obtain ⟨front, w, d, hbefore, hat, hhead⟩ :=
    h.exists_first a.isBlank_last_before (a.word ++ a.behind)
  obtain ⟨r, hr, hnames⟩ :=
    returnPhraseIn?_of_leadsIn hbefore hat.ne_nil hat.announces hat.ends_append
  exact ⟨r, returnPhraseOfSentence?_of_onSuccess hhead hr, hnames⟩

/-- Where nothing is found behind "on success", the result is found behind "Returns". -/
theorem returnPhraseOfSentence?_of_returns {a : Announcement} (hopening : a.opening = .returns)
    (hnone : ∀ s, (onSuccess.occurrences a.sentence).head?.map Occurrence.after = some s →
      returnPhraseIn? s = none) :
    ∃ r, returnPhraseOfSentence? a.sentence = some r ∧
      Names r a.word a.before a.trail.text ∧ r.fallback = a.fallback.map Fallback.word := by
  have hbefore : a.before = "Returns".toList ++ (' ' :: (a.lead.text ++ a.array.text)) := by
    rw [before, hopening]
    rfl
  have hread : returnsWord.read ("Returns".toList ++
      ((' ' :: (a.lead.text ++ a.array.text)) ++ (a.word ++ a.behind))) =
        some ((' ' :: (a.lead.text ++ a.array.text)) ++ (a.word ++ a.behind)) := rfl
  have hsentence : a.sentence = "Returns".toList ++
      ((' ' :: (a.lead.text ++ a.array.text)) ++ (a.word ++ a.behind)) := by
    rw [sentence, hbefore, List.append_assoc]
  obtain ⟨r, hr, hnames⟩ :=
    returnPhraseIn?_of_leadsIn hbefore (by decide) ⟨'s', rfl, by decide⟩ rfl
  refine ⟨r, ?_, hnames⟩
  have hfirst : ((onSuccess.occurrences a.sentence).head?.map Occurrence.after).bind
      returnPhraseIn? = none := by
    rw [Option.bind_eq_none_iff]
    exact hnone
  unfold returnPhraseOfSentence?
  dsimp only
  rw [hfirst, Option.none_or, hsentence, Pattern.occurrences,
    Pattern.occurrencesFrom_of_read rfl hread]
  exact hr

/-- Where "on success" comes before no type word, the text behind it holds no capital. -/
theorem noCapital_of_first {a : Announcement} (hbefore : ¬ SaysOnSuccess a.before)
    (hfallback : ∀ f ∈ a.fallback, ¬ SaysOnSuccess (a.beforeFallback f)) {s : Text}
    (h : (onSuccess.occurrences a.sentence).head?.map Occurrence.after = some s) :
    NoCapital s := by
  obtain ⟨front, w, heq, hat⟩ := exists_onSuccessAt h
  rw [← List.append_assoc] at heq
  rcases cut_at_word a.isTypeWord.ne_nil a.isTypeWord.isWord_of_mem hat.ends heq.symm with
    ⟨c, -, hb, rfl⟩ | ⟨d, -, hbehind⟩
  · exact absurd (hb ▸ hat.saysOnSuccess) hbefore
  · cases hf : a.fallback with
    | none =>
      rw [behind, hf, Option.map_none, Option.getD_none, List.append_nil] at hbehind
      exact a.trail.quiet.noCapital.of_suffix ⟨d, hbehind.symm⟩
    | some f =>
      rw [sentence_eq hf, ← List.append_nil f.word] at heq
      rcases cut_at_word f.isTypeWord.ne_nil f.isTypeWord.isWord_of_mem hat.ends heq.symm with
        ⟨c, -, hb, rfl⟩ | ⟨e, -, hnil⟩
      · exact absurd (hb ▸ hat.saysOnSuccess) (hfallback f hf)
      · rw [(List.append_eq_nil_iff.1 hnil.symm).2]
        exact fun c hc => by cases hc

/-- Where "on success" comes before the fallback's type word only, the fallback is taken for the
result. -/
theorem returnPhraseOfSentence?_of_overridden {a : Announcement} {f : Fallback}
    (hf : a.fallback = some f) (h : a.Overridden f) :
    ∃ r, returnPhraseOfSentence? a.sentence = some r ∧
      Names r f.word (a.beforeFallback f) [] ∧ r.fallback = none := by
  have hlast := isBlank_last_beforeFallback a f
  obtain ⟨front, w, d, hbefore, hat, hhead⟩ := h.beforeFallback.exists_first hlast f.word
  have htext : (front ++ w) ++ (d ++ f.word) = a.before ++ (a.word ++ a.behind) := by
    rw [← List.append_assoc, ← hbefore, ← sentence_eq hf, sentence]
  rcases cut_at_word a.isTypeWord.ne_nil a.isTypeWord.isWord_of_mem hat.ends htext with
    ⟨c, -, hb, hd⟩ | ⟨e, hu, -⟩
  · exact absurd (hb ▸ (hd ▸ hat).saysOnSuccess) h.notBefore
  · -- behind the words comes a part of what stands between the type words
    have hpart : e ++ d = a.trail.text ++ (otherwiseText ++ f.lead.text) := by
      rw [hu, beforeFallback] at hbefore
      simp only [List.append_assoc, List.append_cancel_left_eq] at hbefore
      exact hbefore.symm
    have hotherwise : NoCapital otherwiseText := by decide
    have hcapital : NoCapital d :=
      (a.trail.quiet.noCapital.append (hotherwise.append f.lead.quiet.noCapital)).of_suffix
        ⟨e, hpart⟩
    have hleads : LeadsIn (front ++ w) d := by
      refine ⟨hat.announces, hat.ends_append, fun c hc => ?_, .quiet hcapital⟩
      exact hlast c (by rw [hbefore, List.getLast?_append, hc]; rfl)
    have hend : ([] : Text).head?.any isWord = false := rfl
    obtain ⟨r, hr, hnames, hfallback⟩ := hleads.returnPhraseIn?_eq f.isTypeWord hend (Or.inr rfl)
    rw [List.append_nil] at hr
    rw [← hbefore] at hnames
    rw [← sentence_eq hf] at hhead
    exact ⟨r, returnPhraseOfSentence?_of_onSuccess hhead hr, hnames,
      hfallback.trans (findSome?_otherwiseType_eq_none (by decide))⟩

/-- What an announcement announces is what was written, unless its fallback overrides it. -/
theorem returnPhrase?_announcement (a : Announcement) :
    ((∀ f ∈ a.fallback, ¬ a.Overridden f) →
      ∃ r, returnPhrase? a.text = some r ∧ Names r a.word a.before a.trail.text ∧
        r.fallback = a.fallback.map Fallback.word ∧ announced? a.text = some r.namedType) ∧
    ∀ f ∈ a.fallback, a.Overridden f →
      ∃ r, returnPhrase? a.text = some r ∧ Names r f.word (a.beforeFallback f) [] ∧
        r.fallback = none ∧ announced? a.text = some r.namedType := by
  have htype : ∀ {r : ReturnPhrase}, returnPhraseOfSentence? a.sentence = some r →
      returnPhrase? a.text = some r ∧ announced? a.text = some r.namedType := by
    intro r hr
    rw [announced?_eq, a.returnPhrase?_text, hr]
    exact ⟨rfl, rfl⟩
  constructor
  · intro hnot
    have hresult : ∃ r, returnPhraseOfSentence? a.sentence = some r ∧
        Names r a.word a.before a.trail.text ∧ r.fallback = a.fallback.map Fallback.word := by
      by_cases hbefore : SaysOnSuccess a.before
      · exact returnPhraseOfSentence?_of_before hbefore
      · have hopening : a.opening = .returns := by
          cases ho : a.opening with
          | returns => rfl
          | onSuccess => exact absurd (saysOnSuccess_before ho) hbefore
        refine returnPhraseOfSentence?_of_returns hopening fun s hs =>
          returnPhraseIn?_eq_none (noCapital_of_first hbefore (fun f hf hsays => ?_) hs)
        exact hnot f hf ⟨hopening, hbefore, hsays⟩
    obtain ⟨r, hr, hnames, hfallback⟩ := hresult
    exact ⟨r, (htype hr).1, hnames, hfallback, (htype hr).2⟩
  · intro f hf h
    obtain ⟨r, hr, hnames, hfallback⟩ := returnPhraseOfSentence?_of_overridden hf h
    exact ⟨r, (htype hr).1, hnames, hfallback, (htype hr).2⟩

/-- A sentence whose fallback overrides its result. -/
def messageOrTrue : Announcement where
  opening := .returns
  lead := ⟨[], ⟨by decide, by decide⟩, by decide⟩
  array := .none
  word := "Message".toList
  isTypeWord := ⟨by decide, by decide⟩
  ne_array := by decide
  trail := ⟨" on success,".toList, ⟨by decide, by decide⟩, by decide⟩
  fallback := some
    ⟨⟨[], ⟨by decide, by decide⟩, by decide⟩, "True".toList, ⟨by decide, by decide⟩⟩

theorem returnPhrase?_announcement_messages :
    let a : Announcement :=
      { messageOrTrue with
        opening := .onSuccess
        lead := ⟨"an ".toList, ⟨by decide, by decide⟩, by decide⟩
        array := .lower
        word := "Messages".toList
        isTypeWord := ⟨by decide, by decide⟩
        ne_array := by decide
        trail := ⟨" that were sent,".toList, ⟨by decide, by decide⟩, by decide⟩ }
    let b := messageOrTrue
    a.text = "On success, an array of Messages that were sent, otherwise True.".toList ∧
      (∀ f ∈ a.fallback, ¬ a.Overridden f) ∧
      (∃ r, returnPhrase? a.text = some r ∧ Names r "Messages".toList a.before a.trail.text ∧
        r.fallback = some "True".toList ∧ announced? a.text = some r.namedType) ∧
      ∃ f ∈ b.fallback, b.Overridden f ∧
        ∃ r, returnPhrase? b.text = some r ∧ Names r "True".toList (b.beforeFallback f) [] ∧
          r.fallback = none ∧ announced? b.text = some r.namedType := by
  intro a b
  have ha : ∀ f ∈ a.fallback, ¬ a.Overridden f := fun f _ h => by cases h.opening_eq
  have hb : b.Overridden ⟨⟨[], ⟨by decide, by decide⟩, by decide⟩, "True".toList,
      ⟨by decide, by decide⟩⟩ := ⟨rfl, by decide +kernel, by decide +kernel⟩
  exact ⟨by decide +kernel, ha, (returnPhrase?_announcement a).1 ha, _, rfl, hb,
    (returnPhrase?_announcement b).2 _ rfl hb⟩

/-- The type word and its fallback are written out, but the words "on success" between them make
the fallback the result. -/
theorem fallback_taken_for_result :
    let s := "Returns Message on success, otherwise True.".toList
    messageOrTrue.text = s ∧
      returnPhrase? s ≠ some ⟨"Message".toList, false, some "True".toList⟩ ∧
      announced? s ≠ some (union [named "Message", primitive .flag]) ∧
      returnPhrase? s = some ⟨"True".toList, false, none⟩ ∧
      announced? s = some (primitive .flag) := by
  intro s
  have hresult : returnPhrase? s = some ⟨"True".toList, false, none⟩ := by decide +kernel
  have htype : announced? s = some (primitive .flag) := by
    rw [announced?_eq, hresult]
    rfl
  refine ⟨by decide +kernel, ?_, ?_, hresult, htype⟩
  · rw [hresult]
    decide
  · rw [htype]
    simp

end Announcement

end DocTypes.Phrase
