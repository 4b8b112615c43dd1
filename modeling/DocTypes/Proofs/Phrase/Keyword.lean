/-
  The keywords that announce values. A keyword is one of a list of words, in any letter case and
  with no word character at either end; the words are tried in the order of the list
  (`read_quotedKeyword`, `read_bareKeyword`). None of them goes on into another but "can be" into
  "either", so a keyword behind a front that ends in a blank is read up to its own end wherever the
  search comes to it from. A search for quoted values comes to the keyword in front of the first
  quotation mark (`findSome?_quotedKeyword`), a search for bare ones to the only keyword
  (`findSome?_bareKeyword`).
-/
import DocTypes.Phrase.Enumeration
import DocTypes.Proofs.Text.Search
import DocTypes.Proofs.Text.Words
import Mathlib.Data.List.TakeWhile

namespace DocTypes.Phrase

open Text

/-- The words that `quotedKeyword` reads, in the order in which they are tried. -/
def quotedKeywords : List Text :=
  ["one of", "can be either", "can be", "must be", "currently", "always", "either"].map
    String.toList

/-- The words that `bareKeyword` reads, in the order in which they are tried. -/
def bareKeywords : List Text :=
  ["one of", "can be either", "must be", "currently"].map String.toList

/-- The marks that open a quoted value. -/
def openingMarks : List Char := ['“', '"']

/-- What follows the word `w`, in any letter case, at the front of a text. -/
def afterKeyword? (w s : Text) : Option Text :=
  (after? foldCase w s).filter fun r => !r.head?.any isWord

/-! ## Reading a keyword -/

theorem read_keyword {w : Text} (hw : w ≠ []) (s : Text) :
    ((Pattern.anyCase w hw).followedBy Tail.wordEnd).read s = afterKeyword? w s := by
  show ((Pattern.anyCase w hw).toTail.followedBy Tail.wordEnd).read s = _
  rw [Tail.read_followedBy, Pattern.anyCase, Pattern.read_like, afterKeyword?]
  cases after? foldCase w s with
  | none => rfl
  | some r =>
    rw [Option.bind_some, Tail.read, Tail.wordEnd, Option.filter_some]
    dsimp only
    cases r.head?.any isWord <;> rfl

theorem findSome?_cons_or {α β : Type} (f : α → Option β) (a : α) (as : List α) :
    (a :: as).findSome? f = (f a).or (as.findSome? f) := by
  rw [List.findSome?_cons]
  cases f a <;> rfl

theorem read_quotedKeyword (s : Text) :
    quotedKeyword.read s = quotedKeywords.findSome? (afterKeyword? · s) := by
  unfold quotedKeyword Pattern.or
  simp only [Tail.read_or, read_keyword, quotedKeywords, List.map_cons, List.map_nil,
    findSome?_cons_or, List.findSome?_nil, Option.or_none, Option.or_assoc]

theorem read_bareKeyword (s : Text) :
    bareKeyword.read s = bareKeywords.findSome? (afterKeyword? · s) := by
  unfold bareKeyword Pattern.or
  simp only [Tail.read_or, read_keyword, bareKeywords, List.map_cons, List.map_nil,
    findSome?_cons_or, List.findSome?_nil, Option.or_none, Option.or_assoc]

/-- A keyword that is read is a word of the list. -/
theorem map_take_of_span? {p : Pattern} {ws : List Text}
    (hp : ∀ s, p.read s = ws.findSome? (afterKeyword? · s)) {s : Text} {n : Nat}
    (h : p.span? s = some n) : (s.take n).map foldCase ∈ ws := by
  have hread : p.read s = some (s.drop n) := by rw [Tail.read, h, Option.map_some]
  rw [hp] at hread
  obtain ⟨w, hw, hafter⟩ := List.exists_of_findSome?_eq_some hread
  obtain ⟨u, hu, rfl⟩ := after?_eq_some_iff.1 (Option.filter_eq_some_iff.1 hafter).1
  rw [← List.append_cancel_right (hu.symm.trans (List.take_append_drop n s).symm)]
  exact hw

/-- A word of the list is read where it stands, if none that is tried before it can be. -/
theorem findSome?_afterKeyword (lead : Text) {ws : List Text} {k rest : Text}
    (hk : k.map foldCase ∈ ws) (hlead : lead <+: rest.map foldCase)
    (hword : rest.head?.any isWord = false)
    (hfirst : ∀ w ∈ ws.takeWhile (· != k.map foldCase),
      comparable w (k.map foldCase ++ lead) = false) :
    ws.findSome? (afterKeyword? · (k ++ rest)) = some rest := by
  induction ws with
  | nil => cases hk
  | cons w ws ih =>
    rw [List.findSome?_cons]
    by_cases hw : w = k.map foldCase
    · have hafter : after? foldCase w (k ++ rest) = some rest :=
        after?_eq_some_iff.2 ⟨k, rfl, hw.symm⟩
      rw [afterKeyword?, hafter, Option.filter_some_pos (by rw [hword]; rfl)]
    · rw [List.takeWhile_cons_of_pos (by simpa using hw)] at hfirst
      have hopen : k.map foldCase ++ lead <+: (k ++ rest).map foldCase := by
        rw [List.map_append]
        exact (List.prefix_append_right_inj (k.map foldCase)).2 hlead
      have hnone : afterKeyword? w (k ++ rest) = none := by
        rw [afterKeyword?, after?_eq_none hopen (hfirst w List.mem_cons_self)]
        rfl
      rw [hnone]
      exact ih ((List.mem_cons.1 hk).resolve_left (Ne.symm hw))
        fun v hv => hfirst v (List.mem_cons_of_mem w hv)

/-- A keyword in front of a quoted value is read up to its end. -/
theorem read_quotedKeyword_append {k more : Text} {m : Char}
    (hk : k.map foldCase ∈ quotedKeywords) (hm : m ∈ openingMarks) :
    quotedKeyword.read (k ++ ' ' :: m :: more) = some (' ' :: m :: more) := by
  have hfirst : ∀ k ∈ quotedKeywords, ∀ m ∈ openingMarks,
      ∀ w ∈ quotedKeywords.takeWhile (· != k), comparable w (k ++ [' ', m]) = false := by
    decide +kernel
  have hfold : ∀ m ∈ openingMarks, foldCase m = m := by decide
  rw [read_quotedKeyword]
  refine findSome?_afterKeyword [' ', m] hk ?_ rfl (hfirst _ hk m hm)
  rw [List.map_cons, List.map_cons, hfold m hm]
  exact ⟨more.map foldCase, rfl⟩

/-- A keyword of bare values in front of a blank is read up to its end. -/
theorem read_bareKeyword_append {k : Text} (hk : k.map foldCase ∈ bareKeywords) (more : Text) :
    bareKeyword.read (k ++ ' ' :: more) = some (' ' :: more) := by
  have hfirst : ∀ k ∈ bareKeywords, ∀ w ∈ bareKeywords.takeWhile (· != k),
      comparable w (k ++ [' ']) = false := by decide +kernel
  rw [read_bareKeyword]
  exact findSome?_afterKeyword [' '] hk ⟨more.map foldCase, rfl⟩ rfl (hfirst _ hk)

/-! ## Searching for values -/

theorem quotedList_eq_none {s : Text} (h : ∀ c ∈ (trimStart s).head?, c ∉ openingMarks) :
    quotedList s = none := by
  have hnone : quotedValues (trimStart s) = some [] := by
    cases hs : trimStart s with
    | nil => rw [quotedValues]
    | cons c t =>
      have hc := h c (by rw [hs]; rfl)
      have hmark : closingMark? c = none := by
        simp only [openingMarks, List.mem_cons, List.not_mem_nil, or_false, not_or] at hc
        rw [closingMark?, if_neg hc.1, if_neg hc.2]
      rw [quotedValues]
      split
      · rfl
      · next mark hmark' => rw [hmark] at hmark'; cases hmark'
  rw [quotedList, hnone]
  rfl

/-- No quoted value stands at the front of a text in which another visible character comes
first. -/
theorem quotedList_eq_none_of_append {a b : Text} (hmarks : ∀ m ∈ openingMarks, m ∉ a)
    (hvisible : ∃ c ∈ a, isBlank c = false) : quotedList (a ++ b) = none := by
  refine quotedList_eq_none fun c hc hmark => hmarks c hmark ?_
  obtain ⟨d, hd, hblank⟩ := hvisible
  have hfind : (trimStart (a ++ b)).head? = a.find? fun c => !isBlank c := by
    have hsome : (a.find? fun c => !isBlank c).isSome :=
      List.find?_isSome.2 ⟨d, hd, by rw [hblank]; rfl⟩
    obtain ⟨e, he⟩ := Option.isSome_iff_exists.1 hsome
    rw [trimStart, ← List.find?_not_eq_head?_dropWhile, List.find?_append, he, Option.some_or]
  rw [hfind] at hc
  exact List.mem_of_find?_eq_some hc

/-- What stands in a keyword of quoted values. -/
theorem quotedKeyword_visible {k : Text} (hk : k.map foldCase ∈ quotedKeywords) :
    (∀ m ∈ openingMarks, m ∉ k) ∧ ∃ c ∈ k, isBlank c = false := by
  have hmarks : ∀ w ∈ quotedKeywords, ∀ m ∈ openingMarks, foldCase m ∉ w := by decide +kernel
  have hhead : ∀ w ∈ quotedKeywords, w.head?.any (!isBlank ·) = true := by decide +kernel
  refine ⟨fun m hm hmem => hmarks _ hk m hm (List.mem_map_of_mem hmem), ?_⟩
  have hk' := hhead _ hk
  cases k with
  | nil => cases hk'
  | cons c k =>
    refine ⟨c, List.mem_cons_self, Bool.eq_false_iff.2 fun hc => ?_⟩
    rw [List.map_cons, List.head?_cons, Option.any_some, foldCase_of_blank hc, hc] at hk'
    cases hk'

/-- A keyword that is read from within a front that ends in a blank, but not only there, ends
where the keyword behind the front does. -/
theorem drop_of_span?_quotedKeyword {t k more : Text} {n : Nat} (hne : t ≠ [])
    (hlast : ∀ c ∈ t.getLast?, isBlank c = true) (hk : k.map foldCase ∈ quotedKeywords)
    (h : quotedKeyword.span? (t ++ (k ++ ' ' :: more)) = some n) (hlt : t.length < n) :
    (t ++ (k ++ ' ' :: more)).drop n = ' ' :: more := by
  have hparts : ∀ w ∈ quotedKeywords, ∀ k ∈ quotedKeywords, ∀ i < w.length,
      (w.take i).getLast?.any isBlank = true → comparable (w.drop i) (k ++ [' ']) = true →
        w.drop i = k := by
    decide +kernel
  obtain ⟨j, rfl⟩ := Nat.exists_eq_add_of_le (Nat.le_of_lt hlt)
  have hw := map_take_of_span? read_quotedKeyword h
  have hle := quotedKeyword.span_le h
  rw [List.take_length_add_append, List.map_append] at hw
  have hj : j ≤ (k ++ ' ' :: more).length := by
    rw [List.length_append] at hle
    omega
  have hend := hparts _ hw _ hk t.length
    (by rw [List.length_append, List.length_map, List.length_map, List.length_take]; omega) ?_ ?_
  · -- what is read behind `t` has the length of the keyword there
    rw [List.drop_left' (List.length_map _)] at hend
    have hlen := congrArg List.length hend
    rw [List.length_map, List.length_map, List.length_take, Nat.min_eq_left hj] at hlen
    rw [List.drop_length_add_append, hlen, List.drop_left]
  · rw [List.take_left' (List.length_map _), List.getLast?_map]
    obtain ⟨c, hc⟩ := Option.isSome_iff_exists.1 (List.getLast?_isSome.2 hne)
    have hblank := hlast c hc
    rw [hc, Option.map_some, Option.any_some, foldCase_of_blank hblank, hblank]
  · rw [List.drop_left' (List.length_map _)]
    refine comparable_of_prefixes (u := (k ++ ' ' :: more).map foldCase)
      ((List.take_prefix j _).map foldCase) ?_
    rw [List.map_append, List.map_cons]
    exact ⟨more.map foldCase, by rw [List.append_assoc]; rfl⟩

theorem head?_isWord_of_last {front : Text} (h : ∀ c ∈ front.getLast?, isBlank c = true) :
    (front.reverse ++ []).head?.any isWord = false := by
  rw [List.append_nil, List.head?_reverse]
  cases hlast : front.getLast? with
  | none => rfl
  | some c => exact isWord_of_isBlank (h c hlast)

/-- The values at the first quotation mark are found, by the keyword in front of it or by one that
ends where that keyword does. -/
theorem findSome?_quotedKeyword {front k more : Text} {m : Char} {vs : List Text}
    (hfront : ∀ c ∈ front.getLast?, isBlank c = true) (hmarks : ∀ m ∈ openingMarks, m ∉ front)
    (hk : k.map foldCase ∈ quotedKeywords) (hm : m ∈ openingMarks)
    (hvs : quotedList (' ' :: m :: more) = some vs) :
    ((quotedKeyword.occurrences (front ++ (k ++ ' ' :: m :: more))).findSome?
      fun o => quotedList o.after) = some vs := by
  refine Pattern.findSome?_occurrencesFrom (read_quotedKeyword_append hk hm) hvs
    (head?_isWord_of_last hfront) fun t n ht hne hspan => ?_
  rcases Nat.lt_or_ge t.length n with hlt | hle
  · obtain ⟨a, rfl⟩ := ht
    refine Or.inr (drop_of_span?_quotedKeyword hne (fun c hc => hfront c ?_) hk hspan hlt)
    rw [List.getLast?_append, Option.mem_def.1 hc, Option.some_or]
    rfl
  · obtain ⟨hkmarks, c, hc, hblank⟩ := quotedKeyword_visible hk
    refine Or.inl ⟨hle, ?_⟩
    rw [← List.append_assoc]
    refine quotedList_eq_none_of_append (fun m hm hmem => ?_)
      ⟨c, List.mem_append_right _ hc, hblank⟩
    rcases List.mem_append.1 hmem with h | h
    · exact hmarks m hm (ht.subset (List.mem_of_mem_drop h))
    · exact hkmarks m hm h

/-- The values behind the only keyword are found, or none. -/
theorem findSome?_bareKeyword {front k more : Text}
    (hfront : ∀ c ∈ front.getLast?, isBlank c = true) (hk : k.map foldCase ∈ bareKeywords)
    (honly : ∀ o ∈ bareKeyword.occurrences (front ++ (k ++ ' ' :: more)), o.before = front)
    (words : Bool) :
    ((bareKeyword.occurrences (front ++ (k ++ ' ' :: more))).findSome?
      fun o => bareList words o.after) = bareList words (' ' :: more) := by
  obtain ⟨n, hspan, hrest⟩ := Option.map_eq_some_iff.1 (read_bareKeyword_append hk more)
  have hback : ∀ o ∈ bareKeyword.occurrencesFrom [] (front ++ (k ++ ' ' :: more)),
      o.back = front.reverse ++ [] := fun o ho => by
    rw [← honly o ho, Occurrence.before, List.reverse_reverse, List.append_nil]
  rw [Pattern.occurrences,
    Pattern.occurrencesFrom_eq_singleton hspan (head?_isWord_of_last hfront) hback,
    List.findSome?_cons, hrest]
  cases bareList words (' ' :: more) <;> rfl

/-- Without an opening mark there are no quoted values. -/
theorem findSome?_quotedKeyword_eq_none {prose : Text} (hmarks : ∀ m ∈ openingMarks, m ∉ prose) :
    ((quotedKeyword.occurrences prose).findSome? fun o => quotedList o.after) = none := by
  rw [List.findSome?_eq_none_iff]
  refine fun o ho => quotedList_eq_none fun c hc hmark => hmarks c hmark ?_
  have hsuffix := (trimStart_suffix o.after).trans (Pattern.after_suffix_of_mem_occurrences ho)
  exact hsuffix.subset (List.mem_of_head? hc)

end DocTypes.Phrase
