/-
  The places of a pattern in a text that is put together from parts. Where the pattern fits at no
  character of the front, cutting and searching begin behind it (`FreeBefore.split`,
  `FreeBefore.occurrencesFrom`); what stands before a text counts for a search only in whether a
  word can start there (`map_after_occurrencesFrom`). A search finds the first place, and nothing
  only where there is none (`exists_first`, `occurrences_eq_nil_iff`). What is found is a whole
  word where the pattern ends at a word's end, so what follows the place either has another word
  in front of it or lies behind that word (`cut_at_word`).
-/
import DocTypes.Proofs.Text.Search

namespace DocTypes

open Text

/-! ## Words in a row -/

namespace Text

/-- A text that no word character opens cannot begin within a word: it has all of the word in it,
or lies behind it. -/
theorem cut_at_word {u a b w r : Text} (hne : w ≠ []) (hw : ∀ c ∈ w, isWord c = true)
    (ha : a.head?.any isWord = false) (h : u ++ a = b ++ (w ++ r)) :
    (∃ c, c ≠ [] ∧ b = u ++ c ∧ a = c ++ (w ++ r)) ∨ ∃ d, u = b ++ (w ++ d) ∧ r = d ++ a := by
  have hopen : ∀ {v t : Text}, v ≠ [] → (∀ c ∈ v, isWord c = true) → a = v ++ t → False := by
    intro v t hv hall hat
    obtain ⟨c, v, rfl⟩ := List.exists_cons_of_ne_nil hv
    rw [hat, List.cons_append, List.head?_cons, Option.any_some, hall c List.mem_cons_self] at ha
    cases ha
  rcases List.append_eq_append_iff.1 h with ⟨c, hb, hac⟩ | ⟨c, hu, hwr⟩
  · refine Or.inl ⟨c, ?_, hb, hac⟩
    rintro rfl
    exact hopen hne hw (by rw [hac, List.nil_append])
  · rcases List.append_eq_append_iff.1 hwr with ⟨d, hc, hr⟩ | ⟨d, hc, hr⟩
    · exact Or.inr ⟨d, by rw [hu, hc], hr⟩
    · -- `d` is the part of the word behind the cut
      cases d with
      | nil => exact Or.inr ⟨[], by simp [hu, hc], by simp [hr]⟩
      | cons e d =>
        exact absurd hr fun hr => hopen (by simp)
          (fun f hf => hw f (hc ▸ List.mem_append_right c hf)) hr

end Text

namespace Tail

theorem read_wordEnd (s : Text) :
    wordEnd.read s = if s.head?.any isWord then none else some s := by
  unfold read wordEnd
  dsimp only
  split <;> rfl

end Tail

namespace Pattern

variable {p : Pattern} {s t rest back : Text}

theorem read_eq_none_iff : p.read s = none ↔ p.span? s = none := Option.map_eq_none_iff

theorem eq_cons_of_read_char {c : Char} {r : Text} (h : (char c).read s = some r) : s = c :: r := by
  cases s with
  | nil => cases h
  | cons d s =>
    rw [char, read_one_cons] at h
    split at h
    · next hd => cases h; rw [beq_iff_eq.1 hd]
    · cases h

theorem read_many1 (q : Char → Bool) (s : Text) :
    (many1 q).read s = if s.head?.any q then some (s.dropWhile q) else none := by
  show ((one q).toTail.followedBy (Tail.many q)).read s = _
  rw [Tail.read_followedBy]
  cases s with
  | nil => rfl
  | cons c s =>
    rw [read_one_cons]
    by_cases hc : q c = true <;> simp [hc]

theorem span?_of_read {w r : Text} (h : p.read (w ++ r) = some r) :
    p.span? (w ++ r) = some w.length := by
  obtain ⟨n, hn, hdrop⟩ := Option.map_eq_some_iff.1 h
  have hle := p.span_le hn
  have hlen := congrArg List.length hdrop
  rw [List.length_drop, List.length_append] at hlen
  rw [List.length_append] at hle
  rw [hn, show n = w.length by omega]

/-- A piece at which a word can start is a place. -/
theorem occurrencesFrom_of_read {w r : Text} (hback : back.head?.any isWord = false)
    (h : p.read (w ++ r) = some r) :
    p.occurrencesFrom back (w ++ r) = ⟨back, w, r⟩ :: p.occurrencesFrom (w.reverse ++ back) r := by
  rw [occurrencesFrom_of_span back hback (span?_of_read h), List.take_left, List.drop_left]

/-! ## Fronts without a place -/

/-- The pattern fits at no character of `s` where `rest` follows. -/
def FreeBefore (p : Pattern) (s rest : Text) : Prop :=
  ∀ t, t <:+ s → t ≠ [] → p.span? (t ++ rest) = none

namespace FreeBefore

theorem of_cons {c : Char} (h : p.FreeBefore (c :: s) rest) :
    p.span? (c :: (s ++ rest)) = none ∧ p.FreeBefore s rest :=
  ⟨h (c :: s) List.suffix_rfl (by simp), fun t ht => h t (ht.trans (List.suffix_cons c s))⟩

theorem append (hs : p.FreeBefore s (t ++ rest)) (ht : p.FreeBefore t rest) :
    p.FreeBefore (s ++ t) rest := by
  intro u hu hne
  obtain ⟨v, hv⟩ := hu
  rcases List.append_eq_append_iff.1 hv with ⟨w, hvs, rfl⟩ | ⟨w, -, htw⟩
  · rcases eq_or_ne w [] with rfl | hw
    · exact ht _ List.suffix_rfl hne
    · rw [List.append_assoc]
      exact hs w ⟨v, hvs.symm⟩ hw
  · exact ht u ⟨w, htw.symm⟩ hne

/-- Where the pattern starts with none of its characters, a front is free before any text. -/
theorem of_forall (h : ∀ c ∈ s, ∀ t, p.span? (c :: t) = none) (rest : Text) :
    p.FreeBefore s rest := by
  intro t ht hne
  obtain ⟨c, t, rfl⟩ := List.exists_cons_of_ne_nil hne
  exact h c (ht.subset List.mem_cons_self) (t ++ rest)

theorem free (h : p.FreeBefore s []) : p.Free s := by
  intro t ht
  rcases eq_or_ne t [] with rfl | hne
  · exact p.span?_nil
  · rw [← List.append_nil t]
    exact h t ht hne

/-- A free front stands in front of the first piece behind it. -/
theorem split (h : p.FreeBefore s rest) {u : Text} {us : List Text} (hrest : p.split rest = u :: us) :
    p.split (s ++ rest) = (s ++ u) :: us := by
  induction s with
  | nil => exact hrest
  | cons c s ih =>
    rw [List.cons_append, split_cons_of_none h.of_cons.1, ih h.of_cons.2]
    rfl

/-- A search passes over a free front. -/
theorem occurrencesFrom (h : p.FreeBefore s rest) (back : Text) :
    p.occurrencesFrom back (s ++ rest) = p.occurrencesFrom (s.reverse ++ back) rest := by
  induction s generalizing back with
  | nil => rfl
  | cons c s ih =>
    rw [List.cons_append, occurrencesFrom_cons (Or.inr h.of_cons.1), ih h.of_cons.2,
      List.reverse_cons, List.append_assoc]
    rfl

end FreeBefore

/-! ## The first place -/

/-- The pattern fits at the front of `s`, and a word can start there. -/
def FitsAt (p : Pattern) (back s : Text) : Prop :=
  back.head?.any isWord = false ∧ (p.span? s).isSome

/-- The places of a text are the same behind any texts that agree in whether a word can start
behind them. -/
theorem map_after_occurrencesFrom {back' : Text}
    (h : back.head?.any isWord = back'.head?.any isWord) :
    (p.occurrencesFrom back s).map Occurrence.after =
      (p.occurrencesFrom back' s).map Occurrence.after := by
  induction hn : s.length using Nat.strongRecOn generalizing s back back' with
  | ind n ih =>
    subst hn
    cases s with
    | nil => rw [occurrencesFrom, occurrencesFrom]
    | cons c s =>
      have hnext : ((c :: back).head?.any isWord) = (c :: back').head?.any isWord := rfl
      by_cases hskip : back.head?.any isWord = true ∨ p.span? (c :: s) = none
      · rw [occurrencesFrom_cons hskip, occurrencesFrom_cons (h ▸ hskip)]
        exact ih s.length (by simp) hnext rfl
      · obtain ⟨hback, hsome⟩ := not_or.1 hskip
        obtain ⟨m, hspan⟩ := Option.ne_none_iff_exists'.1 hsome
        rw [occurrencesFrom_of_span back (by simpa using hback) hspan,
          occurrencesFrom_of_span back' (by simpa [h] using hback) hspan, List.map_cons,
          List.map_cons, List.cons.injEq]
        refine ⟨rfl, ih _ (p.drop_shorter hspan) ?_ rfl⟩
        -- behind a piece, which has a character, nothing else counts
        have hne : ((c :: s).take m).reverse ≠ [] := by
          have := p.span_pos hspan
          exact List.ne_nil_of_length_pos (by simp; omega)
        obtain ⟨d, ds, hd⟩ := List.exists_cons_of_ne_nil hne
        rw [hd]
        rfl

/-- Where there is a place, the search finds the first. -/
theorem exists_first {front tail : Text} (h : p.FitsAt (front.reverse ++ back) tail) :
    ∃ before rest n, front ++ tail = before ++ rest ∧ p.FitsAt (before.reverse ++ back) rest ∧
      p.span? rest = some n ∧ before.length ≤ front.length ∧
      (p.occurrencesFrom back (front ++ tail)).head? =
        some ⟨before.reverse ++ back, rest.take n, rest.drop n⟩ := by
  induction front generalizing back with
  | nil =>
    obtain ⟨n, hn⟩ := Option.isSome_iff_exists.1 h.2
    refine ⟨[], tail, n, rfl, h, hn, Nat.le_refl 0, ?_⟩
    rw [List.nil_append, occurrencesFrom_of_span back h.1 hn]
    rfl
  | cons c front ih =>
    rw [List.cons_append]
    by_cases hskip : back.head?.any isWord = true ∨ p.span? (c :: (front ++ tail)) = none
    · have hrev : ∀ t : Text, (c :: t).reverse ++ back = t.reverse ++ c :: back := by simp
      obtain ⟨before, rest, n, heq, hfits, hn, hle, hhead⟩ := ih (hrev front ▸ h)
      refine ⟨c :: before, rest, n, by rw [heq, List.cons_append], hrev before ▸ hfits, hn,
        Nat.succ_le_succ hle, ?_⟩
      rw [occurrencesFrom_cons hskip, hhead, hrev]
    · obtain ⟨hback, hsome⟩ := not_or.1 hskip
      obtain ⟨n, hn⟩ := Option.ne_none_iff_exists'.1 hsome
      have hback' : back.head?.any isWord = false := by simpa using hback
      refine ⟨[], c :: (front ++ tail), n, rfl, ⟨hback', ?_⟩, hn, Nat.zero_le _, ?_⟩
      · rw [hn]
        rfl
      · rw [occurrencesFrom_of_span back hback' hn]
        rfl

theorem fitsAt_of_mem_occurrencesFrom {o : Occurrence} (h : o ∈ p.occurrencesFrom back s) :
    p.FitsAt o.back (o.found ++ o.after) := by
  refine ⟨?_, Option.isSome_of_eq_some (span?_of_mem_occurrencesFrom h)⟩
  fun_induction p.occurrencesFrom back s with
  | case1 => cases h
  | case2 _ _ _ _ ih => exact ih h
  | case3 back c s hword n hn found after ih =>
    rcases List.mem_cons.1 h with rfl | h
    · simpa using hword
    · exact ih h
  | case4 _ _ _ _ _ ih => exact ih h

/-- A search finds nothing only where there is no place. -/
theorem occurrencesFrom_eq_nil_iff :
    p.occurrencesFrom back s = [] ↔
      ∀ front tail, s = front ++ tail → ¬ p.FitsAt (front.reverse ++ back) tail := by
  constructor
  · rintro h front tail rfl hfits
    obtain ⟨_, _, _, -, -, -, -, hhead⟩ := exists_first hfits
    rw [h] at hhead
    cases hhead
  · intro h
    rw [List.eq_nil_iff_forall_not_mem]
    intro o ho
    obtain ⟨front, hback, rfl⟩ := before_of_mem_occurrencesFrom ho
    exact h front _ rfl (hback ▸ fitsAt_of_mem_occurrencesFrom ho)

end Pattern

end DocTypes
