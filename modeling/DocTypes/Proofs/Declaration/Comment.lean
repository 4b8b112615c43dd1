/-
  Comments end once. The escape leaves no end of a comment in a paragraph
  (`not_infix_escapeEnd`), and the lines of a comment are parts of escaped paragraphs behind a
  margin that ends with a space (`mem_paragraphLines`), so none of them holds one. As the mark has
  no newline in it, it stands within a line (`exists_behind_line`): the last, which is nothing but
  the mark behind a space (`eq_newline_of_endMark`). The room for a paragraph is the width less the
  margin, or a single character where the width leaves none.
-/
import DocTypes.Declaration.Layout
import DocTypes.Proofs.Declaration.Wrap

namespace DocTypes.Declaration

open Text

/-! ## Escaped paragraphs -/

/-- The mark that ends a comment. -/
def endMark : Text := "*/".toList

theorem escapeEnd_cons {c : Char} {s : Text} (h : ∀ t, c = '*' → s = '/' :: t → False) :
    escapeEnd (c :: s) = c :: escapeEnd s := by
  rw [escapeEnd]
  exact h

theorem head?_escapeEnd (s : Text) : (escapeEnd s).head? = s.head? := by
  induction s using escapeEnd.induct with
  | case1 => rfl
  | case2 s => rfl
  | case3 c s hne => rw [escapeEnd_cons hne, List.head?_cons, List.head?_cons]

theorem notMem_escapeEnd {c : Char} (hc : c ≠ '\\') {s : Text} (h : c ∉ s) :
    c ∉ escapeEnd s := by
  induction s using escapeEnd.induct with
  | case1 => exact h
  | case2 s ih =>
    rw [List.mem_cons, List.mem_cons, not_or, not_or] at h
    have hrest := ih h.2.2
    simp only [escapeEnd, List.mem_append, not_or]
    refine ⟨?_, hrest⟩
    show c ∉ ['*', '\\', '/']
    simp [h.1, hc, h.2.1]
  | case3 d s hne ih =>
    rw [List.mem_cons, not_or] at h
    rw [escapeEnd, List.mem_cons, not_or]
    · exact ⟨h.1, ih h.2⟩
    · exact hne

theorem not_infix_escapeEnd (s : Text) : ¬ endMark <:+: escapeEnd s := by
  induction s using escapeEnd.induct with
  | case1 => decide
  | case2 s ih =>
    show ¬ endMark <:+: '*' :: '\\' :: '/' :: escapeEnd s
    simpa [endMark, List.infix_cons_iff] using ih
  | case3 c s hne ih =>
    rw [escapeEnd_cons hne, List.infix_cons_iff, not_or]
    refine ⟨fun hprefix => ?_, ih⟩
    -- the mark would have been there before the escape
    obtain ⟨hc, hslash⟩ := List.cons_prefix_cons.1 hprefix
    obtain ⟨u, hu⟩ := hslash
    have hhead : s.head? = some '/' := by
      rw [← head?_escapeEnd, ← hu]
      rfl
    obtain ⟨t, ht⟩ := List.head?_eq_some_iff.1 hhead
    exact hne t hc.symm ht

/-! ## Lines -/

/-- The lines of a paragraph are parts of it behind the margin, which fit into the room. -/
theorem mem_paragraphLines {room : Nat} (hroom : 0 < room) {paragraph l : Text}
    (h : l ∈ paragraphLines room paragraph) : l = " *".toList ∨ ∃ w, l = commentMargin ++ w ∧
      w <:+: escapeEnd paragraph ∧ w.length ≤ room := by
  unfold paragraphLines at h
  split at h
  · exact Or.inl (List.mem_singleton.1 h)
  · obtain ⟨w, hw, rfl⟩ := List.mem_map.1 h
    exact Or.inr ⟨w, rfl, infix_of_mem_wrap room _ w hw, length_le_of_mem_wrap hroom _ w hw⟩

theorem not_infix_paragraphLines {room : Nat} (hroom : 0 < room) {paragraph l : Text}
    (h : l ∈ paragraphLines room paragraph) : ¬ endMark <:+: l := by
  rcases mem_paragraphLines hroom h with rfl | ⟨w, rfl, hw, -⟩
  · decide
  · have hrest : ¬ endMark <:+: w := fun hmark => not_infix_escapeEnd paragraph (hmark.trans hw)
    show ¬ endMark <:+: ' ' :: '*' :: ' ' :: w
    simpa [endMark, List.infix_cons_iff] using hrest

/-- A word without a newline that is not in a line is behind it. -/
theorem exists_behind_line {w l s front back : Text} (hne : w ≠ []) (hnewline : '\n' ∉ w)
    (hline : ¬ w <:+: l) (h : l ++ '\n' :: s = front ++ (w ++ back)) :
    ∃ later, s = later ++ (w ++ back) := by
  rcases List.append_eq_append_iff.1 h with ⟨c, -, hrest⟩ | ⟨c, hl, hrest⟩
  · cases c with
    | nil =>
      obtain ⟨d, w, rfl⟩ := List.exists_cons_of_ne_nil hne
      rw [← (List.cons.inj hrest).1] at hnewline
      exact absurd List.mem_cons_self hnewline
    | cons d later => exact ⟨later, (List.cons.inj hrest).2⟩
  · rcases List.append_eq_append_iff.1 hrest with ⟨d, hc, -⟩ | ⟨d, hw, hback⟩
    · exact absurd ⟨front, d, by rw [hl, hc, List.append_assoc]⟩ hline
    · cases d with
      | nil =>
        rw [List.append_nil] at hw
        exact absurd ⟨front, [], by rw [hl, hw, List.append_nil]⟩ hline
      | cons e d =>
        rw [hw, ← (List.cons.inj hback).1] at hnewline
        exact absurd (List.mem_append_right c List.mem_cons_self) hnewline

/-- Where lines have no end of a comment, and it stands on a line behind them, it ends the text. -/
theorem eq_newline_of_endMark {ls : List Text} (hls : ∀ l ∈ ls, ¬ endMark <:+: l)
    {front back : Text} (h : endLines (ls ++ [' ' :: endMark]) = front ++ (endMark ++ back)) :
    back = ['\n'] := by
  induction ls generalizing front with
  | nil =>
    -- only the second of the four characters opens the mark
    rcases front with _ | ⟨c, _ | ⟨d, _ | ⟨e, front⟩⟩⟩
    · cases h
    · exact (List.cons.inj (List.cons.inj (List.cons.inj h).2).2).2.symm
    · cases h
    · have hlength := congrArg List.length h
      simp [endLines, endMark] at hlength
      omega
  | cons l ls ih =>
    obtain ⟨hl, hls⟩ := List.forall_mem_cons.1 hls
    have hlines : l ++ '\n' :: endLines (ls ++ [' ' :: endMark]) = front ++ (endMark ++ back) := by
      rw [← h]
      simp [endLines]
    obtain ⟨later, hlater⟩ := exists_behind_line (by decide) (by decide) hl hlines
    exact ih hls hlater

/-- What stands between two newlines stands on one of the lines, or is empty. -/
theorem mem_splitOn_endLines {ls : List Text} {piece : Text}
    (h : piece ∈ splitOn '\n' (endLines ls)) : piece = [] ∨ ∃ l ∈ ls, piece <:+: l := by
  induction ls with
  | nil => exact Or.inl (List.mem_singleton.1 h)
  | cons l ls ih =>
    rw [endLines, List.flatMap_cons, List.append_assoc, List.singleton_append, splitOn_append,
      List.mem_append] at h
    rcases h with h | h
    · exact Or.inr ⟨l, List.mem_cons_self, infix_of_mem_splitOn h⟩
    · exact (ih h).imp_right fun ⟨k, hk, hpiece⟩ => ⟨k, List.mem_cons_of_mem l hk, hpiece⟩

/-! ## Comments -/

/-- How many characters of a paragraph a line has room for. -/
def room (width : Nat) : Nat := max (width - commentMargin.length) 1

theorem room_pos (width : Nat) : 0 < room width :=
  Nat.lt_of_lt_of_le Nat.one_pos (Nat.le_max_right _ 1)

/-- The lines between the first and the last of a comment. -/
def bodyLines (width : Nat) (paragraphs : List Text) : List Text :=
  paragraphs.flatMap (paragraphLines (room width))

theorem all_isEmpty_trim_iff {paragraphs : List Text} :
    (paragraphs.all fun p => (trim p).isEmpty) = true ↔
      ∀ p ∈ paragraphs, ∀ c ∈ p, isBlank c = true := by
  simp only [List.all_eq_true, List.isEmpty_iff, trim_eq_nil_iff]

theorem comment_of_blank {paragraphs : List Text}
    (h : ∀ p ∈ paragraphs, ∀ c ∈ p, isBlank c = true) (width : Nat) :
    comment width paragraphs = [] :=
  if_pos (all_isEmpty_trim_iff.2 h)

theorem comment_of_nonblank {paragraphs : List Text}
    (h : ¬ ∀ p ∈ paragraphs, ∀ c ∈ p, isBlank c = true) (width : Nat) :
    comment width paragraphs =
      endLines ("/**".toList :: bodyLines width paragraphs ++ [" */".toList]) :=
  if_neg fun hall => h (all_isEmpty_trim_iff.1 hall)

theorem not_infix_bodyLines {width : Nat} {paragraphs : List Text} :
    ∀ l ∈ bodyLines width paragraphs, ¬ endMark <:+: l := by
  intro l hl
  obtain ⟨p, -, hl⟩ := List.mem_flatMap.1 hl
  exact not_infix_paragraphLines (room_pos width) hl

/-- Every line of a comment fits into the width, or into four characters. -/
theorem length_line_le {width : Nat} {paragraphs : List Text} :
    ∀ l ∈ "/**".toList :: bodyLines width paragraphs ++ [" */".toList],
      l.length ≤ max width 4 := by
  have hmargin : commentMargin.length = 3 := rfl
  intro l hl
  rcases List.mem_append.1 hl with hl | hl
  · rcases List.mem_cons.1 hl with rfl | hl
    · show 3 ≤ max width 4
      omega
    · obtain ⟨p, -, hl⟩ := List.mem_flatMap.1 hl
      rcases mem_paragraphLines (room_pos width) hl with rfl | ⟨w, rfl, -, hw⟩
      · show 2 ≤ max width 4
        omega
      · rw [List.length_append, hmargin]
        unfold room at hw
        omega
  · rw [List.mem_singleton.1 hl]
    show 3 ≤ max width 4
    omega

/-- **Main theorem.** The comment of a description is empty where all of its paragraphs are blank.
Otherwise it opens as a comment does and ends with the end of a comment, which stands nowhere else
in it. None of its lines is longer than the width, or than four characters where the width is
smaller. -/
theorem comment_ends_once (width : Nat) (paragraphs : List Text) :
    (comment width paragraphs = [] ∧ (∀ p ∈ paragraphs, ∀ c ∈ p, isBlank c = true) ∨
      (∃ p ∈ paragraphs, ∃ c ∈ p, isBlank c = false) ∧
        ∃ body, comment width paragraphs = "/**".toList ++ body ++ " */\n".toList ∧
          ∀ front back, comment width paragraphs = front ++ ("*/".toList ++ back) ↔
            front = "/**".toList ++ body ++ [' '] ∧ back = ['\n']) ∧
      ∀ l ∈ splitOn '\n' (comment width paragraphs), l.length ≤ max width 4 := by
  by_cases hblank : ∀ p ∈ paragraphs, ∀ c ∈ p, isBlank c = true
  · have hnil := comment_of_blank hblank width
    refine ⟨Or.inl ⟨hnil, hblank⟩, ?_⟩
    rw [hnil]
    simp [splitOn]
  · have hlines := comment_of_nonblank hblank width
    refine ⟨Or.inr ⟨by simpa using hblank, ?_⟩, ?_⟩
    · let body := '\n' :: endLines (bodyLines width paragraphs)
      have hbody : comment width paragraphs = "/**".toList ++ body ++ " */\n".toList := by
        rw [hlines]
        simp [endLines, body]
      have hmarks : ∀ l ∈ "/**".toList :: bodyLines width paragraphs, ¬ endMark <:+: l :=
        List.forall_mem_cons.2 ⟨by decide, not_infix_bodyLines⟩
      refine ⟨body, hbody, fun front back => ⟨fun h => ?_, ?_⟩⟩
      · obtain rfl : back = ['\n'] := eq_newline_of_endMark hmarks (hlines.symm.trans h)
        refine ⟨List.append_cancel_right (h.symm.trans ?_), rfl⟩
        rw [hbody]
        simp
      · rintro ⟨rfl, rfl⟩
        rw [hbody]
        simp
    · intro l hl
      rw [hlines] at hl
      rcases mem_splitOn_endLines hl with rfl | ⟨k, hk, hlk⟩
      · exact Nat.zero_le _
      · exact Nat.le_trans hlk.length_le (length_line_le k hk)

-- the escaped mark is cut where its slash comes to stand first on a line
example : comment 6 ["a*/b".toList] = "/**\n * a*\\\n * /b\n */\n".toList := by cbv

end DocTypes.Declaration
