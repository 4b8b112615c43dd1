/-
  Wrapped texts. A line that is broken ends at the last place to break within the width
  (`lastBreak?_eq_findSome?`), so it is no longer than the width, and what is left out between two
  lines is blank (`exists_break`). From this one step the lines of a text are bounded
  (`length_le_of_mem_wrapLines`) and make up the text with blanks in between
  (`dividesInto_wrapLines`), by induction along the breaks (`wrapLines_induction`). Each line is a
  part of the text (`infix_of_mem_wrap`).
-/
import DocTypes.Declaration.Wrap
import DocTypes.Proofs.Text.Lines

namespace DocTypes.Declaration

open Text

/-! ## Places to break -/

/-- The break at the character `c` in the given place: the space is left out, the hyphen kept if
there is room for it. -/
def breakPlace? (width place : Nat) (c : Char) : Option (Nat × Nat) :=
  if c = ' ' then some (place, place + 1)
  else if c = '-' ∧ place < width then some (place + 1, place + 1)
  else none

theorem lastBreak?_cons (width pos : Nat) (c : Char) (s : Text) :
    lastBreak? width pos (c :: s) =
      if width < pos then none
      else (lastBreak? width (pos + 1) s).or (if pos = 0 then none else breakPlace? width pos c) :=
  rfl

/-- The places are tried from the last one within the width back to the given one. -/
theorem lastBreak?_drop (width : Nat) {pos : Nat} (hpos : 0 < pos) (s : Text) :
    lastBreak? width pos (s.drop pos) =
      (List.range' pos (width + 1 - pos)).reverse.findSome? fun place =>
        (s[place]?).bind (breakPlace? width place) := by
  induction hs : s.drop pos generalizing pos with
  | nil =>
    rw [lastBreak?, eq_comm, List.findSome?_eq_none_iff]
    intro place hplace
    have hlow := (List.mem_range'_1.1 (List.mem_reverse.1 hplace)).1
    have hlen := List.drop_eq_nil_iff.1 hs
    rw [List.getElem?_eq_none (by omega), Option.bind_none]
  | cons c rest ih =>
    have hc : s[pos]? = some c := by rw [← List.head?_drop, hs, List.head?_cons]
    have hrest : s.drop (pos + 1) = rest := by rw [← List.tail_drop, hs, List.tail_cons]
    rw [lastBreak?_cons, ih (Nat.succ_pos pos) hrest, if_neg (Nat.ne_of_gt hpos)]
    split
    · next hlt =>
      rw [Nat.sub_eq_zero_of_le hlt]
      rfl
    · next hle =>
      have hcount : width + 1 - pos = width + 1 - (pos + 1) + 1 := by omega
      rw [hcount, List.range'_succ, List.reverse_cons, List.findSome?_append,
        List.findSome?_singleton, hc, Option.bind_some]

/-- The places behind the first character are tried from the last one within the width back. -/
theorem lastBreak?_eq_findSome? (width : Nat) (s : Text) :
    lastBreak? width 0 s = (List.range' 1 width).reverse.findSome? fun place =>
      (s[place]?).bind (breakPlace? width place) := by
  have hdrop := lastBreak?_drop width Nat.one_pos s
  rw [Nat.add_sub_cancel] at hdrop
  cases s with
  | nil => exact hdrop
  | cons c s =>
    rw [lastBreak?_cons, if_neg (Nat.not_lt_zero width), if_pos rfl, Option.or_none]
    exact hdrop

/-- A text is broken at the last of its places within the width, or where it has none, at the
width. -/
theorem breakAt_cases (width : Nat) (s : Text) :
    (∃ place c, 0 < place ∧ place ≤ width ∧ s[place]? = some c ∧
      breakPlace? width place c = some (breakAt width s) ∧
        ∀ later, place < later → later ≤ width →
          (s[later]?).bind (breakPlace? width later) = none) ∨
      (breakAt width s = (width, width) ∧
        ∀ place, 0 < place → place ≤ width →
          (s[place]?).bind (breakPlace? width place) = none) := by
  unfold breakAt
  cases hb : lastBreak? width 0 s with
  | none =>
    refine Or.inr ⟨rfl, fun place hpos hle => ?_⟩
    rw [lastBreak?_eq_findSome?, List.findSome?_eq_none_iff] at hb
    exact hb place (List.mem_reverse.2 (List.mem_range'_1.2 (by omega)))
  | some b =>
    rw [lastBreak?_eq_findSome?, List.findSome?_eq_some_iff] at hb
    obtain ⟨later, place, earlier, hplaces, hplace, hnone⟩ := hb
    obtain ⟨c, hc, hbreak⟩ := Option.bind_eq_some_iff.1 hplace
    have hmem : ∀ k, k ∈ later ++ place :: earlier ↔ 0 < k ∧ k ≤ width := by
      intro k
      rw [← hplaces, List.mem_reverse, List.mem_range'_1]
      omega
    obtain ⟨hpos, hle⟩ := (hmem place).1 (by simp)
    refine Or.inl ⟨place, c, hpos, hle, hc, hbreak, fun k hk hkle => hnone k ?_⟩
    -- the places stand in falling order, so the greater ones have been tried before
    have hsorted : (later ++ place :: earlier).Pairwise (· > ·) := by
      rw [← hplaces, List.pairwise_reverse]
      exact List.pairwise_lt_range'
    have hearlier := (List.pairwise_cons.1 (List.pairwise_append.1 hsorted).2.1).1
    have hk' := (hmem k).2 ⟨by omega, hkle⟩
    rw [List.mem_append, List.mem_cons] at hk'
    rcases hk' with hk' | rfl | hk'
    · exact hk'
    · exact absurd hk (Nat.lt_irrefl k)
    · exact absurd (hearlier k hk') (by omega)

section Break

variable {width : Nat} {s : Text}

theorem breakAt_bounds (hw : 0 < width) (s : Text) :
    0 < (breakAt width s).1 ∧ (breakAt width s).1 ≤ width ∧
      ((breakAt width s).2 = (breakAt width s).1 ∨
        (breakAt width s).2 = (breakAt width s).1 + 1 ∧ s[(breakAt width s).1]? = some ' ') := by
  rcases breakAt_cases width s with ⟨place, c, hpos, hle, hc, hbreak, -⟩ | ⟨hnone, -⟩
  · unfold breakPlace? at hbreak
    split at hbreak
    · next hspace =>
      rw [← Option.some.inj hbreak]
      exact ⟨hpos, hle, Or.inr ⟨rfl, hspace ▸ hc⟩⟩
    · split at hbreak
      · next hhyphen =>
        rw [← Option.some.inj hbreak]
        exact ⟨Nat.succ_pos place, hhyphen.2, Or.inl rfl⟩
      · cases hbreak
  · rw [hnone]
    exact ⟨hw, Nat.le_refl width, Or.inl rfl⟩

/-! ## One step of wrapping -/

/-- The first line of a text that is longer than the width. -/
def firstLine (width : Nat) (s : Text) : Text := trimEnd (s.take (breakAt width s).1)

/-- What is left for the lines behind the first. -/
def remainder (width : Nat) (s : Text) : Text :=
  (s.drop (breakAt width s).2).dropWhile (· == ' ')

theorem wrapLines_nil (hw : 0 < width) : wrapLines width hw [] = [] := by
  rw [wrapLines, if_pos rfl]

theorem wrapLines_of_le (hw : 0 < width) (hne : s ≠ []) (h : s.length ≤ width) :
    wrapLines width hw s = [s] := by
  rw [wrapLines, if_neg hne, if_pos h]

theorem wrapLines_of_lt (hw : 0 < width) (h : width < s.length) :
    wrapLines width hw s = firstLine width s :: wrapLines width hw (remainder width s) := by
  have hne : s ≠ [] := List.length_pos_iff.1 (by omega)
  rw [wrapLines, if_neg hne, if_neg (Nat.not_le.2 h)]
  rfl

theorem firstLine_isPrefix (width : Nat) (s : Text) : firstLine width s <+: s :=
  (trimEnd_isPrefix _).trans (List.take_prefix _ s)

theorem remainder_suffix (width : Nat) (s : Text) : remainder width s <:+ s :=
  (List.dropWhile_suffix _).trans (List.drop_suffix _ s)

/-- What is left out between the first line and the rest is blank. -/
theorem exists_break (hw : 0 < width) (s : Text) : ∃ gap, (∀ c ∈ gap, isBlank c = true) ∧
    s = firstLine width s ++ (gap ++ remainder width s) := by
  obtain ⟨back, hline, hback⟩ := trimEnd_append_blanks (s.take (breakAt width s).1)
  obtain ⟨space, hspace, hs⟩ : ∃ space : Text, (∀ c ∈ space, isBlank c = true) ∧
      s.take (breakAt width s).1 ++ (space ++ s.drop (breakAt width s).2) = s := by
    rcases (breakAt_bounds hw s).2.2 with hnext | ⟨hnext, hc⟩
    · exact ⟨[], by simp, by rw [hnext, List.nil_append, List.take_append_drop]⟩
    · obtain ⟨hlt, hc⟩ := List.getElem?_eq_some_iff.1 hc
      refine ⟨[' '], by simp [isBlank], ?_⟩
      rw [hnext, List.singleton_append, ← hc, ← List.drop_eq_getElem_cons hlt,
        List.take_append_drop]
  have hspaces := List.takeWhile_append_dropWhile (p := (· == ' '))
    (l := s.drop (breakAt width s).2)
  refine ⟨back ++ (space ++ (s.drop (breakAt width s).2).takeWhile (· == ' ')), ?_, ?_⟩
  · intro c hc
    rcases List.mem_append.1 hc with hc | hc
    · exact hback c hc
    · rcases List.mem_append.1 hc with hc | hc
      · exact hspace c hc
      · have hc' := List.all_eq_true.1 (List.all_takeWhile (p := (· == ' '))) c hc
        rw [beq_iff_eq.1 hc']
        rfl
  · calc s = s.take (breakAt width s).1 ++ (space ++ s.drop (breakAt width s).2) := hs.symm
      _ = firstLine width s ++ (back ++ (space ++ s.drop (breakAt width s).2)) := by
          conv => lhs; rw [hline, List.append_assoc]
          rfl
      _ = _ := by
          conv => lhs; rw [← hspaces]
          simp only [List.append_assoc]
          rfl

theorem length_firstLine_le (hw : 0 < width) (s : Text) : (firstLine width s).length ≤ width := by
  have hend := trimEnd_length_le (s.take (breakAt width s).1)
  have hle := (breakAt_bounds hw s).2.1
  rw [List.length_take] at hend
  exact Nat.le_trans hend (by omega)

theorem length_remainder_lt (hw : 0 < width) (hne : s ≠ []) :
    (remainder width s).length < s.length := by
  have hle := (List.dropWhile_suffix (l := s.drop (breakAt width s).2) (· == ' ')).length_le
  have hpos := breakAt_pos s hw
  have hlen := List.length_pos_iff.2 hne
  rw [List.length_drop] at hle
  exact Nat.lt_of_le_of_lt hle (by omega)

/-! ## The lines of a text -/

/-- Induction along the breaks of a text. -/
theorem wrapLines_induction (hw : 0 < width) {motive : Text → Prop} (nil : motive [])
    (fits : ∀ s, s ≠ [] → s.length ≤ width → motive s)
    (breaks : ∀ s, width < s.length → motive (remainder width s) → motive s) (s : Text) :
    motive s := by
  induction hn : s.length using Nat.strongRecOn generalizing s with
  | ind n ih =>
    subst hn
    by_cases hne : s = []
    · exact hne ▸ nil
    · by_cases hle : s.length ≤ width
      · exact fits s hne hle
      · exact breaks s (Nat.not_le.1 hle) (ih _ (length_remainder_lt hw hne) _ rfl)

theorem length_le_of_mem_wrapLines (hw : 0 < width) (s : Text) :
    ∀ l ∈ wrapLines width hw s, l.length ≤ width := by
  induction s using wrapLines_induction hw with
  | nil => rw [wrapLines_nil]; simp
  | fits s hne hle => rwa [wrapLines_of_le hw hne hle, List.forall_mem_singleton]
  | breaks s hlt ih =>
    rw [wrapLines_of_lt hw hlt]
    exact List.forall_mem_cons.2 ⟨length_firstLine_le hw s, ih⟩

/-- The text is the lines in order, with blanks or nothing in between. -/
inductive DividesInto : Text → List Text → Prop
  | last (l : Text) : DividesInto l [l]
  | cons (l : Text) {gap s : Text} {ls : List Text} (hgap : ∀ c ∈ gap, isBlank c = true)
    (h : DividesInto s ls) : DividesInto (l ++ (gap ++ s)) (l :: ls)

/-- Something is left behind the first line of a text that does not end with a blank. -/
theorem remainder_ne_nil (hw : 0 < width) (hlt : width < s.length)
    (hlast : ∀ c ∈ s.getLast?, isBlank c = false) : remainder width s ≠ [] := by
  intro hnil
  obtain ⟨gap, hgap, hs⟩ := exists_break hw s
  rw [hnil, List.append_nil] at hs
  have hline := length_firstLine_le hw s
  cases hc : gap.getLast? with
  | none =>
    have hlen := congrArg List.length hs
    rw [List.getLast?_eq_none_iff.1 hc, List.append_nil] at hlen
    omega
  | some c =>
    have hmem : c ∈ s.getLast? := by
      rw [hs, List.getLast?_append, hc]
      rfl
    have hblank := hgap c (List.mem_of_mem_getLast? hc)
    rw [hlast c hmem] at hblank
    cases hblank

theorem getLast?_of_suffix {t : Text} (h : t <:+ s) (hne : t ≠ []) : t.getLast? = s.getLast? := by
  obtain ⟨front, rfl⟩ := h
  rw [List.getLast?_append, List.getLast?_eq_some_getLast hne, Option.some_or]

/-- Nothing but blanks is left out of a text that does not end with a blank. -/
theorem dividesInto_wrapLines (hw : 0 < width) (hne : s ≠ [])
    (hlast : ∀ c ∈ s.getLast?, isBlank c = false) : DividesInto s (wrapLines width hw s) := by
  induction s using wrapLines_induction hw with
  | nil => exact absurd rfl hne
  | fits s hne hle =>
    rw [wrapLines_of_le hw hne hle]
    exact .last s
  | breaks s hlt ih =>
    obtain ⟨gap, hgap, hs⟩ := exists_break hw s
    have hrest := remainder_ne_nil hw hlt hlast
    have hlast' : ∀ c ∈ (remainder width s).getLast?, isBlank c = false := by
      rwa [getLast?_of_suffix (remainder_suffix width s) hrest]
    rw [wrapLines_of_lt hw hlt]
    conv => arg 1; rw [hs]
    exact .cons _ hgap (ih hrest hlast')

theorem infix_of_mem_wrapLines (hw : 0 < width) (s : Text) :
    ∀ l ∈ wrapLines width hw s, l <:+: s := by
  induction s using wrapLines_induction hw with
  | nil => rw [wrapLines_nil]; simp
  | fits s hne hle =>
    rw [wrapLines_of_le hw hne hle]
    exact List.forall_mem_singleton.2 (List.infix_refl s)
  | breaks s hlt ih =>
    rw [wrapLines_of_lt hw hlt]
    exact List.forall_mem_cons.2 ⟨(firstLine_isPrefix width s).isInfix,
      fun l hl => (ih l hl).trans (remainder_suffix width s).isInfix⟩

/-- Where spaces are the only blanks, no line is empty or starts or ends with a blank. -/
theorem ends_of_mem_wrapLines (hw : 0 < width) (hspace : ∀ c ∈ s, isBlank c = true → c = ' ')
    (hhead : ∀ c ∈ s.head?, isBlank c = false) (hlast : ∀ c ∈ s.getLast?, isBlank c = false) :
    ∀ l ∈ wrapLines width hw s, l ≠ [] ∧ (∀ c ∈ l.head?, isBlank c = false) ∧
      ∀ c ∈ l.getLast?, isBlank c = false := by
  induction s using wrapLines_induction hw with
  | nil => rw [wrapLines_nil]; simp
  | fits s hne hle =>
    rw [wrapLines_of_le hw hne hle, List.forall_mem_singleton]
    exact ⟨hne, hhead, hlast⟩
  | breaks s hlt ih =>
    rw [wrapLines_of_lt hw hlt]
    refine List.forall_mem_cons.2 ⟨?_, ih ?_ ?_ ?_⟩
    · -- the first line has at least the first character, which is no blank
      obtain ⟨c, s, rfl⟩ := List.exists_cons_of_length_pos (Nat.zero_lt_of_lt hlt)
      obtain ⟨n, hn⟩ := Nat.exists_eq_succ_of_ne_zero
        (Nat.ne_of_gt (breakAt_bounds hw (c :: s)).1)
      have hc : isBlank c = false := hhead c rfl
      have hline : firstLine width (c :: s) = c :: trimEnd (s.take n) := by
        rw [firstLine, hn, List.take_succ_cons]
        exact trimEnd_append (w := [c]) (by simp) (by rintro _ ⟨⟩; exact hc) _
      exact ⟨by simp [hline], by rw [hline]; rintro _ ⟨⟩; exact hc, fun _ => getLast?_trimEnd⟩
    · exact fun c hc => hspace c ((remainder_suffix width s).mem hc)
    · intro c hc
      have hnot := List.head?_dropWhile_not (· == ' ') (s.drop (breakAt width s).2)
      rw [← remainder, Option.mem_def.1 hc] at hnot
      have hne : c ≠ ' ' := by simpa using hnot
      refine Bool.eq_false_iff.2 fun hb => hne (hspace c ?_ hb)
      exact (remainder_suffix width s).mem (List.mem_of_mem_head? hc)
    · intro c hc
      have hne := List.ne_nil_of_mem (List.mem_of_mem_getLast? hc)
      exact hlast c (getLast?_of_suffix (remainder_suffix width s) hne ▸ hc)

end Break

/-! ## The lines of a trimmed text -/

section Wrap

variable {width : Nat}

theorem wrap_of_ne_nil (hw : 0 < width) {s : Text} (hne : trim s ≠ []) :
    wrap width s = wrapLines width hw (trim s) := by
  have hempty : ¬ (trim s).isEmpty := by simpa using hne
  rw [wrap, dif_pos hw, if_neg hempty]

theorem wrap_of_nil {s : Text} (h : trim s = []) : wrap width s = [[]] := by
  unfold wrap
  rw [h]
  split <;> rfl

/-- A trimmed text that fits is its only line. -/
theorem wrap_of_le (hw : 0 < width) {s : Text} (hne : s ≠ []) (htrim : trim s = s)
    (hle : s.length ≤ width) : wrap width s = [s] := by
  rw [wrap_of_ne_nil hw (by rwa [htrim]), htrim, wrapLines_of_le hw hne hle]

end Wrap

/-- The lines of a wrapped text are parts of it. -/
theorem infix_of_mem_wrap (width : Nat) (s : Text) : ∀ l ∈ wrap width s, l <:+: s := by
  intro l hl
  unfold wrap at hl
  dsimp only at hl
  split at hl
  · split at hl
    · rw [List.mem_singleton.1 hl]
      exact trim_isInfix s
    · next hw _ => exact (infix_of_mem_wrapLines hw (trim s) l hl).trans (trim_isInfix s)
  · rw [List.mem_singleton.1 hl]
    exact trim_isInfix s

theorem length_le_of_mem_wrap {width : Nat} (hw : 0 < width) (s : Text) :
    ∀ l ∈ wrap width s, l.length ≤ width := by
  by_cases hne : trim s = []
  · rw [wrap_of_nil hne, List.forall_mem_singleton]
    exact Nat.zero_le width
  · rw [wrap_of_ne_nil hw hne]
    exact length_le_of_mem_wrapLines hw (trim s)

end DocTypes.Declaration
