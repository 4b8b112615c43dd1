/-
  Plain text: single spaces between other characters are its only blanks. Trimming and collapsing
  leave it as it is, and names are plain.
-/
import DocTypes.Page.Block
import DocTypes.Proofs.Text.Lines
import DocTypes.Proofs.Text.Words

namespace DocTypes.Text

/-- A text whose blanks are single spaces between other characters. -/
structure IsPlain (t : Text) : Prop where
  space_of_blank : ∀ c ∈ t, isBlank c = true → c = ' '
  single : ¬ [' ', ' '] <:+: t
  head_ne : t.head? ≠ some ' '
  last_ne : t.getLast? ≠ some ' '

theorem isPlain_iff {t : Text} : IsPlain t ↔ (∀ c ∈ t, isBlank c = true → c = ' ') ∧
    ¬ occurs [' ', ' '] t = true ∧ t.head? ≠ some ' ' ∧ t.getLast? ≠ some ' ' := by
  rw [occurs_iff]
  exact ⟨fun h => ⟨h.space_of_blank, h.single, h.head_ne, h.last_ne⟩,
    fun ⟨hspace, hsingle, hhead, hlast⟩ => ⟨hspace, hsingle, hhead, hlast⟩⟩

instance : DecidablePred IsPlain := fun _ => decidable_of_iff' _ isPlain_iff

/-- A nonempty plain text. -/
structure PlainText where
  text : Text
  ne_nil : text ≠ []
  plain : IsPlain text

/-- An identifier. -/
structure Identifier where
  text : Text
  isIdentifier : DocTypes.isIdentifier text = true

/-! ## Plain text is trimmed and collapsed -/

namespace IsPlain

variable {t : Text}

theorem notMem (h : IsPlain t) {c : Char} (hc : isBlank c = true) (hs : c ≠ ' ') : c ∉ t :=
  fun hmem => hs (h.space_of_blank c hmem hc)

theorem isBlank_head (h : IsPlain t) : ∀ c ∈ t.head?, isBlank c = false := by
  intro c hc
  by_cases hb : isBlank c = true
  · have hs := h.space_of_blank c (List.mem_of_mem_head? hc) hb
    exact absurd (hs ▸ hc) h.head_ne
  · simpa using hb

theorem isBlank_last (h : IsPlain t) : ∀ c ∈ t.getLast?, isBlank c = false := by
  intro c hc
  by_cases hb : isBlank c = true
  · have hs := h.space_of_blank c (List.mem_of_mem_getLast? hc) hb
    exact absurd (hs ▸ hc) h.last_ne
  · simpa using hb

theorem trim_eq (h : IsPlain t) : trim t = t := trim_of_ends h.isBlank_head h.isBlank_last

end IsPlain

/-- What `collapse` writes one space for. -/
abbrev isGap (c : Char) : Bool := c == ' ' || c == '\t' || c == '\u00a0'

theorem isBlank_of_isGap {c : Char} (h : isGap c = true) : isBlank c = true := by
  simp only [isGap, Bool.or_eq_true, beq_iff_eq] at h
  rcases h with (rfl | rfl) | rfl <;> rfl

/-- A text with one space for each of its gaps; `collapse` trims it. -/
def squeeze (s : Text) : Text := (Pattern.many1 isGap).replace [' '] s

theorem collapse_eq_trim (s : Text) : Page.collapse s = trim (squeeze s) := rfl

@[simp] theorem squeeze_nil : squeeze [] = [] := Pattern.substitute_nil _ _

section Squeeze

variable {c : Char} {s : Text}

theorem squeeze_cons_of_gap (h : isGap c = true) :
    squeeze (c :: s) = ' ' :: squeeze (s.dropWhile isGap) := by
  have hspan : (Pattern.many1 isGap).span? (c :: s) = some (1 + (s.takeWhile isGap).length) := by
    simp [Pattern.many1, Pattern.followedBy, Tail.followedBy, Pattern.one, Tail.many, h]
  have hdrop : s.drop (s.takeWhile isGap).length = s.dropWhile isGap :=
    Option.some.inj (Tail.read_many isGap s)
  unfold squeeze Pattern.replace
  rw [Pattern.substitute_of_span _ _ hspan, Nat.add_comm, List.drop_succ_cons, hdrop]
  rfl

theorem squeeze_cons_of_not (h : isGap c = false) : squeeze (c :: s) = c :: squeeze s := by
  have hspan : (Pattern.many1 isGap).span? (c :: s) = none := by
    simp [Pattern.many1, Pattern.followedBy, Tail.followedBy, Pattern.one, h]
  exact Pattern.substitute_cons_of_none _ _ hspan

/-- Induction along the gaps of a text. -/
theorem gaps_induction {motive : Text → Prop} (nil : motive [])
    (gap : ∀ c s, isGap c = true → motive (s.dropWhile isGap) → motive (c :: s))
    (keep : ∀ c s, isGap c = false → motive s → motive (c :: s)) (s : Text) : motive s := by
  induction hn : s.length using Nat.strongRecOn generalizing s with
  | ind n ih =>
    subst hn
    cases s with
    | nil => exact nil
    | cons c s =>
      cases hc : isGap c with
      | true =>
        have hle := (List.dropWhile_suffix isGap (l := s)).length_le
        exact gap c s hc (ih _ (Nat.lt_succ_of_le hle) _ rfl)
      | false => exact keep c s hc (ih _ (Nat.lt_succ_self _) s rfl)

/-- Behind a gap no gap follows. -/
theorem head?_squeeze_dropWhile (s : Text) : (squeeze (s.dropWhile isGap)).head? ≠ some ' ' := by
  cases h : s.dropWhile isGap with
  | nil => simp
  | cons c t =>
    have hc : isGap c = false := by
      have := List.head?_dropWhile_not isGap s
      rwa [h] at this
    rw [squeeze_cons_of_not hc]
    rintro ⟨⟩
    cases hc

/-- A squeezed text has no gaps but single spaces. -/
theorem single_squeeze (s : Text) : ¬ [' ', ' '] <:+: squeeze s := by
  induction s using gaps_induction with
  | nil =>
    rw [squeeze_nil]
    decide
  | gap c s hc ih =>
    rw [squeeze_cons_of_gap hc, List.infix_cons_iff, List.cons_prefix_cons, not_or]
    refine ⟨fun ⟨_, t, ht⟩ => head?_squeeze_dropWhile s ?_, ih⟩
    rw [← ht]
    rfl
  | keep c s hc ih =>
    rw [squeeze_cons_of_not hc, List.infix_cons_iff, List.cons_prefix_cons, not_or]
    refine ⟨fun ⟨hspace, _⟩ => ?_, ih⟩
    rw [← hspace] at hc
    cases hc

theorem mem_squeeze (h : c ∈ squeeze s) : c = ' ' ∨ c ∈ s ∧ isGap c = false := by
  induction s using gaps_induction with
  | nil => exact absurd h (by simp)
  | gap d s hd ih =>
    rw [squeeze_cons_of_gap hd] at h
    rcases List.mem_cons.1 h with h | h
    · exact Or.inl h
    · exact (ih h).imp_right fun ⟨h, hc⟩ =>
        ⟨List.mem_cons_of_mem d ((List.dropWhile_suffix _).mem h), hc⟩
  | keep d s hd ih =>
    rw [squeeze_cons_of_not hd] at h
    rcases List.mem_cons.1 h with rfl | h
    · exact Or.inr ⟨List.mem_cons_self, hd⟩
    · exact (ih h).imp_right fun ⟨h, hc⟩ => ⟨List.mem_cons_of_mem d h, hc⟩

/-- Where all gaps are single spaces, squeezing changes nothing. -/
theorem squeeze_eq_self (hspace : ∀ c ∈ s, isBlank c = true → c = ' ')
    (hsingle : ¬ [' ', ' '] <:+: s) : squeeze s = s := by
  induction s with
  | nil => exact squeeze_nil
  | cons c s ih =>
    have hrest := ih (fun d hd => hspace d (List.mem_cons_of_mem c hd))
      fun h => hsingle (h.trans (List.suffix_cons c s).isInfix)
    cases hc : isGap c with
    | false => rw [squeeze_cons_of_not hc, hrest]
    | true =>
      have hcs : c = ' ' := hspace c List.mem_cons_self (isBlank_of_isGap hc)
      subst hcs
      -- the next character is no gap, so that the run has length one
      have hrun : s.dropWhile isGap = s := by
        cases s with
        | nil => rfl
        | cons d s =>
          refine List.dropWhile_cons_of_neg fun hd => hsingle ?_
          rw [hspace d (by simp) (isBlank_of_isGap hd)]
          exact ⟨[], s, rfl⟩
      rw [squeeze_cons_of_gap hc, hrun, hrest]

end Squeeze

theorem IsPlain.collapse_eq {t : Text} (h : IsPlain t) : Page.collapse t = t := by
  rw [collapse_eq_trim, squeeze_eq_self h.space_of_blank h.single, h.trim_eq]

/-! ## Spaces around a text -/

theorem collapse_cons_space (s : Text) : Page.collapse (' ' :: s) = Page.collapse s := by
  rw [collapse_eq_trim, squeeze_cons_of_gap rfl, trim_cons_of_blank rfl, collapse_eq_trim]
  cases s with
  | nil => rfl
  | cons c s =>
    cases hc : isGap c with
    | true =>
      rw [List.dropWhile_cons_of_pos hc, squeeze_cons_of_gap hc, trim_cons_of_blank rfl]
    | false => rw [List.dropWhile_cons_of_neg (by simp [hc])]

/-- A space behind a text belongs to its last gap, or it is one more gap. -/
theorem squeeze_concat_space (s : Text) :
    squeeze (s ++ [' ']) = squeeze s ∨ squeeze (s ++ [' ']) = squeeze s ++ [' '] := by
  induction s using gaps_induction with
  | nil => exact Or.inr (by rw [List.nil_append, squeeze_cons_of_gap rfl, List.dropWhile_nil, squeeze_nil]; rfl)
  | gap c s hc ih =>
    rw [List.cons_append, squeeze_cons_of_gap hc, squeeze_cons_of_gap hc, List.dropWhile_append]
    split
    · next hs => exact Or.inl (by rw [List.isEmpty_iff.1 hs]; rfl)
    · exact ih.imp (congrArg (' ' :: ·)) (congrArg (' ' :: ·))
  | keep c s hc ih =>
    rw [List.cons_append, squeeze_cons_of_not hc, squeeze_cons_of_not hc]
    exact ih.imp (congrArg (c :: ·)) (congrArg (c :: ·))

theorem collapse_concat_space (s : Text) : Page.collapse (s ++ [' ']) = Page.collapse s := by
  rw [collapse_eq_trim, collapse_eq_trim]
  rcases squeeze_concat_space s with h | h
  · rw [h]
  · rw [h, trim_concat_of_blank rfl]

/-- What a space at either end does not change, no number of spaces does. -/
theorem eq_of_padded {α : Type} {g : Text → α} (hcons : ∀ s, g (' ' :: s) = g s)
    (hconcat : ∀ s, g (s ++ [' ']) = g s) {front back : Text} (hfront : ∀ c ∈ front, c = ' ')
    (hback : ∀ c ∈ back, c = ' ') (s : Text) : g (front ++ (s ++ back)) = g s := by
  induction front with
  | nil =>
    induction back generalizing s with
    | nil => rw [List.append_nil]; rfl
    | cons c back ih =>
      have h := ih (fun d hd => hback d (List.mem_cons_of_mem c hd)) (s ++ [c])
      rw [List.append_assoc] at h
      rw [show c = ' ' from hback c List.mem_cons_self] at h ⊢
      exact h.trans (hconcat s)
  | cons c front ih =>
    rw [show c = ' ' from hfront c List.mem_cons_self, List.cons_append, hcons]
    exact ih fun d hd => hfront d (List.mem_cons_of_mem c hd)

/-- Plain text with spaces around it. -/
theorem IsPlain.collapse_padded {front t back : Text} (h : IsPlain t)
    (hfront : ∀ c ∈ front, c = ' ') (hback : ∀ c ∈ back, c = ' ') :
    Page.collapse (front ++ (t ++ back)) = t := by
  rw [eq_of_padded collapse_cons_space collapse_concat_space hfront hback, h.collapse_eq]

/-- Ended lines between spaces, where spaces at the ends of a line do not count. -/
theorem map_splitOn_padded {α β : Type} {g : Text → β} {xs : List α} {line : α → Text}
    {front back : Text} (hcons : ∀ s, g (' ' :: s) = g s) (hconcat : ∀ s, g (s ++ [' ']) = g s)
    (hfront : ∀ c ∈ front, c = ' ') (hback : ∀ c ∈ back, c = ' ')
    (hline : ∀ x ∈ xs, '\n' ∉ line x) :
    (splitOn '\n' (front ++ ((xs.flatMap fun x => line x ++ ['\n']) ++ back))).map g =
      (xs.map fun x => g (line x)) ++ [g []] := by
  have hlines : ∀ l ∈ xs.map line, '\n' ∉ l := by
    intro l hl
    obtain ⟨x, hx, rfl⟩ := List.mem_map.1 hl
    exact hline x hx
  have hended := splitOn_ended hlines
  rw [List.flatMap_map] at hended
  calc (splitOn '\n' (front ++ ((xs.flatMap fun x => line x ++ ['\n']) ++ back))).map g
      = (splitOn '\n' (xs.flatMap fun x => line x ++ ['\n'])).map g :=
        eq_of_padded (g := fun s => (splitOn '\n' s).map g) (map_splitOn_cons (by decide) hcons)
          (map_splitOn_concat (by decide) hconcat) hfront hback _
    _ = (xs.map fun x => g (line x)) ++ [g []] := by
        rw [hended, List.map_append, List.map_map, List.map_singleton]
        rfl

theorem isPlain_nil : IsPlain [] where
  space_of_blank := fun c hc => by cases hc
  single := by decide
  head_ne := by decide
  last_ne := by decide

/-! ## Names are plain -/

theorem isBlank_of_isNameChar {c : Char} (h : isNameChar c = true) : isBlank c = false := by
  have hlt := isNameChar_ascii h
  have hlow : 0x21 ≤ c.toNat := by
    rcases isNameChar_iff.1 h with ((h | h) | h) | rfl
    · omega
    · omega
    · omega
    · decide
  simp only [isBlank, Bool.or_eq_false_iff, Bool.and_eq_false_iff, beq_eq_false_iff_ne,
    decide_eq_false_iff_not]
  omega

namespace Identifier

theorem isNameChar_of_mem (n : Identifier) : ∀ c ∈ n.text, isNameChar c = true := by
  have h := n.isIdentifier
  cases hn : n.text with
  | nil => intro c hc; cases hc
  | cons d s =>
    rw [hn, DocTypes.isIdentifier, Bool.and_eq_true, Bool.or_eq_true, beq_iff_eq] at h
    intro c hc
    rcases List.mem_cons.1 hc with rfl | hc
    · rcases h.1 with hd | hd
      · simp [isNameChar, Char.isAlphanum, hd]
      · simp [isNameChar, hd]
    · exact List.all_eq_true.1 h.2 c hc

theorem ne_nil (n : Identifier) : n.text ≠ [] := by
  intro hnil
  have h := n.isIdentifier
  rw [hnil] at h
  cases h

theorem notMem (n : Identifier) {c : Char} (hc : isNameChar c = false) : c ∉ n.text := by
  intro hmem
  rw [n.isNameChar_of_mem c hmem] at hc
  cases hc

/-- A name as a plain text. -/
def toPlain (n : Identifier) : PlainText where
  text := n.text
  ne_nil := n.ne_nil
  plain := {
    space_of_blank := fun c hc hb => by
      rw [isBlank_of_isNameChar (n.isNameChar_of_mem c hc)] at hb
      cases hb
    single := fun h => n.notMem (c := ' ') rfl (h.subset (by simp))
    head_ne := fun h => n.notMem (c := ' ') rfl (List.mem_of_mem_head? h)
    last_ne := fun h => n.notMem (c := ' ') rfl (List.mem_of_mem_getLast? h) }

end Identifier

end DocTypes.Text
