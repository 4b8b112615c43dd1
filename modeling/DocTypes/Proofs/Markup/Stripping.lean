/-
  The text less its tags. What is left has no `<` with a `>` behind it (`gt_notMem_stripTags`), so
  there is nothing more to remove. Of texts with tags in between, the texts are left, and a newline
  for each tag that is a line break (`IsBreak`); text that tags are taken from does not join into a
  tag.
-/
import DocTypes.Proofs.Markup.Spelling
import DocTypes.Proofs.Text.Count

namespace DocTypes.Markup

open Text

/-! ## What is left -/

/-- Where the tags are removed, every `<` that is left stands behind the last `>`. -/
theorem gt_notMem_between {s a b : Text} (h : anyTag.replace [] s = a ++ '<' :: b) : '>' ∉ b := by
  induction s using anyTag.pieces_induction generalizing a with
  | nil =>
    rw [Pattern.replace, anyTag.substitute_nil] at h
    exact absurd h (by simp)
  | piece s n hn ih =>
    rw [Pattern.replace, anyTag.substitute_of_span _ hn] at h
    exact ih h
  | keep c s hc ih =>
    rw [Pattern.replace, anyTag.substitute_cons_of_none _ hc] at h
    cases a with
    | cons d a => exact ih (List.cons.inj h).2
    | nil =>
      -- a tag would be read where the `<` stands if there were a `>` behind it
      obtain ⟨rfl, rfl⟩ := List.cons.inj h
      intro hgt
      have hmem : '>' ∈ s := (Pattern.replace_nil_sublist anyTag s).mem hgt
      have hsome : (anyTag.span? ('<' :: s)).isSome := by
        show ((throughClose.span? s).map (1 + ·)).isSome
        rw [Option.isSome_map]
        exact span?_throughClose_isSome hmem
      rw [hc] at hsome
      cases hsome

/-- What stands behind a `<` that is left has no `>`. -/
theorem gt_notMem_stripTags {s a b : Text} (h : stripTags s = a ++ '<' :: b) : '>' ∉ b :=
  gt_notMem_between h

/-- A text in which no tag is closed stays. -/
theorem stripTags_of_unclosed {t : Text} (h : ∀ a b, t = a ++ '<' :: b → '>' ∉ b) :
    stripTags t = t := by
  have hnone : ∀ {p : Pattern}, p.StartsWith '<' → p.EndsAt '>' → ∀ u, u <:+ t →
      p.span? u = none := by
    intro p hstart hend u hu
    cases hs : p.span? u with
    | none => rfl
    | some n =>
      obtain ⟨b, rfl⟩ := List.head?_eq_some_iff.1 (hstart hs)
      obtain ⟨a, rfl⟩ := hu
      have hmem : '>' ∈ '<' :: b := List.mem_of_mem_take (hend.mem hs)
      exact absurd (List.mem_of_ne_of_mem (by decide) hmem) (h a b rfl)
  have hbreak : lineBreak.replace ['\n'] t = t :=
    Pattern.substitute_of_none (hnone startsWith_lineBreak endsAt_lineBreak) _
  rw [stripTags, hbreak]
  exact Pattern.substitute_of_none (hnone startsWith_anyTag endsAt_anyTag) _

/-! ## Line breaks -/

/-- What stands between the brackets of a line break: its name in any letter case, and maybe blanks
and a slash. -/
def IsBreak (t : Text) : Prop :=
  ∃ name blanks slash, t = name ++ (blanks ++ slash) ∧ name.map Char.toLower = ['b', 'r'] ∧
    (∀ c ∈ blanks, isBlank c = true) ∧ (slash = [] ∨ slash = ['/'])

theorem read_lineBreak (s : Text) : lineBreak.read s =
    (after? foldCase ['<', 'b', 'r'] s).bind fun r =>
      (Pattern.char '>').read
        (((Pattern.char '/').read (r.dropWhile isBlank)).getD (r.dropWhile isBlank)) := by
  show ((Pattern.anyCase "<br".toList).toTail.followedBy ((Tail.many isBlank).followedBy
    ((Pattern.char '/').toTail.optional.followedBy (Pattern.char '>').toTail))).read s = _
  rw [Tail.read_followedBy, Pattern.anyCase, Pattern.read_like]
  refine congrArg (Option.bind _) (funext fun r => ?_)
  rw [Tail.read_followedBy, Tail.read_many, Option.bind_some, Tail.read_followedBy,
    Tail.read_optional, Option.bind_some]

instance : DecidablePred IsBreak := fun t =>
  decidable_of_iff ((t.take 2).map Char.toLower = ['b', 'r'] ∧
    ((t.drop 2).dropWhile isBlank = [] ∨ (t.drop 2).dropWhile isBlank = ['/'])) <| by
    constructor
    · rintro ⟨hname, hslash⟩
      refine ⟨t.take 2, (t.drop 2).takeWhile isBlank, (t.drop 2).dropWhile isBlank, ?_, hname,
        List.all_eq_true.1 List.all_takeWhile, hslash⟩
      rw [List.takeWhile_append_dropWhile, List.take_append_drop]
    · rintro ⟨name, blanks, slash, rfl, hname, hblanks, hslash⟩
      have hlen : name.length = 2 := by simpa using congrArg List.length hname
      have hstop : ∀ c ∈ slash.head?, isBlank c = false := by
        rcases hslash with rfl | rfl <;> rintro _ ⟨⟩
        rfl
      rw [← hlen, List.take_left, List.drop_left, dropWhile_run hblanks hstop]
      exact ⟨hname, hslash⟩

/-- A line break is read where its name, blanks and a slash, and the closing bracket stand. -/
theorem read_lineBreak_eq_some_iff {s r : Text} : lineBreak.read s = some r ↔
    ∃ name blanks slash, s = name ++ (blanks ++ (slash ++ '>' :: r)) ∧
      name.map foldCase = ['<', 'b', 'r'] ∧ (∀ c ∈ blanks, isBlank c = true) ∧
        (slash = [] ∨ slash = ['/']) := by
  rw [read_lineBreak, Option.bind_eq_some_iff]
  constructor
  · rintro ⟨rest, hafter, hclose⟩
    obtain ⟨name, rfl, hname⟩ := after?_eq_some_iff.1 hafter
    refine ⟨name, rest.takeWhile isBlank, ?_⟩
    have hblanks : ∀ c ∈ rest.takeWhile isBlank, isBlank c = true :=
      List.all_eq_true.1 List.all_takeWhile
    cases hslash : (Pattern.char '/').read (rest.dropWhile isBlank) with
    | none =>
      rw [hslash, Option.getD_none] at hclose
      refine ⟨[], ?_, hname, hblanks, Or.inl rfl⟩
      rw [List.nil_append, ← Pattern.eq_cons_of_read_char hclose, List.takeWhile_append_dropWhile]
    | some more =>
      rw [hslash, Option.getD_some] at hclose
      refine ⟨['/'], ?_, hname, hblanks, Or.inr rfl⟩
      rw [List.singleton_append, ← Pattern.eq_cons_of_read_char hclose,
        ← Pattern.eq_cons_of_read_char hslash, List.takeWhile_append_dropWhile]
  · rintro ⟨name, blanks, slash, rfl, hname, hblanks, hslash⟩
    refine ⟨_, after?_eq_some_iff.2 ⟨name, rfl, hname⟩, ?_⟩
    rcases hslash with rfl | rfl <;> rw [dropWhile_run hblanks (by rintro _ ⟨⟩; rfl)] <;> rfl

/-- The letters of the name are the same in both comparisons of letter case. -/
theorem map_foldCase_eq_iff {w : Text} (hw : ∀ d ∈ w, d.toNat < 128 ∧ d ≠ 's' ∧ d ≠ 'k')
    (name : Text) : name.map foldCase = w ↔ name.map Char.toLower = w := by
  induction name generalizing w with
  | nil => exact Iff.rfl
  | cons c name ih =>
    cases w with
    | nil => simp
    | cons d w =>
      obtain ⟨⟨hascii, hs, hk⟩, hw⟩ := List.forall_mem_cons.1 hw
      have hc : foldCase c = d ↔ c.toLower = d :=
        ⟨toLower_of_foldCase hs hk, foldCase_of_toLower hascii⟩
      rw [List.map_cons, List.map_cons, List.cons_eq_cons, List.cons_eq_cons, hc, ih hw]

theorem map_foldCase_opening_iff {name : Text} : name.map foldCase = ['<', 'b', 'r'] ↔
    ∃ letters, name = '<' :: letters ∧ letters.map Char.toLower = ['b', 'r'] := by
  rw [map_foldCase_eq_iff (by decide), List.map_eq_cons_iff]
  constructor
  · rintro ⟨c, letters, rfl, hc, hletters⟩
    exact ⟨letters, by rw [eq_of_toLower_eq rfl hc], hletters⟩
  · rintro ⟨letters, rfl, hletters⟩
    exact ⟨'<', letters, rfl, rfl, hletters⟩

/-- Of the tags, the line breaks are read as such. -/
theorem read_lineBreak_openMark (t rest : Text) :
    lineBreak.read (openMark t ++ rest) = some rest ↔ IsBreak t := by
  have hmark : openMark t ++ rest = '<' :: (t ++ '>' :: rest) := by simp [openMark]
  rw [read_lineBreak_eq_some_iff, hmark]
  constructor
  · rintro ⟨name, blanks, slash, hs, hname, hblanks, hslash⟩
    obtain ⟨letters, rfl, hletters⟩ := map_foldCase_opening_iff.1 hname
    refine ⟨letters, blanks, slash, ?_, hletters, hblanks, hslash⟩
    refine (List.append_left_inj ('>' :: rest)).1 ((List.cons.inj hs).2.trans ?_)
    simp
  · rintro ⟨name, blanks, slash, rfl, hname, hblanks, hslash⟩
    exact ⟨'<' :: name, blanks, slash, by simp, map_foldCase_opening_iff.2 ⟨name, rfl, hname⟩,
      hblanks, hslash⟩

theorem span?_lineBreak_openMark {t : Text} (hgt : '>' ∉ t) (h : ¬ IsBreak t) (rest : Text) :
    lineBreak.span? (openMark t ++ rest) = none := by
  cases hn : lineBreak.span? (openMark t ++ rest) with
  | none => rfl
  | some n =>
    have hmark : openMark t ++ rest = '<' :: t ++ '>' :: rest := by simp [openMark]
    rw [hmark] at hn
    have hdrop := (endsAt_lineBreak.take_drop (notMem_opening hgt) hn).2
    refine absurd ((read_lineBreak_openMark t rest).1 ?_) h
    rw [hmark, Tail.read, hn, Option.map_some, hdrop]

/-! ## Text with tags in between -/

/-- Text without a `<`, or a tag. -/
inductive Piece
  | text (s : Text) (lt_notMem : '<' ∉ s)
  | tag (t : Text) (lt_notMem : '<' ∉ t) (gt_notMem : '>' ∉ t)

namespace Piece

def written : Piece → Text
  | text s _ => s
  | tag t _ _ => openMark t

/-- What is left of the piece. -/
def kept : Piece → Text
  | text s _ => s
  | tag t _ _ => if IsBreak t then ['\n'] else []

theorem turns_stripTags (x : Piece) : Turns stripTags x.written x.kept := by
  cases x with
  | text s hlt =>
    have hbreak : lineBreak.Rewrites (fun _ => ['\n']) s s := .of_notMem startsWith_lineBreak hlt
    have htags : anyTag.Rewrites (fun _ => []) s s := .of_notMem startsWith_anyTag hlt
    exact hbreak.turns.comp htags.turns
  | tag t hlt hgt =>
    by_cases h : IsBreak t
    · have hbreak : lineBreak.Rewrites (fun _ => ['\n']) (openMark t) ['\n'] :=
        .of_span fun rest => Pattern.span?_of_read ((read_lineBreak_openMark t rest).2 h)
      have hnewline : anyTag.Rewrites (fun _ => []) ['\n'] ['\n'] :=
        .of_notMem startsWith_anyTag (by decide)
      rw [kept, if_pos h]
      exact hbreak.turns.comp hnewline.turns
    · have hbreak : lineBreak.Rewrites (fun _ => ['\n']) (openMark t) (openMark t) :=
        rewrites_openMark startsWith_lineBreak hlt (span?_lineBreak_openMark hgt h)
      have htag : anyTag.Rewrites (fun _ => []) (openMark t) [] :=
        .of_span fun rest => Pattern.span?_of_read (read_anyTag hgt rest)
      rw [kept, if_neg h]
      exact hbreak.turns.comp htag.turns

end Piece

theorem stripTags_nil : stripTags [] = [] := stripTags_of_notMem (by simp)

/-- No tag is left when the tags are removed, and the text between them is left as it is, with a
newline for each line break. -/
theorem stripTags_complete :
    (∀ s a b, stripTags s = a ++ '<' :: b → '>' ∉ b) ∧
      (∀ s, stripTags (stripTags s) = stripTags s) ∧
      ∀ pieces : List Piece,
        stripTags (pieces.flatMap Piece.written) = pieces.flatMap Piece.kept :=
  ⟨fun _ _ _ => gt_notMem_stripTags,
    fun _ => stripTags_of_unclosed fun _ _ => gt_notMem_stripTags,
    fun _ => (Turns.flatMap fun x _ => x.turns_stripTags).eq stripTags_nil⟩

/-- An unclosed `<` stays, a closing bracket in front of the tags does too, and of the tags only the
one that is a line break leaves something. -/
theorem stripTags_complete_unclosed :
    stripTags "<i>1<2".toList = "1<2".toList ∧ '>' ∉ "2".toList ∧
      stripTags (stripTags "<i>1<2".toList) = stripTags "<i>1<2".toList ∧
      stripTags "2 > 1<b>x<BR /><brr>".toList = "2 > 1x\n".toList := by
  have hleft : stripTags "<i>1<2".toList = "1<2".toList :=
    ((Piece.tag ['i'] (by decide) (by decide)).turns_stripTags "1<2".toList).trans
      (stripTags_of_unclosed fun a b h => by
        have hgt : '>' ∉ a ++ '<' :: b := by rw [← h]; decide
        exact fun hb => hgt (by simp [hb]))
  refine ⟨hleft, stripTags_complete.1 "<i>1<2".toList ['1'] ['2'] hleft,
    stripTags_complete.2.1 _, ?_⟩
  exact (stripTags_complete.2.2 [.text "2 > 1".toList (by decide),
    .tag ['b'] (by decide) (by decide), .text ['x'] (by decide),
    .tag "BR /".toList (by decide) (by decide), .tag "brr".toList (by decide) (by decide)]).trans
      (by decide)

end DocTypes.Markup
