/-
  Where tags are found. Every pattern of a tag starts at a `<`; a closing tag is read without
  looking past a newline, and what an opening tag reads is settled by the first `>`. Hence a text
  in which every `<` has a `>` after it keeps its opening tags whatever follows it.
-/
import DocTypes.Page.Block
import DocTypes.Proofs.Text.Substitution

namespace DocTypes.Markup

open Text

/-- Has every `<` of the text a `>` somewhere after it? -/
def tagsClosed : Text → Bool
  | [] => true
  | c :: s => (c != '<' || s.contains '>') && tagsClosed s

/-- What follows the last `c`; the whole text where there is none. -/
def afterLast (c : Char) : Text → Text
  | [] => []
  | d :: s => if s.contains c then afterLast c s else if d = c then s else d :: s

/-! ## Letter case -/

/-- Lower case comes of a capital or of the character itself. -/
theorem eq_of_toLower_eq {c d : Char} (hd : d.isLower = false) (h : c.toLower = d) : c = d := by
  unfold Char.toLower at h
  split at h
  · next hc =>
    subst h
    have h1 := UInt32.le_iff_toNat_le.1 hc.1
    have h2 := UInt32.le_iff_toNat_le.1 hc.2
    have hadd : (c.val + ('a'.val - 'A'.val)).toNat = c.val.toNat + 32 := by
      rw [UInt32.toNat_add]
      exact Nat.mod_eq_of_lt (Nat.lt_of_le_of_lt (Nat.add_le_add_right h2 _) (by decide))
    have ha : 'A'.val.toNat = 0x41 := rfl
    have hz : 'Z'.val.toNat = 0x5a := rfl
    rw [Bool.eq_false_iff, Ne, isLower_iff] at hd
    exact absurd ⟨by show _ ≤ (c.val + _).toNat; omega, by show (c.val + _).toNat ≤ _; omega⟩ hd
  · exact h

theorem eq_of_foldCase_eq {c d : Char} (hd : d.isLower = false) (h : foldCase c = d) : c = d := by
  unfold foldCase at h
  split at h
  · subst h; exact absurd hd (by decide)
  · split at h
    · subst h; exact absurd hd (by decide)
    · exact eq_of_toLower_eq hd h

/-! ## Tags start at `<` -/

theorem startsWith_anyCase {w : Text} (hw : '<' :: w ≠ []) :
    (Pattern.anyCase ('<' :: w) hw).StartsWith '<' :=
  Pattern.startsWith_like hw fun _ => eq_of_foldCase_eq rfl

theorem startsWith_openTag (name : Text) : (openTag name).StartsWith '<' :=
  (startsWith_anyCase _).followedBy _

theorem startsWith_closeTag (name : Text) : (closeTag name).StartsWith '<' :=
  startsWith_anyCase _

theorem startsWith_lineBreak : lineBreak.StartsWith '<' :=
  (startsWith_anyCase _).followedBy _

theorem startsWith_anyTag : anyTag.StartsWith '<' := (Pattern.startsWith_char '<').followedBy _

theorem startsWith_reference : reference.StartsWith '&' :=
  (Pattern.startsWith_char '&').followedBy _

/-! ## How far a tag is looked for -/

theorem stopsAt_closeTag {name : Text} {c : Char} (h : foldCase c ∉ '<' :: '/' :: name ++ ['>']) :
    (closeTag name).StopsAt c :=
  Pattern.stopsAt_like (by simp) h

theorem decidedBy_tagEnd : tagEnd.DecidedBy '>' := by
  refine Tail.DecidedBy.or (Tail.decidedBy_one '>') ?_
  exact (Tail.decidedBy_one '>').followedBy (Tail.avoids_one rfl) (Tail.decidedBy_through_char '>')

theorem notMem_opening {name : Text} (h : '>' ∉ name) : '>' ∉ '<' :: name := by
  rw [List.mem_cons, not_or]
  exact ⟨by decide, h⟩

theorem decidedBy_openTag {name : Text} (h : '>' ∉ name) : (openTag name).DecidedBy '>' :=
  (Tail.decidedBy_like _ (notMem_opening h)).followedBy
    (Tail.avoids_like _ (notMem_opening h)) decidedBy_tagEnd

theorem decidedBy_closeTag {name : Text} (h : '>' ∉ name) : (closeTag name).DecidedBy '>' :=
  Tail.decidedBy_word (by simp)
    (by rw [List.dropLast_concat, show foldCase '>' = '>' from rfl]; simp [h])

theorem decidedBy_anyTag : anyTag.DecidedBy '>' :=
  (Tail.decidedBy_one '>').followedBy (Tail.avoids_one rfl) (Tail.decidedBy_through_char '>')

theorem decidedBy_lineBreak : lineBreak.DecidedBy '>' :=
  (Tail.decidedBy_like _ (by decide)).followedBy (Tail.avoids_like _ (by decide)) <|
    (Tail.decidedBy_many rfl).followedBy (Tail.avoids_many rfl) <|
      (Tail.decidedBy_one '>').optional.followedBy (Tail.avoids_one rfl).optional <|
        Tail.decidedBy_one '>'

/-! ## Tags end at `>` -/

theorem endsAt_tagEnd : tagEnd.EndsAt '>' :=
  (Tail.endsAt_char '>').or
    (Tail.EndsAt.followedBy (Tail.avoids_one rfl) (Tail.endsAt_through_char '>'))

theorem endsAt_openTag {name : Text} (h : '>' ∉ name) : (openTag name).EndsAt '>' :=
  Tail.EndsAt.followedBy (Tail.avoids_like _ (notMem_opening h)) endsAt_tagEnd

theorem endsAt_closeTag {name : Text} (h : '>' ∉ name) : (closeTag name).EndsAt '>' :=
  Tail.endsAt_like (v := '<' :: '/' :: name) (by simp) (fun _ => eq_of_foldCase_eq rfl)
    (by rw [show foldCase '>' = '>' from rfl]; simp [h])

theorem endsAt_anyTag : anyTag.EndsAt '>' :=
  Tail.EndsAt.followedBy (Tail.avoids_one rfl) (Tail.endsAt_through_char '>')

theorem endsAt_lineBreak : lineBreak.EndsAt '>' :=
  Tail.EndsAt.followedBy (Tail.avoids_like _ (by decide)) <|
    Tail.EndsAt.followedBy (Tail.avoids_many rfl) <|
      Tail.EndsAt.followedBy (Tail.Avoids.optional (Tail.avoids_one rfl)) (Tail.endsAt_char '>')

/-- Without a `>` there is no tag. -/
theorem stripTags_of_notMem {s : Text} (h : '>' ∉ s) : stripTags s = s := by
  have hbreak : lineBreak.replace ['\n'] s = s :=
    Pattern.substitute_of_notMem endsAt_lineBreak _ h
  rw [stripTags, hbreak]
  exact Pattern.substitute_of_notMem endsAt_anyTag _ h

theorem span?_throughClose_isSome {s : Text} (h : '>' ∈ s) : (throughClose.span? s).isSome := by
  induction s with
  | nil => cases h
  | cons c s ih =>
    show (Tail.spanThrough _ (c :: s)).isSome
    rw [Tail.spanThrough]
    by_cases hc : c = '>'
    · rw [hc]; rfl
    · have := ih (List.mem_of_ne_of_mem (Ne.symm hc) h)
      rw [Option.isSome_or, Option.isSome_map]
      exact Bool.or_eq_true_iff.2 (Or.inr this)

/-! ## Texts that open with a tag -/

theorem opensWith_iff {name s : Text} : opensWith name s = true ↔
    ∃ c r, after? Char.toLower ('<' :: name) s = some (c :: r) ∧
      (c = '>' ∨ isAsciiBlank c = true) := by
  unfold opensWith
  split
  · next c r h => simp [h]
  · next hne =>
    simp only [Bool.false_eq_true, false_iff]
    rintro ⟨c, r, h, -⟩
    exact hne c r h

theorem head?_of_opensWith {name s : Text} (h : opensWith name s = true) :
    s.head? = some '<' := by
  obtain ⟨c, r, hr, -⟩ := opensWith_iff.1 h
  cases s with
  | nil => cases hr
  | cons d s =>
    rw [after?] at hr
    split at hr
    · next hd => rw [eq_of_toLower_eq (d := '<') rfl hd]; rfl
    · cases hr

/-- The letter after the `<` is the first of the tag's name. -/
theorem getElem?_of_opensWith {c : Char} {name s : Text} (h : opensWith (c :: name) s = true) :
    s[1]?.map Char.toLower = some c := by
  obtain ⟨d, r, hr, -⟩ := opensWith_iff.1 h
  cases s with
  | nil => cases hr
  | cons a s =>
    rw [after?] at hr
    split at hr
    · cases s with
      | nil => cases hr
      | cons b s =>
        rw [after?] at hr
        split at hr
        · next hb => exact congrArg some hb
        · cases hr
    · cases hr

/-- What a text opens with is settled by its first `>`. -/
theorem opensWith_through {name : Text} (h : '>' ∉ name) (a b : Text) :
    opensWith name (a ++ '>' :: b) = opensWith name (a ++ ['>']) := by
  have hkey : Char.toLower '>' ∉ '<' :: name := notMem_opening h
  unfold opensWith
  rw [Pattern.after?_append_cons hkey, Pattern.after?_append_cons hkey]
  rcases after? Char.toLower ('<' :: name) a with _ | _ | ⟨c, r⟩ <;> rfl

theorem after?_append {key : Char → Char} {w s r : Text} (h : after? key w s = some r)
    (rest : Text) : after? key w (s ++ rest) = some (r ++ rest) := by
  obtain ⟨u, rfl, hu⟩ := after?_eq_some_iff.1 h
  exact after?_eq_some_iff.2 ⟨u, List.append_assoc u r rest, hu⟩

theorem opensWith_append {name s : Text} (h : opensWith name s = true) (rest : Text) :
    opensWith name (s ++ rest) = true := by
  obtain ⟨c, r, hr, hc⟩ := opensWith_iff.1 h
  exact opensWith_iff.2 ⟨c, r ++ rest, after?_append hr rest, hc⟩

/-- The two ways in which letters are compared agree on ASCII. -/
theorem foldCase_of_toLower {c d : Char} (hd : d.toNat < 128) (h : c.toLower = d) :
    foldCase c = d := by
  unfold foldCase
  split
  · next hs =>
    subst hs h
    exact absurd hd (by decide)
  · split
    · next hk =>
      subst hk h
      exact absurd hd (by decide)
    · exact h

/-- Onto most letters no other character folds. -/
theorem toLower_of_foldCase {c d : Char} (hs : d ≠ 's') (hk : d ≠ 'k') (h : foldCase c = d) :
    c.toLower = d := by
  unfold foldCase at h
  split at h
  · exact absurd h.symm hs
  · split at h
    · exact absurd h.symm hk
    · exact h

/-- Tag names are compared in two ways, which agree on ASCII. -/
theorem after?_foldCase {w s r : Text} (hw : w.all (·.toNat < 128) = true)
    (h : after? Char.toLower w s = some r) : after? foldCase w s = some r := by
  induction w generalizing s with
  | nil => exact h
  | cons a w ih =>
    cases s with
    | nil => cases h
    | cons c s =>
      rw [after?] at h ⊢
      split at h
      · next hc =>
        have hfold : foldCase c = a :=
          foldCase_of_toLower (of_decide_eq_true (Bool.and_eq_true_iff.1 hw).1) hc
        rw [if_pos hfold]
        exact ih (Bool.and_eq_true_iff.1 hw).2 h
      · cases h

/-- Where no other character folds onto a letter of the name, the comparisons agree. -/
theorem after?_toLower {w s : Text} (hs : 's' ∉ w) (hk : 'k' ∉ w)
    (h : (after? foldCase w s).isSome) : (after? Char.toLower w s).isSome := by
  induction w generalizing s with
  | nil => rfl
  | cons a w ih =>
    rw [List.mem_cons, not_or] at hs hk
    cases s with
    | nil => exact h
    | cons c s =>
      rw [after?] at h ⊢
      split at h
      · next hc =>
        rw [if_pos (toLower_of_foldCase (Ne.symm hs.1) (Ne.symm hk.1) hc)]
        exact ih hs.2 hk.2 h
      · cases h

theorem isBlank_of_isAsciiBlank {c : Char} (h : isAsciiBlank c = true) : isBlank c = true := by
  simp only [isAsciiBlank, Bool.or_eq_true, beq_iff_eq] at h
  rcases h with (((rfl | rfl) | rfl) | rfl) | rfl <;> rfl

/-- Where a text opens with a tag, as far as its name goes, the tag is read if there is a `>`. -/
theorem read_openTag_isSome {name s : Text} (hname : ('<' :: name).all (·.toNat < 128) = true)
    (hs : opensWith name s = true) (hgt : '>' ∉ name) (h : '>' ∈ s) :
    ((openTag name).read s).isSome := by
  obtain ⟨c, r, hr, hc⟩ := opensWith_iff.1 hs
  have hend : (tagEnd.read (c :: r)).isSome := by
    rw [tagEnd, Tail.read_or, Option.isSome_or, Bool.or_eq_true]
    rcases hc with rfl | hc
    · exact Or.inl rfl
    · have hcr : '>' ∈ r := by
        have hmem : '>' ∈ c :: r := by
          obtain ⟨a, b, rfl, ha⟩ := List.eq_append_cons_of_mem h
          have hkey : Char.toLower '>' ∉ '<' :: name := notMem_opening hgt
          rw [Pattern.after?_append_cons hkey] at hr
          obtain ⟨t, -, ht⟩ := Option.map_eq_some_iff.1 hr
          rw [← ht]
          exact List.mem_append_right t List.mem_cons_self
        refine List.mem_of_ne_of_mem ?_ hmem
        rintro rfl
        cases hc
      have hthrough := span?_throughClose_isSome hcr
      refine Or.inr ?_
      show ((((Pattern.one isBlank).toTail.followedBy throughClose)).read (c :: r)).isSome
      rw [Tail.read_followedBy, Pattern.read_one_cons, if_pos (isBlank_of_isAsciiBlank hc),
        Option.bind_some, Tail.read, Option.isSome_map]
      exact hthrough
  show (((Pattern.anyCase ('<' :: name) _).toTail.followedBy tagEnd).read s).isSome
  rw [Tail.read_followedBy, Pattern.anyCase, Pattern.read_like, after?_foldCase hname hr,
    Option.bind_some]
  exact hend

/-! ## Texts whose tags are closed -/

theorem tagsClosed_cons {c : Char} {s : Text} :
    tagsClosed (c :: s) = true ↔ (c = '<' → '>' ∈ s) ∧ tagsClosed s = true := by
  rw [tagsClosed, Bool.and_eq_true, Bool.or_eq_true, bne_iff_ne, List.contains_iff_mem,
    Decidable.imp_iff_not_or]

theorem afterLast_of_notMem {c : Char} {s : Text} (h : c ∉ s) : afterLast c s = s := by
  cases s with
  | nil => rfl
  | cons d s =>
    rw [List.mem_cons, not_or] at h
    rw [afterLast, if_neg (by simpa using h.2), if_neg (Ne.symm h.1)]

theorem tagsClosed_iff {s : Text} : tagsClosed s = true ↔ '<' ∉ afterLast '>' s := by
  induction s with
  | nil => simp [tagsClosed, afterLast]
  | cons d s ih =>
    rw [tagsClosed_cons, ih, afterLast]
    by_cases hs : '>' ∈ s
    · simp [hs]
    · rw [afterLast_of_notMem hs, if_neg (by simpa using hs)]
      split
      · next hd => simp [hd]
      · simp [hs, eq_comm]

theorem tagsClosed_of_suffix {s t : Text} (h : s <:+ t) (ht : tagsClosed t = true) :
    tagsClosed s = true := by
  induction t with
  | nil => rw [List.suffix_nil.1 h]; rfl
  | cons c t ih =>
    rcases List.suffix_cons_iff.1 h with rfl | h
    · exact ht
    · exact ih h (tagsClosed_cons.1 ht).2

/-- A text whose tags are closed is rewritten by itself, where the first `>` settles what the
pattern reads. -/
theorem rewrites_of_tagsClosed {p : Pattern} {f : Text → Text} {a : Text}
    (hp : p.StartsWith '<') (hd : p.DecidedBy '>') (ha : tagsClosed a = true) :
    p.Rewrites f a (p.substitute f a) := by
  apply Pattern.Rewrites.of_stable
  intro s hs hne rest
  cases s with
  | nil => exact absurd rfl hne
  | cons c s =>
    by_cases hc : c = '<'
    · have hmem := (tagsClosed_cons.1 (tagsClosed_of_suffix hs ha)).1 hc
      exact hd _ rest (List.mem_cons_of_mem c hmem)
    · rw [List.cons_append, hp.span?_cons hc, hp.span?_cons hc]

end DocTypes.Markup
