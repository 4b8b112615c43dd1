/-
  Regrouping a page twice. In a regrouped text, every structural closing tag ends a line
  (`alike_breakClose_twice`), and every structural opening tag that is found starts one, with one
  exception (`places_breakOpen`): the name of a tag that was no tag, with a structural tag right
  behind it, is made one by the newline put between the two (`breaksOff`). Where such a name has no
  text before it on its line the page is `settled`, and regrouping it again changes no nonblank
  line.
-/
import DocTypes.Proofs.Page.Characters
import DocTypes.Proofs.Page.Layout

namespace DocTypes

open Text Markup

namespace Pattern

variable {p : Pattern} {s : Text}

/-! ## Where a pattern is found -/

/-- The places where the pattern is found, from left to right and without overlap: what lies before
the place, `front` first, and what lies from it on. -/
def placesFrom (p : Pattern) (front : Text) : Text → List (Text × Text)
  | [] => []
  | c :: s =>
    match _h : p.span? (c :: s) with
    | some n => (front, c :: s) ::
        p.placesFrom (front ++ (c :: s).take n) ((c :: s).drop n)
    | none => p.placesFrom (front ++ [c]) s
termination_by s => s.length
decreasing_by
  · exact p.drop_shorter _h
  · exact Nat.lt_succ_self _

theorem placesFrom_nil (p : Pattern) (front : Text) : p.placesFrom front [] = [] := by
  rw [placesFrom]

theorem placesFrom_of_span {n : Nat} (h : p.span? s = some n) (front : Text) :
    p.placesFrom front s = (front, s) :: p.placesFrom (front ++ s.take n) (s.drop n) := by
  cases s with
  | nil => rw [p.span?_nil] at h; cases h
  | cons c s =>
    rw [placesFrom]
    split
    · next m h' => rw [h] at h'; cases h'; rfl
    · next h' => rw [h] at h'; cases h'

theorem placesFrom_cons_of_none {c : Char} (h : p.span? (c :: s) = none) (front : Text) :
    p.placesFrom front (c :: s) = p.placesFrom (front ++ [c]) s := by
  rw [placesFrom]
  split
  · next n h' => rw [h] at h'; cases h'
  · rfl

end Pattern

namespace Text

/-- Are there only blanks behind the last newline? -/
def atLineStart (s : Text) : Bool := (afterLast '\n' s).all isBlank

theorem afterLast_concat (c : Char) (s : Text) : afterLast c (s ++ [c]) = [] := by
  induction s with
  | nil => simp [afterLast]
  | cons d s ih => rw [List.cons_append, afterLast, if_pos (by simp), ih]

theorem atLineStart_concat_newline (s : Text) : atLineStart (s ++ ['\n']) = true := by
  rw [atLineStart, afterLast_concat]
  rfl

theorem eq_append_afterLast {c : Char} {s : Text} (h : c ∈ s) :
    ∃ u, s = u ++ c :: afterLast c s := by
  induction s with
  | nil => cases h
  | cons d s ih =>
    rw [afterLast]
    by_cases hs : c ∈ s
    · obtain ⟨u, hu⟩ := ih hs
      rw [if_pos (by simpa using hs)]
      exact ⟨d :: u, congrArg (d :: ·) hu⟩
    · have hd : d = c := ((List.mem_cons.1 h).resolve_right hs).symm
      rw [if_neg (by simpa using hs), if_pos hd, hd]
      exact ⟨[], rfl⟩

/-- A newline at the start of a line makes no other line. -/
theorem nonblankLines_of_atLineStart {a : Text} (ha : atLineStart a = true) (b : Text) :
    nonblankLines (a ++ '\n' :: b) = nonblankLines (a ++ b) := by
  have hblank : ∀ c ∈ afterLast '\n' a, isBlank c = true := List.all_eq_true.1 ha
  by_cases hn : '\n' ∈ a
  · obtain ⟨u, hu⟩ := eq_append_afterLast hn
    have hline : ∀ t, nonblankLines (a ++ t) = nonblankLines u ++ nonblankLines t := by
      intro t
      rw [hu, List.append_assoc, List.cons_append, nonblankLines_append,
        nonblankLines_blanks hblank]
    rw [hline, hline, nonblankLines_newline]
  · rw [afterLast_of_notMem hn] at hblank
    rw [nonblankLines_blanks hblank, nonblankLines_blanks hblank, nonblankLines_newline]

/-- Newlines put in front of pieces that start a line make no other lines. -/
theorem nonblankLines_substitute_newline {p : Pattern} (front : Text) {s : Text}
    (h : ∀ place ∈ p.placesFrom front s, atLineStart place.1 = true) :
    nonblankLines (front ++ p.substitute ('\n' :: ·) s) = nonblankLines (front ++ s) := by
  induction s using p.pieces_induction generalizing front with
  | nil => rw [p.substitute_nil]
  | piece s n hs ih =>
    rw [Pattern.placesFrom_of_span hs, List.forall_mem_cons] at h
    rw [p.substitute_of_span _ hs, List.cons_append, nonblankLines_of_atLineStart h.1,
      ← List.append_assoc, ih _ h.2, List.append_assoc, List.take_append_drop]
  | keep c s hs ih =>
    rw [Pattern.placesFrom_cons_of_none hs] at h
    have hrest := ih _ h
    rw [p.substitute_cons_of_none _ hs]
    simpa using hrest

end Text

namespace Page

/-! ## Which structural tag is read -/

/-- The elements that regrouping puts on lines of their own. -/
def structuralNames : List Text := ["h3".toList, "h4".toList, "table".toList, "ul".toList]

theorem structuralOpen_fits_iff {s : Text} : (structuralOpen.span? s).isSome = true ↔
    ∃ name ∈ structuralNames, ((openTag name).span? s).isSome = true := by
  show (((openTag "h3".toList).span? s).or (((openTag "h4".toList).span? s).or
    (((openTag "table".toList).span? s).or ((openTag "ul".toList).span? s)))).isSome = true ↔ _
  simp only [structuralNames, Option.isSome_or, Bool.or_eq_true, List.mem_cons, List.not_mem_nil,
    or_false, exists_eq_or_imp, exists_eq_left]

theorem structuralClose_fits_iff {s : Text} : (structuralClose.span? s).isSome = true ↔
    ∃ name ∈ structuralNames, ((closeTag name).span? s).isSome = true := by
  show (((closeTag "h3".toList).span? s).or (((closeTag "h4".toList).span? s).or
    (((closeTag "table".toList).span? s).or ((closeTag "ul".toList).span? s)))).isSome = true ↔ _
  simp only [structuralNames, Option.isSome_or, Bool.or_eq_true, List.mem_cons, List.not_mem_nil,
    or_false, exists_eq_or_imp, exists_eq_left]

/-- An opening tag is its name and then the end of a tag. -/
theorem span?_openTag_isSome {name s : Text} : ((openTag name).span? s).isSome = true ↔
    ∃ c r, after? foldCase ('<' :: name) s = some (c :: r) ∧
      (c = '>' ∨ isBlank c = true ∧ '>' ∈ r) := by
  rw [openTag, Pattern.anyCase, Tail.isSome_span?_word]
  cases after? foldCase ('<' :: name) s with
  | none => simp
  | some r =>
    rw [Option.bind_some, Tail.read, Option.isSome_map]
    cases r with
    | nil =>
      refine iff_of_false (by decide) ?_
      rintro ⟨c, r, h, -⟩
      cases h
    | cons c r =>
      rw [span?_tagEnd_isSome]
      refine ⟨fun h => ⟨c, r, rfl, h⟩, ?_⟩
      rintro ⟨c, r, h, hend⟩
      cases h
      exact hend

theorem span?_closeTag_isSome {name s : Text} : ((closeTag name).span? s).isSome =
    (after? foldCase ('<' :: '/' :: name ++ ['>']) s).isSome :=
  Option.isSome_map

/-! ## Closing tags among newlines -/

theorem mem_of_mem_breakOpen {c : Char} {s : Text} (hc : c ≠ '\n') (h : c ∈ breakOpen s) :
    c ∈ s := by
  rcases Pattern.mem_substitute h with h | ⟨t, n, ht, -, h⟩
  · exact h
  · exact ht.mem (List.mem_of_mem_take ((List.mem_cons.1 h).resolve_left hc))

theorem mem_of_mem_breakClose {c : Char} {s : Text} (hc : c ≠ '\n') (h : c ∈ breakClose s) :
    c ∈ s := by
  rcases Pattern.mem_substitute h with h | ⟨t, n, ht, -, h⟩
  · exact h
  · rcases List.mem_append.1 h with h | h
    · exact ht.mem (List.mem_of_mem_take h)
    · exact absurd (List.mem_singleton.1 h) hc

/-- No closing tag goes on with what regrouping puts between lines. -/
theorem closing_notMem : ∀ name ∈ structuralNames,
    foldCase '<' ∉ '/' :: name ++ ['>'] ∧ foldCase '\n' ∉ '/' :: name ++ ['>'] := by
  decide

/-- Newlines put in front of opening tags leave the closing tags where they are. -/
theorem span?_structuralClose_breakOpen (c : Char) (s : Text) :
    (structuralClose.span? (c :: breakOpen s)).isSome =
      (structuralClose.span? (c :: s)).isSome := by
  rw [Bool.eq_iff_iff, structuralClose_fits_iff, structuralClose_fits_iff]
  refine exists_congr fun name => and_congr_right fun hname => ?_
  obtain ⟨hlt, hnewline⟩ := closing_notMem name hname
  have hrest := Pattern.after?_substitute_cons startsWith_structuralOpen hlt hnewline s
  rw [span?_closeTag_isSome, span?_closeTag_isSome, List.cons_append, after?, after?]
  split
  · rw [breakOpen, hrest, Option.isSome_map]
  · rfl

/-- Where no closing tag was found, none comes of the newlines put behind the others. -/
theorem span?_structuralClose_breakClose {c : Char} {s : Text}
    (h : structuralClose.span? (c :: s) = none) :
    structuralClose.span? (c :: breakClose s) = none := by
  rw [← Option.not_isSome_iff_eq_none] at h ⊢
  refine fun hbreak => h ?_
  rw [structuralClose_fits_iff] at hbreak ⊢
  obtain ⟨name, hname, hbreak⟩ := hbreak
  refine ⟨name, hname, ?_⟩
  rw [span?_closeTag_isSome, List.cons_append, after?] at hbreak ⊢
  split at hbreak
  · next hc =>
    rw [if_pos hc]
    exact Pattern.after?_substitute startsWith_structuralClose
      (fun x => List.prefix_append x _) (closing_notMem name hname).1 hbreak
  · cases hbreak

/-- Closing tags are followed by a newline already when lines are ended again. -/
theorem alike_breakClose_twice (s : Text) : Alike (breakClose (breakClose s)) (breakClose s) := by
  induction s using structuralClose.pieces_induction with
  | nil =>
    unfold breakClose
    rw [Pattern.substitute_nil, Pattern.substitute_nil]
    exact .nil
  | piece s n hs ih =>
    have hpiece : ∀ rest, breakClose (s.take n ++ rest) = s.take n ++ '\n' :: breakClose rest := by
      intro rest
      have hrest := Pattern.Rewrites.of_piece endsAt_structuralClose decidedBy_structuralClose
        (· ++ ['\n']) hs rest
      rw [breakClose, hrest]
      simp [breakClose]
    have honce := hpiece (s.drop n)
    have htwice := hpiece ('\n' :: breakClose (s.drop n))
    rw [List.take_append_drop] at honce
    rw [breakClose_newline] at htwice
    have hgap : IsLineGap ['\n', '\n'] := ⟨by simp; decide, List.mem_cons_self⟩
    rw [honce, htwice]
    exact (Alike.refl _).append (Alike.gap hgap isLineGap_newline ih)
  | keep c s hs ih =>
    have honce : breakClose (c :: s) = c :: breakClose s :=
      Pattern.substitute_cons_of_none _ _ hs
    rw [honce, breakClose,
      Pattern.substitute_cons_of_none _ _ (span?_structuralClose_breakClose hs)]
    exact .cons c ih

/-! ## Newlines for opening and for closing tags -/

/-- Two texts that go on after one character to their first `>`, and have a closing tag at it or
not, get the same behind that `>` if they got the same without the character. -/
theorem exists_breakClose_cons {c : Char} {a x e : Text} (ha : '>' ∉ c :: a) (hx : '>' ∉ c :: x)
    (he : '<' ∉ e) (hclose : breakClose (a ++ ['>']) = a ++ '>' :: e)
    (hboth : breakClose (x ++ ['>']) = x ++ '>' :: e)
    (hfits : (structuralClose.span? (c :: (x ++ ['>']))).isSome =
      (structuralClose.span? (c :: (a ++ ['>']))).isSome) :
    ∃ e', '<' ∉ e' ∧ breakClose (c :: a ++ ['>']) = c :: a ++ '>' :: e' ∧
      breakClose (c :: x ++ ['>']) = c :: x ++ '>' :: e' := by
  cases hs : structuralClose.span? (c :: (a ++ ['>'])) with
  | some n =>
    rw [hs] at hfits
    obtain ⟨m, hm⟩ := Option.isSome_iff_exists.1 hfits
    refine ⟨['\n'], by decide, ?_, ?_⟩
    · exact (Pattern.substitute_concat endsAt_structuralClose _ ha hs).trans (by simp)
    · exact (Pattern.substitute_concat endsAt_structuralClose _ hx hm).trans (by simp)
  | none =>
    rw [hs] at hfits
    have hnone := Option.not_isSome_iff_eq_none.1 (Bool.eq_false_iff.1 hfits)
    refine ⟨e, he, ?_, ?_⟩
    · exact (Pattern.substitute_cons_of_none _ _ hs).trans (congrArg (c :: ·) hclose)
    · exact (Pattern.substitute_cons_of_none _ _ hnone).trans (congrArg (c :: ·) hboth)

/-- Up to the first `>`: at most one newline is put before the tag that ends there, and at most
one behind it, whichever is put first. -/
theorem break_through {a : Text} (ha : '>' ∉ a) : ∃ x e, '>' ∉ x ∧ '<' ∉ e ∧
    breakOpen (a ++ ['>']) = x ++ ['>'] ∧ breakClose (a ++ ['>']) = a ++ '>' :: e ∧
      breakClose (x ++ ['>']) = x ++ '>' :: e := by
  induction a with
  | nil =>
    have hopen : breakOpen ['>'] = ['>'] :=
      Pattern.Rewrites.substitute_eq (.of_notMem startsWith_structuralOpen (by decide))
    have hclose : breakClose ['>'] = ['>'] :=
      Pattern.Rewrites.substitute_eq (.of_notMem startsWith_structuralClose (by decide))
    exact ⟨[], [], by simp, by simp, hopen, hclose, hclose⟩
  | cons c a ih =>
    have ha' := ha
    rw [List.mem_cons, not_or] at ha'
    obtain ⟨x, e, hx, he, hopen, hclose, hboth⟩ := ih ha'.2
    have hcx : '>' ∉ c :: x := by
      rw [List.mem_cons, not_or]
      exact ⟨ha'.1, hx⟩
    have hfits := span?_structuralClose_breakOpen c (a ++ ['>'])
    rw [hopen] at hfits
    obtain ⟨e', he', hclose', hboth'⟩ := exists_breakClose_cons ha hcx he hclose hboth hfits
    cases ho : structuralOpen.span? (c :: (a ++ ['>'])) with
    | some m =>
      refine ⟨'\n' :: c :: a, e', ?_, he', ?_, hclose', ?_⟩
      · rw [List.mem_cons, not_or]
        exact ⟨by decide, ha⟩
      · exact Pattern.substitute_concat endsAt_structuralOpen _ ha ho
      · exact (breakClose_newline _).trans (congrArg ('\n' :: ·) hclose')
    | none =>
      refine ⟨c :: x, e', hcx, he', ?_, hclose', hboth'⟩
      exact (Pattern.substitute_cons_of_none _ _ ho).trans (congrArg (c :: ·) hopen)

/-- It does not matter whether lines are started or ended first. -/
theorem breakClose_breakOpen (s : Text) : breakClose (breakOpen s) = breakOpen (breakClose s) := by
  induction hn : s.length using Nat.strongRecOn generalizing s with
  | ind n ih =>
    subst hn
    by_cases hs : '>' ∈ s
    · obtain ⟨a, b, rfl, ha⟩ := List.eq_append_cons_of_mem hs
      obtain ⟨x, e, hx, he, hopen, hclose, hboth⟩ := break_through ha
      have hb := ih b.length (by simp; omega) b rfl
      have hsplit : a ++ '>' :: b = (a ++ ['>']) ++ b := by simp
      have hopens : ∀ u t, breakOpen ((u ++ ['>']) ++ t) = breakOpen (u ++ ['>']) ++ breakOpen t :=
        fun u => Pattern.Rewrites.of_decidedBy decidedBy_structuralOpen _ u
      have hcloses : ∀ u t,
          breakClose ((u ++ ['>']) ++ t) = breakClose (u ++ ['>']) ++ breakClose t :=
        fun u => Pattern.Rewrites.of_decidedBy decidedBy_structuralClose _ u
      have hend : ∀ t, breakOpen (e ++ t) = e ++ breakOpen t :=
        Pattern.Rewrites.of_notMem startsWith_structuralOpen he
      calc breakClose (breakOpen (a ++ '>' :: b))
          = breakClose ((x ++ ['>']) ++ breakOpen b) := by rw [hsplit, hopens, hopen]
        _ = (x ++ ['>']) ++ (e ++ breakOpen (breakClose b)) := by rw [hcloses, hboth, hb]; simp
        _ = breakOpen ((a ++ ['>']) ++ (e ++ breakClose b)) := by rw [hopens, hopen, hend]
        _ = breakOpen (breakClose (a ++ '>' :: b)) := by rw [hsplit, hcloses, hclose]; simp
    · have hopen : breakOpen s = s := Pattern.substitute_of_notMem endsAt_structuralOpen _ hs
      have hclose : breakClose s = s := Pattern.substitute_of_notMem endsAt_structuralClose _ hs
      rw [hopen, hclose, hopen]

/-! ## Opening tags that are found again -/

/-- Does the text start with the name of a structural tag that a line ends right behind, with a
structural opening tag at the start of the next line? -/
def breaksOff (s : Text) : Bool :=
  structuralNames.any fun name =>
    match after? foldCase ('<' :: name) s with
    | some ('\n' :: next) => (structuralOpen.span? next).isSome
    | _ => false

theorem breaksOff_of_after? {name s next : Text} (hname : name ∈ structuralNames)
    (h : after? foldCase ('<' :: name) s = some ('\n' :: next))
    (hnext : (structuralOpen.span? next).isSome = true) : breaksOff s = true := by
  refine List.any_eq_true.2 ⟨name, hname, ?_⟩
  rw [h]
  exact hnext

theorem opening_notMem : ∀ name ∈ structuralNames,
    foldCase '<' ∉ name ∧ foldCase '\n' ∉ name ∧ '>' ∉ name := by
  decide

/-- An opening tag that comes of the newlines put in front of the others is a name with another
opening tag right behind it. -/
theorem exists_behind_of_new {c : Char} {s : Text} (hnone : structuralOpen.span? (c :: s) = none)
    (hnew : (structuralOpen.span? (c :: breakOpen s)).isSome = true) :
    ∃ name ∈ structuralNames, ∃ u k, u.length ≤ s.length ∧ structuralOpen.span? u = some k ∧
      after? foldCase ('<' :: name) (c :: breakOpen s) = some (breakOpen u) := by
  obtain ⟨name, hname, hfits⟩ := structuralOpen_fits_iff.1 hnew
  obtain ⟨x, r, hword, hend⟩ := span?_openTag_isSome.1 hfits
  obtain ⟨hlt, hnewline, -⟩ := opening_notMem name hname
  obtain ⟨hc, hr⟩ : foldCase c = '<' ∧ after? foldCase name (breakOpen s) = some (x :: r) := by
    rw [after?] at hword
    split at hword
    · next hc => exact ⟨hc, hword⟩
    · cases hword
  rw [breakOpen, Pattern.after?_substitute_cons startsWith_structuralOpen hlt hnewline] at hr
  obtain ⟨u, hu, hxr⟩ := Option.map_eq_some_iff.1 hr
  cases hk : structuralOpen.span? u with
  | some k =>
    have hlen := (after?_suffix hu).2
    exact ⟨name, hname, u, k, by omega, hk, hword.trans (congrArg some hxr.symm)⟩
  | none =>
    -- the tag ends in the same way without the newlines, so it was found before
    cases u with
    | nil =>
      rw [Pattern.substitute_nil] at hxr
      cases hxr
    | cons d u =>
      rw [Pattern.substitute_cons_of_none _ _ hk] at hxr
      obtain ⟨rfl, rfl⟩ := List.cons.inj hxr
      have hold : after? foldCase ('<' :: name) (c :: s) = some (d :: u) := by
        rw [after?, if_pos hc, hu]
      have hend' : d = '>' ∨ isBlank d = true ∧ '>' ∈ u :=
        hend.imp_right (And.imp_right (mem_of_mem_breakOpen (by decide)))
      have hfits' := structuralOpen_fits_iff.2
        ⟨name, hname, span?_openTag_isSome.2 ⟨d, u, hold, hend'⟩⟩
      rw [hnone] at hfits'
      cases hfits'

/-- Such a tag is a name broken off, and goes through the tag behind it. -/
theorem breaksOff_of_new {c : Char} {s : Text} {m : Nat}
    (hnone : structuralOpen.span? (c :: s) = none)
    (hnew : structuralOpen.span? (c :: breakOpen s) = some m) :
    breaksOff (c :: breakOpen s) = true ∧
      ∃ t, (c :: breakOpen s).drop m = breakOpen t ∧ t.length ≤ s.length := by
  obtain ⟨name, hname, u, k, hlen, hk, hword⟩ :=
    exists_behind_of_new hnone (Option.isSome_of_eq_some hnew)
  obtain ⟨-, -, hgt⟩ := opening_notMem name hname
  have hbreak : breakOpen u = '\n' :: (u.take k ++ breakOpen (u.drop k)) :=
    Pattern.substitute_of_span _ _ hk
  rw [hbreak] at hword
  have hnext := endsAt_structuralOpen.span?_take_append decidedBy_structuralOpen hk
    (breakOpen (u.drop k))
  refine ⟨breaksOff_of_after? hname hword (Option.isSome_of_eq_some hnext), u.drop k, ?_, ?_⟩
  · -- the two tags end at the same `>`
    obtain ⟨q, hq, hqgt⟩ := endsAt_structuralOpen hk
    obtain ⟨front, hfront, hmem⟩ := Pattern.exists_append_of_after? hword
    have hnot : '>' ∉ front ++ '\n' :: q := by
      rw [List.mem_append, List.mem_cons, not_or, not_or]
      exact ⟨fun h => notMem_opening hgt (hmem _ h), by decide, hqgt⟩
    have hsplit : c :: breakOpen s = (front ++ '\n' :: q) ++ '>' :: breakOpen (u.drop k) := by
      rw [hfront, hq]
      simp
    rw [hsplit] at hnew ⊢
    exact (endsAt_structuralOpen.take_drop hnot hnew).2
  · rw [List.length_drop]
    omega

/-- **Main lemma.** Where lines are started at opening tags, every opening tag that is found starts
a line or is a name broken off. -/
theorem places_breakOpen (front s : Text) :
    ∀ place ∈ structuralOpen.placesFrom front (breakOpen s),
      atLineStart place.1 = true ∨ breaksOff place.2 = true := by
  induction hn : s.length using Nat.strongRecOn generalizing front s with
  | ind n ih =>
    subst hn
    cases s with
    | nil =>
      rw [breakOpen, Pattern.substitute_nil, Pattern.placesFrom_nil]
      intro place hplace
      cases hplace
    | cons c s =>
      cases hs : structuralOpen.span? (c :: s) with
      | some n =>
        have hbreak : breakOpen (c :: s) =
            '\n' :: ((c :: s).take n ++ breakOpen ((c :: s).drop n)) :=
          Pattern.substitute_of_span _ _ hs
        have hnewline : structuralOpen.span?
            ('\n' :: ((c :: s).take n ++ breakOpen ((c :: s).drop n))) = none :=
          startsWith_structuralOpen.span?_cons (by decide) _
        have hlen := Tail.length_take hs
        have hpiece := endsAt_structuralOpen.span?_take_append decidedBy_structuralOpen hs
        rw [hbreak, Pattern.placesFrom_cons_of_none hnewline,
          Pattern.placesFrom_of_span (hpiece _), List.take_left' hlen, List.drop_left' hlen,
          List.forall_mem_cons]
        exact ⟨Or.inl (atLineStart_concat_newline front),
          ih _ (structuralOpen.drop_shorter hs) _ _ rfl⟩
      | none =>
        have hbreak : breakOpen (c :: s) = c :: breakOpen s :=
          Pattern.substitute_cons_of_none _ _ hs
        rw [hbreak]
        cases hnew : structuralOpen.span? (c :: breakOpen s) with
        | none =>
          rw [Pattern.placesFrom_cons_of_none hnew]
          exact ih s.length (Nat.lt_succ_self _) _ _ rfl
        | some m =>
          obtain ⟨hoff, t, ht, hlen⟩ := breaksOff_of_new hs hnew
          rw [Pattern.placesFrom_of_span hnew, ht, List.forall_mem_cons]
          exact ⟨Or.inr hoff, ih t.length (Nat.lt_succ_of_le hlen) _ _ rfl⟩

/-! ## Regrouping again -/

/-- Has every name broken off in the regrouped page its line to itself? -/
def settled (page : Text) : Bool :=
  (structuralOpen.placesFrom [] (regroup page)).all fun place =>
    !breaksOff place.2 || atLineStart place.1

/-- Regrouping a settled page again changes no nonblank line. -/
theorem nonblankLines_regroup_twice {page : Text} (h : settled page = true) :
    nonblankLines (breakClose (breakOpen (regroup page))) = nonblankLines (regroup page) := by
  have hstart : ∀ place ∈ structuralOpen.placesFrom [] (regroup page),
      atLineStart place.1 = true := by
    intro place hplace
    have hsettled := List.all_eq_true.1 h place hplace
    rw [regroup_eq, breakClose_breakOpen] at hplace
    rcases places_breakOpen [] _ place hplace with hstart | hoff
    · exact hstart
    · rwa [hoff] at hsettled
  have hopen : nonblankLines (breakOpen (regroup page)) = nonblankLines (regroup page) :=
    nonblankLines_substitute_newline [] hstart
  rw [nonblankLines_breakClose_congr hopen, regroup_eq]
  exact (alike_breakClose_twice _).nonblankLines_eq

/-! ## Pages made of the lines of a page -/

/-- The trimmed lines of a page as it is written, blank ones left out. -/
def pageLines (page : Text) : List Text := nonblankLines (unifyLineEnds page)

/-- The lines of a regrouped page as they stand; a newline at the end starts no line. -/
def groupLines (page : Text) : List Text :=
  if (splitOn '\n' (regroup page)).getLast? = some [] then (splitOn '\n' (regroup page)).dropLast
  else splitOn '\n' (regroup page)

/-- A page made of the lines of a regrouped page. -/
def regrouped (page : Text) : Text := joinWith ['\n'] (groupLines page)

theorem carriageReturn_notMem_regrouped (page : Text) : '\r' ∉ regrouped page := by
  have hregroup : '\r' ∉ regroup page := fun h =>
    carriageReturn_notMem_unifyLineEnds page
      (mem_of_mem_breakOpen (by decide) (mem_of_mem_breakClose (by decide) h))
  have hline : ∀ l ∈ groupLines page, l ∈ splitOn '\n' (regroup page) := by
    intro l hl
    unfold groupLines at hl
    split at hl
    · exact List.dropLast_subset _ hl
    · exact hl
  intro h
  rcases mem_joinWith h with h | ⟨l, hl, h⟩
  · exact absurd h (by decide)
  · exact hregroup ((infix_of_mem_splitOn (hline l hl)).mem h)

theorem nonblankLines_regrouped (page : Text) :
    nonblankLines (regrouped page) = nonblankLines (regroup page) := by
  conv => rhs; rw [← joinWith_splitOn '\n' (regroup page)]
  unfold regrouped groupLines
  split
  · next h =>
    obtain ⟨ls, hls⟩ := List.getLast?_eq_some_iff.1 h
    rw [hls, List.dropLast_concat]
    by_cases hne : ls = []
    · rw [hne]
      rfl
    · rw [joinWith_concat _ _ hne, List.append_nil, nonblankLines_append, nonblankLines_nil,
        List.append_nil]
  · rfl

/-- **Main theorem.** The fragments of a page depend only on its trimmed lines that are not blank;
and a settled page has the fragments of the page made of its regrouped lines. -/
theorem fragments_of_layout :
    (∀ page page', pageLines page = pageLines page' → fragments page = fragments page') ∧
      ∀ page, settled page = true → fragments (regrouped page) = fragments page := by
  refine ⟨fun page page' h => fragments_of_nonblankLines h, fun page h => ?_⟩
  have hlines : lines (regrouped page) = lines page := by
    rw [lines_eq, regroup_eq, unifyLineEnds_of_notMem (carriageReturn_notMem_regrouped page),
      nonblankLines_breakClose_congr (nonblankLines_breakOpen_congr (nonblankLines_regrouped page)),
      nonblankLines_regroup_twice h]
    rfl
  rw [fragments, sections, hlines]
  rfl

/-- Line ends of each kind, blanks and blank lines do not matter; nor does a name broken off that
has its line to itself. -/
theorem fragments_of_layout_pages :
    (pageLines "<h4>A</h4>x\r\ny\r".toList = pageLines "\n <h4>A</h4>x \n\n\ty".toList ∧
      fragments "<h4>A</h4>x\r\ny\r".toList = fragments "\n <h4>A</h4>x \n\n\ty".toList) ∧
    settled "<h4>A</h4><h4<h4>B</h4>x".toList = true ∧
      fragments (regrouped "<h4>A</h4><h4<h4>B</h4>x".toList) =
        fragments "<h4>A</h4><h4<h4>B</h4>x".toList :=
  ⟨⟨by decide +kernel, fragments_of_layout.1 _ _ (by decide +kernel)⟩, by decide +kernel,
    fragments_of_layout.2 _ (by decide +kernel)⟩

/-- A name broken off behind other text is put on a line of its own when the page is regrouped
again. -/
theorem fragments_regrouped_ne : fragments (regrouped "<h4>A</h4>abc<h4<h4>".toList) ≠
    fragments "<h4>A</h4>abc<h4<h4>".toList := by
  decide +kernel

end Page

end DocTypes
