/-
  Headings in a regrouped page. `isHeading_head?_lines`: a page that starts with a heading does so
  after regrouping. `exists_lines_append`: a page without a `>` adds nothing but lines without one
  to a page that starts with a heading.
-/
import DocTypes.Proofs.Page.Regroup

namespace DocTypes.Page

open Text Markup

/-! ## The first line -/

theorem isHeading_append {s : Text} (h : isHeading s = true) (rest : Text) :
    isHeading (s ++ rest) = true := by
  rw [isHeading, Bool.or_eq_true] at h ⊢
  exact h.imp (opensWith_append · rest) (opensWith_append · rest)

theorem isHeading_through (a b : Text) :
    isHeading (a ++ '>' :: b) = isHeading (a ++ ['>']) := by
  have h3 : '>' ∉ "h3".toList := by decide
  have h4 : '>' ∉ "h4".toList := by decide
  rw [isHeading, isHeading, opensWith_through h3, opensWith_through h4]

theorem head?_of_isHeading {s : Text} (h : isHeading s = true) : s.head? = some '<' := by
  rw [isHeading, Bool.or_eq_true] at h
  exact h.elim head?_of_opensWith head?_of_opensWith

/-- A heading's tag is read where there is a `>` for it. -/
theorem span?_structuralOpen_of_isHeading {s : Text} (h : isHeading s = true) (hgt : '>' ∈ s) :
    ∃ n, structuralOpen.span? s = some n := by
  have hread : (structuralOpen.read s).isSome := by
    show ((openTag "h3".toList).toTail.or ((openTag "h4".toList).or
      ((openTag "table".toList).or (openTag "ul".toList))).toTail).read s |>.isSome
    rw [Tail.read_or, Option.isSome_or, Bool.or_eq_true]
    rw [isHeading, Bool.or_eq_true] at h
    refine h.imp (read_openTag_isSome rfl · (by decide) hgt) fun h => ?_
    show ((openTag "h4".toList).toTail.or
      ((openTag "table".toList).or (openTag "ul".toList)).toTail).read s |>.isSome
    rw [Tail.read_or, Option.isSome_or, Bool.or_eq_true]
    exact Or.inl (read_openTag_isSome rfl h (by decide) hgt)
  rw [Tail.read, Option.isSome_map] at hread
  exact Option.isSome_iff_exists.1 hread

/-- The part of a heading line that makes it a heading: up to its first `>`, or all of it. -/
theorem exists_headingPrefix {t : Text} (h : isHeading (trimEnd (t.takeWhile (· != '\n'))) = true) :
    ∃ w, w <+: t ∧ isHeading w = true ∧ '\n' ∉ w ∧ '>' ∉ w.dropLast ∧
      ∀ c ∈ w.getLast?, isBlank c = false := by
  have hpre := (trimEnd_isPrefix (t.takeWhile (· != '\n')))
  have hnl : '\n' ∉ trimEnd (t.takeWhile (· != '\n')) := fun hmem => by
    have := List.all_eq_true.1 List.all_takeWhile _ (hpre.mem hmem)
    simp at this
  have hlast : ∀ c ∈ (trimEnd (t.takeWhile (· != '\n'))).getLast?, isBlank c = false :=
    fun c hc => getLast?_trimEnd hc
  generalize trimEnd (t.takeWhile (· != '\n')) = l at *
  have hlt : l <+: t := hpre.trans (List.takeWhile_prefix _)
  by_cases hgt : '>' ∈ l
  · obtain ⟨a, b, rfl, ha⟩ := List.eq_append_cons_of_mem hgt
    have hw : a ++ ['>'] <+: a ++ '>' :: b := ⟨b, by simp⟩
    refine ⟨a ++ ['>'], hw.trans hlt, isHeading_through a b ▸ h, fun hmem => hnl (hw.mem hmem),
      by rwa [List.dropLast_concat], fun c hc => ?_⟩
    rw [List.getLast?_concat] at hc
    cases hc
    rfl
  · exact ⟨l, hlt, h, hnl, fun hmem => hgt ((List.dropLast_prefix l).mem hmem), hlast⟩

theorem lt_notMem_blanks {s : Text} (h : ∀ c ∈ s, isBlank c = true) : '<' ∉ s :=
  fun hmem => absurd (h _ hmem) (by decide)

theorem gt_notMem_blanks {s : Text} (h : ∀ c ∈ s, isBlank c = true) : '>' ∉ s :=
  fun hmem => absurd (h _ hmem) (by decide)

theorem nonblankLines_breakClose {b : Text} (hb : ∀ c ∈ b, isBlank c = true) (s : Text) :
    nonblankLines (breakClose (b ++ s)) = nonblankLines (breakClose s) := by
  have : breakClose (b ++ s) = b ++ breakClose s :=
    Pattern.Rewrites.of_notMem startsWith_structuralClose (lt_notMem_blanks hb) s
  rw [this, nonblankLines_blanks hb]

/-- Regrouping keeps such a part, with blanks before it. -/
theorem exists_regroup_eq (rest : Text) {front w : Text} (hfront : ∀ c ∈ front, isBlank c = true)
    (hw : isHeading w = true) (hgt : '>' ∉ w.dropLast) :
    ∃ front' rest', breakClose (breakOpen (front ++ (w ++ rest))) = front' ++ (w ++ rest') ∧
      ∀ c ∈ front', isBlank c = true := by
  have hopen : ∃ front' rest', breakOpen (w ++ rest) = front' ++ (w ++ rest') ∧
      ∀ c ∈ front', isBlank c = true := by
    by_cases hmem : '>' ∈ w ++ rest
    · obtain ⟨n, hn⟩ := span?_structuralOpen_of_isHeading (isHeading_append hw rest) hmem
      have hle := endsAt_structuralOpen.length_le hgt hn
      refine ⟨['\n'], rest.take (n - w.length) ++ breakOpen ((w ++ rest).drop n), ?_, ?_⟩
      · rw [breakOpen, Pattern.substitute_of_span _ _ hn, List.take_append,
          List.take_of_length_le hle]
        simp [breakOpen]
      · intro c hc
        rw [List.mem_singleton.1 hc]
        rfl
    · exact ⟨[], rest, Pattern.substitute_of_notMem endsAt_structuralOpen _ hmem, by simp⟩
  obtain ⟨front', rest', hopen, hfront'⟩ := hopen
  have hblank : ∀ c ∈ front ++ front', isBlank c = true := fun c hc =>
    (List.mem_append.1 hc).elim (hfront c) (hfront' c)
  obtain ⟨rest'', hclose⟩ := Pattern.prefix_substitute endsAt_structuralClose
    (f := (· ++ ['\n'])) (fun x => List.prefix_append x _) hgt rest'
  refine ⟨front ++ front', rest'', ?_, hblank⟩
  have h1 : breakOpen (front ++ (w ++ rest)) = front ++ breakOpen (w ++ rest) :=
    Pattern.Rewrites.of_notMem startsWith_structuralOpen (lt_notMem_blanks hfront) _
  have h2 : breakClose (front ++ front' ++ (w ++ rest')) =
      front ++ front' ++ breakClose (w ++ rest') :=
    Pattern.Rewrites.of_notMem startsWith_structuralClose (lt_notMem_blanks hblank) _
  rw [h1, hopen, ← List.append_assoc front front', h2, hclose]
  rfl

theorem isHeading_trimStart {s : Text} (h : (nonblankLines s).head?.any isHeading = true) :
    isHeading (trimStart s) = true := by
  rw [head?_nonblankLines] at h
  split at h
  · cases h
  obtain ⟨w, ⟨rest, hwt⟩, hw, -⟩ := exists_headingPrefix h
  exact hwt ▸ isHeading_append hw rest

/-- A page whose first line is a heading, once its line ends are unified, has a heading for the
first of its regrouped lines. -/
theorem isHeading_head?_lines {page : Text}
    (h : (nonblankLines (unifyLineEnds page)).head?.any isHeading = true) :
    ∀ l ∈ (lines page).head?, isHeading l = true := by
  rw [head?_nonblankLines] at h
  split at h
  · cases h
  obtain ⟨w, ⟨rest, hwt⟩, hw, hnl, hgt, hlast⟩ := exists_headingPrefix h
  have hhead := head?_of_isHeading hw
  have hne : w ≠ [] := by
    rintro rfl
    cases hhead
  have hfront : ∀ c ∈ (unifyLineEnds page).takeWhile isBlank, isBlank c = true :=
    fun c hc => List.all_eq_true.1 List.all_takeWhile c hc
  obtain ⟨front', rest', hregroup, hfront'⟩ := exists_regroup_eq rest hfront hw hgt
  rw [hwt, trimStart, List.takeWhile_append_dropWhile, ← regroup_eq] at hregroup
  obtain ⟨more, hmore⟩ := head?_nonblankLines_append hne
    (fun c hc => by rw [hhead] at hc; cases hc; rfl) hlast hnl rest'
  intro l hl
  rw [lines_eq, hregroup, nonblankLines_blanks hfront', hmore] at hl
  cases hl
  exact isHeading_append hw more

/-! ## Pages without a `>` -/

/-- Tags that a text opens but does not close go through the first tag after a newline, which
starts a line all the same. -/
theorem exists_breakOpen_eq {u b t : Text} {n : Nat} (hu : '>' ∉ u)
    (hb : ∀ c ∈ b, isBlank c = true) (hn : structuralOpen.span? t = some n) :
    ∃ u' b', breakOpen (u ++ '\n' :: (b ++ t)) =
        u' ++ '\n' :: (b' ++ (t.take n ++ breakOpen (t.drop n))) ∧
      '>' ∉ u' ∧ ∀ c ∈ b', isBlank c = true := by
  have hbt : '>' ∉ '\n' :: b := fun hmem =>
    (List.mem_cons.1 hmem).elim (by decide) (gt_notMem_blanks hb)
  induction u with
  | nil =>
    have hstay : '<' ∉ '\n' :: b := fun hmem =>
      (List.mem_cons.1 hmem).elim (by decide) (lt_notMem_blanks hb)
    have hopen : breakOpen ('\n' :: b ++ t) = '\n' :: b ++ breakOpen t :=
      Pattern.Rewrites.of_notMem startsWith_structuralOpen hstay t
    refine ⟨[], b ++ ['\n'], ?_, by simp, fun c hc => ?_⟩
    · rw [List.nil_append, ← List.cons_append, hopen, breakOpen,
        Pattern.substitute_of_span _ _ hn, breakOpen]
      simp
    · rcases List.mem_append.1 hc with hc | hc
      · exact hb c hc
      · rw [List.mem_singleton.1 hc]
        rfl
  | cons c u ih =>
    rw [List.mem_cons, not_or] at hu
    cases hs : structuralOpen.span? (c :: u ++ '\n' :: (b ++ t)) with
    | none =>
      obtain ⟨u', b', hopen, hu', hb'⟩ := ih hu.2
      refine ⟨c :: u', b', ?_, ?_, hb'⟩
      · rw [List.cons_append] at hs ⊢
        rw [breakOpen, Pattern.substitute_cons_of_none _ _ hs, ← breakOpen, hopen]
        rfl
      · rw [List.mem_cons, not_or]
        exact ⟨hu.1, hu'⟩
    | some m =>
      have hsplit : c :: u ++ '\n' :: (b ++ t) = (c :: u ++ '\n' :: b) ++ t := by simp
      have hgt : '>' ∉ c :: u ++ '\n' :: b := fun hmem =>
        (List.mem_append.1 hmem).elim (fun h => (List.mem_cons.1 h).elim hu.1 hu.2) hbt
      rw [hsplit] at hs
      have hm := endsAt_structuralOpen.eq_length_add hgt hs hn
      refine ⟨'\n' :: c :: u, b, ?_, ?_, hb⟩
      · rw [hsplit, breakOpen, Pattern.substitute_of_span _ _ hs, hm, List.take_length_add_append,
          List.drop_length_add_append, breakOpen]
        simp
      · rw [List.mem_cons, not_or, List.mem_cons, not_or]
        exact ⟨by decide, hu.1, hu.2⟩

theorem regroup_of_notMem {s : Text} (h : '>' ∉ s) : breakClose (breakOpen s) = s := by
  have hopen : breakOpen s = s := Pattern.substitute_of_notMem endsAt_structuralOpen _ h
  rw [hopen]
  exact Pattern.substitute_of_notMem endsAt_structuralClose _ h

theorem lines_of_notMem {page : Text} (h : '>' ∉ page) : ∀ l ∈ lines page, '>' ∉ l := by
  intro l hl hmem
  have hu : '>' ∉ unifyLineEnds page := by rwa [mem_unifyLineEnds (by decide) (by decide)]
  rw [lines_eq, regroup_eq, regroup_of_notMem hu] at hl
  exact hu ((infix_of_mem_nonblankLines hl).mem hmem)

/-- Lines of a page without a `>` in front of a page that starts with a heading add none with a
`>` in it. -/
theorem exists_lines_append {page next : Text} (hpage : '>' ∉ page)
    (hnext : isHeading (trimStart (unifyLineEnds next)) = true) :
    ∃ ls, lines (page ++ '\n' :: next) = ls ++ lines next ∧ ∀ l ∈ ls, '>' ∉ l := by
  obtain ⟨u, hab, hu⟩ := unifyLineEnds_append page next
  have hgt : '>' ∉ u := by
    intro hmem
    apply hpage
    rw [← mem_unifyLineEnds (by decide) (by decide)]
    rcases hu with hu | hu <;> rw [hu]
    · exact hmem
    · exact List.mem_append_left _ hmem
  have hnotMem : ∀ {s}, '>' ∉ s → ∀ l ∈ nonblankLines s, '>' ∉ l := fun hs l hl hmem =>
    hs ((infix_of_mem_nonblankLines hl).mem hmem)
  have hb : ∀ c ∈ (unifyLineEnds next).takeWhile isBlank, isBlank c = true :=
    fun c hc => List.all_eq_true.1 List.all_takeWhile c hc
  have hv : unifyLineEnds next = (unifyLineEnds next).takeWhile isBlank ++
    trimStart (unifyLineEnds next) := List.takeWhile_append_dropWhile.symm
  rw [lines_eq, regroup_eq, hab, lines_eq, regroup_eq]
  generalize (unifyLineEnds next).takeWhile isBlank = b at *
  generalize trimStart (unifyLineEnds next) = t at *
  rw [hv]
  by_cases hmem : '>' ∈ t
  · obtain ⟨n, hn⟩ := span?_structuralOpen_of_isHeading hnext hmem
    obtain ⟨u', b', hopen, hu', hb'⟩ := exists_breakOpen_eq hgt hb hn
    have hnl : ∀ c ∈ b ++ ['\n'], isBlank c = true := fun c hc =>
      (List.mem_append.1 hc).elim (hb c) fun hc => by rw [List.mem_singleton.1 hc]; rfl
    have hopen' : breakOpen (b ++ t) = b ++ ['\n'] ++ (t.take n ++ breakOpen (t.drop n)) := by
      have : breakOpen (b ++ t) = b ++ breakOpen t :=
        Pattern.Rewrites.of_notMem startsWith_structuralOpen (lt_notMem_blanks hb) t
      rw [this, breakOpen, Pattern.substitute_of_span _ _ hn, breakOpen]
      simp
    have hclose : breakClose u' = u' := Pattern.substitute_of_notMem endsAt_structuralClose _ hu'
    have hsplit : ∀ a, breakClose (u' ++ '\n' :: a) = breakClose u' ++ '\n' :: breakClose a :=
      stopsAt_structuralClose.substitute_append _ u'
    refine ⟨nonblankLines u', ?_, hnotMem hu'⟩
    rw [hopen, hsplit, hclose, nonblankLines_append, hopen', nonblankLines_breakClose hb',
      nonblankLines_breakClose hnl]
  · have hbt : '>' ∉ b ++ t := fun h => (List.mem_append.1 h).elim (gt_notMem_blanks hb) hmem
    have hall : '>' ∉ u ++ '\n' :: (b ++ t) := fun h => (List.mem_append.1 h).elim hgt fun h =>
      (List.mem_cons.1 h).elim (by decide) hbt
    refine ⟨nonblankLines u, ?_, hnotMem hgt⟩
    rw [regroup_of_notMem hall, regroup_of_notMem hbt, nonblankLines_append]

end DocTypes.Page
