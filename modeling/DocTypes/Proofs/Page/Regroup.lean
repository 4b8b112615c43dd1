/-
  The lines of a regrouped page. `lines_append`: a newline divides the lines of a page whose tags
  are closed before it.
-/
import DocTypes.Proofs.Markup.Tag
import DocTypes.Proofs.Text.Lines

namespace DocTypes.Page

open Text Markup

/-! ## The structural tags -/

theorem startsWith_structuralOpen : structuralOpen.StartsWith '<' :=
  (startsWith_openTag _).or ((startsWith_openTag _).or
    ((startsWith_openTag _).or (startsWith_openTag _)))

theorem startsWith_structuralClose : structuralClose.StartsWith '<' :=
  (startsWith_closeTag _).or ((startsWith_closeTag _).or
    ((startsWith_closeTag _).or (startsWith_closeTag _)))

theorem decidedBy_structuralOpen : structuralOpen.DecidedBy '>' :=
  (decidedBy_openTag (by decide)).or ((decidedBy_openTag (by decide)).or
    ((decidedBy_openTag (by decide)).or (decidedBy_openTag (by decide))))

theorem decidedBy_structuralClose : structuralClose.DecidedBy '>' :=
  (decidedBy_closeTag (by decide)).or ((decidedBy_closeTag (by decide)).or
    ((decidedBy_closeTag (by decide)).or (decidedBy_closeTag (by decide))))

theorem stopsAt_structuralClose : structuralClose.StopsAt '\n' :=
  (stopsAt_closeTag (by decide)).or ((stopsAt_closeTag (by decide)).or
    ((stopsAt_closeTag (by decide)).or (stopsAt_closeTag (by decide))))

theorem endsAt_structuralOpen : structuralOpen.EndsAt '>' :=
  (endsAt_openTag (by decide)).or ((endsAt_openTag (by decide)).or
    ((endsAt_openTag (by decide)).or (endsAt_openTag (by decide))))

theorem endsAt_structuralClose : structuralClose.EndsAt '>' :=
  (endsAt_closeTag (by decide)).or ((endsAt_closeTag (by decide)).or
    ((endsAt_closeTag (by decide)).or (endsAt_closeTag (by decide))))

/-- Starts a line at every structural opening tag. -/
def breakOpen (s : Text) : Text := structuralOpen.substitute ('\n' :: ·) s

/-- Ends a line after every structural closing tag. -/
def breakClose (s : Text) : Text := structuralClose.substitute (· ++ ['\n']) s

theorem breakOpen_newline (s : Text) : breakOpen ('\n' :: s) = '\n' :: breakOpen s :=
  Pattern.substitute_cons_of_none _ _ (startsWith_structuralOpen.span?_cons (by decide) s)

theorem breakClose_newline (s : Text) : breakClose ('\n' :: s) = '\n' :: breakClose s :=
  Pattern.substitute_cons_of_none _ _ (startsWith_structuralClose.span?_cons (by decide) s)

theorem regroup_eq (page : Text) : regroup page = breakClose (breakOpen (unifyLineEnds page)) := rfl

theorem lines_eq (page : Text) : lines page = nonblankLines (regroup page) := rfl

/-! ## Line ends -/

theorem unifyLineEnds_of_notMem {s : Text} (h : '\r' ∉ s) : unifyLineEnds s = s := by
  induction s with
  | nil => rfl
  | cons c s ih =>
    rw [List.mem_cons, not_or] at h
    have hc : c ≠ '\r' := Ne.symm h.1
    rw [unifyLineEnds, if_neg hc, ih h.2]
    exact fun t hcr => absurd hcr hc

/-- A newline after a text is a line end of its own, unless the text ends with a carriage return:
then it belongs to that. -/
theorem unifyLineEnds_append (a b : Text) : ∃ u,
    unifyLineEnds (a ++ '\n' :: b) = u ++ '\n' :: unifyLineEnds b ∧
      (unifyLineEnds a = u ∨ unifyLineEnds a = u ++ ['\n']) := by
  induction a using unifyLineEnds.induct with
  | case1 => exact ⟨[], rfl, Or.inl rfl⟩
  | case2 a ih =>
    obtain ⟨u, h1, h2⟩ := ih
    refine ⟨'\n' :: u, ?_, ?_⟩
    · simp only [List.cons_append, unifyLineEnds, h1]
    · simpa only [unifyLineEnds, List.cons_append, List.cons.injEq, true_and] using h2
  | case3 c a hne ih =>
    obtain ⟨u, h1, h2⟩ := ih
    by_cases hend : c = '\r' ∧ a = []
    · obtain ⟨rfl, rfl⟩ := hend
      exact ⟨[], rfl, Or.inr rfl⟩
    · have happ : ∀ t, c = '\r' → a ++ '\n' :: b = '\n' :: t → False := by
        intro t hc ht
        cases a with
        | nil => exact hend ⟨hc, rfl⟩
        | cons d a => exact hne a hc (by rw [(List.cons.inj ht).1])
      refine ⟨(if c = '\r' then '\n' else c) :: u, ?_, ?_⟩
      · rw [List.cons_append, unifyLineEnds, h1, List.cons_append]
        exact happ
      · rw [unifyLineEnds]
        · simpa only [List.cons_append, List.cons.injEq, true_and] using h2
        · exact hne

theorem mem_unifyLineEnds {c : Char} (hr : c ≠ '\r') (hn : c ≠ '\n') (s : Text) :
    c ∈ unifyLineEnds s ↔ c ∈ s := by
  induction s using unifyLineEnds.induct with
  | case1 => rfl
  | case2 s ih => simp only [unifyLineEnds, List.mem_cons, ih, hr, hn, false_or]
  | case3 d s hne ih =>
    rw [unifyLineEnds, List.mem_cons, List.mem_cons, ih]
    · split
      · next hd => simp only [hd, hn, hr, false_or]
      · rfl
    · exact hne

/-- Line ends do not matter for whether the tags are closed. -/
theorem tagsClosed_unifyLineEnds (s : Text) :
    tagsClosed (unifyLineEnds s) = true ↔ tagsClosed s = true := by
  have hmem := mem_unifyLineEnds (c := '>') (by decide) (by decide)
  induction s using unifyLineEnds.induct with
  | case1 => rfl
  | case2 s ih =>
    simp [unifyLineEnds, tagsClosed_cons, ih]
  | case3 d s hne ih =>
    rw [unifyLineEnds]
    · simp only [tagsClosed_cons, ih, hmem]
      split
      · next hd => simp [hd]
      · rfl
    · exact hne

theorem tagsClosed_of_concat_newline {s : Text} (h : tagsClosed (s ++ ['\n']) = true) :
    tagsClosed s = true := by
  induction s with
  | nil => rfl
  | cons c s ih =>
    rw [List.cons_append, tagsClosed_cons] at h
    rw [tagsClosed_cons]
    exact ⟨fun hc => by simpa using h.1 hc, ih h.2⟩

/-! ## Pages one after the other -/

/-- A newline after closed tags keeps regrouping apart on its two sides. -/
theorem break_append {a : Text} (ha : tagsClosed a = true) (b : Text) :
    breakClose (breakOpen (a ++ '\n' :: b)) =
      breakClose (breakOpen a) ++ '\n' :: breakClose (breakOpen b) := by
  have hopen : breakOpen (a ++ '\n' :: b) = breakOpen a ++ '\n' :: breakOpen b := by
    have hr := rewrites_of_tagsClosed (f := ('\n' :: ·)) startsWith_structuralOpen
      decidedBy_structuralOpen ha
    rw [← breakOpen_newline]
    exact hr _
  rw [hopen]
  exact stopsAt_structuralClose.substitute_append _ _ _

/-- The lines of two pages, the first of them with closed tags, one after the other. -/
theorem lines_append {a : Text} (ha : tagsClosed a = true) (b : Text) :
    lines (a ++ '\n' :: b) = lines a ++ lines b := by
  obtain ⟨u, hab, hu⟩ := unifyLineEnds_append a b
  have hclosed := (tagsClosed_unifyLineEnds a).2 ha
  have hu' : tagsClosed u = true ∧
      nonblankLines (breakClose (breakOpen u)) = lines a := by
    rcases hu with hu | hu
    · rw [hu] at hclosed
      exact ⟨hclosed, by rw [lines_eq, regroup_eq, hu]⟩
    · rw [hu] at hclosed
      have hc := tagsClosed_of_concat_newline hclosed
      refine ⟨hc, ?_⟩
      have hnil : breakClose (breakOpen []) = [] := by
        rw [breakOpen, Pattern.substitute_nil, breakClose, Pattern.substitute_nil]
      rw [lines_eq, regroup_eq, hu, break_append hc, nonblankLines_append, hnil,
        nonblankLines_nil, List.append_nil]
  rw [lines_eq, regroup_eq, hab, break_append hu'.1, nonblankLines_append, hu'.2]
  rfl

end DocTypes.Page
