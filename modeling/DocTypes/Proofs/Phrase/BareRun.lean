/-
  Where a list of bare values ends. The values are read one after the other (`BareRun`), up to the
  first full stop, semicolon or closing parenthesis that stands in no remark (`BareRun.passed`).
  What stands behind such a mark is not looked at: the same values are read whatever it is
  (`BareRun.bareValues_append`), so a list may end within a decimal number or a dotted name. Then
  only its last value is a piece of that token (`BareRun.eq_rest`).
-/
import DocTypes.Proofs.Phrase.BareList

namespace DocTypes.Phrase

open Text

deriving instance DecidableEq for Occurrence

/-- The marks that end a list of bare values. -/
def listEnds : List Char := ['.', ';', ')']

/-- A list of bare values as it is read: of each value the text behind it, and at last what is left
behind the list. -/
inductive BareRun (words : Bool) : Text → List (Text × Text) → Text → Prop
  | last {s value behind : Text} (hvalue : bareValue? words s = some (value, behind))
      (hends : endsValues (skipQualifiers behind) = true) :
      BareRun words s [(value, behind)] (trimStart (skipQualifiers behind))
  | more {s value behind next : Text} {entries : List (Text × Text)} {rest : Text}
      (hvalue : bareValue? words s = some (value, behind))
      (hends : endsValues (skipQualifiers behind) = false)
      (hnext : valueSeparator.read (skipQualifiers behind) = some next)
      (hrun : BareRun words (trimStart next) entries rest) :
      BareRun words s ((value, behind) :: entries) rest

/-- The values of a list are those of its run. -/
theorem exists_bareRun {words : Bool} {s : Text} {vs : List Text}
    (h : bareValues words s = some vs) :
    ∃ entries rest, BareRun words s entries rest ∧ entries.map Prod.fst = vs := by
  fun_induction bareValues words s generalizing vs with
  | case1 => cases h
  | case2 =>
    rename_i s value behind hvalue skipped hends
    cases h
    exact ⟨_, _, .last hvalue hends, rfl⟩
  | case3 => cases h
  | case4 =>
    rename_i s value behind hvalue skipped hends next hnext ih
    obtain ⟨vs, hvs, rfl⟩ := Option.map_eq_some_iff.1 h
    obtain ⟨entries, rest, hrun, rfl⟩ := ih hvs
    exact ⟨_, _, .more hvalue (by simpa using hends) hnext hrun, rfl⟩

/-! ## With other text behind the list -/

section Append

variable {rest : Text} (hrest : ∀ c ∈ rest.head?, c ∈ listEnds)
include hrest

theorem trimStart_append (s : Text) :
    trimStart (s ++ rest) = trimStart s ++ rest := by
  have hblank : ∀ c ∈ listEnds, isBlank c = false := by decide
  exact dropWhile_append_of_head (fun c hc => hblank c (hrest c hc)) s

theorem read_char_append {d : Char} (hd : d ∉ listEnds) (s : Text) :
    (Pattern.char d).read (s ++ rest) = ((Pattern.char d).read s).map (· ++ rest) := by
  cases s with
  | nil =>
    cases rest with
    | nil => rfl
    | cons c rest =>
      have hne : ¬(c == d) = true := fun hc => hd (beq_iff_eq.1 hc ▸ hrest c rfl)
      rw [List.nil_append, Pattern.char, Pattern.read_one_cons, if_neg hne]
      rfl
  | cons c s =>
    rw [List.cons_append, Pattern.char, Pattern.read_one_cons, Pattern.read_one_cons]
    split <;> rfl

theorem read_blanks1_append (s : Text) :
    blanks1.read (s ++ rest) = (blanks1.read s).map (· ++ rest) := by
  have hblank : ∀ c ∈ listEnds, isBlank c = false := by decide
  rw [read_blanks1, read_blanks1, trimStart_append hrest]
  cases s with
  | nil =>
    cases rest with
    | nil => rfl
    | cons c rest =>
      rw [List.nil_append, List.head?_cons, Option.any_some, hblank c (hrest c rfl)]
      rfl
  | cons c s =>
    rw [List.cons_append, List.head?_cons, List.head?_cons]
    split <;> rfl

theorem read_conjunctionWord_append (s : Text) :
    conjunctionWord.read (s ++ rest) = (conjunctionWord.read s).map (· ++ rest) := by
  have hletters : ∀ c ∈ listEnds, c ∉ "or".toList ∧ c ∉ "and".toList := by decide
  have hor := after?_append_of_head id (fun c hc => (hletters c (hrest c hc)).1) s
  have hand := after?_append_of_head id (fun c hc => (hletters c (hrest c hc)).2) s
  rw [read_conjunctionWord, read_conjunctionWord, hor, hand]
  cases after? id "or".toList s with
  | some r => exact read_blanks1_append hrest r
  | none =>
    cases after? id "and".toList s with
    | some r => exact read_blanks1_append hrest r
    | none => rfl

theorem read_valueSeparator_append (s : Text) :
    valueSeparator.read (s ++ rest) = (valueSeparator.read s).map (· ++ rest) := by
  rw [read_valueSeparator, read_valueSeparator, trimStart_append hrest,
    read_char_append hrest (by decide), read_conjunctionWord_append hrest]
  cases (Pattern.char ',').read (trimStart s) with
  | none => rfl
  | some r =>
    simp only [Option.map_some, Option.some_or, trimStart_append hrest,
      read_conjunctionWord_append hrest]
    cases conjunctionWord.read (trimStart r) <;> rfl

theorem factor?_append (s : Text) :
    factor? (s ++ rest) = (factor? s).map fun r => (r.1, r.2 ++ rest) := by
  have hdecimal : ∀ c ∈ listEnds, isDecimal c = false := by decide
  have hrun := fun c hc => hdecimal c (hrest c hc)
  have hsign : timesSign.read (s ++ rest) = (timesSign.read s).map (· ++ rest) := by
    rw [read_timesSign, read_timesSign, trimStart_append hrest, read_char_append hrest (by decide)]
    cases (Pattern.char '*').read (trimStart s) with
    | none => rfl
    | some r => exact congrArg some (trimStart_append hrest r)
  unfold factor?
  rw [hsign]
  cases timesSign.read s with
  | none => rfl
  | some r =>
    simp only [Option.map_some, takeWhile_append_of_head hrun, dropWhile_append_of_head hrun]
    split <;> rfl

theorem bareValue?_append (words : Bool) (s : Text) :
    bareValue? words (s ++ rest) = (bareValue? words s).map fun r => (r.1, r.2 ++ rest) := by
  have hdecimal : ∀ c ∈ listEnds, isDecimal c = false := by decide
  have hchar : ∀ c ∈ listEnds, isValueChar c = false := by decide
  have hstart : ∀ c ∈ listEnds, (c.isLower || c == '_') = false := by decide
  have hhead : (s ++ rest).head?.any (fun c => c.isLower || c == '_') =
      s.head?.any fun c => c.isLower || c == '_' := by
    cases s with
    | cons c s => rfl
    | nil =>
      cases rest with
      | nil => rfl
      | cons c rest => exact hstart c (hrest c rfl)
  have htake := takeWhile_append_of_head (fun c hc => hdecimal c (hrest c hc)) s
  have hdrop := dropWhile_append_of_head (fun c hc => hdecimal c (hrest c hc)) s
  have htakeWord := takeWhile_append_of_head (fun c hc => hchar c (hrest c hc)) s
  have hdropWord := dropWhile_append_of_head (fun c hc => hchar c (hrest c hc)) s
  unfold isValueChar at htakeWord hdropWord
  simp only [bareValue?, htake, hdrop, htakeWord, hdropWord, hhead, factor?_append hrest]
  split
  · cases factor? (s.dropWhile isDecimal) with
    | none => rfl
    | some r => simp only [Option.map_some, Option.map_map]; rfl
  · split <;> rfl

theorem dropQualifier_append (s : Text) :
    dropQualifier (s ++ rest) = dropQualifier s ++ rest := by
  have hends : ∀ c ∈ listEnds, (c == ',' || c == ';' || c == '.' || c == ')') = true := by decide
  have hletters : ∀ c ∈ listEnds, c ∉ " or ".toList ∧ c ∉ " and ".toList := by decide
  induction s with
  | nil =>
    cases rest with
    | nil => rfl
    | cons c rest =>
      refine if_pos ?_
      rw [endsQualifier, List.head?_cons, Option.any_some, hends c (hrest c rfl)]
      rfl
  | cons c s ih =>
    have hend : endsQualifier (c :: s ++ rest) = endsQualifier (c :: s) := by
      unfold endsQualifier
      rw [isPrefixOf_append_of_head fun d hd => (hletters d (hrest d hd)).1,
        isPrefixOf_append_of_head fun d hd => (hletters d (hrest d hd)).2]
      rfl
    rw [List.cons_append] at hend ⊢
    rw [dropQualifier, dropQualifier, hend, ih]
    split <;> rfl

theorem endsValues_append (s : Text) :
    endsValues (s ++ rest) = endsValues s := by
  have hends : ∀ c ∈ listEnds, (c == '.' || c == ';' || c == ')') = true := by decide
  unfold endsValues
  rw [trimStart_append hrest]
  cases trimStart s with
  | cons c t => rfl
  | nil =>
    cases rest with
    | nil => rfl
    | cons c rest => exact hends c (hrest c rfl)

/-- Qualifiers are passed over in the same way, unless an open remark could be closed by what
follows. -/
theorem skipQualifiers_append {s : Text}
    (hclosed : (trimStart s).head? = some '(' → ')' ∈ trimStart s) :
    skipQualifiers (s ++ rest) = skipQualifiers s ++ rest := by
  have hletters : ∀ c ∈ listEnds, c ∉ "for ".toList := by decide
  have hremark : parenthetical.read (s ++ rest) = (parenthetical.read s).map (· ++ rest) := by
    rw [read_parenthetical, read_parenthetical, trimStart_append hrest,
      read_char_append hrest (by decide)]
    cases ht : trimStart s with
    | nil => rfl
    | cons c t =>
      rw [Pattern.char, Pattern.read_one_cons]
      split
      · next hc =>
        rw [ht, List.head?_cons, beq_iff_eq.1 hc] at hclosed
        have hmem : ')' ∈ t := by simpa using hclosed rfl
        obtain ⟨a, b, rfl, ha⟩ := List.eq_append_cons_of_mem hmem
        have h := Tail.read_through_char ha
        rw [Option.map_some, Option.bind_some, Option.bind_some, h, List.append_assoc,
          List.cons_append, h, Option.map_some]
      · rfl
  have hskip : skip parenthetical.toTail (s ++ rest) = skip parenthetical.toTail s ++ rest := by
    unfold skip
    rw [hremark]
    cases parenthetical.read s <;> rfl
  have hfor := after?_append_of_head id (fun c hc => hletters c (hrest c hc))
    (trimStart (skip parenthetical.toTail s))
  simp only [skipQualifiers, hskip, trimStart_append hrest, hfor]
  cases after? id "for ".toList (trimStart (skip parenthetical.toTail s)) with
  | none => rfl
  | some q => exact dropQualifier_append hrest q

end Append

theorem skipQualifiers_suffix_skip (s : Text) :
    skipQualifiers s <:+ skip parenthetical.toTail s := by
  simp only [skipQualifiers]
  split
  · next q h =>
    exact (dropQualifier_suffix q).trans ((after?_suffix h).1.trans (trimStart_suffix _))
  · exact List.suffix_rfl

theorem head?_ne_of_endsValues {s : Text} (h : endsValues s = true) :
    (trimStart s).head? ≠ some '(' := by
  intro hopen
  rw [endsValues, hopen] at h
  cases h

theorem head?_ne_of_valueSeparator {s r : Text} (h : valueSeparator.read s = some r) :
    (trimStart s).head? ≠ some '(' := by
  intro hopen
  rw [read_valueSeparator_of_head fun c hc => ?_] at h
  · cases h
  · rw [hopen] at hc
    cases hc
    decide

/-- A remark was closed in front of the text that comes behind the qualifiers. -/
theorem closed_of_skipQualifiers {s left rest : Text} (hrest : ∀ c ∈ rest.head?, c ∈ listEnds)
    (h : skipQualifiers (s ++ rest) = left ++ rest)
    (hhead : (trimStart (left ++ rest)).head? ≠ some '(') :
    (trimStart s).head? = some '(' → ')' ∈ trimStart s := by
  intro hopen
  obtain ⟨t, ht⟩ := List.head?_eq_some_iff.1 hopen
  have hread : parenthetical.read (s ++ rest) =
      (Tail.through (Pattern.char ')').toTail).read (t ++ rest) := by
    rw [read_parenthetical, trimStart_append hrest, ht, List.cons_append, Pattern.char,
      Pattern.read_one_cons, if_pos (beq_self_eq_true _), Option.bind_some]
  cases hr : (Tail.through (Pattern.char ')').toTail).read (t ++ rest) with
  | none =>
    -- nothing is passed over, so an opening parenthesis is left
    have hskip : skipQualifiers (s ++ rest) = s ++ rest := by
      have hfor : after? id "for ".toList (trimStart (s ++ rest)) = none := by
        rw [trimStart_append hrest, ht]
        rfl
      simp only [skipQualifiers, skip_of_none (hread.trans hr), hfor]
    rw [← h, hskip, trimStart_append hrest, ht] at hhead
    exact absurd rfl hhead
  | some r =>
    obtain ⟨a, ha, hsplit⟩ := Tail.eq_append_of_read_through_char hr
    have hsuffix := skipQualifiers_suffix_skip (s ++ rest)
    rw [skip_of_read (hread.trans hr), h] at hsuffix
    -- `rest` is left, so the parenthesis was closed in front of it
    have hlen := congrArg List.length hsplit
    have hle := hsuffix.length_le
    simp only [List.length_append, List.length_cons] at hlen hle
    rw [ht]
    refine List.mem_cons_of_mem _ ?_
    have hfront : a ++ [')'] <+: t ++ rest := ⟨r, by rw [hsplit, List.append_assoc]; rfl⟩
    have hprefix : a ++ [')'] <+: t := by
      refine List.prefix_of_prefix_length_le hfront (List.prefix_append t rest) ?_
      rw [List.length_append, List.length_singleton]
      omega
    exact hprefix.subset (by simp)

/-! ## What is passed over -/

/-- In the text the marks that end lists stand in remarks only. -/
inductive InRemarks : Text → Prop
  | nil : InRemarks []
  | plain {c : Char} {s : Text} (hc : c ∉ listEnds) (hs : InRemarks s) : InRemarks (c :: s)
  | remark {r s : Text} (hr : ')' ∉ r) (hs : InRemarks s) : InRemarks ('(' :: (r ++ ')' :: s))

namespace InRemarks

variable {s t : Text}

theorem append (hs : InRemarks s) (ht : InRemarks t) : InRemarks (s ++ t) := by
  induction hs with
  | nil => exact ht
  | plain hc _ ih => exact .plain hc ih
  | remark hr _ ih =>
    rw [List.cons_append, List.append_assoc, List.cons_append]
    exact .remark hr ih

theorem of_forall (h : ∀ c ∈ s, c ∉ listEnds) : InRemarks s := by
  induction s with
  | nil => exact .nil
  | cons c s ih =>
    exact .plain (h c List.mem_cons_self) (ih fun d hd => h d (List.mem_cons_of_mem c hd))

end InRemarks

/-- In front of `rest` the marks that end lists stand in remarks only. -/
def Passed (s rest : Text) : Prop := ∃ read, s = read ++ rest ∧ InRemarks read

namespace Passed

variable {s t u : Text}

theorem refl (s : Text) : Passed s s := ⟨[], rfl, .nil⟩

theorem trans (h : Passed s t) (h' : Passed t u) : Passed s u := by
  obtain ⟨a, rfl, ha⟩ := h
  obtain ⟨b, rfl, hb⟩ := h'
  exact ⟨a ++ b, (List.append_assoc a b u).symm, ha.append hb⟩

theorem suffix (h : Passed s t) : t <:+ s := by
  obtain ⟨read, rfl, -⟩ := h
  exact List.suffix_append read t

theorem of_dropWhile {p : Char → Bool} (hp : ∀ c ∈ listEnds, p c = false) (s : Text) :
    Passed s (s.dropWhile p) := by
  refine ⟨s.takeWhile p, List.takeWhile_append_dropWhile.symm, .of_forall fun c hc hend => ?_⟩
  have := List.mem_takeWhile_imp hc
  rw [hp c hend] at this
  cases this

theorem of_trimStart (s : Text) : Passed s (trimStart s) := of_dropWhile (by decide) s

theorem of_after? {w : Text} (hw : ∀ c ∈ w, c ∉ listEnds) (h : after? id w s = some t) :
    Passed s t :=
  ⟨w, eq_append_of_after? h, .of_forall hw⟩

theorem of_char {c : Char} (hc : c ∉ listEnds) (h : (Pattern.char c).read s = some t) :
    Passed s t :=
  ⟨[c], Pattern.eq_cons_of_read_char h, .plain hc .nil⟩

theorem of_conjunctionWord (h : conjunctionWord.read s = some t) : Passed s t := by
  rw [read_conjunctionWord] at h
  obtain ⟨u, hu, hblanks⟩ := Option.bind_eq_some_iff.1 h
  rw [read_blanks1] at hblanks
  have hword : Passed s u := by
    rcases Option.or_eq_some_iff.1 hu with hu | ⟨-, hu⟩
    · exact of_after? (by decide) hu
    · exact of_after? (by decide) hu
  split at hblanks
  · cases hblanks
    exact hword.trans (of_trimStart u)
  · cases hblanks

theorem of_valueSeparator (h : valueSeparator.read s = some t) : Passed s t := by
  rw [read_valueSeparator] at h
  refine (of_trimStart s).trans ?_
  rcases Option.or_eq_some_iff.1 h with h | ⟨-, h⟩
  · obtain ⟨u, hu, rfl⟩ := Option.map_eq_some_iff.1 h
    refine (of_char (by decide) hu).trans ((of_trimStart u).trans ?_)
    cases hword : conjunctionWord.read (trimStart u) with
    | none => exact refl _
    | some r => exact of_conjunctionWord hword
  · exact of_conjunctionWord h

theorem of_factor? {a : Text} (h : factor? s = some (a, t)) : Passed s t := by
  unfold factor? at h
  rw [read_timesSign] at h
  cases hu : (Pattern.char '*').read (trimStart s) with
  | none => rw [hu] at h; cases h
  | some u =>
    rw [hu] at h
    dsimp only [Option.map_some] at h
    split at h
    · cases h
    · cases h
      exact (of_trimStart s).trans ((of_char (by decide) hu).trans
        ((of_trimStart u).trans (of_dropWhile (by decide) _)))

theorem of_bareValue? {words : Bool} {v : Text} (h : bareValue? words s = some (v, t)) :
    Passed s t := by
  have hdigits : Passed s (s.dropWhile isDecimal) := of_dropWhile (by decide) s
  unfold bareValue? at h
  dsimp only at h
  split at h
  · split at h
    · next hfactor =>
      obtain ⟨p, -, hp⟩ := Option.map_eq_some_iff.1 h
      cases hp
      exact hdigits.trans (of_factor? hfactor)
    · cases h
      exact hdigits
  · split at h
    · cases h
      exact of_dropWhile (by decide) s
    · cases h

theorem of_dropQualifier (s : Text) : Passed s (dropQualifier s) := by
  induction s with
  | nil => exact refl []
  | cons c s ih =>
    rw [dropQualifier]
    split
    · exact refl _
    · next hend =>
      obtain ⟨read, hread, hin⟩ := ih
      refine ⟨c :: read, by rw [List.cons_append, ← hread], .plain ?_ hin⟩
      have hends : ∀ c ∈ listEnds, (c == ',' || c == ';' || c == '.' || c == ')') = true := by
        decide
      intro hc
      rw [endsQualifier, List.head?_cons, Option.any_some, hends c hc] at hend
      exact hend rfl

theorem of_parenthetical (h : parenthetical.read s = some t) : Passed s t := by
  rw [read_parenthetical] at h
  obtain ⟨u, hu, hthrough⟩ := Option.bind_eq_some_iff.1 h
  obtain ⟨a, ha, rfl⟩ := Tail.eq_append_of_read_through_char hthrough
  refine (of_trimStart s).trans ⟨'(' :: (a ++ [')']), ?_, .remark ha .nil⟩
  rw [Pattern.eq_cons_of_read_char hu, List.cons_append, List.append_assoc]
  rfl

theorem of_skipQualifiers (s : Text) : Passed s (skipQualifiers s) := by
  have hskip : Passed s (skip parenthetical.toTail s) := by
    cases h : parenthetical.read s with
    | none => rw [skip_of_none h]; exact refl s
    | some r => rw [skip_of_read h]; exact of_parenthetical h
  simp only [skipQualifiers]
  split
  · next q h =>
    exact hskip.trans ((of_trimStart _).trans ((of_after? (by decide) h).trans
      (of_dropQualifier q)))
  · exact hskip

end Passed

/-! ## The end of a list -/

namespace BareRun

variable {words : Bool} {s rest : Text} {entries : List (Text × Text)}

theorem head_rest (h : BareRun words s entries rest) : ∀ c ∈ rest.head?, c ∈ listEnds := by
  induction h with
  | last hvalue hends =>
    intro c hc
    rw [endsValues, Option.mem_def.1 hc, Option.all_some] at hends
    simp only [Bool.or_eq_true, beq_iff_eq] at hends
    rcases hends with (rfl | rfl) | rfl <;> decide
  | more _ _ _ _ ih => exact ih

/-- A list ends at the first of its marks that stands in no remark. -/
theorem passed (h : BareRun words s entries rest) : Passed s rest := by
  induction h with
  | last hvalue hends =>
    exact (Passed.of_bareValue? hvalue).trans ((Passed.of_skipQualifiers _).trans
      (Passed.of_trimStart _))
  | more hvalue hends hnext _ ih =>
    exact (Passed.of_bareValue? hvalue).trans ((Passed.of_skipQualifiers _).trans
      ((Passed.of_valueSeparator hnext).trans ((Passed.of_trimStart _).trans ih)))

/-- Directly behind a value a full stop can only stand where the list ends. -/
theorem eq_rest (h : BareRun words s entries rest) {e : Text × Text} (he : e ∈ entries)
    (hstop : e.2.head? = some '.') : e.2 = rest := by
  have hskip : ∀ t : Text, t.head? = some '.' → skipQualifiers t = t ∧ trimStart t = t := by
    intro t ht
    have hends : ∀ c ∈ t.head?, c ∈ listEnds := by
      rw [ht]
      rintro c ⟨⟩
      decide
    exact ⟨skipQualifiers_append (s := []) hends nofun, trimStart_append hends []⟩
  induction h with
  | last hvalue hends =>
    rw [List.mem_singleton] at he
    subst he
    obtain ⟨hskip, htrim⟩ := hskip _ hstop
    rw [hskip, htrim]
  | @more s value behind next entries rest hvalue hends hnext hrun ih =>
    rcases List.mem_cons.1 he with rfl | he
    · obtain ⟨hskip, htrim⟩ := hskip behind hstop
      rw [hskip, endsValues, htrim, hstop] at hends
      cases hends
    · exact ih he

/-- A value and the qualifiers behind it are read in the same way in front of another text. -/
theorem bareValue?_of_append {value behind left other : Text}
    (hrest : ∀ c ∈ rest.head?, c ∈ listEnds) (hother : ∀ c ∈ other.head?, c ∈ listEnds)
    (hvalue : bareValue? words (s ++ rest) = some (value, behind ++ rest))
    (hskip : skipQualifiers (behind ++ rest) = left ++ rest)
    (hhead : (trimStart (left ++ rest)).head? ≠ some '(') :
    bareValue? words (s ++ other) = some (value, behind ++ other) ∧
      skipQualifiers (behind ++ other) = left ++ other := by
  have hclosed := closed_of_skipQualifiers hrest hskip hhead
  rw [skipQualifiers_append hrest hclosed] at hskip
  rw [bareValue?_append hrest] at hvalue
  obtain ⟨r, hr, hpair⟩ := Option.map_eq_some_iff.1 hvalue
  obtain ⟨rfl, hbehind⟩ := Prod.mk.inj hpair
  rw [bareValue?_append hother, hr, Option.map_some, List.append_cancel_right hbehind,
    skipQualifiers_append hother hclosed, List.append_cancel_right hskip]
  exact ⟨rfl, rfl⟩

/-- The values of a list are the same, whatever comes behind it. -/
theorem bareValues_append {read other : Text} (h : BareRun words (read ++ rest) entries rest)
    (hother : ∀ c ∈ other.head?, c ∈ listEnds) :
    bareValues words (read ++ other) = some (entries.map Prod.fst) := by
  have hrest := h.head_rest
  generalize hs : read ++ rest = s at h
  induction h generalizing read with
  | @last s value behind hvalue hends =>
    subst hs
    obtain ⟨left, hleft⟩ := trimStart_suffix (skipQualifiers behind)
    obtain ⟨front, hfront⟩ := (trimStart_suffix _).trans (skipQualifiers_suffix behind)
    generalize trimStart (skipQualifiers behind) = rest at *
    subst hfront
    rw [← hleft] at hends
    obtain ⟨hvalue, hskip⟩ := bareValue?_of_append hrest hother hvalue hleft.symm
      (head?_ne_of_endsValues hends)
    rw [endsValues_append hrest] at hends
    rw [bareValues_eq, hvalue, Option.bind_some, hskip, endsValues_append hother, if_pos hends]
    rfl
  | @more s value behind next entries rest hvalue hends hnext hrun ih =>
    subst hs
    obtain ⟨more, rfl⟩ := hrun.passed.suffix.trans (trimStart_suffix next)
    obtain ⟨left, hleft⟩ : rest <:+ skipQualifiers behind :=
      (List.suffix_append more rest).trans (Passed.of_valueSeparator hnext).suffix
    have hsuffix : rest <:+ skipQualifiers behind := ⟨left, hleft⟩
    obtain ⟨front, rfl⟩ := hsuffix.trans (skipQualifiers_suffix behind)
    rw [← hleft] at hends hnext
    obtain ⟨hvalue, hskip⟩ := bareValue?_of_append hrest hother hvalue hleft.symm
      (head?_ne_of_valueSeparator hnext)
    rw [endsValues_append hrest] at hends
    rw [read_valueSeparator_append hrest] at hnext
    obtain ⟨r, hr, hmore⟩ := Option.map_eq_some_iff.1 hnext
    rw [List.append_cancel_right hmore] at hr
    have hvalues := ih hrest (trimStart_append hrest more).symm
    rw [bareValues_eq, hvalue, Option.bind_some, hskip, endsValues_append hother, hends,
      if_neg Bool.false_ne_true, read_valueSeparator_append hother, hr, Option.map_some,
      Option.bind_some, trimStart_append hother, hvalues]
    rfl

end BareRun

/-- Does a token go on, with a full stop that one of its characters follows? -/
def goesOn (inToken : Char → Bool) : Text → Bool
  | '.' :: c :: _ => inToken c
  | _ => false

theorem head?_of_goesOn {inToken : Char → Bool} {s : Text} (h : goesOn inToken s = true) :
    s.head? = some '.' := by
  unfold goesOn at h
  split at h
  · rfl
  · cases h

/-- The list behind a keyword ends at the first full stop, semicolon or closing parenthesis that
stands in no remark, or with the text. A value is a piece of a token that goes on behind it
exactly if the list ends directly behind the value at a full stop within the token; nothing
prevents this, as the values are the same whatever comes behind the list. -/
theorem exists_run_of_bareList {p : Primitive} {prose : Text} {o : Occurrence} {vs : List Text}
    (ho : o ∈ bareKeyword.occurrences prose) (h : bareList (p == .string) o.after = some vs) :
    ∃ read entries rest, prose = o.before ++ o.found ++ (read ++ rest) ∧
      BareRun (p == .string) (trimStart (read ++ rest)) entries rest ∧
      entries.map Prod.fst = vs ∧ InRemarks read ∧ (∀ c ∈ rest.head?, c ∈ listEnds) ∧
      (∀ inToken, ∀ e ∈ entries,
        goesOn inToken e.2 = true ↔ e.2 = rest ∧ goesOn inToken rest = true) ∧
      ∀ other, (∀ c ∈ other.head?, c ∈ listEnds) →
        bareList (p == .string) (read ++ other) = some vs := by
  obtain ⟨entries, rest, hrun, rfl⟩ := exists_bareRun h
  obtain ⟨read, hread, hin⟩ := (Passed.of_trimStart o.after).trans hrun.passed
  obtain ⟨front, hback, hprose⟩ := Pattern.before_of_mem_occurrencesFrom ho
  have hrest := hrun.head_rest
  rw [hread] at hrun
  refine ⟨read, entries, rest, ?_, hrun, rfl, hin, hrest, fun inToken e he => ?_,
    fun other hother => ?_⟩
  · rw [hprose, Occurrence.before, hback, hread]
    simp
  · constructor
    · intro hon
      have heq := hrun.eq_rest he (head?_of_goesOn hon)
      exact ⟨heq, heq ▸ hon⟩
    · rintro ⟨heq, hon⟩
      exact heq ▸ hon
  · rw [trimStart_append hrest] at hrun
    rw [bareList, trimStart_append hother]
    exact hrun.bareValues_append hother

/-- A full stop in a remark does not end a list, one in a decimal number does. -/
theorem exists_run_of_bareList_decimal :
    let prose := "Scale; must be one of 1 (not 0.5), full for 2 or 3.25.".toList
    let o : Occurrence := ⟨"Scale; must be ".toList.reverse, "one of".toList,
      " 1 (not 0.5), full for 2 or 3.25.".toList⟩
    let vs := ["1".toList, "full".toList, "3".toList]
    o ∈ bareKeyword.occurrences prose ∧ bareList (Primitive.string == .string) o.after = some vs ∧
      ∃ read entries rest, prose = o.before ++ o.found ++ (read ++ rest) ∧
        BareRun (Primitive.string == .string) (trimStart (read ++ rest)) entries rest ∧
        entries.map Prod.fst = vs ∧ InRemarks read ∧ (∀ c ∈ rest.head?, c ∈ listEnds) ∧
        (∀ inToken, ∀ e ∈ entries,
          goesOn inToken e.2 = true ↔ e.2 = rest ∧ goesOn inToken rest = true) ∧
        ∀ other, (∀ c ∈ other.head?, c ∈ listEnds) →
          bareList (Primitive.string == .string) (read ++ other) = some vs := by
  intro prose o vs
  have ho : o ∈ bareKeyword.occurrences prose := by decide +kernel
  have hvs : bareList (Primitive.string == .string) o.after = some vs := by decide +kernel
  exact ⟨ho, hvs, exists_run_of_bareList ho hvs⟩

/-- A list that ends within a decimal number, with a piece of it as a value. -/
theorem enumeration_of_decimal :
    let o : Occurrence := ⟨[], "must be".toList, " 5.5".toList⟩
    o ∈ bareKeyword.occurrences "must be 5.5".toList ∧
      bareList true o.after = some ["5".toList] ∧
      BareRun true (trimStart o.after) [("5".toList, ".5".toList)] ".5".toList ∧
      goesOn Char.isAlphanum ".5".toList = true ∧
      enumeration .string "must be 5.5".toList = some ["5".toList] := by
  intro o
  have hrun : BareRun true (trimStart o.after) [("5".toList, ".5".toList)] ".5".toList :=
    .last (by decide +kernel) (by decide +kernel)
  exact ⟨by decide +kernel, by decide +kernel, hrun, by decide, by decide +kernel⟩

end DocTypes.Phrase
