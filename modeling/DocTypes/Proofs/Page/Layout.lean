/-
  The layout of a page does not matter. Two texts are alike if one is the other with different
  gaps, a gap being blanks with a newline among them; texts of the same nonblank lines are alike
  up to a newline at each end (`alike_canonical`). A structural tag is found where it is found in
  an alike text, and ends at the corresponding `>`, so regrouping keeps texts alike
  (`Pattern.alike_substitute`); hence the lines of a regrouped page, and its fragments, depend only
  on the nonblank lines of the page (`fragments_of_nonblankLines`).
-/
import DocTypes.Page.Parts
import DocTypes.Proofs.Page.Regroup
import DocTypes.Proofs.Text.Words

namespace DocTypes

open Text

namespace Text

/-! ## Blanks behind a text -/

theorem nonblankLines_concat_of_blank {c : Char} (hc : isBlank c = true) (s : Text) :
    nonblankLines (s ++ [c]) = nonblankLines s := by
  by_cases hn : c = '\n'
  · rw [hn, nonblankLines_append, nonblankLines_nil, List.append_nil]
  · unfold nonblankLines
    rw [map_splitOn_concat hn (trim_concat_of_blank hc)]

/-- A gap between lines: blanks, a newline among them. -/
structure IsLineGap (g : Text) : Prop where
  blank : ∀ c ∈ g, isBlank c = true
  newline : '\n' ∈ g

theorem isLineGap_newline : IsLineGap ['\n'] := ⟨by simp; decide, List.mem_singleton_self _⟩

/-- A gap starts with a blank. -/
theorem IsLineGap.exists_cons {g : Text} (hg : IsLineGap g) :
    ∃ c g', g = c :: g' ∧ isBlank c = true := by
  cases g with
  | nil => cases hg.newline
  | cons c g => exact ⟨c, g, rfl, hg.blank c (List.mem_cons_self ..)⟩

/-- A gap divides the lines before it from those after it. -/
theorem nonblankLines_gap {g : Text} (hg : IsLineGap g) (a s : Text) :
    nonblankLines (a ++ (g ++ s)) = nonblankLines a ++ nonblankLines s := by
  obtain ⟨hblank, hmem⟩ := hg
  induction g generalizing a with
  | nil => cases hmem
  | cons c g ih =>
    have hg : ∀ d ∈ g, isBlank d = true := fun d hd => hblank d (List.mem_cons_of_mem c hd)
    by_cases hc : c = '\n'
    · rw [hc, List.cons_append, nonblankLines_append, nonblankLines_blanks hg]
    · have hrest := ih (a ++ [c]) hg (List.mem_of_ne_of_mem (Ne.symm hc) hmem)
      rw [nonblankLines_concat_of_blank (hblank c (List.mem_cons_self ..))] at hrest
      rw [← hrest]
      simp

/-! ## Texts that differ in their gaps -/

/-- One text is the other with different gaps between its lines. -/
inductive Alike : Text → Text → Prop where
  | nil : Alike [] []
  | cons (c : Char) {s t : Text} : Alike s t → Alike (c :: s) (c :: t)
  | gap {g h s t : Text} : IsLineGap g → IsLineGap h → Alike s t → Alike (g ++ s) (h ++ t)

namespace Alike

variable {s t a b : Text} {c : Char}

theorem refl (s : Text) : Alike s s := by
  induction s with
  | nil => exact .nil
  | cons c s ih => exact .cons c ih

theorem symm (h : Alike s t) : Alike t s := by
  induction h with
  | nil => exact .nil
  | cons c _ ih => exact .cons c ih
  | gap hg hh _ ih => exact .gap hh hg ih

theorem append (h : Alike s t) (h' : Alike a b) : Alike (s ++ a) (t ++ b) := by
  induction h with
  | nil => exact h'
  | cons c _ ih => exact .cons c ih
  | gap hg hh _ ih =>
    rw [List.append_assoc, List.append_assoc]
    exact .gap hg hh ih

/-- A character that is no blank stands in both texts. -/
theorem exists_cons (h : Alike (c :: s) t) (hc : isBlank c = false) :
    ∃ t', t = c :: t' ∧ Alike s t' := by
  generalize hx : c :: s = x at h
  cases h with
  | nil => cases hx
  | cons d h =>
    cases hx
    exact ⟨_, rfl, h⟩
  | gap hg =>
    obtain ⟨d, g', rfl, hd⟩ := hg.exists_cons
    cases hx
    rw [hc] at hd
    cases hd

/-- Where a blank stands in one text, a blank stands in the other. -/
theorem exists_blank (h : Alike (c :: s) t) (hc : isBlank c = true) :
    ∃ d t', t = d :: t' ∧ isBlank d = true := by
  generalize hx : c :: s = x at h
  cases h with
  | nil => cases hx
  | cons d h =>
    cases hx
    exact ⟨c, _, rfl, hc⟩
  | gap _ hh =>
    obtain ⟨d, g', rfl, hd⟩ := hh.exists_cons
    exact ⟨d, _, rfl, hd⟩

/-- The texts are alike up to the first place of a character that is no blank, and behind it. -/
theorem exists_append (hc : isBlank c = false) (h : Alike (a ++ c :: b) t) (ha : c ∉ a) :
    ∃ a' b', t = a' ++ c :: b' ∧ c ∉ a' ∧ Alike a a' ∧ Alike b b' := by
  generalize hx : a ++ c :: b = x at h
  induction h generalizing a with
  | nil => simp at hx
  | @cons d s t h ih =>
    cases a with
    | nil =>
      cases hx
      exact ⟨[], t, rfl, List.not_mem_nil, .nil, h⟩
    | cons e a =>
      obtain ⟨rfl, hs⟩ := List.cons.inj hx
      rw [List.mem_cons, not_or] at ha
      obtain ⟨a', b', rfl, ha', hfront, hback⟩ := ih ha.2 hs
      exact ⟨e :: a', b', rfl, by simp [ha.1, ha'], .cons e hfront, hback⟩
  | @gap g h s t hg hh hst ih =>
    have hnot : ∀ {g : Text}, IsLineGap g → c ∉ g := fun hg hmem => by
      rw [hg.blank c hmem] at hc
      cases hc
    have hbehind : ∀ a0, a = g ++ a0 → s = a0 ++ c :: b →
        ∃ a' b', h ++ t = a' ++ c :: b' ∧ c ∉ a' ∧ Alike a a' ∧ Alike b b' := by
      intro a0 ha0 hs
      rw [ha0, List.mem_append, not_or] at ha
      obtain ⟨a', b', rfl, ha', hfront, hback⟩ := ih ha.2 hs.symm
      refine ⟨h ++ a', b', by simp, ?_, ha0 ▸ .gap hg hh hfront, hback⟩
      rw [List.mem_append, not_or]
      exact ⟨hnot hh, ha'⟩
    rcases List.append_eq_append_iff.1 hx with ⟨g0, hg0, hs⟩ | ⟨a0, ha0, hs⟩
    · -- the place stands behind the gap
      cases g0 with
      | nil =>
        rw [List.append_nil] at hg0
        exact hbehind [] (by rw [hg0, List.append_nil]) hs.symm
      | cons d g0 =>
        obtain ⟨rfl, -⟩ := List.cons.inj hs
        exact absurd (by rw [hg0]; simp) (hnot hg)
    · exact hbehind a0 ha0 hs

theorem mem (hc : isBlank c = false) (h : Alike s t) (hs : c ∈ s) : c ∈ t := by
  obtain ⟨a, b, rfl, ha⟩ := List.eq_append_cons_of_mem hs
  obtain ⟨a', b', rfl, -⟩ := h.exists_append hc ha
  simp

/-- A word without blanks is read from both texts, and what follows it is alike. -/
theorem after? {key : Char → Char} {w r : Text} (hw : ∀ c, key c ∈ w → isBlank c = false)
    (h : Alike s t) (hr : Text.after? key w s = some r) :
    ∃ r', Text.after? key w t = some r' ∧ Alike r r' := by
  induction w generalizing s t with
  | nil =>
    cases hr
    exact ⟨t, rfl, h⟩
  | cons a w ih =>
    cases s with
    | nil => cases hr
    | cons c s =>
      rw [Text.after?] at hr
      split at hr
      · next hc =>
        obtain ⟨t', rfl, hst⟩ := h.exists_cons (hw c (hc ▸ List.mem_cons_self ..))
        obtain ⟨r', hr', hrest⟩ :=
          ih (fun d hd => hw d (List.mem_cons_of_mem a hd)) hst hr
        exact ⟨r', by rw [Text.after?, if_pos hc, hr'], hrest⟩
      · cases hr

/-- Alike texts have the same nonblank lines. -/
theorem nonblankLines_append (h : Alike s t) (a : Text) :
    nonblankLines (a ++ s) = nonblankLines (a ++ t) := by
  induction h generalizing a with
  | nil => rfl
  | cons c _ ih => simpa using ih (a ++ [c])
  | gap hg hh _ ih =>
    have hrest := ih []
    rw [List.nil_append, List.nil_append] at hrest
    rw [nonblankLines_gap hg, nonblankLines_gap hh, hrest]

theorem nonblankLines_eq (h : Alike s t) : nonblankLines s = nonblankLines t :=
  h.nonblankLines_append []

end Alike

/-! ## Texts of the same lines -/

/-- Each line between newlines. -/
def spaced (ls : List Text) : Text := '\n' :: ls.flatMap (· ++ ['\n'])

theorem spaced_splitOn (s : Text) : spaced (splitOn '\n' s) = '\n' :: (s ++ ['\n']) := by
  have hne := splitOn_ne_nil '\n' s
  have hjoin : ∀ ls : List Text, ls ≠ [] →
      ls.flatMap (· ++ ['\n']) = joinWith ['\n'] ls ++ ['\n'] := by
    intro ls hls
    induction ls with
    | nil => exact absurd rfl hls
    | cons l ls ih =>
      cases ls with
      | nil => simp
      | cons m ms =>
        rw [List.flatMap_cons, ih (List.cons_ne_nil m ms), joinWith_cons_cons]
        simp
  rw [spaced, hjoin _ hne, joinWith_splitOn]

/-- Blanks in front of a gap make a gap with it. -/
theorem Alike.blanks {l s t : Text} (hl : ∀ c ∈ l, isBlank c = true) (h : Alike ('\n' :: s) t) :
    Alike (l ++ '\n' :: s) t := by
  generalize hx : '\n' :: s = x at h
  cases h with
  | nil => cases hx
  | cons c h =>
    cases hx
    have hgap : IsLineGap (l ++ ['\n']) := by
      refine ⟨fun c hc => ?_, by simp⟩
      rcases List.mem_append.1 hc with hc | hc
      · exact hl c hc
      · rw [List.mem_singleton.1 hc]
        rfl
    simpa using Alike.gap hgap isLineGap_newline h
  | @gap g h s' t' hg hh hst =>
    have hgap : IsLineGap (l ++ g) := by
      refine ⟨fun c hc => ?_, List.mem_append_right l hg.newline⟩
      rcases List.mem_append.1 hc with hc | hc
      · exact hl c hc
      · exact hg.blank c hc
    rw [← List.append_assoc]
    exact .gap hgap hh hst

theorem spaced_cons (l : Text) (ls : List Text) : spaced (l :: ls) = '\n' :: (l ++ spaced ls) := by
  simp [spaced]

/-- Lines are alike to their trimmed forms, blank ones left out. -/
theorem alike_spaced (ls : List Text) :
    Alike (spaced ls) (spaced ((ls.map trim).filter fun line => !line.isEmpty)) := by
  induction ls with
  | nil => exact .refl _
  | cons l ls ih =>
    obtain ⟨front, back, hl, hfront, hback⟩ := trim_append_blanks l
    rw [spaced_cons, List.map_cons]
    by_cases hblank : trim l = []
    · rw [List.filter_cons_of_neg (by simp [hblank])]
      have hblanks : ∀ c ∈ '\n' :: l, isBlank c = true := by
        rw [hl, hblank]
        intro c hc
        simp only [List.append_nil, List.mem_cons, List.mem_append] at hc
        rcases hc with rfl | hc | hc
        · rfl
        · exact hfront c hc
        · exact hback c hc
      exact Alike.blanks hblanks ih
    · rw [List.filter_cons_of_pos (by simpa using hblank), spaced_cons]
      have hgap : IsLineGap ('\n' :: front) := by
        refine ⟨fun c hc => ?_, List.mem_cons_self ..⟩
        rcases List.mem_cons.1 hc with rfl | hc
        · rfl
        · exact hfront c hc
      have hrest : Alike (trim l ++ (back ++ spaced ls)) _ :=
        (Alike.refl (trim l)).append (Alike.blanks hback ih)
      have hline := Alike.gap hgap isLineGap_newline hrest
      conv => lhs; rw [hl]
      simpa using hline

/-- Between newlines, a text is alike to its nonblank lines. -/
theorem alike_canonical (s : Text) : Alike ('\n' :: (s ++ ['\n'])) (spaced (nonblankLines s)) :=
  spaced_splitOn s ▸ alike_spaced (splitOn '\n' s)

/-- What keeps texts alike and keeps newlines around a text depends, in its nonblank lines, on the
nonblank lines of the text alone. -/
theorem nonblankLines_congr {f : Text → Text} (halike : ∀ s t, Alike s t → Alike (f s) (f t))
    (hspaced : ∀ s, f ('\n' :: (s ++ ['\n'])) = '\n' :: (f s ++ ['\n'])) {s t : Text}
    (h : nonblankLines s = nonblankLines t) : nonblankLines (f s) = nonblankLines (f t) := by
  have hcanonical : ∀ u, nonblankLines (f u) = nonblankLines (f (spaced (nonblankLines u))) := by
    intro u
    rw [← (halike _ _ (alike_canonical u)).nonblankLines_eq, hspaced, nonblankLines_newline,
      nonblankLines_append, nonblankLines_nil, List.append_nil]
  rw [hcanonical s, hcanonical t, h]

end Text

/-! ## Patterns in texts that are alike -/

namespace Tail

/-- The tail fits where it fits in an alike text. -/
def IgnoresGaps (a : Tail) : Prop :=
  ∀ ⦃s t : Text⦄, Alike s t → (a.span? s).isSome → (a.span? t).isSome

theorem IgnoresGaps.or {a b : Tail} (ha : a.IgnoresGaps) (hb : b.IgnoresGaps) :
    (a.or b).IgnoresGaps := by
  intro s t h hs
  have hor : ∀ u, ((a.or b).span? u).isSome = ((a.span? u).isSome || (b.span? u).isSome) :=
    fun u => Option.isSome_or
  rw [hor, Bool.or_eq_true] at hs ⊢
  exact hs.imp (ha h) (hb h)

/-- A word and then a tail fit where the tail fits what follows the word. -/
theorem isSome_span?_word {key : Char → Char} {w : Text} (hne : w ≠ []) (b : Tail) (s : Text) :
    (((Pattern.like key w hne).followedBy b).span? s).isSome =
      ((after? key w s).bind b.read).isSome := by
  have hparts := read_followedBy (Pattern.like key w hne).toTail b s
  rw [Pattern.read_like, Tail.read] at hparts
  rw [← hparts, Option.isSome_map]
  rfl

/-- A word without blanks, and then what ignores gaps. -/
theorem ignoresGaps_word {key : Char → Char} {w : Text} (hne : w ≠ [])
    (hw : ∀ c, key c ∈ w → isBlank c = false) {b : Tail} (hb : b.IgnoresGaps) :
    ((Pattern.like key w hne).followedBy b).IgnoresGaps := by
  intro s t h hs
  rw [isSome_span?_word] at hs ⊢
  cases hr : after? key w s with
  | none =>
    rw [hr] at hs
    cases hs
  | some r =>
    obtain ⟨r', hr', hrest⟩ := h.after? hw hr
    rw [hr, Option.bind_some, Tail.read, Option.isSome_map] at hs
    rw [hr', Option.bind_some, Tail.read, Option.isSome_map]
    exact hb hrest hs

theorem ignoresGaps_like {key : Char → Char} {w : Text} (hne : w ≠ [])
    (hw : ∀ c, key c ∈ w → isBlank c = false) : (Pattern.like key w hne).IgnoresGaps := by
  intro s t h hs
  have hsome : ∀ u, ((Pattern.like key w hne).span? u).isSome = (after? key w u).isSome :=
    fun u => Option.isSome_map
  rw [hsome] at hs ⊢
  obtain ⟨r, hr⟩ := Option.isSome_iff_exists.1 hs
  obtain ⟨r', hr', -⟩ := h.after? hw hr
  rw [hr']
  rfl

end Tail

namespace Pattern

variable {p : Pattern}

/-- A substitution keeps texts alike if it keeps what it writes alike. -/
theorem alike_substitute (hp : p.IgnoresGaps) (hstart : p.StartsWith '<')
    (hend : p.EndsAt '>') {f : Text → Text} (hf : ∀ a b, Alike a b → Alike (f a) (f b))
    {s t : Text} (h : Alike s t) : Alike (p.substitute f s) (p.substitute f t) := by
  induction hn : s.length using Nat.strongRecOn generalizing s t with
  | ind n ih =>
    subst hn
    cases h with
    | nil => exact .refl _
    | @cons c s t h =>
      cases hs : p.span? (c :: s) with
      | none =>
        have ht : p.span? (c :: t) = none := by
          rw [← Option.not_isSome_iff_eq_none] at hs ⊢
          exact fun h' => hs (hp (.cons c h.symm) h')
        rw [p.substitute_cons_of_none f hs, p.substitute_cons_of_none f ht]
        exact .cons c (ih s.length (Nat.lt_succ_self _) h rfl)
      | some n =>
        obtain ⟨m, ht⟩ := Option.isSome_iff_exists.1 (hp (.cons c h) (by rw [hs]; rfl))
        obtain ⟨a, b, hab, ha, htake, hdrop⟩ := hend.exists_append hs
        obtain ⟨a', b', hab', ha', hfront, hback⟩ :=
          Alike.exists_append rfl (hab ▸ Alike.cons c h) ha
        obtain ⟨htake', hdrop'⟩ := hend.take_drop ha' (hab' ▸ ht)
        have hshort : b.length < (c :: s).length := hdrop ▸ p.drop_shorter hs
        rw [p.substitute_of_span f hs, p.substitute_of_span f ht, htake, hdrop, hab', htake',
          hdrop']
        exact (hf _ _ (hfront.append (.refl ['>']))).append (ih _ hshort hback rfl)
    | @gap g h s t hg hh hst =>
      have hnot : ∀ {g : Text}, IsLineGap g → '<' ∉ g := fun hg hmem =>
        absurd (hg.blank _ hmem) (by decide)
      have hshort : s.length < (g ++ s).length := by
        obtain ⟨c, g', rfl, -⟩ := hg.exists_cons
        rw [List.length_append, List.length_cons]
        omega
      rw [Rewrites.of_notMem hstart (hnot hg), Rewrites.of_notMem hstart (hnot hh)]
      exact .gap hg hh (ih _ hshort hst rfl)

end Pattern

namespace Markup

/-! ## Structural tags -/

/-- The end of an opening tag: its `>`, or a blank and a `>` behind it. -/
theorem span?_tagEnd_isSome {c : Char} {s : Text} :
    (tagEnd.span? (c :: s)).isSome = true ↔ c = '>' ∨ isBlank c = true ∧ '>' ∈ s := by
  have hthrough : (throughClose.span? s).isSome = true ↔ '>' ∈ s := by
    refine ⟨fun h => ?_, span?_throughClose_isSome⟩
    obtain ⟨n, hn⟩ := Option.isSome_iff_exists.1 h
    exact List.mem_of_mem_take ((Tail.endsAt_through_char '>').mem hn)
  have hread : (tagEnd.span? (c :: s)).isSome = (tagEnd.read (c :: s)).isSome := by
    rw [Tail.read, Option.isSome_map]
  rw [hread, tagEnd, Tail.read_or, Option.isSome_or, Bool.or_eq_true]
  refine or_congr ?_ ?_
  · rw [Pattern.char, Pattern.read_one_cons]
    by_cases hc : c = '>' <;> simp [hc]
  · show ((((Pattern.one isBlank).toTail.followedBy throughClose)).read (c :: s)).isSome = true ↔ _
    rw [Tail.read_followedBy, Pattern.read_one_cons, ← hthrough]
    by_cases hc : isBlank c = true
    · rw [if_pos hc, Option.bind_some, Tail.read, Option.isSome_map, and_iff_right hc]
    · rw [if_neg hc]
      simp [hc]

theorem ignoresGaps_tagEnd : tagEnd.IgnoresGaps := by
  intro s t h hs
  cases s with
  | nil => cases hs
  | cons c s =>
    rcases span?_tagEnd_isSome.1 hs with rfl | ⟨hc, hgt⟩
    · obtain ⟨t', rfl, -⟩ := h.exists_cons rfl
      exact span?_tagEnd_isSome.2 (Or.inl rfl)
    · obtain ⟨d, t', rfl, hd⟩ := h.exists_blank hc
      have hmem : '>' ∈ d :: t' := h.mem rfl (List.mem_cons_of_mem c hgt)
      refine span?_tagEnd_isSome.2 (Or.inr ⟨hd, List.mem_of_ne_of_mem ?_ hmem⟩)
      rintro rfl
      cases hd

theorem notBlank_of_foldCase {w : Text} (hw : w.all (!isBlank ·) = true) (c : Char)
    (hc : foldCase c ∈ w) : isBlank c = false := by
  rw [Bool.eq_false_iff]
  intro hblank
  rw [foldCase_of_blank hblank] at hc
  have hnot := List.all_eq_true.1 hw c hc
  rw [hblank] at hnot
  cases hnot

theorem ignoresGaps_openTag {name : Text} (hname : ('<' :: name).all (!isBlank ·) = true) :
    (openTag name).IgnoresGaps :=
  Tail.ignoresGaps_word _ (notBlank_of_foldCase hname) ignoresGaps_tagEnd

theorem ignoresGaps_closeTag {name : Text}
    (hname : ('<' :: '/' :: name ++ ['>']).all (!isBlank ·) = true) :
    (closeTag name).IgnoresGaps :=
  Tail.ignoresGaps_like (by simp) (notBlank_of_foldCase hname)

end Markup

namespace Page

open Markup

theorem ignoresGaps_structuralOpen : structuralOpen.IgnoresGaps :=
  (ignoresGaps_openTag (by decide)).or ((ignoresGaps_openTag (by decide)).or
    ((ignoresGaps_openTag (by decide)).or (ignoresGaps_openTag (by decide))))

theorem ignoresGaps_structuralClose : structuralClose.IgnoresGaps :=
  (ignoresGaps_closeTag (by decide)).or ((ignoresGaps_closeTag (by decide)).or
    ((ignoresGaps_closeTag (by decide)).or (ignoresGaps_closeTag (by decide))))

theorem alike_breakOpen {s t : Text} (h : Alike s t) : Alike (breakOpen s) (breakOpen t) :=
  Pattern.alike_substitute ignoresGaps_structuralOpen startsWith_structuralOpen
    endsAt_structuralOpen (fun _ _ h => .cons '\n' h) h

theorem alike_breakClose {s t : Text} (h : Alike s t) : Alike (breakClose s) (breakClose t) :=
  Pattern.alike_substitute ignoresGaps_structuralClose startsWith_structuralClose
    endsAt_structuralClose (fun _ _ h => h.append (.refl ['\n'])) h

/-! ## Regrouping -/

theorem breakOpen_spaced (s : Text) :
    breakOpen ('\n' :: (s ++ ['\n'])) = '\n' :: (breakOpen s ++ ['\n']) := by
  have hspan : ∀ t, structuralOpen.span? (t ++ ['\n']) = structuralOpen.span? t := by
    intro t
    by_cases ht : '>' ∈ t
    · exact decidedBy_structuralOpen t ['\n'] ht
    · rw [endsAt_structuralOpen.span?_of_notMem ht,
        endsAt_structuralOpen.span?_of_notMem (by simpa using ht)]
  have happend : breakOpen (s ++ ['\n']) = breakOpen s ++ breakOpen ['\n'] :=
    Pattern.substitute_append_of_stable fun t _ _ => hspan t
  have hend : breakOpen ['\n'] = ['\n'] :=
    Pattern.substitute_of_notMem endsAt_structuralOpen _ (by decide)
  rw [breakOpen_newline, happend, hend]

theorem breakClose_spaced (s : Text) :
    breakClose ('\n' :: (s ++ ['\n'])) = '\n' :: (breakClose s ++ ['\n']) := by
  have happend : breakClose (s ++ ['\n']) = breakClose s ++ '\n' :: breakClose [] :=
    stopsAt_structuralClose.substitute_append _ s []
  have hend : breakClose [] = [] := Pattern.substitute_nil _ _
  rw [breakClose_newline, happend, hend]

theorem nonblankLines_breakOpen_congr {s t : Text} (h : nonblankLines s = nonblankLines t) :
    nonblankLines (breakOpen s) = nonblankLines (breakOpen t) :=
  nonblankLines_congr (fun _ _ => alike_breakOpen) breakOpen_spaced h

theorem nonblankLines_breakClose_congr {s t : Text} (h : nonblankLines s = nonblankLines t) :
    nonblankLines (breakClose s) = nonblankLines (breakClose t) :=
  nonblankLines_congr (fun _ _ => alike_breakClose) breakClose_spaced h

/-- **Main lemma.** Pages of the same nonblank lines, once their line ends are unified, have the
same fragments. -/
theorem fragments_of_nonblankLines {page page' : Text}
    (h : nonblankLines (unifyLineEnds page) = nonblankLines (unifyLineEnds page')) :
    fragments page = fragments page' := by
  have hlines : lines page = lines page' :=
    nonblankLines_breakClose_congr (nonblankLines_breakOpen_congr h)
  rw [fragments, sections, hlines]
  rfl

end Page

end DocTypes
