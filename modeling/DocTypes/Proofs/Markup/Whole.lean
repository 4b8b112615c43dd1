/-
  Substitutions that leave the other tags whole. In a text whose tags are whole, with no `<` inside
  a tag, a pattern that reads whole tags cuts no other tag in two and joins none together
  (`substitute_tag`). So it makes no new place for a tag (`count_substitute_le_of_whole`), a new
  place for two tags with blanks in between only where it stood between them
  (`count_spaced_substitute_le`), and it adds to the text between the tags what it puts in and
  nothing else (`count_between_le`).
-/
import DocTypes.Proofs.Markup.Tag
import DocTypes.Proofs.Text.Count

namespace DocTypes

open Text

/-! ## Patterns that read whole tags -/

namespace Tail

/-- Every piece that is read ends with a `c`. -/
def EndsWith (t : Tail) (c : Char) : Prop :=
  ∀ ⦃s n⦄, t.span? s = some n → ∃ q, s.take n = q ++ [c]

theorem EndsAt.endsWith {t : Tail} {c : Char} (ht : t.EndsAt c) : t.EndsWith c := by
  intro s n h
  obtain ⟨q, hq, -⟩ := ht h
  exact ⟨q, hq⟩

theorem EndsWith.followedBy {b : Tail} {c : Char} (a : Tail) (hb : b.EndsWith c) :
    (a.followedBy b).EndsWith c := by
  intro s n h
  obtain ⟨k, -, h⟩ := Option.bind_eq_some_iff.1 h
  obtain ⟨m, hm, rfl⟩ := Option.map_eq_some_iff.1 h
  obtain ⟨q, hq⟩ := hb hm
  exact ⟨s.take k ++ q, by rw [List.take_add, hq, List.append_assoc]⟩

theorem EndsWith.through {a : Tail} {c : Char} (ha : a.EndsWith c) : a.through.EndsWith c := by
  intro s n h
  induction s generalizing n with
  | nil => exact ha h
  | cons d s ih =>
    rcases Option.or_eq_some_iff.1 h with h | ⟨-, h⟩
    · exact ha h
    · obtain ⟨m, hm, rfl⟩ := Option.map_eq_some_iff.1 h
      obtain ⟨q, hq⟩ := ih hm
      exact ⟨d :: q, by rw [List.take_succ_cons, hq]; rfl⟩

theorem eq_of_span? {a b : Tail} (h : ∀ s, a.span? s = b.span? s) : a = b := by
  obtain ⟨f, hf⟩ := a
  obtain ⟨g, hg⟩ := b
  obtain rfl : f = g := funext h
  rfl

theorem followedBy_assoc (a b d : Tail) :
    (a.followedBy b).followedBy d = a.followedBy (b.followedBy d) := by
  refine eq_of_span? fun s => ?_
  simp only [Tail.followedBy]
  cases a.span? s with
  | none => rfl
  | some n =>
    rw [Option.bind_some, Option.bind_some]
    cases b.span? (s.drop n) with
    | none => rfl
    | some m =>
      rw [Option.map_some, Option.bind_some, Option.bind_some, List.drop_drop, Option.map_map]
      exact congrArg (Option.map · _) (funext fun k => Nat.add_assoc n m k)

end Tail

theorem Pattern.eq_of_toTail {p q : Pattern} (h : p.toTail = q.toTail) : p = q := by
  obtain ⟨t, hp⟩ := p
  obtain ⟨u, hq⟩ := q
  obtain rfl : t = u := h
  rfl

/-- The pattern reads from the start of a tag through the end of a tag. -/
structure Pattern.ReadsTags (p : Pattern) : Prop where
  startsWith : p.StartsWith '<'
  endsWith : p.EndsWith '>'

/-- What is read is settled by the end of the tag at the front. -/
structure Pattern.ReadsTag (q : Pattern) : Prop where
  startsWith : q.StartsWith '<'
  decidedBy : q.DecidedBy '>'

/-- First `a`, then blanks, then `b`. -/
def Pattern.spaced (a b : Pattern) : Pattern :=
  a.followedBy ((Tail.many isBlank).followedBy b.toTail)

namespace Markup

/-- Is there no `<` between a `<` and the next `>`? -/
def tagsWhole : Text → Bool
  | [] => true
  | c :: s => (c != '<' || !(s.takeWhile (· != '>')).contains '<') && tagsWhole s

theorem tagsWhole_cons {c : Char} {s : Text} : tagsWhole (c :: s) = true ↔
    (c = '<' → '<' ∉ s.takeWhile (· != '>')) ∧ tagsWhole s = true := by
  rw [tagsWhole, Bool.and_eq_true, Bool.or_eq_true, bne_iff_ne, Bool.not_eq_true',
    ← Bool.not_eq_true, List.contains_iff_mem, Decidable.imp_iff_not_or]

theorem tagsWhole_of_suffix {s t : Text} (h : s <:+ t) (ht : tagsWhole t = true) :
    tagsWhole s = true := by
  obtain ⟨front, rfl⟩ := h
  induction front with
  | nil => exact ht
  | cons c front ih => exact ih (tagsWhole_cons.1 ht).2

theorem tagsWhole_append {a b : Text} (ha : '<' ∉ a) (hb : tagsWhole b = true) :
    tagsWhole (a ++ b) = true := by
  induction a with
  | nil => exact hb
  | cons c a ih =>
    rw [List.mem_cons, not_or] at ha
    exact tagsWhole_cons.2 ⟨fun hc => absurd hc.symm ha.1, ih ha.2⟩

theorem tagsWhole_tag {u v : Text} (hu : '<' ∉ u) (hgt : '>' ∉ u) (hv : tagsWhole v = true) :
    tagsWhole ('<' :: (u ++ '>' :: v)) = true := by
  refine tagsWhole_cons.2 ⟨fun _ hmem => hu ?_, tagsWhole_append hu (tagsWhole_cons.2 ⟨?_, hv⟩)⟩
  · rwa [takeWhile_ne hgt] at hmem
  · intro h
    cases h

/-- Behind a `<` the tag ends before another one starts, or no tag ends at all. -/
theorem tag_cases {s : Text} (h : tagsWhole ('<' :: s) = true) :
    '>' ∉ s ∨ ∃ u v, s = u ++ '>' :: v ∧ '<' ∉ u ∧ '>' ∉ u := by
  by_cases hgt : '>' ∈ s
  · obtain ⟨u, v, rfl, hu⟩ := List.eq_append_cons_of_mem hgt
    have hwhole := (tagsWhole_cons.1 h).1 rfl
    rw [takeWhile_ne hu] at hwhole
    exact Or.inr ⟨u, v, rfl, hwhole, hu⟩
  · exact Or.inl hgt

/-! ## Tags of the result -/

section Substitution

variable {p q a b : Pattern} {f : Text → Text} {s : Text}

theorem span?_of_notMem (hp : p.ReadsTags) (hs : '>' ∉ s) : p.span? s = none := by
  cases h : p.span? s with
  | none => rfl
  | some n =>
    obtain ⟨front, hfront⟩ := hp.endsWith h
    have hmem : '>' ∈ s.take n := hfront ▸ List.mem_append_right front List.mem_cons_self
    exact absurd (List.mem_of_mem_take hmem) hs

/-- A substitution goes on behind a tag that it keeps. -/
theorem substitute_tag (hp : p.ReadsTags) (hs : tagsWhole ('<' :: s) = true) :
    '>' ∉ s ∧ p.substitute f s = s ∨
      ∃ u v, s = u ++ '>' :: v ∧ '<' ∉ u ∧ '>' ∉ u ∧ tagsWhole v = true ∧
        p.substitute f s = u ++ '>' :: p.substitute f v := by
  rcases tag_cases hs with hgt | ⟨u, v, rfl, hlt, hgt⟩
  · exact Or.inl ⟨hgt, Pattern.substitute_of_none
      (fun t ht => span?_of_notMem hp fun hmem => hgt (ht.mem hmem)) f⟩
  · refine Or.inr ⟨u, v, rfl, hlt, hgt, ?_, ?_⟩
    · exact tagsWhole_of_suffix ⟨'<' :: u ++ ['>'], by simp⟩ hs
    · have hu : p.Rewrites f u u := .of_notMem hp.startsWith hlt
      have hclose : p.Rewrites f ['>'] ['>'] := .of_notMem hp.startsWith (by decide)
      simpa using (hu.append hclose) v

/-- Tags stay whole. -/
theorem tagsWhole_substitute (hp : p.ReadsTags) (hf : ∀ t, '<' ∉ f t)
    (hs : tagsWhole s = true) : tagsWhole (p.substitute f s) = true := by
  induction s using p.pieces_induction with
  | nil => rw [p.substitute_nil]; rfl
  | piece s n h ih =>
    rw [p.substitute_of_span f h]
    exact tagsWhole_append (hf _) (ih (tagsWhole_of_suffix (List.drop_suffix n s) hs))
  | keep c s h ih =>
    have ih := ih (tagsWhole_cons.1 hs).2
    rw [p.substitute_cons_of_none f h]
    by_cases hc : c = '<'
    · subst hc
      rcases substitute_tag (f := f) hp hs with ⟨-, hkeep⟩ | ⟨u, v, rfl, hlt, hgt, -, hkeep⟩
      · rwa [hkeep]
      · rw [hkeep] at ih ⊢
        refine tagsWhole_tag hlt hgt (tagsWhole_of_suffix ⟨u ++ ['>'], by simp⟩ ih)
    · exact tagsWhole_cons.2 ⟨fun h => absurd h hc, ih⟩

/-- Where a substitution keeps a character, a tag starts or not as before. -/
theorem span?_substitute_cons (hp : p.ReadsTags) (hq : q.ReadsTag) {c : Char}
    (hs : tagsWhole (c :: s) = true) :
    q.span? (c :: p.substitute f s) = q.span? (c :: s) := by
  by_cases hc : c = '<'
  · subst hc
    rcases substitute_tag (f := f) hp hs with ⟨-, hkeep⟩ | ⟨u, v, rfl, -, -, -, hkeep⟩
    · rw [hkeep]
    · have hsettled := hq.decidedBy ('<' :: u ++ ['>'])
      have hmem : '>' ∈ '<' :: u ++ ['>'] := List.mem_append_right _ List.mem_cons_self
      have hafter := hsettled (p.substitute f v) hmem
      have hbefore := hsettled v hmem
      rw [hkeep]
      simpa using hafter.trans hbefore.symm
  · rw [hq.startsWith.span?_cons hc, hq.startsWith.span?_cons hc]

/-- A substitution makes no new place for a tag. -/
theorem count_substitute_le_of_whole (hp : p.ReadsTags) (hq : q.ReadsTag) (hf : ∀ t, '<' ∉ f t)
    (hs : tagsWhole s = true) : q.count (p.substitute f s) ≤ q.count s := by
  induction s using p.pieces_induction with
  | nil => exact Nat.le_of_eq (congrArg q.count (p.substitute_nil f))
  | piece s n h ih =>
    have hrest := ih (tagsWhole_of_suffix (List.drop_suffix n s) hs)
    rw [p.substitute_of_span f h, Pattern.count_append_of_notMem hq.startsWith (hf _)]
    exact Nat.le_trans hrest (Pattern.count_le_of_suffix (List.drop_suffix n s))
  | keep c s h ih =>
    have hrest := ih (tagsWhole_cons.1 hs).2
    rw [p.substitute_cons_of_none f h, Pattern.count, Pattern.count,
      span?_substitute_cons hp hq hs]
    exact Nat.add_le_add_left hrest _

/-- A substitution leaves no place for the tag that it replaces. -/
theorem count_substitute_self (hp : p.ReadsTags) (hq : p.ReadsTag) (hf : ∀ t, '<' ∉ f t)
    (hs : tagsWhole s = true) : p.count (p.substitute f s) = 0 := by
  induction s using p.pieces_induction with
  | nil => rw [p.substitute_nil]; rfl
  | piece s n h ih =>
    rw [p.substitute_of_span f h, Pattern.count_append_of_notMem hq.startsWith (hf _)]
    exact ih (tagsWhole_of_suffix (List.drop_suffix n s) hs)
  | keep c s h ih =>
    have hkeep : p.span? (c :: p.substitute f s) = none :=
      (span?_substitute_cons hp hq hs).trans h
    rw [p.substitute_cons_of_none f h, Pattern.count_cons_of_none hkeep]
    exact ih (tagsWhole_cons.1 hs).2

/-! ## Two tags with blanks in between -/

/-- Two tags stand with blanks in between where the first stands and the second behind blanks. -/
theorem isSome_spaced_iff : ((a.spaced b).span? s).isSome ↔
    ∃ n, a.span? s = some n ∧ (b.span? ((s.drop n).dropWhile isBlank)).isSome := by
  have hread : ∀ (t : Tail) (s : Text), (t.span? s).isSome = (t.read s).isSome := fun t s => by
    rw [Tail.read, Option.isSome_map]
  have hspaced : (a.spaced b).read s = (a.read s).bind fun r => b.read (r.dropWhile isBlank) := by
    show (a.toTail.followedBy ((Tail.many isBlank).followedBy b.toTail)).read s = _
    rw [Tail.read_followedBy]
    refine congrArg (a.read s).bind (funext fun r => ?_)
    rw [Tail.read_followedBy, Tail.read_many, Option.bind_some]
  rw [hread, hspaced, Tail.read]
  cases a.span? s with
  | none => simp
  | some n => simp [hread]

/-- What stands behind blanks stands there before, or the place is one of what was replaced. -/
theorem span?_dropWhile_substitute (hp : p.ReadsTags) (hb : b.ReadsTag) (hs : tagsWhole s = true)
    (h : (b.span? ((p.substitute f s).dropWhile isBlank)).isSome) :
    (b.span? (s.dropWhile isBlank)).isSome ∨ (p.span? (s.dropWhile isBlank)).isSome := by
  induction s with
  | nil =>
    rw [p.substitute_nil] at h
    exact Or.inl h
  | cons c s ih =>
    by_cases hc : isBlank c = true
    · have hnone : p.span? (c :: s) = none := hp.startsWith.span?_cons (by rintro rfl; cases hc) s
      rw [p.substitute_cons_of_none f hnone, List.dropWhile_cons_of_pos hc] at h
      rw [List.dropWhile_cons_of_pos hc]
      exact ih (tagsWhole_cons.1 hs).2 h
    · rw [List.dropWhile_cons_of_neg hc]
      cases hspan : p.span? (c :: s) with
      | some n => exact Or.inr rfl
      | none =>
        rw [p.substitute_cons_of_none f hspan, List.dropWhile_cons_of_neg hc,
          span?_substitute_cons hp hb hs] at h
        exact Or.inl h

theorem isSome_or_iff {t : Text} :
    ((a.or b).span? t).isSome ↔ (a.span? t).isSome ∨ (b.span? t).isSome := by
  show ((a.span? t).or (b.span? t)).isSome ↔ _
  rw [Option.isSome_or, Bool.or_eq_true]

/-- Where two tags stand behind a kept character, they stood there before, or the second stands for
what was replaced. -/
theorem isSome_spaced_of_substitute (hp : p.ReadsTags) (ha : a.ReadsTag) (hend : a.EndsAt '>')
    (hb : b.ReadsTag) {c : Char} (hs : tagsWhole (c :: s) = true)
    (h : ((a.spaced b).span? (c :: p.substitute f s)).isSome) :
    ((a.spaced (b.or p)).span? (c :: s)).isSome := by
  obtain ⟨n, hn, hnext⟩ := isSome_spaced_iff.1 h
  have hbefore : a.span? (c :: s) = some n := (span?_substitute_cons hp ha hs).symm.trans hn
  refine isSome_spaced_iff.2 ⟨n, hbefore, isSome_or_iff.2 ?_⟩
  have hc : c = '<' := Option.some.inj (ha.startsWith hn)
  subst hc
  rcases substitute_tag (f := f) hp hs with ⟨-, hkeep⟩ | ⟨u, v, rfl, -, hgt, hv, hkeep⟩
  · rw [hkeep] at hnext
    exact Or.inl hnext
  · -- the first tag goes up to the first `>`, and the second is looked for behind it
    rw [hkeep, ← List.cons_append] at hn hnext
    rw [← List.cons_append] at hbefore ⊢
    rw [(hend.take_drop (notMem_opening hgt) hn).2] at hnext
    rw [(hend.take_drop (notMem_opening hgt) hbefore).2]
    exact span?_dropWhile_substitute hp hb hv hnext

/-- A new place for two tags is one where what was replaced stood behind the first. -/
theorem count_spaced_substitute_le (hp : p.ReadsTags) (ha : a.ReadsTag) (hend : a.EndsAt '>')
    (hb : b.ReadsTag) (hf : ∀ t, '<' ∉ f t) (hs : tagsWhole s = true) :
    (a.spaced b).count (p.substitute f s) ≤ (a.spaced (b.or p)).count s := by
  have hstarts : (a.spaced b).StartsWith '<' := ha.startsWith.followedBy _
  induction s using p.pieces_induction with
  | nil =>
    rw [p.substitute_nil]
    exact Nat.zero_le _
  | piece s n h ih =>
    have hrest := ih (tagsWhole_of_suffix (List.drop_suffix n s) hs)
    rw [p.substitute_of_span f h, Pattern.count_append_of_notMem hstarts (hf _)]
    exact Nat.le_trans hrest (Pattern.count_le_of_suffix (List.drop_suffix n s))
  | keep c s h ih =>
    have hrest := ih (tagsWhole_cons.1 hs).2
    rw [p.substitute_cons_of_none f h]
    by_cases hplace : ((a.spaced b).span? (c :: p.substitute f s)).isSome
    · have hbefore := isSome_spaced_of_substitute hp ha hend hb hs hplace
      rw [Pattern.count, Pattern.count, if_pos hplace, if_pos hbefore]
      exact Nat.add_le_add_left hrest 1
    · rw [Pattern.count, if_neg hplace, Nat.zero_add]
      exact Nat.le_trans hrest (Pattern.count_le_cons c s)

/-! ## The text between the tags -/

/-- A tag is left out as one piece. -/
theorem between_tag {u : Text} (hu : '>' ∉ u) (t : Text) :
    anyTag.replace [] ('<' :: (u ++ '>' :: t)) = anyTag.replace [] t := by
  have hspan : (anyTag.span? ('<' :: u ++ ['>'])).isSome := by
    obtain ⟨n, hn⟩ := Option.isSome_iff_exists.1
      (span?_throughClose_isSome (s := u ++ ['>']) (List.mem_append_right u List.mem_cons_self))
    show ((throughClose.span? (u ++ ['>'])).map (1 + ·)).isSome
    rw [hn]
    rfl
  obtain ⟨n, hn⟩ := Option.isSome_iff_exists.1 hspan
  have hread := (endsAt_anyTag.take_drop (b := []) (notMem_opening hu) hn).1
  have hpiece := Pattern.Rewrites.of_piece endsAt_anyTag decidedBy_anyTag (fun _ => []) hn t
  rwa [hread, List.append_assoc, List.nil_append] at hpiece

theorem between_cons {c : Char} (hc : c ≠ '<') (t : Text) :
    anyTag.replace [] (c :: t) = c :: anyTag.replace [] t :=
  anyTag.substitute_cons_of_none _ (startsWith_anyTag.span?_cons hc t)

/-- Whole tags and what follows them are told apart. -/
theorem between_take_drop (hp : p.ReadsTags) {n : Nat} (h : p.span? s = some n) :
    anyTag.replace [] s = anyTag.replace [] (s.take n) ++ anyTag.replace [] (s.drop n) := by
  obtain ⟨q, hq⟩ := hp.endsWith h
  have hpiece : anyTag.Rewrites (fun _ => []) (s.take n) (anyTag.replace [] (s.take n)) := by
    rw [hq]
    exact Pattern.Rewrites.of_decidedBy decidedBy_anyTag _ q
  conv => lhs; rw [← List.take_append_drop n s]
  exact hpiece _

/-- A substitution adds to the text between the tags what it puts in. -/
theorem count_between_le (hp : p.ReadsTags) {d : Char} {k : Nat}
    (hf : ∀ t, '<' ∉ f t ∧ (f t).count d ≤ k) (hs : tagsWhole s = true) :
    (anyTag.replace [] (p.substitute f s)).count d ≤
      p.count s * k + (anyTag.replace [] s).count d := by
  -- behind a tag that is kept the induction goes on, so it is on the length of the text
  induction hn : s.length using Nat.strongRecOn generalizing s with
  | ind n ih =>
    subst hn
    cases s with
    | nil =>
      rw [p.substitute_nil]
      exact Nat.le_add_left _ _
    | cons c s =>
      cases hspan : p.span? (c :: s) with
      | some n =>
        have hrest := ih _ (p.drop_shorter hspan)
          (tagsWhole_of_suffix (List.drop_suffix n (c :: s)) hs) rfl
        have hout : anyTag.replace [] (p.substitute f (c :: s)) = f ((c :: s).take n) ++
            anyTag.replace [] (p.substitute f ((c :: s).drop n)) := by
          rw [p.substitute_of_span f hspan]
          exact Pattern.Rewrites.of_notMem startsWith_anyTag (hf _).1 _
        have hplaces := Pattern.count_drop_lt (Option.isSome_of_eq_some hspan) (p.span_pos hspan)
        have hk := (hf ((c :: s).take n)).2
        have hmul := Nat.mul_le_mul_right k hplaces
        rw [Nat.succ_mul] at hmul
        rw [hout, between_take_drop hp hspan, List.count_append, List.count_append]
        omega
      | none =>
        rw [p.substitute_cons_of_none f hspan]
        by_cases hc : c = '<'
        · subst hc
          rcases substitute_tag (f := f) hp hs with ⟨-, hkeep⟩ | ⟨u, v, rfl, -, hgt, hv, hkeep⟩
          · rw [hkeep]
            exact Nat.le_add_left _ _
          · have hrest := ih v.length (by simp; omega) hv rfl
            have hplaces : p.count v ≤ p.count ('<' :: (u ++ '>' :: v)) :=
              Pattern.count_le_of_suffix ⟨'<' :: u ++ ['>'], by simp⟩
            have hmul := Nat.mul_le_mul_right k hplaces
            rw [hkeep, between_tag hgt, between_tag hgt]
            omega
        · have hrest := ih s.length (by simp) (tagsWhole_cons.1 hs).2 rfl
          have hmul := Nat.mul_le_mul_right k (Pattern.count_le_cons (p := p) c s)
          rw [between_cons hc, between_cons hc, List.count_cons, List.count_cons]
          omega

end Substitution

end Markup

end DocTypes
