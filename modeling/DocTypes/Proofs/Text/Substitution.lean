/-
  What a substitution makes of a text that is put together from parts.

  `Rewrites p f a b` says that `a` becomes `b` in front of every text. It is closed under
  concatenation, so the effect on a long text follows from the effect on its parts: pieces that
  the pattern reads, pieces at which it does not fit, and characters at which it cannot start.
  `StopsAt p c` says that the pattern does not look past the character `c`, and `DecidedBy t c`
  that the first `c` settles what is read: such a pattern treats the two sides of a `c` apart.
  `EndsAt t c` says that what is read goes exactly through the first `c`.
-/
import DocTypes.Proofs.Text.Lines
import DocTypes.Proofs.Text.Words
import DocTypes.Text.Pattern

namespace DocTypes

open Text

/-! ## Where a pattern can start -/

namespace Pattern

/-- The pattern reads only where the character `c` stands. -/
def StartsWith (p : Pattern) (c : Char) : Prop :=
  ∀ ⦃s n⦄, p.span? s = some n → s.head? = some c

theorem StartsWith.span?_cons {p : Pattern} {c d : Char} (hp : p.StartsWith c) (h : d ≠ c)
    (s : Text) : p.span? (d :: s) = none := by
  cases hs : p.span? (d :: s) with
  | none => rfl
  | some n => exact absurd (Option.some.inj (hp hs)) h

theorem span?_nil (p : Pattern) : p.span? [] = none := by
  cases h : p.span? [] with
  | none => rfl
  | some n => exact absurd (p.drop_shorter h) (by simp)

theorem startsWith_char (c : Char) : (char c).StartsWith c := by
  intro s n h
  cases s with
  | nil => simp [char, one] at h
  | cons d s =>
    by_cases hd : d = c
    · rw [hd]; rfl
    · simp [char, one, hd] at h

theorem startsWith_like {key : Char → Char} {c : Char} {w : Text} (hw : c :: w ≠ [])
    (hkey : ∀ d, key d = c → d = c) : (like key (c :: w) hw).StartsWith c := by
  intro s n h
  cases s with
  | nil => simp [like, after?] at h
  | cons d s =>
    by_cases hd : key d = c
    · rw [hkey d hd]; rfl
    · simp [like, after?, hd] at h

theorem StartsWith.followedBy {a : Pattern} {c : Char} (ha : a.StartsWith c) (b : Tail) :
    (a.followedBy b).StartsWith c := by
  intro s n h
  obtain ⟨m, hm, -⟩ := Option.bind_eq_some_iff.1 h
  exact ha hm

theorem StartsWith.or {a b : Pattern} {c : Char} (ha : a.StartsWith c) (hb : b.StartsWith c) :
    (a.or b).StartsWith c := by
  intro s n h
  rcases Option.or_eq_some_iff.1 h with h | ⟨-, h⟩
  · exact ha h
  · exact hb h

/-! ## Rewriting part by part -/

end Pattern

/-- In front of every text, the function makes `b` of `a`. -/
def Turns (F : Text → Text) (a b : Text) : Prop := ∀ rest, F (a ++ rest) = b ++ F rest

namespace Turns

variable {F G : Text → Text} {a b c a' b' : Text}

theorem eq (h : Turns F a b) (hnil : F [] = []) : F a = b := by
  have := h []
  rwa [List.append_nil, hnil, List.append_nil] at this

theorem nil (F : Text → Text) : Turns F [] [] := fun _ => rfl

theorem append (h : Turns F a b) (h' : Turns F a' b') : Turns F (a ++ a') (b ++ b') := by
  intro rest
  rw [List.append_assoc, h, h', List.append_assoc]

/-- What one function makes of a part, another can take up. -/
theorem comp (h : Turns F a b) (h' : Turns G b c) : Turns (fun s => G (F s)) a c := by
  intro rest
  show G (F (a ++ rest)) = c ++ G (F rest)
  rw [h, h']

theorem replaceChar (old new : Char) (a : Text) :
    Turns (Text.replaceChar old new) a (Text.replaceChar old new a) :=
  fun rest => replaceChar_append old new a rest

variable {α : Type} {xs : List α} {g h : α → Text}

theorem flatMap (hx : ∀ x ∈ xs, Turns F (g x) (h x)) : Turns F (xs.flatMap g) (xs.flatMap h) := by
  induction xs with
  | nil => exact nil F
  | cons x xs ih =>
    rw [List.flatMap_cons, List.flatMap_cons]
    exact (hx x List.mem_cons_self).append (ih fun y hy => hx y (List.mem_cons_of_mem x hy))

end Turns

namespace Pattern

/-- In front of every text, the substitution makes `b` of `a`. -/
def Rewrites (p : Pattern) (f : Text → Text) (a b : Text) : Prop :=
  ∀ rest, p.substitute f (a ++ rest) = b ++ p.substitute f rest

namespace Rewrites

variable {p : Pattern} {f : Text → Text}

theorem turns {a b : Text} (h : p.Rewrites f a b) : Turns (p.substitute f) a b := h

theorem substitute_eq {a b : Text} (h : p.Rewrites f a b) : p.substitute f a = b :=
  h.turns.eq (p.substitute_nil f)

theorem nil (p : Pattern) (f : Text → Text) : p.Rewrites f [] [] := Turns.nil _

theorem append {a b a' b' : Text} (h : p.Rewrites f a b) (h' : p.Rewrites f a' b') :
    p.Rewrites f (a ++ a') (b ++ b') := h.turns.append h'

theorem flatMap {α : Type} {xs : List α} {g h : α → Text}
    (hx : ∀ x ∈ xs, p.Rewrites f (g x) (h x)) : p.Rewrites f (xs.flatMap g) (xs.flatMap h) :=
  Turns.flatMap hx

/-- A piece that the pattern reads, whatever follows it. -/
theorem of_span {a : Text} (h : ∀ rest, p.span? (a ++ rest) = some a.length) :
    p.Rewrites f a (f a) := by
  intro rest
  rw [substitute_of_span p f (h rest), List.take_left, List.drop_left]

/-- A character at which the pattern does not fit, whatever follows. -/
theorem cons_of_none {c : Char} {a b : Text} (hc : ∀ rest, p.span? (c :: a ++ rest) = none)
    (ha : p.Rewrites f a b) : p.Rewrites f (c :: a) (c :: b) := by
  intro rest
  have hspan := hc rest
  rw [List.cons_append] at hspan ⊢
  rw [substitute_cons_of_none p f hspan, ha rest, List.cons_append]

/-- A text without the character that the pattern starts with stays. -/
theorem of_notMem {c : Char} (hp : p.StartsWith c) {a : Text} (h : c ∉ a) :
    p.Rewrites f a a := by
  induction a with
  | nil => exact nil p f
  | cons d a ih =>
    rw [List.mem_cons, not_or] at h
    exact cons_of_none (fun rest => hp.span?_cons (Ne.symm h.1) _) (ih h.2)

/-- A piece that opens with the pattern's first character, but at which the pattern does not
fit, stays. -/
theorem of_none {c : Char} (hp : p.StartsWith c) {a : Text}
    (hnone : ∀ rest, p.span? (c :: a ++ rest) = none) (h : c ∉ a) :
    p.Rewrites f (c :: a) (c :: a) :=
  cons_of_none hnone (of_notMem hp h)

end Rewrites

/-- A word without the pattern's first character is read only where it was before pieces were
added to at their ends. -/
theorem after?_substitute {p : Pattern} {c : Char} (hp : p.StartsWith c) {f : Text → Text}
    (hf : ∀ x, x <+: f x) {key : Char → Char} {w : Text} (hw : key c ∉ w) {s : Text}
    (h : (after? key w (p.substitute f s)).isSome) : (after? key w s).isSome := by
  induction w generalizing s with
  | nil => rfl
  | cons a w ih =>
    rw [List.mem_cons, not_or] at hw
    cases s with
    | nil =>
      rw [p.substitute_nil] at h
      exact h
    | cons d s =>
      cases hs : p.span? (d :: s) with
      | none =>
        rw [p.substitute_cons_of_none f hs, after?] at h
        rw [after?]
        split at h
        · next hd => rw [if_pos hd]; exact ih hw.2 h
        · cases h
      | some n =>
        have hd : d = c := Option.some.inj (hp hs)
        obtain ⟨m, rfl⟩ : ∃ m, n = m + 1 := Nat.exists_eq_succ_of_ne_zero
          (Nat.ne_of_gt (p.span_pos hs))
        obtain ⟨t, ht⟩ := hf ((d :: s).take (m + 1))
        rw [p.substitute_of_span f hs, ← ht, List.take_succ_cons, List.cons_append,
          List.cons_append, after?, hd, if_neg (fun h => hw.1 h)] at h
        cases h

/-- A word without the pattern's first character, and without what is put in front of pieces, is
read where it was before, and what follows it is what was made of what followed it. -/
theorem after?_substitute_cons {p : Pattern} {c d : Char} (hp : p.StartsWith c)
    {key : Char → Char} {w : Text} (hc : key c ∉ w) (hd : key d ∉ w) (s : Text) :
    after? key w (p.substitute (d :: ·) s) = (after? key w s).map (p.substitute (d :: ·)) := by
  induction w generalizing s with
  | nil => rfl
  | cons a w ih =>
    rw [List.mem_cons, not_or] at hc hd
    cases s with
    | nil =>
      rw [p.substitute_nil]
      rfl
    | cons e s =>
      cases hs : p.span? (e :: s) with
      | none =>
        rw [p.substitute_cons_of_none _ hs, after?, after?]
        split
        · exact ih hc.2 hd.2 s
        · rfl
      | some n =>
        have he : e = c := Option.some.inj (hp hs)
        rw [p.substitute_of_span _ hs, List.cons_append, after?, if_neg hd.1, after?, he,
          if_neg hc.1]
        rfl

/-! ## Patterns that do not look past a character -/

/-- What the pattern reads in a text does not depend on a `c` after the text, nor on what follows
that `c`. -/
def StopsAt (p : Pattern) (c : Char) : Prop :=
  ∀ s rest, p.span? (s ++ c :: rest) = p.span? s

/-- A word is read from the characters that are its own. -/
theorem exists_append_of_after? {key : Char → Char} {w s r : Text} (h : after? key w s = some r) :
    ∃ u, s = u ++ r ∧ ∀ c ∈ u, key c ∈ w := by
  induction w generalizing s with
  | nil =>
    cases h
    exact ⟨[], rfl, by simp⟩
  | cons a w ih =>
    cases s with
    | nil => cases h
    | cons d s =>
      rw [after?] at h
      split at h
      · next hd =>
        obtain ⟨u, rfl, hu⟩ := ih h
        refine ⟨d :: u, rfl, List.forall_mem_cons.2 ⟨hd ▸ List.mem_cons_self, ?_⟩⟩
        exact fun c hc => List.mem_cons_of_mem a (hu c hc)
      · cases h

/-- A word without the character is read up to it. -/
theorem after?_append_cons {key : Char → Char} {c : Char} {w : Text} (hc : key c ∉ w)
    (s rest : Text) :
    after? key w (s ++ c :: rest) = (after? key w s).map (· ++ c :: rest) :=
  after?_append_of_head key (by rintro _ ⟨⟩; exact hc) s

/-- A word without the character cannot look past it. -/
theorem stopsAt_like {key : Char → Char} {c : Char} {w : Text} (hw : w ≠ []) (hc : key c ∉ w) :
    (like key w hw).StopsAt c := by
  intro s rest
  show (after? key w (s ++ c :: rest)).map _ = (after? key w s).map _
  rw [after?_append_cons hc, Option.map_map]
  rfl

theorem StopsAt.or {a b : Pattern} {c : Char} (ha : a.StopsAt c) (hb : b.StopsAt c) :
    (a.or b).StopsAt c := by
  intro s rest
  show (a.span? (s ++ c :: rest)).or (b.span? (s ++ c :: rest)) = _
  rw [ha, hb]
  rfl

/-- The two sides of a `c` are rewritten apart. -/
theorem StopsAt.substitute_append {p : Pattern} {c : Char} (hp : p.StopsAt c)
    (f : Text → Text) (a b : Text) :
    p.substitute f (a ++ c :: b) = p.substitute f a ++ c :: p.substitute f b := by
  induction a using p.pieces_induction with
  | nil =>
    have h : p.span? (c :: b) = none := (hp [] b).trans p.span?_nil
    rw [List.nil_append, substitute_cons_of_none p f h, substitute_nil, List.nil_append]
  | piece a n h ih =>
    have hspan := hp a b
    rw [h] at hspan
    have hle := p.span_le h
    rw [substitute_of_span p f h, substitute_of_span p f hspan,
      List.take_append_of_le_length hle, List.drop_append_of_le_length hle, ih, List.append_assoc]
  | keep d a h ih =>
    have hspan := hp (d :: a) b
    rw [h, List.cons_append] at hspan
    rw [substitute_cons_of_none p f h, List.cons_append, substitute_cons_of_none p f hspan, ih,
      List.cons_append]

end Pattern

/-! ## Readings that a character settles -/

namespace Tail

/-- Once a `c` is in the text, what follows the text does not matter. -/
def DecidedBy (t : Tail) (c : Char) : Prop :=
  ∀ s rest, c ∈ s → t.span? (s ++ rest) = t.span? s

/-- No piece that is read has a `c` in it. -/
def Avoids (t : Tail) (c : Char) : Prop :=
  ∀ ⦃s n⦄, t.span? s = some n → c ∉ s.take n

theorem decidedBy_one {p : Char → Bool} (c : Char) : (Pattern.one p).DecidedBy c := by
  intro s rest h
  cases s with
  | nil => cases h
  | cons d s => rfl

theorem avoids_one {p : Char → Bool} {c : Char} (hc : p c = false) :
    (Pattern.one p).Avoids c := by
  intro s n h
  cases s with
  | nil => simp [Pattern.one] at h
  | cons d s =>
    by_cases hd : p d = true
    · simp only [Pattern.one, List.head?_cons, Option.any_some, hd, if_true,
        Option.some.injEq] at h
      rw [← h, List.take_succ_cons, List.take_zero, List.mem_singleton]
      rintro rfl
      rw [hc] at hd
      cases hd
    · simp [Pattern.one, hd] at h

/-- A word with the character at its end at most is read, or not, by the time it comes. -/
theorem decidedBy_word {key : Char → Char} {c : Char} {w : Text} (hw : w ≠ [])
    (hc : key c ∉ w.dropLast) : (Pattern.like key w hw).DecidedBy c := by
  have hsome : ∀ (w s rest : Text), key c ∉ w.dropLast → c ∈ s →
      (after? key w (s ++ rest)).isSome = (after? key w s).isSome := by
    intro w
    induction w with
    | nil => intros; rfl
    | cons a w ih =>
      intro s rest hc h
      cases s with
      | nil => cases h
      | cons d s =>
        rw [List.cons_append, after?, after?]
        split
        · next hd =>
          cases w with
          | nil => rfl
          | cons b w =>
            rw [List.dropLast_cons_cons, List.mem_cons, not_or] at hc
            have hne : c ≠ d := by rintro rfl; exact hc.1 hd
            exact ih s rest hc.2 (List.mem_of_ne_of_mem hne h)
        · rfl
  intro s rest h
  have := hsome w s rest hc h
  show (after? key w (s ++ rest)).map _ = (after? key w s).map _
  cases h1 : after? key w (s ++ rest) <;> cases h2 : after? key w s <;> simp_all

theorem decidedBy_like {key : Char → Char} {c : Char} {w : Text} (hw : w ≠ []) (hc : key c ∉ w) :
    (Pattern.like key w hw).DecidedBy c :=
  decidedBy_word hw fun h => hc (List.dropLast_subset w h)

theorem avoids_like {key : Char → Char} {c : Char} {w : Text} (hw : w ≠ []) (hc : key c ∉ w) :
    (Pattern.like key w hw).Avoids c := by
  have htake : ∀ (w s : Text), key c ∉ w → (after? key w s).isSome → c ∉ s.take w.length := by
    intro w
    induction w with
    | nil => intros; simp
    | cons a w ih =>
      intro s hc h
      rw [List.mem_cons, not_or] at hc
      cases s with
      | nil => simp
      | cons d s =>
        rw [after?] at h
        split at h
        · next hd =>
          rw [List.length_cons, List.take_succ_cons, List.mem_cons, not_or]
          exact ⟨by rintro rfl; exact hc.1 hd, ih s hc.2 h⟩
        · cases h
  intro s n h
  obtain ⟨r, hr, rfl⟩ := Option.map_eq_some_iff.1 h
  exact htake w s hc (by rw [hr]; rfl)

theorem avoids_many {p : Char → Bool} {c : Char} (hc : p c = false) : (many p).Avoids c := by
  intro s n h hmem
  simp only [many, Option.some.injEq] at h
  rw [← h, ← List.prefix_iff_eq_take.1 (List.takeWhile_prefix p)] at hmem
  have := List.all_eq_true.1 List.all_takeWhile c hmem
  rw [hc] at this
  cases this

theorem Avoids.optional {a : Tail} {c : Char} (ha : a.Avoids c) : a.optional.Avoids c := by
  intro s n h
  simp only [Tail.optional, Option.some.injEq] at h
  cases hs : a.span? s with
  | none => rw [← h, hs]; simp
  | some m => rw [hs] at h; rw [← h]; exact ha hs

theorem decidedBy_many {p : Char → Bool} {c : Char} (hc : p c = false) : (many p).DecidedBy c := by
  intro s rest h
  simp only [many, Option.some.injEq]
  obtain ⟨a, b, rfl, -⟩ := List.eq_append_cons_of_mem h
  have htake : ∀ t, (a ++ c :: t).takeWhile p = a.takeWhile p := by
    intro t
    induction a with
    | nil => rw [List.nil_append, List.takeWhile_cons_of_neg (by simp [hc]), List.takeWhile_nil]
    | cons d a ih =>
      rw [List.cons_append, List.takeWhile_cons, List.takeWhile_cons, ih List.mem_append_cons_self]
  rw [List.append_assoc, List.cons_append, htake, htake]

theorem DecidedBy.optional {a : Tail} {c : Char} (ha : a.DecidedBy c) : a.optional.DecidedBy c := by
  intro s rest h
  simp only [Tail.optional, ha s rest h]

theorem DecidedBy.or {a b : Tail} {c : Char} (ha : a.DecidedBy c) (hb : b.DecidedBy c) :
    (a.or b).DecidedBy c := by
  intro s rest h
  show (a.span? (s ++ rest)).or (b.span? (s ++ rest)) = _
  rw [ha s rest h, hb s rest h]
  rfl

theorem DecidedBy.followedBy {a b : Tail} {c : Char} (ha : a.DecidedBy c) (hav : a.Avoids c)
    (hb : b.DecidedBy c) : (a.followedBy b).DecidedBy c := by
  intro s rest h
  show (a.span? (s ++ rest)).bind _ = (a.span? s).bind _
  rw [ha s rest h]
  cases hs : a.span? s with
  | none => rfl
  | some n =>
    have hmem : c ∈ s.drop n := by
      rw [← List.take_append_drop n s, List.mem_append] at h
      exact h.resolve_left (hav hs)
    show (b.span? ((s ++ rest).drop n)).map _ = (b.span? (s.drop n)).map _
    rw [List.drop_append_of_le_length (a.span_le hs), hb _ rest hmem]

theorem read_through_char {c : Char} {a : Text} (h : c ∉ a) (b : Text) :
    (through (Pattern.char c).toTail).read (a ++ c :: b) = some b := by
  induction a with
  | nil => rw [List.nil_append, read_through_cons, Pattern.char, Pattern.read_one_cons,
      if_pos (beq_self_eq_true c), Option.some_or]
  | cons d a ih =>
    rw [List.mem_cons, not_or] at h
    have hd : (Pattern.char c).read (d :: (a ++ c :: b)) = none := by
      rw [Pattern.char, Pattern.read_one_cons, if_neg (by simpa using Ne.symm h.1)]
    rw [List.cons_append, read_through_cons, hd, Option.none_or, ih h.2]

theorem eq_append_of_read_through_char {c : Char} {s r : Text}
    (h : (through (Pattern.char c).toTail).read s = some r) :
    ∃ a, c ∉ a ∧ s = a ++ c :: r := by
  induction s with
  | nil => cases h
  | cons d s ih =>
    rw [read_through_cons, Pattern.char, Pattern.read_one_cons] at h
    by_cases hd : d = c
    · rw [if_pos (beq_iff_eq.2 hd), Option.some_or, Option.some.injEq] at h
      exact ⟨[], List.not_mem_nil, by rw [hd, h, List.nil_append]⟩
    · rw [if_neg (by simpa using hd), Option.none_or] at h
      obtain ⟨a, ha, rfl⟩ := ih h
      exact ⟨d :: a, by simp [ha, Ne.symm hd], rfl⟩

theorem decidedBy_through_char (c : Char) : (through (Pattern.char c).toTail).DecidedBy c := by
  intro s rest h
  induction s with
  | nil => cases h
  | cons d s ih =>
    show spanThrough _ (d :: (s ++ rest)) = spanThrough _ (d :: s)
    rw [spanThrough, spanThrough]
    by_cases hd : d = c
    · rw [hd]; simp [Pattern.char, Pattern.one]
    · have ih' : spanThrough _ (s ++ rest) = spanThrough _ s :=
        ih (List.mem_of_ne_of_mem (Ne.symm hd) h)
      rw [ih']
      rfl

/-! ## Pieces that end at a character -/

theorem length_take {t : Tail} {s : Text} {n : Nat} (h : t.span? s = some n) :
    (s.take n).length = n :=
  List.length_take.trans (Nat.min_eq_left (t.span_le h))

/-- Every piece that is read ends with a `c`, the only one in it. -/
def EndsAt (t : Tail) (c : Char) : Prop :=
  ∀ ⦃s n⦄, t.span? s = some n → ∃ q, s.take n = q ++ [c] ∧ c ∉ q

theorem endsAt_char (c : Char) : (Pattern.char c).EndsAt c := by
  intro s n h
  refine ⟨[], ?_, by simp⟩
  cases s with
  | nil => cases h
  | cons d s =>
    by_cases hd : d = c
    · simp only [Pattern.char, Pattern.one, List.head?_cons, Option.any_some, hd, beq_self_eq_true,
        if_true, Option.some.injEq] at h
      rw [← h, hd]
      rfl
    · simp [Pattern.char, Pattern.one, hd] at h

theorem endsAt_through_char (c : Char) : (through (Pattern.char c).toTail).EndsAt c := by
  intro s n h
  induction s generalizing n with
  | nil => cases h
  | cons d s ih =>
    rcases Option.or_eq_some_iff.1 h with h | ⟨hnone, h⟩
    · exact endsAt_char c h
    · obtain ⟨m, hm, rfl⟩ := Option.map_eq_some_iff.1 h
      obtain ⟨q, hq, hc⟩ := ih hm
      refine ⟨d :: q, by rw [List.take_succ_cons, hq]; rfl, ?_⟩
      rw [List.mem_cons, not_or]
      refine ⟨?_, hc⟩
      rintro rfl
      simp [Pattern.char, Pattern.one] at hnone

theorem endsAt_like {key : Char → Char} {c : Char} {v : Text} (hw : v ++ [c] ≠ [])
    (hkey : ∀ d, key d = c → d = c) (hv : key c ∉ v) :
    (Pattern.like key (v ++ [c]) hw).EndsAt c := by
  have htake : ∀ (v s : Text), key c ∉ v → (after? key (v ++ [c]) s).isSome →
      ∃ q, s.take (v ++ [c]).length = q ++ [c] ∧ c ∉ q := by
    intro v
    induction v with
    | nil =>
      intro s _ h
      cases s with
      | nil => cases h
      | cons d s =>
        rw [List.nil_append, after?] at h
        split at h
        · next hd => exact ⟨[], by rw [hkey d hd]; rfl, by simp⟩
        · cases h
    | cons a v ih =>
      intro s hv h
      rw [List.mem_cons, not_or] at hv
      cases s with
      | nil => cases h
      | cons d s =>
        rw [List.cons_append, after?] at h
        split at h
        · next hd =>
          obtain ⟨q, hq, hc⟩ := ih s hv.2 h
          refine ⟨d :: q, ?_, ?_⟩
          · rw [List.cons_append, List.length_cons, List.take_succ_cons, hq]
            rfl
          rw [List.mem_cons, not_or]
          exact ⟨by rintro rfl; exact hv.1 hd, hc⟩
        · cases h
  intro s n h
  obtain ⟨r, hr, rfl⟩ := Option.map_eq_some_iff.1 h
  exact htake v s hv (by rw [hr]; rfl)

theorem EndsAt.or {a b : Tail} {c : Char} (ha : a.EndsAt c) (hb : b.EndsAt c) :
    (a.or b).EndsAt c := by
  intro s n h
  rcases Option.or_eq_some_iff.1 h with h | ⟨-, h⟩
  · exact ha h
  · exact hb h

theorem EndsAt.followedBy {a b : Tail} {c : Char} (ha : a.Avoids c) (hb : b.EndsAt c) :
    (a.followedBy b).EndsAt c := by
  intro s n h
  obtain ⟨k, hk, h⟩ := Option.bind_eq_some_iff.1 h
  obtain ⟨m, hm, rfl⟩ := Option.map_eq_some_iff.1 h
  obtain ⟨q, hq, hc⟩ := hb hm
  refine ⟨s.take k ++ q, by rw [List.take_add, hq, List.append_assoc], ?_⟩
  rw [List.mem_append, not_or]
  exact ⟨ha hk, hc⟩

theorem EndsAt.mem {t : Tail} {c : Char} (ht : t.EndsAt c) {s : Text} {n : Nat}
    (h : t.span? s = some n) : c ∈ s.take n := by
  obtain ⟨q, hq, -⟩ := ht h
  rw [hq]
  exact List.mem_append_right q List.mem_cons_self

/-- What is read goes exactly through the first `c`. -/
theorem EndsAt.eq_length {t : Tail} {c : Char} (ht : t.EndsAt c) {s : Text} {n : Nat}
    (h : t.span? s = some n) : n = (s.takeWhile (· != c)).length + 1 := by
  obtain ⟨q, hq, hc⟩ := ht h
  have hlen := congrArg List.length hq
  rw [length_take h, List.length_append] at hlen
  have htake : s.takeWhile (· != c) = q := by
    rw [← List.take_append_drop n s, hq, List.append_assoc, List.singleton_append,
      takeWhile_ne hc]
  rw [htake, hlen]
  rfl

/-- A text without a `c` in front lengthens what is read by itself. -/
theorem EndsAt.eq_length_add {t : Tail} {c : Char} (ht : t.EndsAt c) {a s : Text} {m n : Nat}
    (ha : c ∉ a) (hm : t.span? (a ++ s) = some m) (hn : t.span? s = some n) :
    m = a.length + n := by
  rw [ht.eq_length hm, ht.eq_length hn, List.takeWhile_append_of_pos, List.length_append,
    Nat.add_assoc]
  intro d hd
  rw [bne_iff_ne]
  rintro rfl
  exact ha hd

/-- A piece that is read goes through the first `c`, and what follows it starts there. -/
theorem EndsAt.take_drop {t : Tail} {c : Char} (ht : t.EndsAt c) {a b : Text} (ha : c ∉ a) {n : Nat}
    (h : t.span? (a ++ c :: b) = some n) :
    (a ++ c :: b).take n = a ++ [c] ∧ (a ++ c :: b).drop n = b := by
  have hn : n = (a ++ [c]).length := by
    rw [ht.eq_length h, takeWhile_ne ha, List.length_append]
    rfl
  have happend : a ++ c :: b = (a ++ [c]) ++ b := by simp
  rw [hn, happend]
  exact ⟨List.take_left, List.drop_left⟩

theorem EndsAt.exists_append {t : Tail} {c : Char} (ht : t.EndsAt c) {s : Text} {n : Nat}
    (h : t.span? s = some n) :
    ∃ a b, s = a ++ c :: b ∧ c ∉ a ∧ s.take n = a ++ [c] ∧ s.drop n = b := by
  obtain ⟨a, ha, hnot⟩ := ht h
  refine ⟨a, s.drop n, ?_, hnot, ha, rfl⟩
  conv => lhs; rw [← List.take_append_drop n s, ha]
  simp

/-- A piece that is read is read whatever follows it, where its end settles that. -/
theorem EndsAt.span?_take_append {t : Tail} {c : Char} (ht : t.EndsAt c) (hd : t.DecidedBy c)
    {s : Text} {n : Nat} (h : t.span? s = some n) (rest : Text) :
    t.span? (s.take n ++ rest) = some n := by
  have hmem := ht.mem h
  rw [hd _ rest hmem, ← h, ← hd _ (s.drop n) hmem, List.take_append_drop]

theorem EndsAt.span?_of_notMem {t : Tail} {c : Char} (ht : t.EndsAt c) {s : Text}
    (h : c ∉ s) : t.span? s = none := by
  cases hs : t.span? s with
  | none => rfl
  | some n => exact absurd (List.mem_of_mem_take (ht.mem hs)) h

/-- What is read goes at least through the first `c`. -/
theorem EndsAt.length_le {t : Tail} {c : Char} (ht : t.EndsAt c) {w rest : Text}
    (hw : c ∉ w.dropLast) {n : Nat} (h : t.span? (w ++ rest) = some n) : w.length ≤ n := by
  refine Nat.le_of_not_lt fun hlt => hw ?_
  have hmem := ht.mem h
  rw [List.take_append_of_le_length (Nat.le_of_lt hlt)] at hmem
  rw [List.dropLast_eq_take]
  exact (List.take_prefix_take_left (by omega)).mem hmem

end Tail

namespace Pattern

/-- A text in which the pattern fits nowhere stays. -/
theorem substitute_of_none {p : Pattern} {s : Text} (h : ∀ t, t <:+ s → p.span? t = none)
    (f : Text → Text) : p.substitute f s = s := by
  induction s with
  | nil => exact p.substitute_nil f
  | cons d s ih =>
    have hs := ih fun t ht => h t (ht.trans (List.suffix_cons d s))
    rw [p.substitute_cons_of_none f (h _ List.suffix_rfl), hs]

/-- A text without the character that every piece ends at stays. -/
theorem substitute_of_notMem {p : Pattern} {c : Char} (hp : p.EndsAt c) (f : Text → Text)
    {s : Text} (h : c ∉ s) : p.substitute f s = s :=
  substitute_of_none (fun _ ht => hp.span?_of_notMem fun hc => h (ht.mem hc)) f

/-- A piece found in a text whose only `c` is at its end goes to the end. -/
theorem substitute_concat {p : Pattern} {c : Char} (hp : p.EndsAt c) (f : Text → Text) {a : Text}
    (ha : c ∉ a) {n : Nat} (h : p.span? (a ++ [c]) = some n) :
    p.substitute f (a ++ [c]) = f (a ++ [c]) := by
  obtain ⟨htake, hdrop⟩ := hp.take_drop ha h
  rw [p.substitute_of_span f h, htake, hdrop, p.substitute_nil, List.append_nil]

/-- A piece whose end settles what is read is rewritten by itself. -/
theorem Rewrites.of_piece {p : Pattern} {c : Char} (hp : p.EndsAt c) (hd : p.DecidedBy c)
    (f : Text → Text) {s : Text} {n : Nat} (h : p.span? s = some n) :
    p.Rewrites f (s.take n) (f (s.take n)) := by
  refine .of_span fun rest => ?_
  rw [hp.span?_take_append hd h, Tail.length_take h]

/-- Where pieces are only added to at their ends, the text up to the first `c` stays in front. -/
theorem prefix_substitute {p : Pattern} {c : Char} (hp : p.EndsAt c) {f : Text → Text}
    (hf : ∀ x, x <+: f x) {w : Text} (hw : c ∉ w.dropLast) (rest : Text) :
    w <+: p.substitute f (w ++ rest) := by
  induction w with
  | nil => exact List.nil_prefix
  | cons d w ih =>
    cases hs : p.span? (d :: w ++ rest) with
    | none =>
      have hw' : c ∉ w.dropLast := fun hc => hw (by
        cases w with
        | nil => cases hc
        | cons e w => exact List.mem_cons_of_mem d hc)
      rw [List.cons_append] at hs ⊢
      rw [p.substitute_cons_of_none f hs]
      exact (List.prefix_cons_inj d).2 (ih hw')
    | some n =>
      have hle := hp.length_le hw hs
      rw [p.substitute_of_span f hs]
      refine List.IsPrefix.trans ?_ ((hf _).trans (List.prefix_append _ _))
      rw [List.take_append, List.take_of_length_le hle]
      exact List.prefix_append _ _

/-- Where each piece becomes the separator, or a text without it, the texts between the separators
are what the substitution makes of parts of the text. -/
theorem exists_splitOn_substitute {p : Pattern} {c sep : Char} (hp : p.EndsAt c)
    (hd : p.DecidedBy c) {f : Text → Text}
    (hf : ∀ s n, p.span? s = some n → f (s.take n) = [sep] ∨ sep ∉ f (s.take n)) (s : Text) :
    ∃ (t : Text) (ts : List Text),
      splitOn sep (p.substitute f s) = p.substitute f t :: ts.map (p.substitute f) ∧
      t <+: s ∧ ∀ u ∈ ts, u <:+: s := by
  induction s using p.pieces_induction with
  | nil => exact ⟨[], [], by rw [p.substitute_nil]; rfl, List.nil_prefix, by simp⟩
  | piece s n h ih =>
    obtain ⟨t, ts, hsplit, ht, hts⟩ := ih
    have hdrop : s.drop n <:+: s := (List.drop_suffix n s).isInfix
    have hrest : ∀ u ∈ ts, u <:+: s := fun u hu => (hts u hu).trans hdrop
    rw [p.substitute_of_span f h]
    rcases hf s n h with hsep | hfree
    · refine ⟨[], t :: ts, ?_, List.nil_prefix,
        List.forall_mem_cons.2 ⟨ht.isInfix.trans hdrop, hrest⟩⟩
      rw [hsep, List.singleton_append, splitOn, if_pos rfl, hsplit, p.substitute_nil, List.map_cons]
    · refine ⟨s.take n ++ t, ts, ?_, ?_, hrest⟩
      · rw [splitOn_append_of_notMem hfree hsplit, Rewrites.of_piece hp hd f h t]
      · conv => rhs; rw [← List.take_append_drop n s]
        exact (List.prefix_append_right_inj _).2 ht
  | keep d s h ih =>
    obtain ⟨t, ts, hsplit, ht, hts⟩ := ih
    have hrest : ∀ u ∈ ts, u <:+: d :: s := fun u hu => (hts u hu).trans
      (List.suffix_cons d s).isInfix
    rw [p.substitute_cons_of_none f h, splitOn, hsplit]
    split
    · refine ⟨[], t :: ts, by rw [p.substitute_nil, List.map_cons], List.nil_prefix,
        List.forall_mem_cons.2 ⟨ht.isInfix.trans (List.suffix_cons d s).isInfix, hrest⟩⟩
    · refine ⟨d :: t, ts, ?_, (List.prefix_cons_inj d).2 ht, hrest⟩
      -- what would be read in front of less text is read in front of more
      have hnone : p.span? (d :: t) = none := by
        obtain ⟨more, rfl⟩ := ht
        cases hs : p.span? (d :: t) with
        | none => rfl
        | some n =>
          have hmore := hd (d :: t) more (List.mem_of_mem_take (hp.mem hs))
          rw [List.cons_append, h, hs] at hmore
          cases hmore
      rw [p.substitute_cons_of_none f hnone]
      rfl

/-- Where no suffix of `a` is read differently in front of `rest`, the two are rewritten apart. -/
theorem substitute_append_of_stable {p : Pattern} {f : Text → Text} {a rest : Text}
    (h : ∀ s, s <:+ a → s ≠ [] → p.span? (s ++ rest) = p.span? s) :
    p.substitute f (a ++ rest) = p.substitute f a ++ p.substitute f rest := by
  induction a using p.pieces_induction with
  | nil => rw [substitute_nil]; rfl
  | piece a n hs ih =>
    by_cases hne : a = []
    · rw [hne, p.span?_nil] at hs
      cases hs
    · have hspan := h a List.suffix_rfl hne
      rw [hs] at hspan
      have hle := p.span_le hs
      rw [substitute_of_span p f hs, substitute_of_span p f hspan,
        List.take_append_of_le_length hle, List.drop_append_of_le_length hle,
        ih fun t ht => h t (ht.trans (List.drop_suffix n _)), List.append_assoc]
  | keep d a hs ih =>
    have hspan := h (d :: a) List.suffix_rfl (by simp)
    rw [hs, List.cons_append] at hspan
    rw [substitute_cons_of_none p f hs, List.cons_append, substitute_cons_of_none p f hspan,
      ih fun t ht => h t (ht.trans (List.suffix_cons d a)), List.cons_append]

/-- Where no suffix of `a` is read differently in front of another text, `a` is rewritten by
itself. -/
theorem Rewrites.of_stable {p : Pattern} {f : Text → Text} {a : Text}
    (h : ∀ s, s <:+ a → s ≠ [] → ∀ rest, p.span? (s ++ rest) = p.span? s) :
    p.Rewrites f a (p.substitute f a) :=
  fun rest => substitute_append_of_stable fun s hs hne => h s hs hne rest

/-- A text that ends with the character that settles what is read is rewritten by itself. -/
theorem Rewrites.of_decidedBy {p : Pattern} {c : Char} (hp : p.DecidedBy c) (f : Text → Text)
    (a : Text) : p.Rewrites f (a ++ [c]) (p.substitute f (a ++ [c])) := by
  refine .of_stable fun s hs hne rest => hp s rest ?_
  rcases List.suffix_concat_iff.1 hs with rfl | ⟨t, rfl, -⟩
  · exact absurd rfl hne
  · exact List.mem_append_right t List.mem_cons_self

end Pattern

end DocTypes
