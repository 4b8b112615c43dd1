/-
  What cutting and searching with a pattern give. A reader that stops within a text reads the same
  where more text follows (`Settled`); from this it follows of composed patterns that they fit with
  more text behind as well (`Extends`). Such a pattern fits nowhere in the pieces between its
  places, nor in a part of them (`free_of_mem_split`, `Free.of_part`). What a search finds is what
  the pattern reads there (`span?_of_mem_occurrences`); it comes to a place behind places that lead
  to nothing (`findSome?_occurrencesFrom`), and stops there if there is no other
  (`occurrencesFrom_eq_singleton`).
-/
import DocTypes.Proofs.Text.Substitution

namespace DocTypes

open Text

/-! ## Readers in longer texts -/

namespace Tail

/-- What is read is the same with more text behind, if it does not go up to the end. -/
def Settled (t : Tail) : Prop :=
  ∀ ⦃s n⦄, t.span? s = some n → n < s.length → ∀ rest, t.span? (s ++ rest) = some n

/-- Where the reader fits, it fits with more text behind as well. -/
def Extends (t : Tail) : Prop :=
  ∀ ⦃s⦄, (t.span? s).isSome → ∀ rest, (t.span? (s ++ rest)).isSome

theorem span?_one_append {p : Char → Bool} {s : Text} {n : Nat}
    (h : (Pattern.one p).span? s = some n) (rest : Text) :
    (Pattern.one p).span? (s ++ rest) = some n := by
  cases s with
  | nil => cases h
  | cons c s => exact h

theorem settled_one (p : Char → Bool) : (Pattern.one p).Settled :=
  fun _ _ h _ rest => span?_one_append h rest

theorem extends_one (p : Char → Bool) : (Pattern.one p).Extends := by
  intro s h rest
  obtain ⟨n, hn⟩ := Option.isSome_iff_exists.1 h
  rw [span?_one_append hn rest]
  rfl

theorem settled_many (p : Char → Bool) : (many p).Settled := by
  -- the run ends before the end of the text, so at a character that is not in it
  have htake : ∀ s : Text, (s.takeWhile p).length < s.length → ∀ rest,
      (s ++ rest).takeWhile p = s.takeWhile p := by
    intro s hlt rest
    induction s with
    | nil => exact absurd hlt (Nat.lt_irrefl 0)
    | cons c s ih =>
      rw [List.cons_append]
      by_cases hc : p c = true
      · rw [List.takeWhile_cons_of_pos hc] at hlt ⊢
        rw [List.takeWhile_cons_of_pos hc, ih (Nat.lt_of_succ_lt_succ hlt)]
      · rw [List.takeWhile_cons_of_neg hc, List.takeWhile_cons_of_neg hc]
  intro s n h hn rest
  simp only [many, Option.some.injEq] at h ⊢
  rw [htake s (h ▸ hn) rest, h]

theorem settled_like {key : Char → Char} {w : Text} (hw : w ≠ []) :
    (Pattern.like key w hw).Settled := by
  have happend : ∀ (w s rest : Text), (after? key w s).isSome →
      (after? key w (s ++ rest)).isSome := by
    intro w
    induction w with
    | nil => intros; rfl
    | cons a w ih =>
      intro s rest h
      cases s with
      | nil => cases h
      | cons c s =>
        rw [after?] at h
        rw [List.cons_append, after?]
        split at h
        · next hc => rw [if_pos hc]; exact ih s rest h
        · cases h
  intro s n h _ rest
  obtain ⟨r, hr, rfl⟩ := Option.map_eq_some_iff.1 h
  obtain ⟨r', hr'⟩ := Option.isSome_iff_exists.1 (happend w s rest (by rw [hr]; rfl))
  exact Option.map_eq_some_iff.2 ⟨r', hr', rfl⟩

theorem Settled.followedBy {a b : Tail} (ha : a.Settled) (hb : b.Settled) :
    (a.followedBy b).Settled := by
  intro s n h hn rest
  obtain ⟨k, hk, h⟩ := Option.bind_eq_some_iff.1 h
  obtain ⟨m, hm, rfl⟩ := Option.map_eq_some_iff.1 h
  have hlt : m < (s.drop k).length := by rw [List.length_drop]; omega
  have hb' := hb hm hlt rest
  rw [← List.drop_append_of_le_length (a.span_le hk)] at hb'
  show (a.span? (s ++ rest)).bind _ = _
  rw [ha hk (by omega) rest, Option.bind_some, hb']
  rfl

/-- Of two readers that start with different characters only one can fit. -/
theorem Settled.or {a b : Pattern} {c d : Char} (ha : a.Settled) (hb : b.Settled)
    (hac : a.StartsWith c) (hbd : b.StartsWith d) (hcd : c ≠ d) : (a.or b).Settled := by
  intro s n h hn rest
  show (a.span? (s ++ rest)).or (b.span? (s ++ rest)) = some n
  rcases Option.or_eq_some_iff.1 h with h | ⟨-, h⟩
  · rw [ha h hn rest, Option.some_or]
  · cases s with
    | nil => exact absurd hn (Nat.not_lt_zero n)
    | cons e s =>
      have hed : e = d := Option.some.inj (hbd h)
      rw [List.cons_append, hac.span?_cons (hed ▸ Ne.symm hcd), ← List.cons_append, hb h hn rest]
      rfl

theorem Extends.or {a b : Tail} (ha : a.Extends) (hb : b.Extends) : (a.or b).Extends := by
  intro s h rest
  show ((a.span? (s ++ rest)).or (b.span? (s ++ rest))).isSome
  have h' : (a.span? s).isSome ∨ (b.span? s).isSome := by
    have : ((a.span? s).or (b.span? s)).isSome := h
    rwa [Option.isSome_or, Bool.or_eq_true] at this
  rw [Option.isSome_or, Bool.or_eq_true]
  exact h'.imp (ha · rest) (hb · rest)

/-- A pattern cannot fit behind a reader that went up to the end. -/
theorem Extends.followedBy {a : Tail} {b : Pattern} (ha : a.Settled) (hb : b.Extends) :
    (a.followedBy b.toTail).Extends := by
  intro s h rest
  obtain ⟨n, h⟩ := Option.isSome_iff_exists.1 h
  obtain ⟨k, hk, h⟩ := Option.bind_eq_some_iff.1 h
  obtain ⟨m, hm, rfl⟩ := Option.map_eq_some_iff.1 h
  have hlt : k < s.length := by
    have h1 := b.span_pos hm
    have h2 := b.span_le hm
    rw [List.length_drop] at h2
    omega
  have hb' := hb (Option.isSome_of_eq_some hm) rest
  rw [← List.drop_append_of_le_length (a.span_le hk)] at hb'
  show ((a.span? (s ++ rest)).bind _).isSome
  rw [ha hk hlt rest, Option.bind_some, Option.isSome_map]
  exact hb'

/-- A reader that always fits may follow. -/
theorem Extends.followedBy_always {a b : Tail} (ha : a.Extends) (hb : ∀ s, (b.span? s).isSome) :
    (a.followedBy b).Extends := by
  have hiff : ∀ s, ((a.followedBy b).span? s).isSome = (a.span? s).isSome := by
    intro s
    show ((a.span? s).bind _).isSome = _
    cases a.span? s with
    | none => rfl
    | some n => rw [Option.bind_some, Option.isSome_map, hb]; rfl
  intro s h rest
  rw [hiff] at h ⊢
  exact ha h rest

end Tail

namespace Pattern

variable {p : Pattern} {s t u : Text}

/-- The pattern fits nowhere in the text. -/
def Free (p : Pattern) (t : Text) : Prop := ∀ s, s <:+ t → p.span? s = none

theorem free_nil (p : Pattern) : p.Free [] :=
  fun u hu => by rw [List.suffix_nil.1 hu, p.span?_nil]

/-- Where the pattern does not fit in a longer text, it does not fit. -/
theorem span?_eq_none_of_append (hp : p.Extends) {rest : Text} (h : p.span? (s ++ rest) = none) :
    p.span? s = none := by
  cases hs : p.span? s with
  | none => rfl
  | some n =>
    have := hp (Option.isSome_of_eq_some hs) rest
    rw [h] at this
    cases this

theorem Free.of_part (hp : p.Extends) (ht : p.Free t) (hu : u <:+: t) : p.Free u := by
  obtain ⟨front, back, rfl⟩ := hu
  rintro s ⟨more, rfl⟩
  exact span?_eq_none_of_append hp (ht (s ++ back) ⟨front ++ more, by simp⟩)

/-! ## Pieces -/

theorem split_of_span {n : Nat} (h : p.span? s = some n) :
    p.split s = [] :: p.split (s.drop n) := by
  cases s with
  | nil => rw [p.span?_nil] at h; cases h
  | cons c s =>
    rw [split]
    split
    · next m h' => rw [h] at h'; cases h'; rfl
    · next h' => rw [h] at h'; cases h'

theorem split_cons_of_none {c : Char} (h : p.span? (c :: s) = none) :
    p.split (c :: s) = consHead c (p.split s) := by
  rw [split]
  split
  · next n h' => rw [h] at h'; cases h'
  · rfl

theorem split_nil (p : Pattern) : p.split [] = [[]] := by rw [split]

/-- The first piece stands at the front. -/
theorem prefix_of_split_eq_cons {ts : List Text} (h : p.split s = t :: ts) : t <+: s := by
  induction s generalizing t ts with
  | nil =>
    rw [split_nil, List.cons.injEq] at h
    exact h.1 ▸ List.nil_prefix
  | cons c s ih =>
    cases hc : p.span? (c :: s) with
    | some n =>
      rw [split_of_span hc, List.cons.injEq] at h
      rw [← h.1]
      exact List.nil_prefix
    | none =>
      obtain ⟨v, vs, hv⟩ := List.exists_cons_of_ne_nil (p.split_ne_nil s)
      rw [split_cons_of_none hc, hv, consHead, List.cons.injEq] at h
      rw [← h.1]
      exact (List.prefix_cons_inj c).2 (ih hv)

/-- The pattern fits nowhere in a piece between its places. -/
theorem free_of_mem_split (hp : p.Extends) (h : t ∈ p.split s) : p.Free t := by
  induction s using p.pieces_induction generalizing t with
  | nil =>
    rw [split_nil, List.mem_singleton] at h
    exact h ▸ p.free_nil
  | piece s n hs ih =>
    rw [split_of_span hs] at h
    rcases List.mem_cons.1 h with rfl | h
    · exact p.free_nil
    · exact ih h
  | keep c s hs ih =>
    obtain ⟨v, vs, hv⟩ := List.exists_cons_of_ne_nil (p.split_ne_nil s)
    rw [split_cons_of_none hs, hv, consHead] at h
    rw [hv] at ih
    rcases List.mem_cons.1 h with rfl | h
    · -- only the place before `c` is new, and what fits there fits in the whole text
      intro w hw
      rcases List.suffix_cons_iff.1 hw with rfl | hw
      · obtain ⟨back, hback⟩ := (List.prefix_cons_inj c).2 (prefix_of_split_eq_cons hv)
        exact span?_eq_none_of_append hp (hback ▸ hs)
      · exact ih List.mem_cons_self w hw
    · exact ih (List.mem_cons_of_mem v h)

theorem split_of_free (h : p.Free s) : p.split s = [s] := by
  induction s with
  | nil => exact split_nil p
  | cons c s ih =>
    have hrest : p.Free s := fun u hu => h u (hu.trans (List.suffix_cons c s))
    rw [split_cons_of_none (h _ List.suffix_rfl), ih hrest]
    rfl

theorem infix_of_mem_split (h : t ∈ p.split s) : t <:+: s := by
  induction s using p.pieces_induction generalizing t with
  | nil =>
    rw [split_nil, List.mem_singleton] at h
    exact h ▸ List.infix_rfl
  | piece s n hs ih =>
    rw [split_of_span hs] at h
    rcases List.mem_cons.1 h with rfl | h
    · exact List.nil_infix
    · exact (ih h).trans (List.drop_suffix n _).isInfix
  | keep c s hs ih =>
    obtain ⟨v, vs, hv⟩ := List.exists_cons_of_ne_nil (p.split_ne_nil s)
    rw [split_cons_of_none hs, hv, consHead] at h
    rcases List.mem_cons.1 h with rfl | h
    · exact ((List.prefix_cons_inj c).2 (prefix_of_split_eq_cons hv)).isInfix
    · exact (ih (hv ▸ List.mem_cons_of_mem v h)).trans (List.suffix_cons c s).isInfix

/-! ## Places -/

theorem span?_of_mem_occurrencesFrom {back : Text} {o : Occurrence}
    (h : o ∈ p.occurrencesFrom back s) :
    p.span? (o.found ++ o.after) = some o.found.length := by
  induction hn : s.length using Nat.strongRecOn generalizing s back with
  | ind n ih =>
    subst hn
    cases s with
    | nil => rw [occurrencesFrom] at h; cases h
    | cons c s =>
      rw [occurrencesFrom] at h
      split at h
      · exact ih s.length (by simp) h rfl
      · split at h
        · next n hc =>
          rcases List.mem_cons.1 h with rfl | h
          · show p.span? ((c :: s).take n ++ (c :: s).drop n) = _
            rw [List.take_append_drop, hc, Tail.length_take hc]
          · exact ih _ (p.drop_shorter hc) h rfl
        · exact ih s.length (by simp) h rfl

/-- What is found at a place is what the pattern reads there. -/
theorem span?_of_mem_occurrences {o : Occurrence} (h : o ∈ p.occurrences s) :
    p.span? (o.found ++ o.after) = some o.found.length :=
  span?_of_mem_occurrencesFrom h

/-- A place stands in the text, with what lies before it behind what was passed over. -/
theorem before_of_mem_occurrencesFrom {back : Text} {o : Occurrence}
    (h : o ∈ p.occurrencesFrom back s) :
    ∃ front, o.back = front.reverse ++ back ∧ s = front ++ (o.found ++ o.after) := by
  fun_induction p.occurrencesFrom back s with
  | case1 => cases h
  | case2 back c s hw ih =>
    obtain ⟨front, hback, rfl⟩ := ih h
    exact ⟨c :: front, by simp [hback], rfl⟩
  | case3 back c s hw n hn found after ih =>
    rcases List.mem_cons.1 h with rfl | h
    · exact ⟨[], rfl, by simp [found, after]⟩
    · obtain ⟨front, hback, hs⟩ := ih h
      refine ⟨found ++ front, by simp [hback], ?_⟩
      rw [List.append_assoc, ← hs]
      exact (List.take_append_drop n _).symm
  | case4 back c s hw hn ih =>
    obtain ⟨front, hback, rfl⟩ := ih h
    exact ⟨c :: front, by simp [hback], rfl⟩

theorem after_suffix_of_mem_occurrences {o : Occurrence} (h : o ∈ p.occurrences s) :
    o.after <:+ s := by
  obtain ⟨front, -, rfl⟩ := before_of_mem_occurrencesFrom h
  exact (List.suffix_append _ _).trans (List.suffix_append _ _)

theorem occurrencesFrom_of_span (back : Text) {n : Nat} (hword : back.head?.any isWord = false)
    (h : p.span? s = some n) :
    p.occurrencesFrom back s =
      ⟨back, s.take n, s.drop n⟩ :: p.occurrencesFrom ((s.take n).reverse ++ back) (s.drop n) := by
  cases s with
  | nil => rw [p.span?_nil] at h; cases h
  | cons c s =>
    rw [occurrencesFrom, if_neg (by rw [hword]; exact Bool.false_ne_true)]
    split
    · next m h' => rw [h] at h'; cases h'; rfl
    · next h' => rw [h] at h'; cases h'

/-- A character at which no place starts is passed over. -/
theorem occurrencesFrom_cons {back : Text} {c : Char}
    (h : back.head?.any isWord = true ∨ p.span? (c :: s) = none) :
    p.occurrencesFrom back (c :: s) = p.occurrencesFrom (c :: back) s := by
  rw [occurrencesFrom]
  split
  · rfl
  · next hword =>
    split
    · next n h' => rw [h.resolve_left hword] at h'; cases h'
    · rfl

/-- A search from place to place comes to the place behind `front` if no place before leads to
anything: what is found there ends within `front` and is of no use, or goes on through `tail` and
ends where the place behind `front` ends. -/
theorem findSome?_occurrencesFrom {β : Type} {f : Text → Option β} {tail rest : Text} {b : β}
    (htail : p.read tail = some rest) (hrest : f rest = some b) {front back : Text}
    (hword : (front.reverse ++ back).head?.any isWord = false)
    (hfront : ∀ t n, t <:+ front → t ≠ [] → p.span? (t ++ tail) = some n →
      n ≤ t.length ∧ f (t.drop n ++ tail) = none ∨ (t ++ tail).drop n = rest) :
    ((p.occurrencesFrom back (front ++ tail)).findSome? fun o => f o.after) = some b := by
  induction hn : front.length using Nat.strongRecOn generalizing front back with
  | ind n ih =>
    subst hn
    cases front with
    | nil =>
      obtain ⟨m, hm, rfl⟩ := Option.map_eq_some_iff.1 htail
      rw [List.nil_append, occurrencesFrom_of_span back hword hm, List.findSome?_cons,
        hrest]
    | cons c front =>
      have hstep : ∀ found front', found ≠ [] → c :: front = found ++ front' →
          ((p.occurrencesFrom (found.reverse ++ back) (front' ++ tail)).findSome?
            fun o => f o.after) = some b := by
        intro found front' hne heq
        have hlen := congrArg List.length heq
        have hpos := List.length_pos_iff.2 hne
        simp only [List.length_cons, List.length_append] at hlen
        refine ih front'.length (by simp; omega) ?_ ?_ rfl
        · rwa [heq, List.reverse_append, List.append_assoc] at hword
        · exact fun t n ht => hfront t n (ht.trans ⟨found, heq.symm⟩)
      by_cases hskip : back.head?.any isWord = true ∨ p.span? (c :: front ++ tail) = none
      · rw [List.cons_append, occurrencesFrom_cons (s := front ++ tail) hskip]
        exact hstep [c] front (by simp) rfl
      · obtain ⟨hback, hsome⟩ := not_or.1 hskip
        obtain ⟨n, hspan⟩ := Option.ne_none_iff_exists'.1 hsome
        rw [occurrencesFrom_of_span back (by simpa using hback) hspan, List.findSome?_cons]
        rcases hfront _ n List.suffix_rfl (by simp) hspan with ⟨hle, hnone⟩ | hdrop
        · rw [List.drop_append_of_le_length hle, hnone, List.take_append_of_le_length hle]
          refine hstep _ _ ?_ (List.take_append_drop n _).symm
          have := p.span_pos hspan
          exact List.ne_nil_of_length_pos (by simp; omega)
        · rw [hdrop, hrest]

/-- The only place of a text is the one behind `front`, where no other place lies before or
after. -/
theorem occurrencesFrom_eq_singleton {tail : Text} {n : Nat} (htail : p.span? tail = some n)
    {front back : Text} (hword : (front.reverse ++ back).head?.any isWord = false)
    (honly : ∀ o ∈ p.occurrencesFrom back (front ++ tail), o.back = front.reverse ++ back) :
    p.occurrencesFrom back (front ++ tail) =
      [⟨front.reverse ++ back, tail.take n, tail.drop n⟩] := by
  induction front generalizing back with
  | nil =>
    rw [List.nil_append] at honly ⊢
    have hcons := occurrencesFrom_of_span back hword htail
    rw [hcons, List.reverse_nil, List.nil_append, List.cons.injEq]
    refine ⟨rfl, List.eq_nil_iff_forall_not_mem.2 fun o ho => ?_⟩
    -- a later place has the first one before it
    obtain ⟨front, hback, -⟩ := before_of_mem_occurrencesFrom ho
    have hlen := congrArg List.length (honly o (hcons ▸ List.mem_cons_of_mem _ ho))
    have := p.span_pos htail
    have := p.span_le htail
    simp [hback] at hlen
    omega
  | cons c front ih =>
    have hrev : (c :: front).reverse ++ back = front.reverse ++ c :: back := by simp
    rw [hrev] at hword honly ⊢
    have hnext : p.occurrencesFrom back (c :: front ++ tail) =
        p.occurrencesFrom (c :: back) (front ++ tail) := by
      by_cases hskip : back.head?.any isWord = true ∨ p.span? (c :: front ++ tail) = none
      · exact occurrencesFrom_cons hskip
      · obtain ⟨hback, hsome⟩ := not_or.1 hskip
        obtain ⟨m, hspan⟩ := Option.ne_none_iff_exists'.1 hsome
        have hcons := occurrencesFrom_of_span back (by simpa using hback) hspan
        have hlen := congrArg List.length (honly _ (hcons ▸ List.mem_cons_self))
        simp at hlen
        omega
    rw [hnext] at honly ⊢
    exact ih hword honly

end Pattern

end DocTypes
