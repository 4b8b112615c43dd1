/-
  How often a pattern fits in a text. `Pattern.count` goes by places, overlapping ones too, as the
  counts of tags do; so it is at least the number of pieces that a substitution replaces, and what
  a substitution adds of a character is bounded by it (`count_substitute_le`). Cutting a text at a
  character makes one more piece than there are such characters (`length_splitOn`), and joining
  texts without it puts that many back (`count_joinWith`). A reader is `LineBlind` if it takes a
  newline for a space; what it counts stays when newlines become spaces.
-/
import DocTypes.Proofs.Text.Ink
import DocTypes.Proofs.Text.Substitution

namespace DocTypes.Pattern

open Text

variable {p q : Pattern} {f : Text → Text} {s t : Text} {n : Nat}

/-- The number of places in the text at which the pattern fits. -/
def count (p : Pattern) : Text → Nat
  | [] => 0
  | c :: s => (if (p.span? (c :: s)).isSome then 1 else 0) + p.count s

theorem count_cons_of_none {c : Char} (h : p.span? (c :: s) = none) :
    p.count (c :: s) = p.count s := by
  rw [count, h]
  exact Nat.zero_add _

theorem count_le_cons (c : Char) (s : Text) : p.count s ≤ p.count (c :: s) := by
  rw [count]
  exact Nat.le_add_left _ _

theorem count_le_of_suffix (h : s <:+ t) : p.count s ≤ p.count t := by
  obtain ⟨front, rfl⟩ := h
  induction front with
  | nil => exact Nat.le_refl _
  | cons c front ih => exact Nat.le_trans ih (count_le_cons c _)

/-- Behind the start of a place there is one place less. -/
theorem count_drop_lt (h : (p.span? s).isSome) (hn : 0 < n) : p.count (s.drop n) < p.count s := by
  cases s with
  | nil =>
    rw [p.span?_nil] at h
    cases h
  | cons c s =>
    obtain ⟨m, rfl⟩ : ∃ m, n = m + 1 := Nat.exists_eq_succ_of_ne_zero (Nat.ne_of_gt hn)
    have hdrop := count_le_of_suffix (p := p) (List.drop_suffix m s)
    rw [count, if_pos h, List.drop_succ_cons]
    omega

/-- A count that is not zero is one of a place. -/
theorem exists_place_of_count_pos (h : 0 < p.count s) :
    ∃ t, t <:+ s ∧ (p.span? t).isSome := by
  induction s with
  | nil => exact absurd h (Nat.lt_irrefl 0)
  | cons c s ih =>
    by_cases hc : (p.span? (c :: s)).isSome
    · exact ⟨c :: s, List.suffix_rfl, hc⟩
    · rw [count, if_neg hc, Nat.zero_add] at h
      obtain ⟨t, ht, hplace⟩ := ih h
      exact ⟨t, ht.trans (List.suffix_cons c s), hplace⟩

/-- Where the pattern fits, one of two others does. -/
theorem count_le_add {r : Pattern}
    (h : ∀ s, (p.span? s).isSome → (q.span? s).isSome ∨ (r.span? s).isSome) (s : Text) :
    p.count s ≤ q.count s + r.count s := by
  induction s with
  | nil => exact Nat.zero_le _
  | cons c s ih =>
    have hplace := h (c :: s)
    simp only [count]
    split <;> split <;> split <;> simp_all <;> omega

/-- A text without the character that the pattern starts with has no place in it. -/
theorem count_append_of_notMem {c : Char} (hp : p.StartsWith c) (hs : c ∉ s) (t : Text) :
    p.count (s ++ t) = p.count t := by
  induction s with
  | nil => rfl
  | cons d s ih =>
    rw [List.mem_cons, not_or] at hs
    rw [List.cons_append, count_cons_of_none (hp.span?_cons (Ne.symm hs.1) _), ih hs.2]

theorem span?_of_count_eq_zero (h : p.count s = 0) : p.span? s = none := by
  cases hs : p.span? s with
  | none => rfl
  | some n =>
    have := count_drop_lt (Option.isSome_of_eq_some hs) (p.span_pos hs)
    omega

/-- A text without places stays. -/
theorem substitute_of_count_eq_zero (h : p.count s = 0) (f : Text → Text) :
    p.substitute f s = s :=
  substitute_of_none (fun _ ht => span?_of_count_eq_zero
    (Nat.eq_zero_of_le_zero (h ▸ count_le_of_suffix ht))) f

/-- If what is put in for a piece has one `c` more than the piece at most, and only where `q` fits,
so many places of `q` are what the substitution adds at most. -/
theorem count_substitute_le {c : Char}
    (hf : ∀ s n, p.span? s = some n → (f (s.take n)).count c ≤
      (if (q.span? s).isSome then 1 else 0) + (s.take n).count c) (s : Text) :
    (p.substitute f s).count c ≤ q.count s + s.count c := by
  induction s using p.pieces_induction with
  | nil =>
    rw [p.substitute_nil]
    exact Nat.zero_le _
  | piece s n h ih =>
    have hpiece := hf s n h
    have hsplit : s.count c = (s.take n).count c + (s.drop n).count c := by
      rw [← List.count_append, List.take_append_drop]
    have hplaces : (if (q.span? s).isSome then 1 else 0) + q.count (s.drop n) ≤ q.count s := by
      split
      · next hq =>
        have := count_drop_lt hq (p.span_pos h)
        omega
      · rw [Nat.zero_add]
        exact count_le_of_suffix (List.drop_suffix n s)
    rw [p.substitute_of_span f h, List.count_append]
    omega
  | keep d s h ih =>
    have := count_le_cons (p := q) d s
    rw [p.substitute_cons_of_none f h, List.count_cons, List.count_cons]
    omega

end DocTypes.Pattern

/-! ## Newlines read as spaces -/

namespace DocTypes.Tail

open Text

/-- The reader takes a newline for a space. -/
def LineBlind (t : Tail) : Prop := ∀ s, t.span? (replaceChar '\n' ' ' s) = t.span? s

section Closure

variable {q : Char → Bool} (hq : q '\n' = q ' ')

include hq

theorem blind_char (c : Char) : q (if c = '\n' then ' ' else c) = q c := by
  split
  · next hc => rw [hc, hq]
  · rfl

theorem lineBlind_one : (Pattern.one q).LineBlind := by
  intro s
  cases s with
  | nil => rfl
  | cons c s =>
    show (if q (if c = '\n' then ' ' else c) then some 1 else none) = if q c then some 1 else none
    rw [blind_char hq]

theorem lineBlind_many : (many q).LineBlind := by
  intro s
  simp only [many, Option.some.injEq]
  induction s with
  | nil => rfl
  | cons c s ih =>
    rw [replaceChar_cons, List.takeWhile_cons, List.takeWhile_cons, blind_char hq]
    split
    · rw [List.length_cons, List.length_cons, ih]
    · rfl

end Closure

theorem lineBlind_like {key : Char → Char} {w : Text} (hw : w ≠ []) (hnl : key '\n' ∉ w)
    (hsp : key ' ' ∉ w) : (Pattern.like key w hw).LineBlind := by
  have hsome : ∀ (w s : Text), key '\n' ∉ w → key ' ' ∉ w →
      (after? key w (replaceChar '\n' ' ' s)).isSome = (after? key w s).isSome := by
    intro w
    induction w with
    | nil => intros; rfl
    | cons a w ih =>
      intro s hnl hsp
      rw [List.mem_cons, not_or] at hnl hsp
      cases s with
      | nil => rfl
      | cons c s =>
        rw [replaceChar_cons, after?, after?]
        by_cases hc : c = '\n'
        · rw [if_pos hc, hc, if_neg hsp.1, if_neg hnl.1]
        · rw [if_neg hc]
          split
          · exact ih s hnl.2 hsp.2
          · rfl
  intro s
  have := hsome w s hnl hsp
  show (after? key w (replaceChar '\n' ' ' s)).map _ = (after? key w s).map _
  cases h1 : after? key w (replaceChar '\n' ' ' s) <;> cases h2 : after? key w s <;> simp_all

variable {a b : Tail}

theorem LineBlind.followedBy (ha : a.LineBlind) (hb : b.LineBlind) :
    (a.followedBy b).LineBlind := by
  intro s
  have hdrop : ∀ n, (replaceChar '\n' ' ' s).drop n = replaceChar '\n' ' ' (s.drop n) :=
    fun n => List.map_drop.symm
  simp only [Tail.followedBy, ha s, hdrop, hb _]

theorem LineBlind.or (ha : a.LineBlind) (hb : b.LineBlind) : (a.or b).LineBlind := by
  intro s
  simp only [Tail.or, ha s, hb s]

theorem LineBlind.optional (ha : a.LineBlind) : a.optional.LineBlind := by
  intro s
  simp only [Tail.optional, ha s]

theorem LineBlind.through (ha : a.LineBlind) : a.through.LineBlind := by
  intro s
  show a.spanThrough (replaceChar '\n' ' ' s) = a.spanThrough s
  induction s with
  | nil => exact ha []
  | cons c s ih =>
    rw [replaceChar_cons, Tail.spanThrough, Tail.spanThrough, ← replaceChar_cons, ha, ih]

end DocTypes.Tail

namespace DocTypes.Pattern

open Text

variable {p : Pattern}

theorem count_replaceChar (hp : p.LineBlind) (s : Text) :
    p.count (replaceChar '\n' ' ' s) = p.count s := by
  induction s with
  | nil => rfl
  | cons c s ih =>
    rw [replaceChar_cons, count, ← replaceChar_cons, hp, ih, count]

/-- Pieces are left out as they would be with the newlines in the text. -/
theorem replace_nil_replaceChar (hp : p.LineBlind) (s : Text) :
    p.replace [] (replaceChar '\n' ' ' s) = replaceChar '\n' ' ' (p.replace [] s) := by
  unfold replace
  induction s using p.pieces_induction with
  | nil => rw [p.substitute_nil]; exact p.substitute_nil _
  | piece s n h ih =>
    have hdrop : (replaceChar '\n' ' ' s).drop n = replaceChar '\n' ' ' (s.drop n) :=
      List.map_drop.symm
    rw [p.substitute_of_span _ h, p.substitute_of_span _ ((hp s).trans h), hdrop, ih]
    rfl
  | keep c s h ih =>
    have hspan := (hp (c :: s)).trans h
    rw [replaceChar_cons] at hspan ⊢
    rw [p.substitute_cons_of_none _ h, p.substitute_cons_of_none _ hspan, ih, replaceChar_cons]

theorem replace_nil_sublist (p : Pattern) (s : Text) : (p.replace [] s).Sublist s := by
  unfold replace
  induction s using p.pieces_induction with
  | nil => simpa only [p.substitute_nil] using List.Sublist.refl ([] : Text)
  | piece s n h ih =>
    rw [p.substitute_of_span _ h]
    exact ih.trans (List.drop_sublist n s)
  | keep c s h ih =>
    rw [p.substitute_cons_of_none _ h]
    exact ih.cons_cons c

end DocTypes.Pattern

namespace DocTypes.Text

/-! ## Characters of cut and joined texts -/

theorem length_splitOn (c : Char) (s : Text) : (splitOn c s).length = s.count c + 1 := by
  induction s with
  | nil => rfl
  | cons d s ih =>
    rw [splitOn]
    by_cases hd : d = c
    · rw [if_pos hd, hd, List.length_cons, ih, List.count_cons_self]
    · rw [if_neg hd, List.count_cons_of_ne hd, ← ih]
      obtain ⟨ts, hs⟩ := exists_splitOn_eq_cons c s
      rw [hs]
      rfl

theorem count_joinWith {c : Char} {ts : List Text} (h : ∀ t ∈ ts, c ∉ t) :
    (joinWith [c] ts).count c = ts.length - 1 := by
  induction ts with
  | nil => rfl
  | cons t ts ih =>
    have ht : t.count c = 0 := List.count_eq_zero.2 (h t List.mem_cons_self)
    have ih := ih fun u hu => h u (List.mem_cons_of_mem t hu)
    cases ts with
    | nil => rw [joinWith_singleton, ht]; rfl
    | cons u us =>
      rw [joinWith_cons_cons, List.count_append, List.count_append, ht, ih,
        List.count_singleton_self]
      simp only [List.length_cons]
      omega

theorem count_replaceChar {c old new : Char} (hold : c ≠ old) (hnew : c ≠ new) (s : Text) :
    (replaceChar old new s).count c = s.count c := by
  induction s with
  | nil => rfl
  | cons d s ih =>
    rw [replaceChar_cons, List.count_cons, List.count_cons, ih]
    by_cases hd : d = old
    · rw [if_pos hd, hd]
      simp [hold.symm, hnew.symm]
    · rw [if_neg hd]

theorem flatten_sublist {ts us : List Text} (h : ts.Sublist us) :
    ts.flatten.Sublist us.flatten := by
  induction h with
  | slnil => exact List.Sublist.refl _
  | cons t _ ih => exact ih.trans (List.sublist_append_right t _)
  | cons_cons t _ ih => exact (List.Sublist.refl t).append ih

end DocTypes.Text
