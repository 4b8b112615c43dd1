/-
  What the references of a text stand for. A reference is an `&`, a body without blanks, and a
  semicolon (`exists_body`), and the semicolon settles what is read (`decidedBy_reference`). So
  what decoding makes of a text can be cut at blanks, and each piece is what decoding makes of a
  part of the text (`exists_part_of_mem_splitOn`). How many of a character decoding adds is bounded
  by the references to it (`count_decodeReferences_le`): what decoding shows stands in the text, or
  there is a reference to it (`mem_decodeReferences`).
-/
import DocTypes.Markup.Reference
import DocTypes.Proofs.Markup.Tag
import DocTypes.Proofs.Text.Count

namespace DocTypes.Tail

theorem Avoids.followedBy {a b : Tail} {c : Char} (ha : a.Avoids c) (hb : b.Avoids c) :
    (a.followedBy b).Avoids c := by
  intro s n h hc
  obtain ⟨k, hk, h⟩ := Option.bind_eq_some_iff.1 h
  obtain ⟨m, hm, rfl⟩ := Option.map_eq_some_iff.1 h
  rw [List.take_add, List.mem_append] at hc
  rcases hc with hc | hc
  · exact ha hk hc
  · exact hb hm hc

theorem Avoids.or {a b : Tail} {c : Char} (ha : a.Avoids c) (hb : b.Avoids c) :
    (a.or b).Avoids c := by
  intro s n h
  rcases Option.or_eq_some_iff.1 h with h | ⟨-, h⟩
  · exact ha h
  · exact hb h

end DocTypes.Tail

namespace DocTypes.Markup

open Text

/-- The text spells a reference to the character, with whatever else in between. -/
def Spells (s : Text) (c : Char) : Prop :=
  ∃ body, denoted? body = some c ∧ ('&' :: body ++ [';']).Sublist s

theorem Spells.of_sublist {s t : Text} {c : Char} (h : Spells s c) (hst : s.Sublist t) :
    Spells t c := by
  obtain ⟨body, hbody, hs⟩ := h
  exact ⟨body, hbody, hs.trans hst⟩

section Characters

variable {c : Char}

theorem avoids_many1 {q : Char → Bool} (hq : q c = false) : (Pattern.many1 q).Avoids c :=
  (Tail.avoids_one hq).followedBy (Tail.avoids_many hq)

theorem decidedBy_many1 {q : Char → Bool} (hq : q c = false) : (Pattern.many1 q).DecidedBy c :=
  (Tail.decidedBy_one c).followedBy (Tail.avoids_one hq) (Tail.decidedBy_many hq)

/-- What stands between the `&` and the semicolon. -/
def referenceBody : Tail :=
  let sign := Pattern.char '#'
  ((sign.followedBy (Pattern.many1 Char.isDigit).toTail).or
    ((sign.followedBy ((Pattern.one fun c => c == 'x' || c == 'X').toTail.followedBy
      (Pattern.many1 isHexDigit).toTail)).or (Pattern.many1 Char.isAlpha))).toTail

theorem avoids_referenceBody (hsign : (c == '#') = false) (hx : (c == 'x' || c == 'X') = false)
    (hhex : isHexDigit c = false) (hdigit : c.isDigit = false) (hletter : c.isAlpha = false) :
    referenceBody.Avoids c := by
  have hnumber : (Pattern.char '#').toTail.Avoids c := Tail.avoids_one hsign
  have hcase : (Pattern.one fun c => c == 'x' || c == 'X').toTail.Avoids c := Tail.avoids_one hx
  exact (hnumber.followedBy (avoids_many1 hdigit)).or
    ((hnumber.followedBy (hcase.followedBy (avoids_many1 hhex))).or (avoids_many1 hletter))

end Characters

theorem endsAt_reference : reference.EndsAt ';' :=
  Tail.EndsAt.followedBy (Tail.avoids_one rfl)
    (Tail.EndsAt.followedBy (avoids_referenceBody rfl rfl rfl rfl rfl) (Tail.endsAt_char ';'))

theorem decidedBy_reference : reference.DecidedBy ';' := by
  have hsign : (Pattern.char '#').toTail.Avoids ';' := Tail.avoids_one rfl
  have hcase : (Pattern.one fun c => c == 'x' || c == 'X').toTail.Avoids ';' := Tail.avoids_one rfl
  have hnumber :=
    (Tail.decidedBy_one ';').followedBy hsign (decidedBy_many1 (q := Char.isDigit) rfl)
  have hhex := (Tail.decidedBy_one ';').followedBy hsign
    ((Tail.decidedBy_one ';').followedBy hcase (decidedBy_many1 (q := isHexDigit) rfl))
  have hbody : referenceBody.DecidedBy ';' :=
    hnumber.or (hhex.or (decidedBy_many1 (q := Char.isAlpha) rfl))
  exact (Tail.decidedBy_one ';').followedBy (Tail.avoids_one rfl)
    (hbody.followedBy (avoids_referenceBody rfl rfl rfl rfl rfl) (Tail.decidedBy_one ';'))

/-- There are no blanks in a reference. -/
theorem isInk_of_reference {s : Text} {n : Nat} (h : reference.span? s = some n) :
    ∀ c ∈ s.take n, isInk c = true := by
  have havoids : ∀ c, c = ' ' ∨ c = '\t' ∨ c = '\n' → reference.Avoids c := by
    intro c hc
    have hbody : referenceBody.Avoids c := by
      refine avoids_referenceBody ?_ ?_ ?_ ?_ ?_ <;> (rcases hc with rfl | rfl | rfl <;> rfl)
    have hopen : (Pattern.char '&').toTail.Avoids c :=
      Tail.avoids_one (by rcases hc with rfl | rfl | rfl <;> rfl)
    have hclose : (Pattern.char ';').toTail.Avoids c :=
      Tail.avoids_one (by rcases hc with rfl | rfl | rfl <;> rfl)
    exact hopen.followedBy (hbody.followedBy hclose)
  intro c hc
  rw [isInk, Bool.not_eq_true', ← Bool.not_eq_true]
  intro hblank
  refine havoids c ?_ h hc
  simpa only [Bool.or_eq_true, beq_iff_eq, or_assoc] using hblank

/-- A reference is an `&`, a body and a semicolon. -/
theorem exists_body {s : Text} {n : Nat} (h : reference.span? s = some n) :
    ∃ body, s.take n = '&' :: body ++ [';'] := by
  obtain ⟨q, hq, -⟩ := endsAt_reference h
  cases s with
  | nil => cases h
  | cons d s =>
    have hd : d = '&' := by
      refine Decidable.byContradiction fun hd => ?_
      rw [startsWith_reference.span?_cons hd] at h
      cases h
    have hpos := reference.span_pos h
    obtain ⟨m, rfl⟩ : ∃ m, n = m + 1 := ⟨n - 1, by omega⟩
    rw [List.take_succ_cons] at hq ⊢
    cases q with
    | nil =>
      rw [hd] at hq
      cases hq
    | cons c q => exact ⟨q, by rw [hd, (List.cons.inj hq).2]; rfl⟩

/-- A reference in a text spells the character that it denotes. -/
theorem spells_of_reference {c : Char} {s t : Text} {n : Nat} (ht : t <:+ s)
    (h : reference.span? t = some n) (hc : denoted? ((t.take n).tail.dropLast) = some c) :
    Spells (ink s) c := by
  obtain ⟨body, hbody⟩ := exists_body h
  have hink : ink (t.take n) = t.take n := List.filter_eq_self.2 (isInk_of_reference h)
  refine ⟨body, ?_, ?_⟩
  · rw [← hc, hbody]
    simp
  · rw [← hbody, ← hink]
    exact ink_sublist ((List.take_sublist n t).trans ht.sublist)

/-- Between blanks of its own kind, a decoded text is what decoding makes of a part of the text. -/
theorem exists_part_of_mem_splitOn {sep : Char} (hsep : isInk sep = false) {s piece : Text}
    (h : piece ∈ splitOn sep (decodeReferences s)) :
    ∃ part, part <:+: s ∧ piece = decodeReferences part := by
  have hdecoded : ∀ t n, reference.span? t = some n →
      decodeReference (t.take n) = [sep] ∨ sep ∉ decodeReference (t.take n) := by
    intro t n hread
    unfold decodeReference
    split
    · next d hd =>
      by_cases hds : d = sep
      · exact Or.inl (by rw [hds])
      · exact Or.inr (by simpa using Ne.symm hds)
    · refine Or.inr fun hmem => ?_
      rw [isInk_of_reference hread sep hmem] at hsep
      cases hsep
  obtain ⟨t, ts, hsplit, ht, hts⟩ :=
    Pattern.exists_splitOn_substitute endsAt_reference decidedBy_reference hdecoded s
  rw [decodeReferences, hsplit] at h
  rcases List.mem_cons.1 h with rfl | h
  · exact ⟨t, ht.isInfix, rfl⟩
  · obtain ⟨u, hu, rfl⟩ := List.mem_map.1 h
    exact ⟨u, hts u hu, rfl⟩

/-! ## Counting references -/

/-- A reference to the character `c`. -/
def referenceTo (c : Char) : Pattern where
  span? s := (reference.span? s).filter fun n => denoted? ((s.take n).tail.dropLast) == some c
  span_le h := reference.span_le (Option.filter_eq_some_iff.1 h).1
  span_pos h := reference.span_pos (Option.filter_eq_some_iff.1 h).1

theorem isSome_referenceTo_iff {c : Char} {s : Text} : ((referenceTo c).span? s).isSome ↔
    ∃ n, reference.span? s = some n ∧ denoted? ((s.take n).tail.dropLast) = some c := by
  rw [Option.isSome_iff_exists]
  refine exists_congr fun n => ?_
  show (reference.span? s).filter _ = some n ↔ _
  rw [Option.filter_eq_some_iff, beq_iff_eq]

/-- Decoding adds of a character as many as there are references to it, at most. -/
theorem count_decodeReferences_le (c : Char) (s : Text) :
    (decodeReferences s).count c ≤ (referenceTo c).count s + s.count c := by
  refine Pattern.count_substitute_le (fun t n h => ?_) s
  unfold decodeReference
  split
  · next d hd =>
    by_cases hdc : d = c
    · rw [if_pos (isSome_referenceTo_iff.2 ⟨n, h, hdc ▸ hd⟩), hdc, List.count_singleton_self]
      exact Nat.le_add_right 1 _
    · rw [List.count_singleton, if_neg (by simpa using hdc)]
      exact Nat.zero_le _
  · exact Nat.le_add_left _ _

/-- What decoding shows stands in the text, or there is a reference to it. -/
theorem mem_decodeReferences {c : Char} {s : Text} (h : c ∈ decodeReferences s) :
    c ∈ s ∨ 0 < (referenceTo c).count s := by
  have hcount := count_decodeReferences_le c s
  have hpos := List.count_pos_iff.2 h
  by_cases hc : c ∈ s
  · exact Or.inl hc
  · rw [List.count_eq_zero.2 hc] at hcount
    exact Or.inr (by omega)

/-- A text that does not spell a reference to the character has none. -/
theorem count_referenceTo_eq_zero {c : Char} {s : Text} (h : ¬ Spells (ink s) c) :
    (referenceTo c).count s = 0 := by
  refine Nat.eq_zero_of_not_pos fun hpos => h ?_
  obtain ⟨t, ht, hplace⟩ := Pattern.exists_place_of_count_pos hpos
  obtain ⟨n, hread, hc⟩ := isSome_referenceTo_iff.1 hplace
  exact spells_of_reference ht hread hc

theorem ink_stripTags_sublist (s : Text) : (ink (stripTags s)).Sublist (ink s) :=
  (Pattern.ink_replace rfl _).trans (Pattern.ink_replace rfl s)

end DocTypes.Markup
