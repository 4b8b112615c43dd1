/-
  The types of announced results. A type word is an identifier, and stays one as a singular, so an
  announced result is an atom or an array of one, with another atom for a fallback
  (`isResult_of_announced`).
-/
import DocTypes.Phrase.Returns
import DocTypes.Proofs.Phrase.TypePhrase

namespace DocTypes

open Text

namespace TypeExpr

/-- An atom or an array of one. -/
inductive IsSingle : TypeExpr → Prop
  | atom {t : TypeExpr} : IsAtom t → IsSingle t
  | array {t : TypeExpr} : IsAtom t → IsSingle (array t)

/-- The result of an operation: one type, or one with an atom as its fallback. -/
inductive IsResult : TypeExpr → Prop
  | single {t : TypeExpr} : IsSingle t → IsResult t
  | fallback {t u : TypeExpr} : IsSingle t → IsAtom u → IsResult (union [t, u])

theorem isResult_unknown : IsResult unknown := .single (.atom (.named (by decide)))

end TypeExpr

namespace Phrase

open TypeExpr

/-! ## Type words -/

/-- A capital and name characters behind it. -/
structure IsTypeWord (w : Text) : Prop where
  isUpper_head : w.head?.any Char.isUpper = true
  isNameChar_tail : ∀ c ∈ w.tail, isNameChar c = true

theorem IsTypeWord.isIdentifier {w : Text} (h : IsTypeWord w) : isIdentifier w = true := by
  obtain ⟨hhead, htail⟩ := h
  cases w with
  | nil => cases hhead
  | cons c w =>
    have hc : c.isUpper = true := hhead
    have hw : w.all isNameChar = true := List.all_eq_true.2 htail
    show ((c.isUpper || c.isLower || c == '_') && w.all isNameChar) = true
    rw [hc, hw]
    rfl

theorem isTypeWord_take {s : Text} {n : Nat} (h : typeWord.span? s = some n) :
    IsTypeWord (s.take n) := by
  obtain ⟨k, hk, h⟩ := Option.bind_eq_some_iff.1 h
  obtain ⟨m, hm, rfl⟩ := Option.map_eq_some_iff.1 h
  cases s with
  | nil => cases hk
  | cons c s =>
    by_cases hc : c.isUpper = true
    · simp only [Pattern.one, List.head?_cons, Option.any_some, hc, if_true,
        Option.some.injEq] at hk
      subst hk
      obtain ⟨j, hj, rfl⟩ := Option.map_eq_some_iff.1 hm
      -- nothing is read where the word ends
      have hj0 : j = 0 := by
        simp only [Tail.wordEnd] at hj
        split at hj <;> simp at hj
        exact hj.symm
      subst hj0
      have htake : (c :: s).take (1 + ((s.takeWhile isNameChar).length + 0)) =
          c :: s.takeWhile isNameChar := by
        rw [Nat.add_zero, Nat.add_comm, List.take_succ_cons,
          ← List.prefix_iff_eq_take.1 (List.takeWhile_prefix isNameChar)]
      exact htake ▸ ⟨hc, fun d hd => List.all_eq_true.1 List.all_takeWhile d hd⟩
    · simp [Pattern.one, hc] at hk

theorem isTypeWord_found {s : Text} {o : Occurrence} (h : o ∈ typeWord.occurrences s) :
    IsTypeWord o.found := by
  have := isTypeWord_take (Pattern.span?_of_mem_occurrences h)
  rwa [List.take_left] at this

/-- Only name characters are dropped from a word, and never its capital. -/
theorem isTypeWord_singular {w : Text} (h : IsTypeWord w) : IsTypeWord (singular w) := by
  unfold singular
  split
  · exact h
  · next front _ hrev =>
    have hw : w = front.reverse ++ ['s'] := by
      rw [← List.reverse_reverse w, hrev, List.reverse_cons]
    cases hfront : front.reverse with
    | nil =>
      have := h.isUpper_head
      rw [hw, hfront] at this
      cases this
    | cons c v =>
      rw [hfront] at hw
      refine ⟨by simpa [hw] using h.isUpper_head, fun d hd => h.isNameChar_tail d ?_⟩
      rw [hw]
      exact List.mem_append_left _ hd
  · exact h

/-! ## Results -/

theorem isTypeWord_otherwiseType {s w : Text} (h : otherwiseType? s = some w) : IsTypeWord w := by
  unfold otherwiseType? at h
  dsimp only at h
  split at h
  · cases h
  · obtain ⟨n, hn, rfl⟩ := Option.map_eq_some_iff.1 h
    exact isTypeWord_take hn

/-- The names in a return phrase are type words. -/
theorem isTypeWord_returnPhraseIn {rest : Text} {r : ReturnPhrase}
    (h : returnPhraseIn? rest = some r) :
    IsTypeWord r.typeName ∧ ∀ w ∈ r.fallback, IsTypeWord w := by
  obtain ⟨o, ho, rfl⟩ := Option.map_eq_some_iff.1 h
  have hword := isTypeWord_found (List.mem_of_find?_eq_some ho)
  refine ⟨?_, fun w hw => ?_⟩
  · dsimp only
    split
    · exact isTypeWord_singular hword
    · exact hword
  · obtain ⟨o', -, hw⟩ := List.exists_of_findSome?_eq_some hw
    exact isTypeWord_otherwiseType hw

theorem isResult_type {r : ReturnPhrase} (hname : IsTypeWord r.typeName)
    (hfallback : ∀ w ∈ r.fallback, IsTypeWord w) : r.type.IsResult := by
  have hatom := isAtom_resolve hname.isIdentifier
  have hsingle :
      (if r.isArray then .array (resolve r.typeName) else resolve r.typeName).IsSingle := by
    split
    · exact .array hatom
    · exact .atom hatom
  unfold ReturnPhrase.type
  cases hf : r.fallback with
  | none => exact .single hsingle
  | some w => exact .fallback hsingle (isAtom_resolve (hfallback w hf).isIdentifier)

/-- What a description announces is found in the rest of a sentence. -/
theorem exists_returnPhraseIn {description : Text} {r : ReturnPhrase}
    (h : returnPhrase? description = some r) : ∃ rest, returnPhraseIn? rest = some r := by
  obtain ⟨sentence, -, hr⟩ := List.exists_of_findSome?_eq_some h
  rcases Option.or_eq_some_iff.1 hr with hr | ⟨-, hr⟩
  · obtain ⟨rest, -, hr⟩ := Option.bind_eq_some_iff.1 hr
    exact ⟨rest, hr⟩
  · obtain ⟨rest, -, hr⟩ := Option.bind_eq_some_iff.1 hr
    exact ⟨rest, hr⟩

/-- Whatever a description announces is a result. -/
theorem isResult_of_announced {description : Text} {t : TypeExpr}
    (h : announced? description = some t) : t.IsResult := by
  obtain ⟨r, hr, rfl⟩ := Option.map_eq_some_iff.1 h
  obtain ⟨rest, hr⟩ := exists_returnPhraseIn hr
  obtain ⟨hname, hfallback⟩ := isTypeWord_returnPhraseIn hr
  exact isResult_type hname hfallback

/-! ## Characters -/

theorem notMem_text_atom {c : Char} (hc : c ∉ typeMarks) (hname : isNameChar c = false)
    {t : TypeExpr} (h : t.IsAtom) : c ∉ t.text := by
  cases h with
  | primitive p => exact notMem_typeName hc p
  | @named n hn =>
    let name : Identifier := ⟨n.toList, hn⟩
    exact name.notMem hname

/-- The text of a result consists of name characters and those of the declaration language. -/
theorem notMem_text_result {c : Char} (hc : c ∉ typeMarks) (hname : isNameChar c = false)
    {t : TypeExpr} (h : t.IsResult) : c ∉ t.text := by
  have hsingle : ∀ {t : TypeExpr}, t.IsSingle → c ∉ t.text := by
    intro t ht
    cases ht with
    | atom ha => exact notMem_text_atom hc hname ha
    | array ha => exact notMem_text_array hc (notMem_text_atom hc hname ha)
  cases h with
  | single hs => exact hsingle hs
  | fallback hs ha =>
    refine notMem_text_union hc fun u hu => ?_
    rcases List.mem_cons.1 hu with rfl | hu
    · exact hsingle hs
    · rw [List.mem_singleton.1 hu]
      exact notMem_text_atom hc hname ha

end Phrase

end DocTypes
