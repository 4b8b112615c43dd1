/-
  The words "on success", which are looked for first in a sentence. What the search finds is the
  words where they stand (`exists_onSuccessAt`), and where a text says them, the search finds them
  within the text, whatever comes behind it (`SaysOnSuccess.exists_first`).
-/
import DocTypes.Phrase.Returns
import DocTypes.Proofs.Phrase.Keyword
import DocTypes.Proofs.Text.Places
import Mathlib.Data.List.Basic

namespace DocTypes.Phrase

open Text

/-- The words "on success" stand between the two texts, in any letter case. -/
structure OnSuccessAt (front w behind : Text) : Prop where
  word : w.map foldCase = "on success".toList
  starts : front.getLast?.any isWord = false
  ends : behind.head?.any isWord = false

/-- The words "on success" stand in the text, in any letter case. -/
def SaysOnSuccess (s : Text) : Prop :=
  ∃ front w behind, s = front ++ (w ++ behind) ∧ OnSuccessAt front w behind

theorem OnSuccessAt.announces {front w behind : Text} (h : OnSuccessAt front w behind) :
    ∃ c ∈ (front ++ w).getLast?, foldCase c = 's' := by
  have hlast := congrArg List.getLast? h.word
  rw [List.getLast?_map] at hlast
  obtain ⟨c, hc, hfold⟩ := Option.map_eq_some_iff.1 hlast
  exact ⟨c, by rw [List.getLast?_append, hc]; rfl, hfold⟩

theorem OnSuccessAt.length_eq {front w behind : Text} (h : OnSuccessAt front w behind) :
    w.length = 10 := by
  have := congrArg List.length h.word
  rwa [List.length_map] at this

theorem OnSuccessAt.ne_nil {front w behind : Text} (h : OnSuccessAt front w behind) :
    front ++ w ≠ [] := by
  obtain ⟨c, hc, -⟩ := h.announces
  exact List.ne_nil_of_mem (List.mem_of_mem_getLast? hc)

theorem OnSuccessAt.ends_append {front w s rest : Text} (h : OnSuccessAt front w (s ++ rest)) :
    s.head?.any isWord = false := by
  cases s with
  | nil => rfl
  | cons c s => exact h.ends

theorem read_onSuccess_eq_some_iff {s r : Text} :
    onSuccess.read s = some r ↔
      ∃ w, s = w ++ r ∧ w.map foldCase = "on success".toList ∧ r.head?.any isWord = false := by
  rw [show onSuccess.read s = afterKeyword? "on success".toList s from read_keyword _ _,
    afterKeyword?, Option.filter_eq_some_iff, after?_eq_some_iff]
  constructor
  · rintro ⟨⟨w, hs, hw⟩, hr⟩
    exact ⟨w, hs, hw, by simpa using hr⟩
  · rintro ⟨w, hs, hw, hr⟩
    exact ⟨⟨w, hs, hw⟩, by rw [hr]; rfl⟩

/-- What the search finds first is "on success" where it stands. -/
theorem exists_onSuccessAt {s r : Text}
    (h : (onSuccess.occurrences s).head?.map Occurrence.after = some r) :
    ∃ front w, s = front ++ (w ++ r) ∧ OnSuccessAt front w r := by
  obtain ⟨o, ho, rfl⟩ := Option.map_eq_some_iff.1 h
  have hmem := List.mem_of_mem_head? ho
  obtain ⟨front, hback, hs⟩ := Pattern.before_of_mem_occurrencesFrom hmem
  have hword := (Pattern.fitsAt_of_mem_occurrencesFrom hmem).1
  have hread : onSuccess.read (o.found ++ o.after) = some o.after := by
    rw [Tail.read, Pattern.span?_of_mem_occurrences hmem, Option.map_some, List.drop_left]
  obtain ⟨w, hw, hfold, hends⟩ := read_onSuccess_eq_some_iff.1 hread
  rw [hback, List.append_nil, List.head?_reverse] at hword
  exact ⟨front, w, hs.trans (congrArg _ hw), hfold, hword, hends⟩

/-- Where "on success" stands, the search finds it there or before. -/
theorem OnSuccessAt.exists_first {front w behind : Text} (h : OnSuccessAt front w behind) :
    ∃ front' w' behind', front ++ (w ++ behind) = front' ++ (w' ++ behind') ∧
      OnSuccessAt front' w' behind' ∧ front'.length ≤ front.length ∧
      (onSuccess.occurrences (front ++ (w ++ behind))).head?.map Occurrence.after =
        some behind' := by
  have hread := read_onSuccess_eq_some_iff.2 ⟨w, rfl, h.word, h.ends⟩
  have hfits : onSuccess.FitsAt (front.reverse ++ []) (w ++ behind) := by
    refine ⟨?_, Option.isSome_of_eq_some (Pattern.span?_of_read hread)⟩
    rw [List.append_nil, List.head?_reverse, h.starts]
  obtain ⟨front', rest, n, heq, hat, hn, hle, hhead⟩ := Pattern.exists_first hfits
  have hread' : onSuccess.read rest = some (rest.drop n) := by
    rw [Tail.read, hn, Option.map_some]
  obtain ⟨w', hrest, hw', hends⟩ := read_onSuccess_eq_some_iff.1 hread'
  have hstarts := hat.1
  rw [List.append_nil, List.head?_reverse] at hstarts
  refine ⟨front', w', rest.drop n, heq.trans (congrArg _ hrest), ⟨hw', hstarts, hends⟩, hle, ?_⟩
  rw [Pattern.occurrences, hhead]
  rfl

/-- Where a text that ends with a blank says "on success", the search finds it within the text,
whatever comes behind. -/
theorem SaysOnSuccess.exists_first {s : Text} (h : SaysOnSuccess s)
    (hlast : ∀ c ∈ s.getLast?, isBlank c = true) (rest : Text) :
    ∃ front w d, s = (front ++ w) ++ d ∧ OnSuccessAt front w (d ++ rest) ∧
      (onSuccess.occurrences (s ++ rest)).head?.map Occurrence.after = some (d ++ rest) := by
  obtain ⟨front, w, behind, rfl, hat⟩ := h
  have hne : behind ≠ [] := by
    rintro rfl
    obtain ⟨c, hc, hfold⟩ := hat.announces
    have hblank := hlast c (by rwa [List.append_nil])
    rw [foldCase_of_blank hblank] at hfold
    rw [hfold] at hblank
    cases hblank
  have hat' : OnSuccessAt front w (behind ++ rest) :=
    ⟨hat.word, hat.starts, by rw [List.head?_append_of_ne_nil _ hne, hat.ends]⟩
  obtain ⟨front', w', behind', heq, hfirst, hle, hhead⟩ := hat'.exists_first
  -- the words have the same length, so those found end within the text
  have hprefix : front' ++ w' <+: front ++ (w ++ behind) := by
    have hfound : front' ++ w' <+: front ++ (w ++ (behind ++ rest)) :=
      ⟨behind', by rw [List.append_assoc, ← heq]⟩
    refine List.prefix_of_prefix_length_le hfound ⟨rest, by simp⟩ ?_
    simp only [List.length_append, hfirst.length_eq, hat.length_eq]
    omega
  obtain ⟨d, hd⟩ := hprefix
  obtain rfl : d ++ rest = behind' := by
    have htext : (front' ++ w') ++ (d ++ rest) = (front' ++ w') ++ behind' := by
      rw [← List.append_assoc, hd, List.append_assoc, List.append_assoc, List.append_assoc, heq]
    exact List.append_cancel_left htext
  refine ⟨front', w', d, hd.symm, hfirst, ?_⟩
  rw [List.append_assoc, List.append_assoc, hhead]

theorem OnSuccessAt.saysOnSuccess {front w s rest : Text} (h : OnSuccessAt front w (s ++ rest)) :
    SaysOnSuccess ((front ++ w) ++ s) :=
  ⟨front, w, s, List.append_assoc _ _ _, h.word, h.starts, h.ends_append⟩

theorem saysOnSuccess_iff {s : Text} : SaysOnSuccess s ↔ onSuccess.occurrences s ≠ [] := by
  constructor
  · rintro ⟨front, w, behind, rfl, h⟩ hnil
    obtain ⟨_, _, _, -, -, -, hfirst⟩ := h.exists_first
    rw [hnil] at hfirst
    cases hfirst
  · intro h
    obtain ⟨o, os, hos⟩ := List.exists_cons_of_ne_nil h
    obtain ⟨front, w, hs, hat⟩ :=
      exists_onSuccessAt (s := s) (r := o.after) (by rw [hos]; rfl)
    exact ⟨front, w, _, hs, hat⟩

instance (s : Text) : Decidable (SaysOnSuccess s) :=
  decidable_of_iff (¬ (onSuccess.occurrences s).isEmpty) (by
    rw [List.isEmpty_iff, saysOnSuccess_iff])

end DocTypes.Phrase
