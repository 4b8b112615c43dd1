/-
  What cleaning can add to a text. All that the stages of the cleaning put into a text is spaces,
  tabs and newlines, so the other characters, its ink, are some of those it had, in their order
  (`ink_substitute`, `ink_nonblankLines`). A character that a substitution shows either stood in
  the text or was put there for a piece of it (`mem_substitute`).
-/
import DocTypes.Proofs.Text.Lines
import DocTypes.Text.Pattern

namespace DocTypes.Text

/-- Is the character other than those the cleaning puts into a text? -/
def isInk (c : Char) : Bool := !(c == ' ' || c == '\t' || c == '\n')

/-- A text less its spaces, tabs and newlines. -/
def ink (s : Text) : Text := s.filter isInk

theorem mem_ink {c : Char} {s : Text} (hc : isInk c = true) (h : c ∈ s) : c ∈ ink s :=
  List.mem_filter.2 ⟨h, hc⟩

theorem mem_of_mem_ink {c : Char} {s : Text} (h : c ∈ ink s) : c ∈ s := (List.mem_filter.1 h).1

theorem ink_append (s t : Text) : ink (s ++ t) = ink s ++ ink t := List.filter_append s t

theorem ink_sublist {s t : Text} (h : s.Sublist t) : (ink s).Sublist (ink t) := h.filter isInk

theorem ink_replaceChar (s : Text) : ink (replaceChar '\n' ' ' s) = ink s := by
  unfold ink replaceChar
  rw [List.filter_map]
  induction s with
  | nil => rfl
  | cons c s ih =>
    rw [List.filter_cons, List.filter_cons]
    by_cases hc : c = '\n'
    · subst hc
      exact ih
    · have hkeep : (isInk ∘ fun d => if d = '\n' then ' ' else d) c = isInk c := by simp [hc]
      rw [hkeep]
      split
      · rw [List.map_cons, ih, if_neg hc]
      · exact ih

theorem ink_joinWith_newline (ls : List Text) : ink (joinWith ['\n'] ls) = ink ls.flatten := by
  induction ls with
  | nil => rfl
  | cons l ls ih =>
    cases ls with
    | nil => rw [joinWith_singleton, List.flatten_singleton]
    | cons m ms =>
      have hsep : ink ['\n'] = [] := rfl
      rw [joinWith_cons_cons, ink_append, ink_append, ih, hsep, List.nil_append,
        List.flatten_cons (l := l), ink_append]

theorem flatten_splitOn_sublist (sep : Char) (s : Text) : (splitOn sep s).flatten.Sublist s := by
  induction s with
  | nil => exact List.Sublist.refl _
  | cons c s ih =>
    rw [splitOn]
    split
    · exact ih.cons c
    · cases hs : splitOn sep s with
      | nil => exact absurd hs (splitOn_ne_nil sep s)
      | cons t ts =>
        rw [hs] at ih
        exact ih.cons_cons c

/-- The lines of a text are parts of it, one after the other. -/
theorem flatten_nonblankLines_sublist (s : Text) : (nonblankLines s).flatten.Sublist s := by
  have htrim : ∀ ls : List Text,
      ((ls.map trim).filter fun l => !l.isEmpty).flatten.Sublist ls.flatten := by
    intro ls
    induction ls with
    | nil => exact List.Sublist.refl _
    | cons l ls ih =>
      rw [List.map_cons, List.filter_cons, List.flatten_cons]
      split
      · exact (trim_isInfix l).sublist.append ih
      · exact ih.trans (List.sublist_append_right l _)
  exact (htrim _).trans (flatten_splitOn_sublist '\n' s)

end DocTypes.Text

namespace DocTypes.Pattern

open Text

variable {p : Pattern} {f : Text → Text}

/-- What is put in for a piece adds no ink, so the whole substitution adds none. -/
theorem ink_substitute (hf : ∀ piece, (ink (f piece)).Sublist (ink piece)) (s : Text) :
    (ink (p.substitute f s)).Sublist (ink s) := by
  induction s using p.pieces_induction with
  | nil => simpa only [p.substitute_nil f] using List.Sublist.refl (ink [])
  | piece s n h ih =>
    have hsplit : ink s = ink (s.take n) ++ ink (s.drop n) := by
      rw [← ink_append, List.take_append_drop]
    rw [p.substitute_of_span f h, ink_append, hsplit]
    exact (hf _).append ih
  | keep c s h ih =>
    rw [p.substitute_cons_of_none f h, ← List.singleton_append, ← List.singleton_append (l := s),
      ink_append, ink_append]
    exact (List.Sublist.refl _).append ih

theorem ink_replace {new : Text} (hnew : ink new = []) (s : Text) :
    (ink (p.replace new s)).Sublist (ink s) :=
  ink_substitute (fun piece => by rw [hnew]; exact List.nil_sublist _) s

/-- A character of a substitution is one of the text, or put in for a piece that was read. -/
theorem mem_substitute {c : Char} {s : Text} (h : c ∈ p.substitute f s) :
    c ∈ s ∨ ∃ t n, t <:+ s ∧ p.span? t = some n ∧ c ∈ f (t.take n) := by
  induction s using p.pieces_induction with
  | nil => rw [p.substitute_nil f] at h; cases h
  | piece s n hs ih =>
    rw [p.substitute_of_span f hs] at h
    rcases List.mem_append.1 h with h | h
    · exact Or.inr ⟨s, n, List.suffix_rfl, hs, h⟩
    · rcases ih h with h | ⟨t, m, ht, hread, hc⟩
      · exact Or.inl (List.mem_of_mem_drop h)
      · exact Or.inr ⟨t, m, ht.trans (List.drop_suffix n _), hread, hc⟩
  | keep d s hs ih =>
    rw [p.substitute_cons_of_none f hs] at h
    rcases List.mem_cons.1 h with rfl | h
    · exact Or.inl List.mem_cons_self
    · rcases ih h with h | ⟨t, m, ht, hread, hc⟩
      · exact Or.inl (List.mem_cons_of_mem d h)
      · exact Or.inr ⟨t, m, ht.trans (List.suffix_cons d s), hread, hc⟩

end DocTypes.Pattern
