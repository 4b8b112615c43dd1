/-
  Escaped text. The markup characters are written as references, so an escaped text has no tags,
  and decoding gives back what was escaped.
-/
import DocTypes.Proofs.Markup.Tag

namespace DocTypes.Markup

open Text

/-- A character of a text within markup. -/
def escapeChar : Char → Text
  | '&' => "&amp;".toList
  | '<' => "&lt;".toList
  | '>' => "&gt;".toList
  | c => [c]

/-- A text within markup. -/
def escape (s : Text) : Text := s.flatMap escapeChar

/-- The opening tag of `name`, without attributes. -/
def openMark (name : Text) : Text := '<' :: name ++ ['>']

/-- The closing tag of `name`. -/
def closeMark (name : Text) : Text := '<' :: '/' :: name ++ ['>']

/-- The element `name` with the given content. -/
def element (name content : Text) : Text := openMark name ++ content ++ closeMark name

/-! ## Escaped text -/

theorem mem_escapeChar {c d : Char} (h : c ∈ escapeChar d) :
    c = d ∧ d ≠ '<' ∨ c ∈ "&amp;&lt;&gt;".toList := by
  unfold escapeChar at h
  split at h
  · exact Or.inr (List.mem_append_left _ h)
  · exact Or.inr (List.mem_append_right "&amp;".toList (List.mem_append_left _ h))
  · exact Or.inr (List.mem_append_right "&amp;&lt;".toList h)
  · next hne _ => exact Or.inl ⟨List.mem_singleton.1 h, hne⟩

theorem lt_notMem_escape (s : Text) : '<' ∉ escape s := by
  intro h
  obtain ⟨d, -, h⟩ := List.mem_flatMap.1 h
  rcases mem_escapeChar h with ⟨rfl, hd⟩ | h
  · exact hd rfl
  · revert h
    decide

/-- Escaping brings in nothing but references. -/
theorem notMem_escape {c : Char} {s : Text} (hs : c ∉ s) (hc : c ∉ "&amp;&lt;&gt;".toList) :
    c ∉ escape s := by
  intro h
  obtain ⟨d, hd, h⟩ := List.mem_flatMap.1 h
  rcases mem_escapeChar h with ⟨rfl, -⟩ | h
  · exact hs hd
  · exact hc h

theorem rewrites_escape {p : Pattern} {f : Text → Text} (hp : p.StartsWith '<') (s : Text) :
    p.Rewrites f (escape s) (escape s) :=
  Pattern.Rewrites.of_notMem hp (lt_notMem_escape s)

/-- Decoding gives back what was escaped. -/
theorem rewrites_decode_escape (s : Text) :
    reference.Rewrites decodeReference (escape s) s := by
  have hchar : ∀ c ∈ s, reference.Rewrites decodeReference (escapeChar c) [c] := by
    intro c _
    unfold escapeChar
    split
    · exact Pattern.Rewrites.of_span (a := "&amp;".toList) fun _ => rfl
    · exact Pattern.Rewrites.of_span (a := "&lt;".toList) fun _ => rfl
    · exact Pattern.Rewrites.of_span (a := "&gt;".toList) fun _ => rfl
    · next hamp _ _ =>
      exact Pattern.Rewrites.of_notMem startsWith_reference (by simpa using Ne.symm hamp)
  have h := Pattern.Rewrites.flatMap hchar
  rwa [List.flatMap_singleton'] at h

/-! ## Elements -/

theorem notMem_element {c : Char} {name content : Text} (hname : c ∉ '<' :: '/' :: '>' :: name)
    (hcontent : c ∉ content) : c ∉ element name content := by
  simp only [List.mem_cons, not_or] at hname
  simp [element, openMark, closeMark, hname, hcontent]

section Elements

variable {p : Pattern} {f : Text → Text} {name : Text}

theorem rewrites_element {o x y e : Text} (ho : p.Rewrites f (openMark name) o)
    (hx : p.Rewrites f x y) (he : p.Rewrites f (closeMark name) e) :
    p.Rewrites f (element name x) (o ++ y ++ e) :=
  (ho.append hx).append he

/-- An element to which something is added behind its closing tag. -/
theorem rewrites_element_ended {x e : Text} (ho : p.Rewrites f (openMark name) (openMark name))
    (hx : p.Rewrites f x x) (he : p.Rewrites f (closeMark name) (closeMark name ++ e)) :
    p.Rewrites f (element name x) (element name x ++ e) := by
  have h := rewrites_element ho hx he
  rwa [← List.append_assoc] at h

/-- Tags at which the pattern does not fit stay. -/
theorem rewrites_openMark (hp : p.StartsWith '<') (hname : '<' ∉ name)
    (h : ∀ rest, p.span? (openMark name ++ rest) = none) :
    p.Rewrites f (openMark name) (openMark name) :=
  Pattern.Rewrites.of_none hp h (by simpa using hname)

theorem rewrites_closeMark (hp : p.StartsWith '<') (hname : '<' ∉ name)
    (h : ∀ rest, p.span? (closeMark name ++ rest) = none) :
    p.Rewrites f (closeMark name) (closeMark name) :=
  Pattern.Rewrites.of_none hp h (by simpa using hname)

end Elements

/-! ## What a marked-up text shows -/

/-- In any surroundings the marked-up text `s`, which has no line breaks, shows the text `t`. -/
def Shows (s t : Text) : Prop :=
  lineBreak.Rewrites (fun _ => ['\n']) s s ∧
    ∃ u, anyTag.Rewrites (fun _ => []) s u ∧ reference.Rewrites decodeReference u t

namespace Shows

theorem turns {s t : Text} (h : Shows s t) : Turns plainText s t := by
  obtain ⟨hbreak, u, htags, hdecode⟩ := h
  exact hbreak.turns.comp (htags.turns.comp hdecode.turns)

theorem plainText_eq {s t : Text} (h : Shows s t) : plainText s = t := by
  obtain ⟨hbreak, u, htags, hdecode⟩ := h
  unfold plainText stripTags decodeReferences Pattern.replace
  rw [hbreak.substitute_eq, htags.substitute_eq, hdecode.substitute_eq]

theorem nil : Shows [] [] :=
  ⟨Pattern.Rewrites.nil _ _, [], Pattern.Rewrites.nil _ _, Pattern.Rewrites.nil _ _⟩

theorem append {s t s' t' : Text} (h : Shows s t) (h' : Shows s' t') :
    Shows (s ++ s') (t ++ t') := by
  obtain ⟨hbreak, u, htags, hdecode⟩ := h
  obtain ⟨hbreak', u', htags', hdecode'⟩ := h'
  exact ⟨hbreak.append hbreak', u ++ u', htags.append htags', hdecode.append hdecode'⟩

theorem flatMap {α : Type} {xs : List α} {g h : α → Text} (hx : ∀ x ∈ xs, Shows (g x) (h x)) :
    Shows (xs.flatMap g) (xs.flatMap h) := by
  induction xs with
  | nil => exact nil
  | cons x xs ih =>
    rw [List.flatMap_cons, List.flatMap_cons]
    exact (hx x List.mem_cons_self).append (ih fun y hy => hx y (List.mem_cons_of_mem x hy))

/-- A tag that is no line break shows nothing. -/
theorem tag {t : Text} (hbreak : ∀ rest, lineBreak.span? ('<' :: t ++ rest) = none)
    (htag : ∀ rest, anyTag.span? ('<' :: t ++ rest) = some (t.length + 1)) (ht : '<' ∉ t) :
    Shows ('<' :: t) [] :=
  ⟨Pattern.Rewrites.of_none startsWith_lineBreak hbreak ht, [],
    Pattern.Rewrites.of_span htag, Pattern.Rewrites.nil _ _⟩

theorem escape (s : Text) : Shows (escape s) s :=
  ⟨rewrites_escape startsWith_lineBreak s, Markup.escape s, rewrites_escape startsWith_anyTag s,
    rewrites_decode_escape s⟩

/-- Text without markup characters shows itself. -/
theorem of_notMem {s : Text} (hlt : '<' ∉ s) (hamp : '&' ∉ s) : Shows s s :=
  ⟨Pattern.Rewrites.of_notMem startsWith_lineBreak hlt, s,
    Pattern.Rewrites.of_notMem startsWith_anyTag hlt,
    Pattern.Rewrites.of_notMem startsWith_reference hamp⟩

end Shows

end DocTypes.Markup
