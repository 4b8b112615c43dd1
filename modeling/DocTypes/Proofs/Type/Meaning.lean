/-
  The text of a type tells what the type means. The meaning is the list of its alternatives, with
  unions and closed sets flattened. A reader takes the text token by token and keeps a stack of the
  alternatives that are open: a parenthesis opens a level, and the brackets behind its partner make
  an array of all that stands on that level, where brackets elsewhere take only what is in front of
  them. So a text denotes alternatives where the reader puts them on the level it is on
  (`Denotes`), which the forms of types keep (`denotes_text`), and types with the same text put
  the same alternatives there.
-/
import DocTypes.Proofs.Data.Json
import DocTypes.Proofs.Text.Plain

namespace DocTypes

open Text

/-! ## Meanings -/

/-- One alternative of a type: a text that stands for itself, or an array of alternatives. -/
inductive Alternative where
  | atom (text : Text)
  | array (element : List Alternative)

namespace TypeExpr

mutual

/-- The alternatives of the type in order. -/
def meaning : TypeExpr → List Alternative
  | primitive p => [.atom p.typeName.toList]
  | array t => [.array t.meaning]
  | union ts => meanings ts
  | literalSet vs => vs.map fun v => .atom (literalValue v.toList)
  | named n => [.atom n.toList]

/-- The alternatives of several types. -/
def meanings : List TypeExpr → List Alternative
  | [] => []
  | t :: ts => t.meaning ++ meanings ts

end

/-- Its names are identifiers, and no union or closed set in it is empty. -/
inductive IsLegible : TypeExpr → Prop
  | primitive (p : Primitive) : IsLegible (primitive p)
  | array {t : TypeExpr} : IsLegible t → IsLegible (array t)
  | union {ts : List TypeExpr} : ts ≠ [] → (∀ t ∈ ts, IsLegible t) → IsLegible (union ts)
  | literalSet {vs : List String} : vs ≠ [] → IsLegible (literalSet vs)
  | named {n : String} : isIdentifier n.toList = true → IsLegible (named n)

/-- What is not written with bars is one alternative. -/
theorem exists_meaning_eq {t : TypeExpr} (h : t.isAlternatives = false) :
    ∃ a, t.meaning = [a] := by
  cases t with
  | primitive p => exact ⟨_, by rw [meaning]⟩
  | array t => exact ⟨_, by rw [meaning]⟩
  | named n => exact ⟨_, by rw [meaning]⟩
  | union ts => cases h
  | literalSet vs => cases h

/-! ## The reader -/

/-- What the text of a type consists of. Alternatives are closed by a parenthesis together with
the brackets of their array. -/
inductive Token where
  | atom (text : Text)
  | bar
  | opening
  | closing
  | brackets

/-- The characters of names and integers. -/
def isAtomChar (c : Char) : Bool := isNameChar c || c == '+' || c == '-'

/-- The first token, and what follows it. -/
def next? : Text → Option (Token × Text)
  | '"' :: s => (Data.literal? s).map fun (cs, rest) => (.atom (literal cs), rest)
  | ' ' :: '|' :: ' ' :: s => some (.bar, s)
  | '(' :: s => some (.opening, s)
  | ')' :: '[' :: ']' :: s => some (.closing, s)
  | '[' :: ']' :: s => some (.brackets, s)
  | s =>
    if (s.takeWhile isAtomChar).isEmpty then none
    else some (.atom (s.takeWhile isAtomChar), s.dropWhile isAtomChar)

theorem next?_length_lt {s rest : Text} {token : Token} (h : next? s = some (token, rest)) :
    rest.length < s.length := by
  unfold next? at h
  split at h
  · obtain ⟨⟨cs, r⟩, hliteral, hr⟩ := Option.map_eq_some_iff.1 h
    cases hr
    exact Nat.lt_succ_of_lt (Data.literal?_length_lt hliteral)
  · cases h; simp only [List.length_cons]; omega
  · cases h; simp only [List.length_cons]; omega
  · cases h; simp only [List.length_cons]; omega
  · cases h; simp only [List.length_cons]; omega
  · split at h
    · cases h
    · next hne =>
      cases h
      have hsplit := List.takeWhile_append_dropWhile (p := isAtomChar) (l := s)
      have hlength := congrArg List.length hsplit
      have hpos := List.length_pos_iff.2 fun hnil => hne (List.isEmpty_iff.2 hnil)
      rw [List.length_append] at hlength
      omega

/-- The levels that are open, the innermost first, each with its alternatives, the last first. -/
abbrev Stack := List (List Alternative)

/-- What a token does to the levels. -/
def Token.push : Token → Stack → Stack
  | atom w, level :: outer => (.atom w :: level) :: outer
  | opening, stack => [] :: stack
  | closing, inner :: level :: outer => (.array inner.reverse :: level) :: outer
  | brackets, (a :: level) :: outer => (.array [a] :: level) :: outer
  | _, stack => stack

/-- The levels after the tokens of a text. -/
def read (stack : Stack) (s : Text) : Stack :=
  match _h : next? s with
  | none => stack
  | some (token, rest) => read (token.push stack) rest
termination_by s.length
decreasing_by exact next?_length_lt _h

theorem read_of_next? {stack : Stack} {s rest : Text} {token : Token}
    (h : next? s = some (token, rest)) : read stack s = read (token.push stack) rest := by
  rw [read]
  split
  · next hnone =>
    rw [h] at hnone
    cases hnone
  · next hsome =>
    rw [h] at hsome
    cases hsome
    rfl

/-- The reader puts the alternatives on the level it is on, wherever the text stands and no
character of an atom follows it. -/
def Denotes (w : Text) (as : List Alternative) : Prop :=
  ∀ (level : List Alternative) (outer : Stack) (rest : Text),
    (∀ c ∈ rest.head?, isAtomChar c = false) →
      read (level :: outer) (w ++ rest) = read ((as.reverse ++ level) :: outer) rest

/-! ## Forms of texts -/

theorem next?_word {w rest : Text} (hne : w ≠ []) (hw : ∀ c ∈ w, isAtomChar c = true)
    (hrest : ∀ c ∈ rest.head?, isAtomChar c = false) :
    next? (w ++ rest) = some (.atom w, rest) := by
  obtain ⟨c, w, rfl⟩ := List.exists_cons_of_ne_nil hne
  have hc := hw c List.mem_cons_self
  have hrun := takeWhile_run hw hrest
  have hbehind := dropWhile_run hw hrest
  have hother : ∀ {d : Char} {t : Text}, isAtomChar d = false → c :: w ++ rest ≠ d :: t := by
    intro d t hd heq
    rw [← (List.cons.inj heq).1, hc] at hd
    cases hd
  unfold next?
  split
  case h_6 =>
    rw [hrun, hbehind]
    rfl
  all_goals exact absurd ‹_› (hother rfl)

theorem next?_literal (cs rest : Text) :
    next? (literal cs ++ rest) = some (.atom (literal cs), rest) := by
  show next? ('"' :: (cs.flatMap literalChar ++ ['"'] ++ rest)) = _
  rw [List.append_assoc]
  show (Data.literal? (cs.flatMap literalChar ++ '"' :: rest)).map _ = _
  rw [Data.literal?_literal]
  rfl

theorem next?_bar (s : Text) : next? (" | ".toList ++ s) = some (.bar, s) := rfl

theorem next?_opening (s : Text) : next? ('(' :: s) = some (.opening, s) := rfl

theorem next?_closing (s : Text) : next? (")[]".toList ++ s) = some (.closing, s) := rfl

theorem next?_brackets (s : Text) : next? ("[]".toList ++ s) = some (.brackets, s) := rfl

namespace Denotes

theorem word {w : Text} (hne : w ≠ []) (hw : ∀ c ∈ w, isAtomChar c = true) :
    Denotes w [.atom w] :=
  fun _ _ _ hrest => read_of_next? (next?_word hne hw hrest)

theorem literal (cs : Text) : Denotes (literal cs) [.atom (Text.literal cs)] :=
  fun _ _ rest _ => read_of_next? (next?_literal cs rest)

theorem bar {w v : Text} {as bs : List Alternative} (hw : Denotes w as) (hv : Denotes v bs) :
    Denotes (w ++ (" | ".toList ++ v)) (as ++ bs) := by
  intro level outer rest hrest
  calc read (level :: outer) (w ++ (" | ".toList ++ v) ++ rest)
      = read (level :: outer) (w ++ (" | ".toList ++ (v ++ rest))) := by
        rw [List.append_assoc, List.append_assoc]
    _ = read ((as.reverse ++ level) :: outer) (" | ".toList ++ (v ++ rest)) :=
        hw level outer _ (by rintro c ⟨⟩; rfl)
    _ = read ((as.reverse ++ level) :: outer) (v ++ rest) := read_of_next? (next?_bar _)
    _ = read ((bs.reverse ++ (as.reverse ++ level)) :: outer) rest := hv _ outer rest hrest
    _ = read (((as ++ bs).reverse ++ level) :: outer) rest := by
        rw [List.reverse_append, List.append_assoc]

/-- Brackets behind one alternative make an array of it. -/
theorem brackets {w : Text} {a : Alternative} (h : Denotes w [a]) :
    Denotes (w ++ "[]".toList) [.array [a]] := by
  intro level outer rest _
  calc read (level :: outer) (w ++ "[]".toList ++ rest)
      = read (level :: outer) (w ++ ("[]".toList ++ rest)) := by rw [List.append_assoc]
    _ = read ((a :: level) :: outer) ("[]".toList ++ rest) :=
        h level outer _ (by rintro c ⟨⟩; rfl)
    _ = read ((.array [a] :: level) :: outer) rest := read_of_next? (next?_brackets rest)

/-- Brackets behind a parenthesis make an array of all that stands within it. -/
theorem parentheses {w : Text} {as : List Alternative} (h : Denotes w as) :
    Denotes ('(' :: w ++ [')'] ++ "[]".toList) [.array as] := by
  intro level outer rest _
  calc read (level :: outer) ('(' :: w ++ [')'] ++ "[]".toList ++ rest)
      = read (level :: outer) ('(' :: (w ++ (")[]".toList ++ rest))) := by simp
    _ = read ([] :: level :: outer) (w ++ (")[]".toList ++ rest)) :=
        read_of_next? (next?_opening _)
    _ = read ((as.reverse ++ []) :: level :: outer) (")[]".toList ++ rest) :=
        h [] (level :: outer) _ (by rintro c ⟨⟩; rfl)
    _ = read ((.array (as.reverse ++ []).reverse :: level) :: outer) rest :=
        read_of_next? (next?_closing rest)
    _ = read ((.array as :: level) :: outer) rest := by
        rw [List.append_nil, List.reverse_reverse]

/-- Texts with bars in between denote all their alternatives. -/
theorem bars {α : Type} {text : α → Text} {meaning : α → List Alternative} {items : List α}
    (hne : items ≠ []) (h : ∀ x ∈ items, Denotes (text x) (meaning x)) :
    Denotes (bars (items.map text)) (items.flatMap meaning) := by
  induction items with
  | nil => exact absurd rfl hne
  | cons x items ih =>
    obtain ⟨hx, hitems⟩ := List.forall_mem_cons.1 h
    cases items with
    | nil => simpa [TypeExpr.bars] using hx
    | cons y items =>
      have hrest := ih (by simp) hitems
      rw [TypeExpr.bars, List.map_cons, List.map_cons, joinWith_cons_cons, List.flatMap_cons]
      exact hx.bar hrest

end Denotes

/-! ## Types -/

theorem isAtomChar_of_isNameChar {c : Char} (h : isNameChar c = true) : isAtomChar c = true := by
  rw [isAtomChar, h]
  rfl

theorem denotes_identifier {n : Text} (h : isIdentifier n = true) : Denotes n [.atom n] :=
  .word (Identifier.ne_nil ⟨n, h⟩) fun _ hc =>
    isAtomChar_of_isNameChar (Identifier.isNameChar_of_mem ⟨n, h⟩ _ hc)

theorem denotes_literalValue (v : Text) : Denotes (literalValue v) [.atom (literalValue v)] := by
  unfold literalValue
  split
  · next h =>
    have hdigits : ∀ {ds : Text}, IsNumeral ds → ∀ c ∈ ds, isAtomChar c = true :=
      fun hds c hc => isAtomChar_of_isNameChar (isNameChar_of_isDigit (hds.isDigit c hc))
    cases isInteger64_iff.1 h with
    | unsigned hds => exact .word hds.ne_nil (hdigits hds)
    | plus hds => exact .word (by simp) (List.forall_mem_cons.2 ⟨rfl, hdigits hds⟩)
    | minus hds => exact .word (by simp) (List.forall_mem_cons.2 ⟨rfl, hdigits hds⟩)
  · exact .literal v

theorem meanings_eq_flatMap (ts : List TypeExpr) : meanings ts = ts.flatMap meaning := by
  induction ts with
  | nil => rfl
  | cons t ts ih => rw [meanings, ih, List.flatMap_cons]

/-- The text of a type denotes its meaning. -/
theorem denotes_text {t : TypeExpr} (h : t.IsLegible) : Denotes t.text t.meaning := by
  induction h with
  | primitive p => cases p <;> exact denotes_identifier (by decide)
  | named h => exact denotes_identifier h
  | @literalSet vs hne =>
    have hmeaning : (literalSet vs).meaning =
        vs.flatMap fun v => [.atom (literalValue v.toList)] := by
      rw [meaning, List.map_eq_flatMap]
    rw [text, hmeaning]
    exact .bars hne fun v _ => denotes_literalValue v.toList
  | union hne _ ih =>
    rw [text, texts_eq_map, meaning, meanings_eq_flatMap]
    exact .bars hne ih
  | @array t _ ih =>
    rw [text, meaning]
    split
    · exact ih.parentheses
    · next halternatives =>
      obtain ⟨a, ha⟩ := exists_meaning_eq (Bool.eq_false_iff.2 halternatives)
      rw [ha] at ih ⊢
      exact ih.brackets

theorem read_text {t : TypeExpr} (h : t.IsLegible) : read [[]] t.text = [t.meaning.reverse] := by
  have hread := denotes_text h [] [] [] (by simp)
  rw [List.append_nil, List.append_nil] at hread
  rw [hread, read]
  rfl

/-- **Main theorem.** Types with the same text have the same meaning: the same alternatives in
order, arrays of the same alternatives among them. -/
theorem meaning_eq_of_text_eq {t u : TypeExpr} (ht : t.IsLegible) (hu : u.IsLegible)
    (h : t.text = u.text) : t.meaning = u.meaning := by
  have hread : [t.meaning.reverse] = [u.meaning.reverse] := by
    rw [← read_text ht, ← read_text hu, h]
  exact List.reverse_inj.1 (List.cons.inj hread).1

/-- Unions that nest in different ways, around a value with a bar in it. -/
theorem meaning_eq_of_text_eq_nested :
    let values := array (union [literalSet ["a | b", "5"], named "Photo"])
    let t := union [union [primitive .integer, values], primitive .flag]
    let u := union [primitive .float, union [values, union [named "true"]]]
    t.IsLegible ∧ u.IsLegible ∧ t.text = u.text ∧ t.meaning = u.meaning := by
  intro values t u
  have hvalues : values.IsLegible :=
    .array (.union (by simp) (by simpa using ⟨.literalSet (by simp), .named (by decide)⟩))
  have ht : t.IsLegible := by
    have hinner : (union [primitive .integer, values]).IsLegible :=
      .union (by simp) (by simpa using ⟨.primitive _, hvalues⟩)
    exact .union (by simp) (by simpa using ⟨hinner, .primitive _⟩)
  have hu : u.IsLegible := by
    have hname : (union [named "true"]).IsLegible :=
      .union (by simp) (by simpa using .named (by decide))
    have hinner : (union [values, union [named "true"]]).IsLegible :=
      .union (by simp) (by simpa using ⟨hvalues, hname⟩)
    exact .union (by simp) (by simpa using ⟨.primitive _, hinner⟩)
  have htext : t.text = u.text := by decide +kernel
  exact ⟨ht, hu, htext, meaning_eq_of_text_eq ht hu htext⟩

end TypeExpr

end DocTypes
