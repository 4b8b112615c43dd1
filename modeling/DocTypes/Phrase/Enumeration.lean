/-
  Closed sets of values in prose. A keyword such as "one of" announces values between quotation
  marks, or bare numbers and words. The quoted form is tried first at every keyword; a form
  either reads its whole list or does not count.
-/
import DocTypes.Phrase.TypePhrase
import DocTypes.Text.Number

namespace DocTypes.Phrase

open Text

/-- What may announce quoted values. -/
def quotedKeyword : Pattern :=
  let keyword := (Pattern.anyCase "one of".toList).followedBy Tail.wordEnd
  let keyword := keyword.or ((Pattern.anyCase "can be either".toList).followedBy Tail.wordEnd)
  let keyword := keyword.or ((Pattern.anyCase "can be".toList).followedBy Tail.wordEnd)
  let keyword := keyword.or ((Pattern.anyCase "must be".toList).followedBy Tail.wordEnd)
  let keyword := keyword.or ((Pattern.anyCase "currently".toList).followedBy Tail.wordEnd)
  let keyword := keyword.or ((Pattern.anyCase "always".toList).followedBy Tail.wordEnd)
  keyword.or ((Pattern.anyCase "either".toList).followedBy Tail.wordEnd)

/-- What may announce bare values; "can be empty" is prose, so these are fewer. -/
def bareKeyword : Pattern :=
  let keyword := (Pattern.anyCase "one of".toList).followedBy Tail.wordEnd
  let keyword := keyword.or ((Pattern.anyCase "can be either".toList).followedBy Tail.wordEnd)
  let keyword := keyword.or ((Pattern.anyCase "must be".toList).followedBy Tail.wordEnd)
  keyword.or ((Pattern.anyCase "currently".toList).followedBy Tail.wordEnd)

/-- What separates the values of a list: a comma, with a conjunction or without, or a
conjunction. -/
def valueSeparator : Pattern :=
  let conjunctionWord := conjunction.followedBy blanks1.toTail
  let comma := (Pattern.char ',').followedBy (blanks.followedBy conjunctionWord.toTail.optional)
  (comma.or conjunctionWord).after blanks

/-- A remark in parentheses, with the blanks before it. -/
def parenthetical : Pattern :=
  ((Pattern.char '(').followedBy (Tail.through (Pattern.char ')').toTail)).after blanks

/-- The text after what the tail reads, or the whole text where it does not fit. -/
def skip (t : Tail) (s : Text) : Text := (t.read s).getD s

theorem skip_suffix (t : Tail) (s : Text) : skip t s <:+ s := by
  unfold skip
  cases h : t.read s with
  | none => exact List.suffix_rfl
  | some r => exact t.suffix h

/-- The mark that closes what `c` opens, if `c` is an opening quotation mark. -/
def closingMark? (c : Char) : Option Char :=
  if c = '“' then some '”' else if c = '"' then some '"' else none

/-- The text before the first `mark`, and the text after it. -/
def cutAt (mark : Char) : Text → Option (Text × Text)
  | [] => none
  | c :: s => if c = mark then some ([], s) else (cutAt mark s).map fun r => (c :: r.1, r.2)

theorem cutAt_eq {mark : Char} {s value rest : Text} (h : cutAt mark s = some (value, rest)) :
    s = value ++ mark :: rest := by
  induction s generalizing value with
  | nil => simp [cutAt] at h
  | cons c s ih =>
    rw [cutAt] at h
    split at h
    · next hc => simp at h; simp [← h.1, ← h.2, hc]
    · obtain ⟨⟨v, r⟩, hv, he⟩ := Option.map_eq_some_iff.1 h
      simp at he
      rw [← he.1, ih (he.2 ▸ hv)]; rfl

/-- The front of the next value: blanks, a remark, a separator and blanks are passed over. -/
def nextValue (s : Text) : Text :=
  trimStart (skip valueSeparator.toTail (skip parenthetical.toTail (trimStart s)))

theorem nextValue_suffix (s : Text) : nextValue s <:+ s :=
  (trimStart_suffix _).trans <| (skip_suffix _ _).trans <| (skip_suffix _ _).trans <|
    trimStart_suffix s

/-- The quoted values at the front of a text; none where a quotation mark stays open. -/
def quotedValues : Text → Option (List Text)
  | [] => some []
  | c :: s =>
    match closingMark? c with
    | none => some []
    | some mark =>
      match _h : cutAt mark s with
      | none => none
      | some (value, rest) => (quotedValues (nextValue rest)).map (value :: ·)
termination_by s => s.length
decreasing_by
  have hs := congrArg List.length (cutAt_eq _h)
  have hn := (nextValue_suffix rest).length_le
  simp at hs ⊢; omega

/-- A list of one or more quoted values after a keyword. -/
def quotedList (s : Text) : Option (List Text) :=
  (quotedValues (trimStart s)).filter fun vs => !vs.isEmpty

/-- The product of two numbers, below `2^64`. -/
def product? (a b : Text) : Option Text := do
  let m ← natural64? a
  let n ← natural64? b
  if m * n < UInt64.size then some (Nat.toDigits 10 (m * n)) else none

/-- The sign between two factors, and the blanks around it. -/
def timesSign : Pattern := ((Pattern.char '*').after blanks).followedBy blanks

/-- The second factor of a product, and what follows it. -/
def factor? (s : Text) : Option (Text × Text) :=
  match timesSign.read s with
  | some r =>
    let digits := r.takeWhile isDecimal
    if digits.isEmpty then none else some (digits, r.dropWhile isDecimal)
  | none => none

/-- A value without quotation marks, and what follows it: a number, a product of two numbers,
or where `words` are allowed a lower-case word. -/
def bareValue? (words : Bool) (s : Text) : Option (Text × Text) :=
  let digits := s.takeWhile isDecimal
  if !digits.isEmpty then
    let rest := s.dropWhile isDecimal
    match factor? rest with
    | some (second, rest) => (product? digits second).map fun p => (p, rest)
    | none => some (digits, rest)
  else if words && s.head?.any (fun c => c.isLower || c == '_') then
    let wordChar (c : Char) : Bool := c.isLower || c.isDigit || c == '_'
    some (s.takeWhile wordChar, s.dropWhile wordChar)
  else none

/-- Does a qualifier end here: at a comma, semicolon, full stop, closing parenthesis or
conjunction? -/
def endsQualifier (s : Text) : Bool :=
  (s.head?.any fun c => c == ',' || c == ';' || c == '.' || c == ')') ||
    " or ".toList.isPrefixOf s || " and ".toList.isPrefixOf s

/-- The text from the end of the qualifier on. -/
def dropQualifier : Text → Text
  | [] => []
  | c :: s => if endsQualifier (c :: s) then c :: s else dropQualifier s

/-- Passes over a remark in parentheses and a qualifier that starts with "for". -/
def skipQualifiers (s : Text) : Text :=
  let rest := skip parenthetical.toTail s
  match after? id "for ".toList (trimStart rest) with
  | some qualifier => dropQualifier qualifier
  | none => rest

/-- Is the list of values over: at the end of the text, a full stop, a semicolon or a closing
parenthesis? -/
def endsValues (s : Text) : Bool :=
  (trimStart s).head?.all fun c => c == '.' || c == ';' || c == ')'

theorem dropQualifier_suffix (s : Text) : dropQualifier s <:+ s := by
  induction s with
  | nil => exact List.suffix_rfl
  | cons c s ih =>
    rw [dropQualifier]
    split
    · exact List.suffix_rfl
    · exact ih.trans (List.suffix_cons c s)

theorem skipQualifiers_suffix (s : Text) : skipQualifiers s <:+ s := by
  simp only [skipQualifiers]
  split
  · next q h =>
    exact (dropQualifier_suffix q).trans <| (after?_suffix h).1.trans <|
      (trimStart_suffix _).trans (skip_suffix _ _)
  · exact skip_suffix _ _

theorem factor?_length {s a r : Text} (h : factor? s = some (a, r)) : r.length ≤ s.length := by
  simp only [factor?] at h
  split at h
  · next t ht =>
    split at h
    · simp at h
    · simp only [Option.some.injEq, Prod.mk.injEq] at h
      have := timesSign.shorter ht
      have := (List.dropWhile_suffix (l := t) isDecimal).length_le
      rw [← h.2]; omega
  · simp at h

theorem bareValue?_length {words : Bool} {s v r : Text} (h : bareValue? words s = some (v, r)) :
    r.length ≤ s.length := by
  have hd := (List.dropWhile_suffix (l := s) isDecimal).length_le
  simp only [bareValue?] at h
  split at h
  · split at h
    · next hf =>
      obtain ⟨p, _, hp⟩ := Option.map_eq_some_iff.1 h
      simp only [Prod.mk.injEq] at hp
      exact hp.2 ▸ Nat.le_trans (factor?_length hf) hd
    · simp only [Option.some.injEq, Prod.mk.injEq] at h; exact h.2 ▸ hd
  · split at h
    · simp only [Option.some.injEq, Prod.mk.injEq] at h
      exact h.2 ▸ (List.dropWhile_suffix _).length_le
    · simp at h

/-- The values from the front of the text to the end of the list; none where something else than
a separator follows a value. -/
def bareValues (words : Bool) (s : Text) : Option (List Text) :=
  match _hv : bareValue? words s with
  | none => none
  | some (value, after) =>
    let rest := skipQualifiers after
    if endsValues rest then some [value]
    else
      match _hs : valueSeparator.read rest with
      | none => none
      | some next => (bareValues words (trimStart next)).map (value :: ·)
termination_by s.length
decreasing_by
  have h1 := bareValue?_length _hv
  have h2 := (skipQualifiers_suffix after).length_le
  have h3 : next.length < (skipQualifiers after).length := valueSeparator.shorter _hs
  have h4 := (trimStart_suffix next).length_le
  omega

/-- A list of bare values after a keyword. -/
def bareList (words : Bool) (s : Text) : Option (List Text) := bareValues words (trimStart s)

/-- The closed set of values that prose names for a primitive. Only a string may have bare words
as values. -/
def enumeration (p : Primitive) (prose : Text) : Option (List Text) :=
  ((quotedKeyword.occurrences prose).findSome? fun o => quotedList o.after).or
    ((bareKeyword.occurrences prose).findSome? fun o => bareList (p == .string) o.after)

/-- The type of a field: a string or an integer may be narrowed by the field's description. -/
def fieldType (phrase description : Text) : TypeExpr :=
  let type := resolve phrase
  match type.primitive? with
  | some p =>
    if p.admitsEnumeration then
      match enumeration p description with
      | some values => .literalSet (values.map String.ofList)
      | none => type
    else type
  | none => type

end DocTypes.Phrase
