/-
  A reader of JSON texts, and that it reads back what is printed (`ofJson?_json`). A literal ends at
  its own quotation mark whatever follows it (`literal?_literal`), and items end at their closing
  bracket (`enclosed?_bracketed`); so a value is read off the front of any text behind which no
  digit stands (`value?_jsonAt`). The depth to which the reader goes is the length of its text.
-/
import DocTypes.Data.Json
import DocTypes.Markup.Reference
import DocTypes.Proofs.Text.Lines
import DocTypes.Proofs.Text.Words
import DocTypes.Proofs.Type.Literal

namespace DocTypes.Data

open Text

/-! ## The reader -/

/-- The characters between which JSON texts mean the same. -/
def isJsonBlank (c : Char) : Bool := c == ' ' || c == '\n' || c == '\r' || c == '\t'

def skipBlanks (s : Text) : Text := s.dropWhile isJsonBlank

/-- The character that stands for another one behind a backslash. -/
def escaped? : Char → Option Char
  | '"' => some '"'
  | '\\' => some '\\'
  | '/' => some '/'
  | 'b' => some '\x08'
  | 'f' => some '\x0c'
  | 'n' => some '\n'
  | 'r' => some '\r'
  | 't' => some '\t'
  | _ => none

/-- The characters up to the closing quotation mark, and what follows it. A character given by its
code point is one by itself, not half of a pair. -/
def literal? : Text → Option (Text × Text)
  | [] => none
  | '"' :: s => some ([], s)
  | '\\' :: 'u' :: a :: b :: c :: d :: s =>
    if [a, b, c, d].all Markup.isHexDigit then do
      let char ← Markup.charAt? (Markup.numeral 16 [a, b, c, d])
      (literal? s).map fun (cs, rest) => (char :: cs, rest)
    else none
  | '\\' :: e :: s => do
    let char ← escaped? e
    (literal? s).map fun (cs, rest) => (char :: cs, rest)
  | c :: s => if c.toNat < 0x20 then none else (literal? s).map fun (cs, rest) => (c :: cs, rest)

/-- An integer, and what follows its digits. -/
def integer? : Text → Option (Int × Text)
  | '-' :: s => (decimal? (s.takeWhile Char.isDigit)).map fun n =>
      (-(n : Int), s.dropWhile Char.isDigit)
  | s => (decimal? (s.takeWhile Char.isDigit)).map fun n => ((n : Int), s.dropWhile Char.isDigit)

/-- A value that is neither a literal nor in brackets. -/
def word? : Text → Option (Data × Text)
  | 'n' :: 'u' :: 'l' :: 'l' :: rest => some (null, rest)
  | 't' :: 'r' :: 'u' :: 'e' :: rest => some (bool true, rest)
  | 'f' :: 'a' :: 'l' :: 's' :: 'e' :: rest => some (bool false, rest)
  | s => (integer? s).map fun (n, rest) => (int n, rest)

/-- Items with commas between them, up to the closing bracket. -/
def items? {α : Type} (item? : Text → Option (α × Text)) (closing : Char) :
    Nat → Text → Option (List α × Text)
  | 0, _ => none
  | n + 1, s => do
    let (x, s) ← item? s
    match skipBlanks s with
    | [] => none
    | c :: s =>
      if c = ',' then (items? item? closing n s).map fun (xs, rest) => (x :: xs, rest)
      else if c = closing then some ([x], s)
      else none

/-- What stands behind an opening bracket: items, or at once the closing one. -/
def enclosed? {α : Type} (item? : Text → Option (α × Text)) (closing : Char) (s : Text) :
    Option (List α × Text) :=
  match skipBlanks s with
  | [] => none
  | c :: rest => if c = closing then some ([], rest) else items? item? closing s.length s

/-- A field: its name as a literal, a colon, and its value. -/
def field? (value? : Text → Option (Data × Text)) (s : Text) :
    Option ((String × Data) × Text) :=
  match skipBlanks s with
  | '"' :: s => do
    let (key, s) ← literal? s
    match skipBlanks s with
    | ':' :: s => (value? s).map fun (d, rest) => ((String.ofList key, d), rest)
    | _ => none
  | _ => none

/-- A value within which no more than the given number of brackets are open at once. -/
def value? : Nat → Text → Option (Data × Text)
  | 0, _ => none
  | depth + 1, s =>
    match skipBlanks s with
    | '"' :: s => (literal? s).map fun (cs, rest) => (text (String.ofList cs), rest)
    | '[' :: s => (enclosed? (value? depth) ']' s).map fun (ds, rest) => (list ds, rest)
    | '\x7b' :: s =>
      (enclosed? (field? (value? depth)) '\x7d' s).map fun (fs, rest) => (record fs, rest)
    | s => word? s

/-- The value that a JSON text holds. -/
def ofJson? (s : Text) : Option Data :=
  match value? s.length s with
  | some (d, rest) => if (skipBlanks rest).isEmpty then some d else none
  | none => none

/-! ## Literals -/

/-- A character of a literal is read as it was written. -/
theorem literal?_literalChar (c : Char) (s : Text) :
    literal? (literalChar c ++ s) = (literal? s).map fun (cs, rest) => (c :: cs, rest) := by
  unfold literalChar
  split
  case h_8 hquote hslash _ _ _ _ _ =>
    split
    case isTrue hlow =>
      -- a control character, by its code point
      have hcode : ∀ n < 0x20, padZeros 4 (hexDigits n) =
          ['0', '0', Nat.digitChar (n / 16), Nat.digitChar (n % 16)] ∧
          ['0', '0', Nat.digitChar (n / 16), Nat.digitChar (n % 16)].all Markup.isHexDigit ∧
          Markup.charAt? (Markup.numeral 16
            ['0', '0', Nat.digitChar (n / 16), Nat.digitChar (n % 16)]) = some (Char.ofNat n) := by
        decide +kernel
      obtain ⟨hdigits, hhex, hchar⟩ := hcode c.toNat hlow
      rw [Char.ofNat_toNat] at hchar
      rw [hdigits]
      show literal? ('\\' :: 'u' :: '0' :: '0' :: _ :: _ :: s) = _
      rw [literal?, if_pos hhex, hchar]
      rfl
    case isFalse hlow =>
      rw [List.singleton_append, literal?, if_neg hlow]
      · exact hquote
      · exact fun _ _ _ _ _ h => absurd h hslash
      · exact fun _ _ h => absurd h hslash
  all_goals rfl

/-- What follows a literal is shorter than the text. -/
theorem literal?_length_lt {s cs rest : Text} (h : literal? s = some (cs, rest)) :
    rest.length < s.length := by
  have hbehind : ∀ {r : Option (Text × Text)} {c : Char} {ds : Text},
      r.map (fun (cs, rest) => (c :: cs, rest)) = some (ds, rest) → ∃ cs, r = some (cs, rest) := by
    intro r c ds hmap
    obtain ⟨⟨cs, rest⟩, hr, hrest⟩ := Option.map_eq_some_iff.1 hmap
    cases hrest
    exact ⟨cs, hr⟩
  fun_induction literal? s generalizing cs with
  | case1 | case4 | case6 => cases h
  | case2 s =>
    cases h
    exact Nat.lt_succ_self _
  | case3 a b c d t _ ih | case5 e t _ ih =>
    obtain ⟨char, -, hmap⟩ := Option.bind_eq_some_iff.1 h
    obtain ⟨ds, ht⟩ := hbehind hmap
    have hlt := ih ht
    simp only [List.length_cons]
    omega
  | case7 c t _ _ _ _ ih =>
    obtain ⟨ds, ht⟩ := hbehind h
    exact Nat.lt_succ_of_lt (ih ht)

/-- A literal ends at its own quotation mark. -/
theorem literal?_literal (cs rest : Text) :
    literal? (cs.flatMap literalChar ++ '"' :: rest) = some (cs, rest) := by
  induction cs with
  | nil => rfl
  | cons c cs ih =>
    rw [List.flatMap_cons, List.append_assoc, literal?_literalChar, ih]
    rfl

/-! ## Integers -/

/-- A text that does not go on with a digit. -/
def NoDigit (s : Text) : Prop := ∀ c ∈ s.head?, c.isDigit = false

theorem takeWhile_toDigits (n : Nat) {rest : Text} (hrest : NoDigit rest) :
    (Nat.toDigits 10 n ++ rest).takeWhile Char.isDigit = Nat.toDigits 10 n ∧
      (Nat.toDigits 10 n ++ rest).dropWhile Char.isDigit = rest :=
  ⟨takeWhile_run (isNumeral_toDigits n).isDigit hrest,
    dropWhile_run (isNumeral_toDigits n).isDigit hrest⟩

theorem decimal?_toDigits (n : Nat) : decimal? (Nat.toDigits 10 n) = some n := by
  have hvalue : decimalValue (Nat.toDigits 10 n) = n :=
    Nat.ofDigitChars_toDigits (by decide) (by decide)
  rw [decimal?_numeral (isNumeral_toDigits n), hvalue]

/-- The first digit of a number. -/
theorem exists_toDigits_eq_cons (n : Nat) :
    ∃ c cs, Nat.toDigits 10 n = c :: cs ∧ c.isDigit = true := by
  have hnumeral := isNumeral_toDigits n
  obtain ⟨c, cs, h⟩ := List.exists_cons_of_ne_nil hnumeral.ne_nil
  exact ⟨c, cs, h, hnumeral.isDigit c (h ▸ List.mem_cons_self)⟩

theorem integer?_decimal (n : Int) {rest : Text} (hrest : NoDigit rest) :
    integer? (decimal n ++ rest) = some (n, rest) := by
  cases n with
  | ofNat n =>
    obtain ⟨htake, hdrop⟩ := takeWhile_toDigits n hrest
    have hsign : ∀ s, Nat.toDigits 10 n ++ rest ≠ '-' :: s := by
      obtain ⟨c, cs, hcs, hc⟩ := exists_toDigits_eq_cons n
      intro s hs
      rw [hcs] at hs
      cases hs
      cases hc
    rw [decimal, integer?.eq_2 _ hsign, htake, hdrop, decimal?_toDigits]
    rfl
  | negSucc n =>
    obtain ⟨htake, hdrop⟩ := takeWhile_toDigits (n + 1) hrest
    rw [decimal, List.cons_append, integer?, htake, hdrop, decimal?_toDigits]
    rfl

/-! ## Brackets -/

variable {α : Type} {item? : Text → Option (α × Text)} {write : α → Text} {closing : Char}

theorem skipBlanks_newLine (level : Nat) (s : Text) :
    skipBlanks (newLine level ++ s) = skipBlanks s := by
  have hblanks : ∀ c ∈ newLine level, isJsonBlank c = true := by
    intro c hc
    rcases List.mem_cons.1 hc with rfl | hc
    · rfl
    · rw [(List.mem_replicate.1 hc).2]
      rfl
  exact List.dropWhile_append_of_pos hblanks

theorem skipBlanks_cons {c : Char} (hc : isJsonBlank c = false) (s : Text) :
    skipBlanks (c :: s) = c :: s :=
  List.dropWhile_cons_of_neg (by simp [hc])

/-- The texts of items are read back, up to their closing bracket. -/
theorem items?_joinWith (hclosing : isJsonBlank closing = false) (hcomma : closing ≠ ',')
    {level : Nat} {xs : List α} (hne : xs ≠ [])
    (hitem : ∀ x ∈ xs, ∀ rest, NoDigit rest →
      item? (newLine (level + 1) ++ (write x ++ rest)) = some (x, rest))
    {n : Nat} (hn : xs.length ≤ n) (rest : Text) :
    items? item? closing n (joinWith [','] (xs.map fun x => newLine (level + 1) ++ write x) ++
      (newLine level ++ closing :: rest)) = some (xs, rest) := by
  induction xs generalizing n with
  | nil => exact absurd rfl hne
  | cons x xs ih =>
    cases n with
    | zero => cases hn
    | succ n =>
      cases xs with
      | nil =>
        have hrest : NoDigit (newLine level ++ closing :: rest) := by
          intro c hc
          cases hc
          rfl
        rw [List.map_singleton, joinWith_singleton, List.append_assoc, items?,
          hitem x (List.mem_singleton_self x) _ hrest]
        simp only [Option.bind_eq_bind, Option.bind_some, skipBlanks_newLine,
          skipBlanks_cons hclosing, if_neg hcomma, ↓reduceIte]
      | cons y ys =>
        have hread := ih (List.cons_ne_nil y ys)
          (fun z hz => hitem z (List.mem_cons_of_mem x hz)) (Nat.le_of_succ_le_succ hn)
        rw [List.map_cons] at hread
        have hrest : ∀ s, NoDigit ([','] ++ s) := by
          intro s c hc
          cases hc
          rfl
        rw [List.map_cons, List.map_cons, joinWith_cons_cons, List.append_assoc, List.append_assoc,
          List.append_assoc, items?, hitem x (List.mem_cons_self ..) _ (hrest _)]
        simp only [Option.bind_eq_bind, Option.bind_some, List.singleton_append,
          skipBlanks_cons (c := ',') rfl, hread, ↓reduceIte, Option.map_some]

theorem length_le_joinWith (sep : Text) {t : Text} {ts : List Text} (h : t ∈ ts) :
    t.length ≤ (joinWith sep ts).length := by
  induction ts with
  | nil => cases h
  | cons u us ih =>
    cases us with
    | nil =>
      have ht : joinWith sep [u] = t := by rw [joinWith_singleton, List.mem_singleton.1 h]
      exact ht ▸ Nat.le_refl _
    | cons v vs =>
      rw [joinWith_cons_cons, List.length_append, List.length_append]
      rcases List.mem_cons.1 h with rfl | h
      · exact Nat.le_add_right ..
      · exact Nat.le_trans (ih h) (by omega)

theorem length_le_length_joinWith (sep : Text) {ts : List Text} (hne : ∀ t ∈ ts, t ≠ []) :
    ts.length ≤ (joinWith sep ts).length := by
  induction ts with
  | nil => exact Nat.zero_le _
  | cons t ts ih =>
    have ht := List.length_pos_iff.2 (hne t (List.mem_cons_self ..))
    have hts := ih fun u hu => hne u (List.mem_cons_of_mem t hu)
    cases ts with
    | nil => rw [joinWith_singleton]; exact ht
    | cons u us =>
      rw [joinWith_cons_cons, List.length_append, List.length_append, List.length_cons]
      omega

theorem length_lt_bracketed (opening closing : Char) (level : Nat) {t : Text} {ts : List Text}
    (h : t ∈ ts) : t.length < (bracketed opening closing level ts).length := by
  cases ts with
  | nil => cases h
  | cons u us =>
    have hitem := length_le_joinWith [',']
      (List.mem_map_of_mem (f := fun i => newLine (level + 1) ++ i) h)
    rw [List.length_append] at hitem
    simp only [bracketed, List.length_append, List.length_cons]
    omega

/-- The items between brackets are read back. -/
theorem enclosed?_bracketed (opening : Char) (hclosing : isJsonBlank closing = false)
    (hcomma : closing ≠ ',') {level : Nat} {xs : List α}
    (hhead : ∀ x ∈ xs, ∃ c cs, write x = c :: cs ∧ isJsonBlank c = false ∧ c ≠ closing)
    (hitem : ∀ x ∈ xs, ∀ rest, NoDigit rest →
      item? (newLine (level + 1) ++ (write x ++ rest)) = some (x, rest)) (rest : Text) :
    ∃ s, bracketed opening closing level (xs.map write) ++ rest = opening :: s ∧
      enclosed? item? closing s = some (xs, rest) := by
  cases xs with
  | nil =>
    refine ⟨closing :: rest, rfl, ?_⟩
    rw [enclosed?, skipBlanks_cons hclosing]
    exact if_pos rfl
  | cons x xs =>
    refine ⟨joinWith [','] ((x :: xs).map fun x => newLine (level + 1) ++ write x) ++
      (newLine level ++ closing :: rest), by simp [bracketed, Function.comp_def], ?_⟩
    obtain ⟨c, cs, hcs, hc, hne⟩ := hhead x (List.mem_cons_self ..)
    have hfirst : ∃ t, skipBlanks (joinWith [','] ((x :: xs).map fun x =>
        newLine (level + 1) ++ write x) ++ (newLine level ++ closing :: rest)) = c :: t := by
      cases xs with
      | nil =>
        rw [List.map_singleton, joinWith_singleton, List.append_assoc, skipBlanks_newLine, hcs]
        exact ⟨_, skipBlanks_cons hc _⟩
      | cons y ys =>
        rw [List.map_cons, List.map_cons, joinWith_cons_cons, List.append_assoc, List.append_assoc,
          skipBlanks_newLine, hcs]
        exact ⟨_, skipBlanks_cons hc _⟩
    obtain ⟨t, ht⟩ := hfirst
    have htexts : (x :: xs).length ≤ (joinWith [','] ((x :: xs).map fun x =>
        newLine (level + 1) ++ write x) ++ (newLine level ++ closing :: rest)).length := by
      have hitems : ((x :: xs).map fun x => newLine (level + 1) ++ write x).length ≤ _ :=
        length_le_length_joinWith [','] (by simp [newLine])
      rw [List.length_map] at hitems
      rw [List.length_append]
      omega
    rw [enclosed?, ht]
    simp only [if_neg hne]
    exact items?_joinWith hclosing hcomma (List.cons_ne_nil x xs) hitem htexts rest

/-! ## Values -/

theorem jsonItems_eq_map (level : Nat) (ds : List Data) :
    jsonItems level ds = ds.map (jsonAt level) := by
  induction ds with
  | nil => rfl
  | cons d ds ih => rw [jsonItems, ih, List.map_cons]

/-- The JSON text of a field at the given level. -/
def jsonField (level : Nat) (f : String × Data) : Text :=
  literal f.1.toList ++ ": ".toList ++ jsonAt level f.2

theorem jsonFields_eq_map (level : Nat) (fs : List (String × Data)) :
    jsonFields level fs = fs.map (jsonField level) := by
  induction fs with
  | nil => rfl
  | cons f fs ih =>
    obtain ⟨k, d⟩ := f
    rw [jsonFields, ih, List.map_cons]
    rfl

theorem exists_decimal_eq_cons (n : Int) :
    ∃ c cs, decimal n = c :: cs ∧ (c = '-' ∨ c.isDigit = true) := by
  cases n with
  | ofNat n =>
    obtain ⟨c, cs, hcs, hc⟩ := exists_toDigits_eq_cons n
    exact ⟨c, cs, hcs, Or.inr hc⟩
  | negSucc n => exact ⟨'-', _, rfl, Or.inl rfl⟩

/-- A character with which the text of a value starts. -/
def startsValue (c : Char) : Bool := "-ntf\"[\x7b".toList.contains c || c.isDigit

theorem exists_jsonAt_eq_cons (level : Nat) (d : Data) :
    ∃ c cs, jsonAt level d = c :: cs ∧ startsValue c = true := by
  cases d with
  | null => exact ⟨'n', _, rfl, rfl⟩
  | bool b => cases b <;> exact ⟨_, _, rfl, rfl⟩
  | int n =>
    obtain ⟨c, cs, hcs, rfl | hc⟩ := exists_decimal_eq_cons n
    · exact ⟨'-', cs, hcs, rfl⟩
    · exact ⟨c, cs, hcs, by rw [startsValue, hc, Bool.or_true]⟩
  | text s => exact ⟨'"', _, rfl, rfl⟩
  | list ds =>
    rw [jsonAt]
    cases jsonItems (level + 1) ds <;> exact ⟨'[', _, rfl, rfl⟩
  | record fs =>
    rw [jsonAt]
    cases jsonFields (level + 1) fs <;> exact ⟨'\x7b', _, rfl, rfl⟩

theorem not_isJsonBlank_of_startsValue {c : Char} (h : startsValue c = true) :
    isJsonBlank c = false := by
  rw [Bool.eq_false_iff]
  intro hblank
  simp only [isJsonBlank, Bool.or_eq_true, beq_iff_eq] at hblank
  rcases hblank with ((rfl | rfl) | rfl) | rfl <;> cases h

/-- The text of a value starts with no blank. -/
theorem skipBlanks_jsonAt (level : Nat) (d : Data) (s : Text) :
    skipBlanks (jsonAt level d ++ s) = jsonAt level d ++ s := by
  obtain ⟨c, cs, hcs, hc⟩ := exists_jsonAt_eq_cons level d
  rw [hcs]
  exact skipBlanks_cons (not_isJsonBlank_of_startsValue hc) _

theorem word?_decimal (n : Int) {rest : Text} (hrest : NoDigit rest) :
    word? (decimal n ++ rest) = some (int n, rest) := by
  obtain ⟨c, cs, hcs, hc⟩ := exists_decimal_eq_cons n
  have hletter : ∀ {l : Char} {s : Text}, l.isDigit = false → l ≠ '-' →
      decimal n ++ rest ≠ l :: s := by
    intro l s hdigit hsign h
    rw [hcs] at h
    cases h
    rcases hc with rfl | hc
    · exact hsign rfl
    · rw [hc] at hdigit
      cases hdigit
  rw [word?.eq_4 _ (fun _ => hletter rfl (by decide)) (fun _ => hletter rfl (by decide))
    (fun _ => hletter rfl (by decide)), integer?_decimal n hrest]
  rfl

theorem value?_of_word {c : Char} {s w : Text} (hs : skipBlanks s = c :: w) (hquote : c ≠ '"')
    (hlist : c ≠ '[') (hrecord : c ≠ '\x7b') (depth : Nat) :
    value? (depth + 1) s = word? (c :: w) := by
  rw [value?, hs]
  split
  · next h => exact absurd (List.cons.inj h).1 hquote
  · next h => exact absurd (List.cons.inj h).1 hlist
  · next h => exact absurd (List.cons.inj h).1 hrecord
  · rfl

/-- A field is read back where its value is. -/
theorem field?_jsonField {value : Text → Option (Data × Text)} {level : Nat} {f : String × Data}
    {rest : Text} (hvalue : ∀ s, skipBlanks s = jsonAt level f.2 ++ rest →
      value s = some (f.2, rest)) {s : Text} (hs : skipBlanks s = jsonField level f ++ rest) :
    field? value s = some (f, rest) := by
  have hspace : skipBlanks (' ' :: (jsonAt level f.2 ++ rest)) = jsonAt level f.2 ++ rest :=
    skipBlanks_jsonAt level f.2 rest
  have htext : jsonField level f ++ rest = '"' :: (f.1.toList.flatMap literalChar ++
      '"' :: ':' :: ' ' :: (jsonAt level f.2 ++ rest)) := by
    simp [jsonField, literal]
  rw [field?, hs, htext]
  simp only [literal?_literal, Option.bind_eq_bind, Option.bind_some,
    skipBlanks_cons (c := ':') rfl, hvalue _ hspace, Option.map_some, String.ofList_toList]

theorem value?_int {n : Int} {level : Nat} {s rest : Text} (hrest : NoDigit rest)
    (hs : skipBlanks s = jsonAt level (int n) ++ rest) (depth : Nat) :
    value? (depth + 1) s = some (int n, rest) := by
  obtain ⟨c, cs, hcs, hc⟩ := exists_decimal_eq_cons n
  have hne : ∀ {l : Char}, l.isDigit = false → l ≠ '-' → c ≠ l := by
    rintro l hdigit hsign rfl
    exact hc.elim hsign fun hc => by rw [hc] at hdigit; cases hdigit
  have hs' : skipBlanks s = c :: (cs ++ rest) := by
    rw [hs, jsonAt, hcs, List.cons_append]
  rw [value?_of_word hs' (hne rfl (by decide)) (hne rfl (by decide)) (hne rfl (by decide)),
    ← List.cons_append, ← hcs]
  exact word?_decimal n hrest

/-- A list is read back where its items are. -/
theorem value?_list {ds : List Data} {level depth : Nat} {s rest : Text}
    (hitem : ∀ d ∈ ds, ∀ s rest, NoDigit rest → skipBlanks s = jsonAt (level + 1) d ++ rest →
      value? depth s = some (d, rest))
    (hs : skipBlanks s = jsonAt level (list ds) ++ rest) :
    value? (depth + 1) s = some (list ds, rest) := by
  rw [jsonAt, jsonItems_eq_map] at hs
  have hitem' : ∀ d ∈ ds, ∀ rest, NoDigit rest →
      value? depth (newLine (level + 1) ++ (jsonAt (level + 1) d ++ rest)) = some (d, rest) := by
    intro d hd rest hrest
    refine hitem d hd _ rest hrest ?_
    rw [skipBlanks_newLine, skipBlanks_jsonAt]
  have hhead : ∀ d ∈ ds, ∃ c cs, jsonAt (level + 1) d = c :: cs ∧ isJsonBlank c = false ∧
      c ≠ ']' := by
    intro d _
    obtain ⟨c, cs, hcs, hc⟩ := exists_jsonAt_eq_cons (level + 1) d
    refine ⟨c, cs, hcs, not_isJsonBlank_of_startsValue hc, ?_⟩
    rintro rfl
    cases hc
  obtain ⟨t, ht, hread⟩ := enclosed?_bracketed '[' rfl (by decide) hhead hitem' rest
  rw [value?, hs, ht]
  simp only [hread, Option.map_some]

/-- A record is read back where the values of its fields are. -/
theorem value?_record {fs : List (String × Data)} {level depth : Nat} {s rest : Text}
    (hitem : ∀ f ∈ fs, ∀ s rest, NoDigit rest → skipBlanks s = jsonAt (level + 1) f.2 ++ rest →
      value? depth s = some (f.2, rest))
    (hs : skipBlanks s = jsonAt level (record fs) ++ rest) :
    value? (depth + 1) s = some (record fs, rest) := by
  rw [jsonAt, jsonFields_eq_map] at hs
  have hitem' : ∀ f ∈ fs, ∀ rest, NoDigit rest →
      field? (value? depth) (newLine (level + 1) ++ (jsonField (level + 1) f ++ rest)) =
        some (f, rest) := by
    intro f hf rest hrest
    refine field?_jsonField (fun s hs => hitem f hf s rest hrest hs) ?_
    rw [skipBlanks_newLine]
    exact skipBlanks_cons (c := '"') rfl _
  have hhead : ∀ f ∈ fs, ∃ c cs, jsonField (level + 1) f = c :: cs ∧ isJsonBlank c = false ∧
      c ≠ '\x7d' := fun f _ => ⟨'"', _, rfl, rfl, by decide⟩
  obtain ⟨t, ht, hread⟩ := enclosed?_bracketed '\x7b' rfl (by decide) hhead hitem' rest
  rw [value?, hs, ht]
  simp only [hread, Option.map_some]

/-- A value is read back from its text, whatever stands behind that but a digit. -/
theorem value?_jsonAt (d : Data) {level depth : Nat} (hdepth : (jsonAt level d).length ≤ depth)
    {s rest : Text} (hrest : NoDigit rest) (hs : skipBlanks s = jsonAt level d ++ rest) :
    value? depth s = some (d, rest) := by
  induction depth generalizing d level s rest with
  | zero =>
    obtain ⟨c, cs, hcs, -⟩ := exists_jsonAt_eq_cons level d
    rw [hcs] at hdepth
    cases hdepth
  | succ depth ih =>
    cases d with
    | null => exact value?_of_word hs (by decide) (by decide) (by decide) depth
    | bool b => cases b <;> exact value?_of_word hs (by decide) (by decide) (by decide) depth
    | int n => exact value?_int hrest hs depth
    | text t =>
      have htext : jsonAt level (text t) ++ rest =
          '"' :: (t.toList.flatMap literalChar ++ '"' :: rest) := by
        simp [jsonAt, literal]
      rw [value?, hs, htext]
      simp only [literal?_literal, Option.map_some, String.ofList_toList]
    | list ds =>
      refine value?_list (fun d hd s rest hrest hs => ih d ?_ hrest hs) hs
      rw [jsonAt, jsonItems_eq_map] at hdepth
      have hlength := length_lt_bracketed '[' ']' level
        (List.mem_map_of_mem (f := jsonAt (level + 1)) hd)
      exact Nat.le_of_lt_succ (Nat.lt_of_lt_of_le hlength hdepth)
    | record fs =>
      refine value?_record (fun f hf s rest hrest hs => ih f.2 ?_ hrest hs) hs
      rw [jsonAt, jsonFields_eq_map] at hdepth
      have hlength := length_lt_bracketed '\x7b' '\x7d' level
        (List.mem_map_of_mem (f := jsonField (level + 1)) hf)
      rw [jsonField, List.length_append] at hlength
      omega

/-- Reading undoes printing. -/
theorem ofJson?_json (d : Data) : ofJson? d.json = some d := by
  have hs : skipBlanks d.json = jsonAt 0 d ++ [] := by
    rw [← skipBlanks_jsonAt, List.append_nil, json]
  have hread : value? d.json.length d.json = some (d, []) :=
    value?_jsonAt d (Nat.le_refl _) (fun _ h => nomatch h) hs
  rw [ofJson?, hread]
  rfl

end DocTypes.Data
