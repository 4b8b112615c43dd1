/-
  Texts as lists of characters: white space and trimming, separators, joining, letter case.
  The lemmas say what cutting and joining keep.
-/

namespace DocTypes

/-- A text under analysis, as the list of its characters. -/
abbrev Text := List Char

namespace Text

/-- The characters with the property White_Space. -/
def isBlank (c : Char) : Bool :=
  let n := c.toNat
  n == 0x20 || (0x9 ≤ n && n ≤ 0xd) || n == 0x85 || n == 0xa0 || n == 0x1680 ||
    (0x2000 ≤ n && n ≤ 0x200a) || n == 0x2028 || n == 0x2029 || n == 0x202f || n == 0x205f ||
    n == 0x3000

/-- The blank characters of ASCII, vertical tab excepted. -/
def isAsciiBlank (c : Char) : Bool :=
  c == ' ' || c == '\t' || c == '\n' || c == '\x0c' || c == '\r'

/-- A text less its leading blanks. -/
def trimStart (s : Text) : Text := s.dropWhile isBlank

/-- A text less its trailing blanks. -/
def trimEnd : Text → Text
  | [] => []
  | c :: s =>
    match trimEnd s with
    | [] => if isBlank c then [] else [c]
    | t => c :: t

/-- A text less the blanks at both ends. -/
def trim (s : Text) : Text := trimEnd (trimStart s)

/-- Puts a character in front of the first text of a list. -/
def consHead (c : Char) : List Text → List Text
  | [] => [[c]]
  | t :: ts => (c :: t) :: ts

/-- The pieces between the occurrences of `sep`, one more than there are occurrences. -/
def splitOn (sep : Char) : Text → List Text
  | [] => [[]]
  | c :: s => if c = sep then [] :: splitOn sep s else consHead c (splitOn sep s)

/-- The texts in order with `sep` between each two neighbours. -/
def joinWith (sep : Text) (ts : List Text) : Text := sep.intercalate ts

/-- Writes `new` for every `old`. -/
def replaceChar (old new : Char) (s : Text) : Text := s.map fun c => if c = old then new else c

/-- Does `w` occur in the text as a run of neighbouring characters? -/
def occurs (w : Text) : Text → Bool
  | [] => w.isEmpty
  | c :: s => w.isPrefixOf (c :: s) || occurs w s

/-- What follows `w` at the front of a text, where each character is compared through `key`. -/
def after? (key : Char → Char) : Text → Text → Option Text
  | [], s => some s
  | _ :: _, [] => none
  | a :: w, c :: s => if key c = a then after? key w s else none

/-- Lower case for ASCII letters; `ſ` and the kelvin sign fold onto `s` and `k`. -/
def foldCase (c : Char) : Char :=
  if c = '\u017f' then 's' else if c = '\u212a' then 'k' else c.toLower

theorem trimStart_suffix (s : Text) : trimStart s <:+ s := List.dropWhile_suffix _

theorem trimEnd_length_le (s : Text) : (trimEnd s).length ≤ s.length := by
  induction s with
  | nil => exact Nat.le_refl _
  | cons c s ih =>
    rw [trimEnd]
    split
    · split <;> simp
    · simp; omega

theorem trim_length_le (s : Text) : (trim s).length ≤ s.length :=
  Nat.le_trans (trimEnd_length_le _) (trimStart_suffix s).length_le

theorem after?_suffix {key : Char → Char} {w s r : Text} (h : after? key w s = some r) :
    r <:+ s ∧ r.length + w.length = s.length := by
  induction w generalizing s with
  | nil => simp [after?] at h; simp [h]
  | cons a w ih =>
    cases s with
    | nil => simp [after?] at h
    | cons c s =>
      rw [after?] at h
      split at h
      · obtain ⟨hs, hl⟩ := ih h
        exact ⟨hs.trans (List.suffix_cons c s), by simp; omega⟩
      · simp at h

theorem splitOn_ne_nil (sep : Char) (s : Text) : splitOn sep s ≠ [] := by
  cases s with
  | nil => simp [splitOn]
  | cons c s =>
    rw [splitOn]
    split
    · simp
    · cases h : splitOn sep s <;> simp [consHead]

theorem consHead_bound {c : Char} {ts : List Text} {n : Nat}
    (h : ∀ t ∈ ts, t.length + ts.length ≤ n) (hne : ts ≠ []) :
    ∀ t ∈ consHead c ts, t.length + (consHead c ts).length ≤ n + 1 := by
  cases ts with
  | nil => exact absurd rfl hne
  | cons a as =>
    intro t ht
    simp only [consHead, List.mem_cons, List.length_cons] at ht ⊢
    rcases ht with rfl | ht
    · have := h a (by simp); simp at this ⊢; omega
    · have := h t (by simp [ht]); simp at this ⊢; omega

/-- Cutting at `sep` and joining with it gives the text back. -/
theorem joinWith_splitOn (sep : Char) (s : Text) : joinWith [sep] (splitOn sep s) = s := by
  induction s with
  | nil => rfl
  | cons c s ih =>
    rw [splitOn]
    have hne := splitOn_ne_nil sep s
    cases hs : splitOn sep s with
    | nil => exact absurd hs hne
    | cons t ts =>
      rw [hs] at ih
      split
      · next h => simp [joinWith, List.intercalate] at ih ⊢; simp [ih, h]
      · cases ts <;> simp [consHead, joinWith, List.intercalate] at ih ⊢ <;> simp [ih]

end Text

end DocTypes
