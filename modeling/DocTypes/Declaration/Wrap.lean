/-
  Word wrap. A line is the longest piece of at most the given width that ends at a space or a
  hyphen: the space is dropped, the hyphen kept. Without such a place the text is cut at the
  width.
-/
import DocTypes.Text.Basic

namespace DocTypes.Declaration

open Text

/-- The last place to break within `width`, given as the length of the line and of what the line
uses up. `pos` characters precede the text. -/
def lastBreak? (width pos : Nat) : Text → Option (Nat × Nat)
  | [] => none
  | c :: s =>
    if width < pos then none
    else
      (lastBreak? width (pos + 1) s).or <|
        if pos = 0 then none
        else if c = ' ' then some (pos, pos + 1)
        else if c = '-' ∧ pos < width then some (pos + 1, pos + 1)
        else none

/-- Where a text longer than the width is broken. -/
def breakAt (width : Nat) (s : Text) : Nat × Nat := (lastBreak? width 0 s).getD (width, width)

theorem lastBreak?_pos {width pos : Nat} {s : Text} {b : Nat × Nat}
    (h : lastBreak? width pos s = some b) : 0 < b.2 := by
  induction s generalizing pos with
  | nil => simp [lastBreak?] at h
  | cons c s ih =>
    rw [lastBreak?] at h
    split at h
    · simp at h
    · rcases Option.or_eq_some_iff.1 h with h | ⟨_, h⟩
      · exact ih h
      · split at h
        · simp at h
        · split at h
          · simp at h; simp [← h]
          · split at h
            · simp at h; simp [← h]
            · simp at h

theorem breakAt_pos {width : Nat} (s : Text) (h : 0 < width) : 0 < (breakAt width s).2 := by
  unfold breakAt
  cases hb : lastBreak? width 0 s with
  | none => exact h
  | some b => exact lastBreak?_pos hb

/-- The lines of a text at a positive width. -/
def wrapLines (width : Nat) (hw : 0 < width) (s : Text) : List Text :=
  if s = [] then []
  else if s.length ≤ width then [s]
  else
    let b := breakAt width s
    trimEnd (s.take b.1) :: wrapLines width hw ((s.drop b.2).dropWhile (· == ' '))
termination_by s.length
decreasing_by
  have h1 := (List.dropWhile_suffix (l := s.drop (breakAt width s).2) (· == ' ')).length_le
  have h2 := breakAt_pos s hw
  have h3 : 0 < s.length := List.length_pos_iff.2 (by assumption)
  rw [List.length_drop] at h1
  omega

/-- The lines of the trimmed text; a text without characters, or a width of zero, gives one
line. -/
def wrap (width : Nat) (text : Text) : List Text :=
  let s := trim text
  if h : 0 < width then
    if s.isEmpty then [s] else wrapLines width h s
  else [s]

end DocTypes.Declaration
