/-
  Wrapping by positions. Here the lines are found by a walk over the positions of the text in which
  each look-up and each slice is checked, so that a position outside the text would leave the walk
  without a result (`linesFrom?`). There is none: a line is broken only where the text goes on
  behind the limit, and of the characters looked up for the break the one at the limit is the last
  (`breakFrom?_eq`). So the walk comes to the lines of the text, in no more rounds than the text has
  characters and one to see its end (`linesFrom?_eq`).
-/
import DocTypes.Proofs.Declaration.Wrap

namespace DocTypes.Declaration

open Text

/-! ## The walk -/

/-- The part of a text from one position up to another, where the text has both. -/
def slice? (s : Text) (first stop : Nat) : Option Text :=
  if first ≤ stop ∧ stop ≤ s.length then some ((s.take stop).drop first) else none

/-- Where the line that starts at the given position ends and where the next one starts. The
characters are looked up from the limit back. -/
def breakFrom? (width : Nat) (s : Text) (first : Nat) : Option (Nat × Nat) := do
  let limit := first + width
  let found ← (List.range' (first + 1) width).reverse.findSomeM? fun place => do
    return breakPlace? limit place (← s[place]?)
  return found.getD (limit, limit)

/-- The first position from the given one on that has no space. -/
def skipSpaces (s : Text) (pos : Nat) : Nat := pos + (s.drop pos).findIdx (· != ' ')

/-- The lines from a position on, in a number of rounds. -/
def linesFrom? (width : Nat) (s : Text) : (rounds first : Nat) → Option (List Text)
  | 0, _ => none
  | rounds + 1, first =>
    if s.length ≤ first then some []
    else if s.length - first ≤ width then do return [← slice? s first s.length]
    else do
      let (stop, next) ← breakFrom? width s first
      let line ← slice? s first stop
      return trimEnd line :: (← linesFrom? width s rounds (skipSpaces s next))

/-- The lines of the trimmed text. -/
def wrapByPosition? (width : Nat) (text : Text) : Option (List Text) :=
  let s := trim text
  if width = 0 ∨ s.isEmpty then some [s] else linesFrom? width s (s.length + 1) 0

/-! ## No position outside the text -/

theorem slice?_eq_some {s : Text} {first stop : Nat} (h : first ≤ stop) (hs : stop ≤ s.length) :
    slice? s first stop = some ((s.drop first).take (stop - first)) := by
  rw [slice?, if_pos ⟨h, hs⟩, List.drop_take]

/-- A search in which each test has a result. -/
theorem findSomeM?_eq_some {α β : Type} {f : α → Option (Option β)} {g : α → Option β}
    {xs : List α} (h : ∀ x ∈ xs, f x = some (g x)) :
    xs.findSomeM? f = some (xs.findSome? g) := by
  induction xs with
  | nil => rfl
  | cons x xs ih =>
    obtain ⟨hx, hxs⟩ := List.forall_mem_cons.1 h
    rw [List.findSomeM?_cons, hx, List.findSome?_cons, ih hxs]
    cases g x <;> rfl

section Walk

variable {width : Nat} {s : Text}

theorem breakPlace?_add (first width place : Nat) (c : Char) :
    breakPlace? (first + width) (first + place) c =
      (breakPlace? width place c).map fun b => (first + b.1, first + b.2) := by
  unfold breakPlace?
  split
  · rfl
  · simp only [Nat.add_lt_add_iff_left]
    split <;> rfl

/-- The limit is inside a text that goes on behind it, and so is every place in front of it. -/
theorem breakFrom?_eq {first : Nat} (h : first + width < s.length) :
    breakFrom? width s first = some (first + (breakAt width (s.drop first)).1,
      first + (breakAt width (s.drop first)).2) := by
  have hlookup : ∀ place ∈ (List.range' (first + 1) width).reverse,
      (do return breakPlace? (first + width) place (← s[place]?)) =
        some ((s[place]?).bind (breakPlace? (first + width) place)) := by
    intro place hplace
    have hle := (List.mem_range'_1.1 (List.mem_reverse.1 hplace)).2
    have hin : place < s.length := by omega
    rw [List.getElem?_eq_getElem hin]
    rfl
  have hplaces : (List.range' (first + 1) width).reverse =
      (List.range' 1 width).reverse.map (first + ·) := by
    rw [List.map_reverse, List.map_add_range']
  -- a place counted from the start of the line is looked up in the text from there on
  have hshift : (fun place => (s[place]?).bind (breakPlace? (first + width) place)) ∘ (first + ·) =
      Option.map (fun b => (first + b.1, first + b.2)) ∘
        fun place => ((s.drop first)[place]?).bind (breakPlace? width place) := by
    funext place
    simp only [Function.comp_apply, List.getElem?_drop, Option.map_bind]
    exact congrArg _ (funext fun c => breakPlace?_add first width place c)
  have hfound := findSomeM?_eq_some hlookup
  conv at hfound =>
    rhs
    rw [hplaces, List.findSome?_map, hshift, ← List.map_findSome?, ← lastBreak?_eq_findSome?]
  rw [breakFrom?, breakAt]
  simp only [hfound]
  cases lastBreak? width 0 (s.drop first) <;> rfl

theorem drop_skipSpaces (s : Text) (pos : Nat) :
    s.drop (skipSpaces s pos) = (s.drop pos).dropWhile (· == ' ') := by
  rw [skipSpaces, ← List.drop_drop, List.dropWhile_eq_drop_findIdx_not]
  rfl

/-- A round in which the text goes on behind the limit. -/
theorem linesFrom?_succ (hw : 0 < width) {first : Nat} (h : first + width < s.length)
    (rounds : Nat) : linesFrom? width s (rounds + 1) first =
      (linesFrom? width s rounds
        (skipSpaces s (first + (breakAt width (s.drop first)).2))).map
          (firstLine width (s.drop first) :: ·) := by
  have hstop := (breakAt_bounds hw (s.drop first)).2.1
  have hslice : slice? s first (first + (breakAt width (s.drop first)).1) =
      some ((s.drop first).take (breakAt width (s.drop first)).1) := by
    rw [slice?_eq_some (Nat.le_add_right _ _) (by omega), Nat.add_sub_cancel_left]
  rw [linesFrom?, if_neg (by omega), if_neg (by omega), breakFrom?_eq h]
  simp only [Option.bind_eq_bind, Option.bind_some, hslice]
  cases linesFrom? width s rounds (skipSpaces s (first + (breakAt width (s.drop first)).2)) <;> rfl

/-- As a round uses up at least one character, the rounds are enough. -/
theorem linesFrom?_eq (hw : 0 < width) {rounds first : Nat} (h : s.length - first < rounds) :
    linesFrom? width s rounds first = some (wrapLines width hw (s.drop first)) := by
  induction rounds generalizing first with
  | zero => exact absurd h (Nat.not_lt_zero _)
  | succ rounds ih =>
    have hlen : (s.drop first).length = s.length - first := List.length_drop
    by_cases hend : s.length ≤ first
    · rw [linesFrom?, if_pos hend, List.drop_eq_nil_of_le hend, wrapLines_nil]
    · by_cases hle : s.length - first ≤ width
      · have hne : s.drop first ≠ [] := List.length_pos_iff.1 (by omega)
        rw [linesFrom?, if_neg hend, if_pos hle, wrapLines_of_le hw hne (hlen ▸ hle),
          slice?_eq_some (Nat.le_of_not_le hend) (Nat.le_refl _), ← hlen, List.take_length]
        rfl
      · have hnext := breakAt_pos (s.drop first) hw
        have hskip : first + (breakAt width (s.drop first)).2 ≤
            skipSpaces s (first + (breakAt width (s.drop first)).2) := Nat.le_add_right _ _
        rw [linesFrom?_succ hw (by omega), wrapLines_of_lt hw (by omega), ih (by omega),
          drop_skipSpaces, ← List.drop_drop]
        rfl

end Walk

theorem wrapByPosition?_eq (width : Nat) (text : Text) :
    wrapByPosition? width text = some (wrap width text) := by
  unfold wrapByPosition? wrap
  rcases Nat.eq_zero_or_pos width with rfl | hw
  · rfl
  · rw [dif_pos hw]
    by_cases hempty : (trim text).isEmpty = true
    · rw [if_pos (Or.inr hempty), if_pos hempty]
    · rw [if_neg (not_or.2 ⟨Nat.ne_of_gt hw, hempty⟩), if_neg hempty,
        linesFrom?_eq hw (Nat.lt_succ_of_le (Nat.sub_le _ _)), List.drop_zero]

/-! ## The lines of a text -/

/-- The walk along a text stays inside it and ends with its lines. None of them is longer than the
width, and nothing but blanks is left out between them; where spaces are the only blanks, each line
is set off by other characters and stays a line when it is wrapped again. -/
theorem wrap_lossless {width : Nat} (hw : 0 < width) (text : Text) :
    wrapByPosition? width text = some (wrap width text) ∧
      (∀ l ∈ wrap width text, l.length ≤ width) ∧
      DividesInto (trim text) (wrap width text) ∧
      (trim text ≠ [] → (∀ c ∈ trim text, isBlank c = true → c = ' ') →
        ∀ l ∈ wrap width text,
          l ≠ [] ∧ l.head? ≠ some ' ' ∧ l.getLast? ≠ some ' ' ∧ wrap width l = [l]) := by
  refine ⟨wrapByPosition?_eq width text, ?_⟩
  by_cases hne : trim text = []
  · rw [wrap_of_nil hne, hne]
    exact ⟨by simp, .last [], fun h => absurd rfl h⟩
  · have hhead := isBlank_head_of_trim (trim_trim text)
    have hlast := isBlank_last_of_trim (trim_trim text)
    have hbound := length_le_of_mem_wrapLines hw (trim text)
    rw [wrap_of_ne_nil hw hne]
    refine ⟨hbound, dividesInto_wrapLines hw hne hlast, fun _ hspace l hl => ?_⟩
    obtain ⟨hl0, hlhead, hllast⟩ := ends_of_mem_wrapLines hw hspace hhead hlast l hl
    refine ⟨hl0, ?_, ?_, wrap_of_le hw hl0 (trim_of_ends hlhead hllast) (hbound l hl)⟩
    · exact fun h => absurd (hlhead ' ' h) (by decide)
    · exact fun h => absurd (hllast ' ' h) (by decide)

/-- A hyphen stays on its line, a space at a break does not. -/
theorem wrap_lossless_hyphen : 0 < 9 ∧
    wrap 9 " a well-known fact".toList = ["a well-".toList, "known".toList, "fact".toList] :=
  ⟨by decide, Option.some.inj ((wrap_lossless (by decide) _).1.symm.trans (by decide))⟩

end DocTypes.Declaration
