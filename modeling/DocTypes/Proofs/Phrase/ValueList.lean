/-
  Lists of values as prose writes them: items with a separator between each two neighbours, and a
  remark in parentheses behind an item or none. A separator is read up to the item behind it
  (`read_separator`), and a remark up to its closing parenthesis (`skip_remarkText`).
-/
import DocTypes.Phrase.Enumeration
import DocTypes.Proofs.Text.Places

namespace DocTypes.Phrase

open Text

/-- What stands between two values. -/
inductive Separator where
  | comma
  | or
  | and
  | commaOr
  | commaAnd
  deriving DecidableEq, Repr

def Separator.text : Separator → Text
  | comma => ", ".toList
  | or => " or ".toList
  | and => " and ".toList
  | commaOr => ", or ".toList
  | commaAnd => ", and ".toList

/-- One or more items, each but the first behind a separator. -/
structure Listed (α : Type) where
  first : α
  others : List (Separator × α)

namespace Listed

variable {α : Type}

def items (l : Listed α) : List α := l.first :: l.others.map Prod.snd

/-- The text of a list whose items are written by `write`. -/
def text (write : α → Text) (l : Listed α) : Text :=
  write l.first ++ l.others.flatMap fun o => o.1.text ++ write o.2

/-- A list with one more item in front. -/
def cons (a : α) (sep : Separator) (l : Listed α) : Listed α := ⟨a, (sep, l.first) :: l.others⟩

theorem items_cons (a : α) (sep : Separator) (l : Listed α) :
    (cons a sep l).items = a :: l.items := rfl

theorem text_cons (write : α → Text) (a : α) (sep : Separator) (l : Listed α) :
    (cons a sep l).text write = write a ++ (sep.text ++ l.text write) := by
  simp [text, cons]

theorem text_single (write : α → Text) (a : α) : text write ⟨a, []⟩ = write a := List.append_nil _

/-- Induction along the items of a list. -/
@[elab_as_elim]
theorem induction {motive : Listed α → Prop} (single : ∀ a, motive ⟨a, []⟩)
    (cons : ∀ a sep l, motive l → motive (cons a sep l)) (l : Listed α) : motive l := by
  obtain ⟨first, others⟩ := l
  induction others generalizing first with
  | nil => exact single first
  | cons o others ih => exact cons first o.1 ⟨o.2, others⟩ (ih o.2)

end Listed

/-- A remark behind a value, in parentheses. -/
def remarkText : Option Text → Text
  | none => []
  | some r => " (".toList ++ (r ++ [')'])

/-! ## Blanks -/

theorem trimStart_of_nonblank {s : Text} (h : ∀ c ∈ s.head?, isBlank c = false) :
    trimStart s = s := by
  cases s with
  | nil => rfl
  | cons c s => exact trimStart_of_head (h c rfl)

theorem trimStart_space (s : Text) : trimStart (' ' :: s) = trimStart s := rfl

theorem read_blanks1 (s : Text) :
    blanks1.read s = if s.head?.any isBlank then some (trimStart s) else none :=
  Pattern.read_many1 isBlank s

/-- A pattern behind blanks reads the same behind more of them. -/
theorem read_after_blanks (p : Pattern) (s : Text) :
    (p.after blanks).read s = p.read (trimStart s) := by
  show (blanks.followedBy p.toTail).read s = _
  rw [Tail.read_followedBy, blanks, Tail.read_many]
  rfl

/-! ## Separators -/

/-- A conjunction and blanks. -/
def conjunctionWord : Pattern := conjunction.followedBy blanks1.toTail

theorem read_conjunctionWord (s : Text) :
    conjunctionWord.read s =
      ((after? id "or".toList s).or (after? id "and".toList s)).bind blanks1.read := by
  show (((Pattern.exactly "or".toList).toTail.or (Pattern.exactly "and".toList).toTail).followedBy
    blanks1.toTail).read s = _
  rw [Tail.read_followedBy, Tail.read_or, Pattern.exactly, Pattern.exactly, Pattern.read_like,
    Pattern.read_like]

/-- A run of characters that go into words is not taken for a conjunction, unless it is one. -/
theorem read_conjunctionWord_of_run {p : Char → Bool} (hblank : ∀ c, p c = true → isBlank c = false)
    (hletters : ∀ c ∈ "orand".toList, p c = true) {run rest : Text}
    (hrun : ∀ c ∈ run, p c = true) (hrest : ∀ c ∈ rest.head?, p c = false)
    (hor : run ≠ "or".toList) (hand : run ≠ "and".toList) :
    conjunctionWord.read (run ++ rest) = none := by
  rw [Option.eq_none_iff_forall_ne_some]
  intro r hr
  rw [read_conjunctionWord] at hr
  obtain ⟨t, ht, hblanks⟩ := Option.bind_eq_some_iff.1 hr
  rw [read_blanks1] at hblanks
  -- behind the conjunction comes a blank, so the run is the conjunction
  have hstop : ∀ c ∈ t.head?, p c = false := by
    intro c hc
    rw [Option.mem_def.1 hc, Option.any_some] at hblanks
    rw [Bool.eq_false_iff]
    intro hword
    rw [hblank c hword] at hblanks
    cases hblanks
  have htake := takeWhile_run hrun hrest
  rcases Option.or_eq_some_iff.1 ht with h | ⟨-, h⟩
  · rw [eq_append_of_after? h, takeWhile_run (fun c hc => hletters c (by revert c; decide)) hstop]
      at htake
    exact hor htake.symm
  · rw [eq_append_of_after? h, takeWhile_run (fun c hc => hletters c (by revert c; decide)) hstop]
      at htake
    exact hand htake.symm

/-- Behind a comma, blanks and a conjunction are read with it. -/
theorem read_followedBy_conjunctionWord (p : Pattern) (s : Text) :
    (p.toTail.followedBy (blanks.followedBy conjunctionWord.toTail.optional)).read s =
      (p.read s).map fun t => (conjunctionWord.read (trimStart t)).getD (trimStart t) := by
  rw [Tail.read_followedBy]
  cases p.read s with
  | none => rfl
  | some t => rw [Option.bind_some, Tail.read_followedBy, blanks, Tail.read_many,
      Option.bind_some, Tail.read_optional]; rfl

/-- A separator is a comma, or else a conjunction. -/
theorem read_valueSeparator (s : Text) :
    valueSeparator.read s =
      (((Pattern.char ',').read (trimStart s)).map fun t =>
        (conjunctionWord.read (trimStart t)).getD (trimStart t)).or
          (conjunctionWord.read (trimStart s)) := by
  unfold valueSeparator
  rw [read_after_blanks]
  show (((Pattern.char ',').toTail.followedBy (blanks.followedBy
    conjunctionWord.toTail.optional)).or conjunctionWord.toTail).read _ = _
  rw [Tail.read_or, read_followedBy_conjunctionWord]

/-- A separator is read up to the item behind it, where this is not taken for a conjunction. -/
theorem read_separator (sep : Separator) {rest : Text}
    (hblank : ∀ c ∈ rest.head?, isBlank c = false) (hword : conjunctionWord.read rest = none) :
    valueSeparator.read (sep.text ++ rest) = some rest := by
  have htrim := trimStart_of_nonblank hblank
  have hspace : blanks1.read (' ' :: rest) = some rest := by
    rw [read_blanks1, trimStart_space, htrim]
    rfl
  have hor : conjunctionWord.read ("or ".toList ++ rest) = some rest :=
    (read_conjunctionWord _).trans hspace
  have hand : conjunctionWord.read ("and ".toList ++ rest) = some rest :=
    (read_conjunctionWord _).trans hspace
  rw [read_valueSeparator]
  cases sep with
  | comma =>
    show some ((conjunctionWord.read (trimStart rest)).getD (trimStart rest)) = _
    rw [htrim, hword, Option.getD_none]
  | or => exact hor
  | and => exact hand
  | commaOr => exact congrArg (fun o => some (Option.getD o _)) hor
  | commaAnd => exact congrArg (fun o => some (Option.getD o _)) hand

/-- Where neither a comma nor a conjunction comes next, there is no separator. -/
theorem read_valueSeparator_of_head {s : Text}
    (h : ∀ c ∈ (trimStart s).head?, c ≠ ',' ∧ c ≠ 'o' ∧ c ≠ 'a') :
    valueSeparator.read s = none := by
  rw [read_valueSeparator, read_conjunctionWord]
  cases hs : trimStart s with
  | nil => rfl
  | cons c t =>
    obtain ⟨hcomma, ho, ha⟩ := h c (by rw [hs]; rfl)
    have hchar : (Pattern.char ',').read (c :: t) = none := by
      rw [Pattern.char, Pattern.read_one_cons, if_neg (by simpa using hcomma)]
    have hor : after? id "or".toList (c :: t) = none := if_neg ho
    have hand : after? id "and".toList (c :: t) = none := if_neg ha
    rw [hchar, hor, hand]
    rfl

/-! ## Remarks -/

theorem read_parenthetical (s : Text) :
    parenthetical.read s = ((Pattern.char '(').read (trimStart s)).bind
      (Tail.through (Pattern.char ')').toTail).read := by
  unfold parenthetical
  rw [read_after_blanks]
  exact Tail.read_followedBy _ _ _

theorem skip_of_read {t : Tail} {s r : Text} (h : t.read s = some r) : skip t s = r := by
  rw [skip, h, Option.getD_some]

theorem skip_of_none {t : Tail} {s : Text} (h : t.read s = none) : skip t s = s := by
  rw [skip, h, Option.getD_none]

theorem read_parenthetical_of_head {s : Text} (h : (trimStart s).head? ≠ some '(') :
    parenthetical.read s = none := by
  rw [read_parenthetical]
  cases hs : trimStart s with
  | nil => rfl
  | cons c t =>
    rw [hs, List.head?_cons, Ne, Option.some.injEq] at h
    rw [Pattern.char, Pattern.read_one_cons, if_neg (by simpa using h)]
    rfl

/-- A remark is passed over, and nothing else. -/
theorem skip_remarkText {r : Option Text} (hr : ∀ t ∈ r, ')' ∉ t) {rest : Text}
    (hrest : (trimStart rest).head? ≠ some '(') :
    skip parenthetical.toTail (remarkText r ++ rest) = rest := by
  cases r with
  | none => exact skip_of_none (read_parenthetical_of_head hrest)
  | some t =>
    refine skip_of_read ?_
    rw [read_parenthetical, remarkText, List.append_assoc, List.append_assoc]
    exact Tail.read_through_char (hr t rfl) rest

end DocTypes.Phrase
