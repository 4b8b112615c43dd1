/-
  The parts of a section: prose, at most one table and at most one list. A table runs from the
  line that opens it to the first line that closes a table; a list runs from the line that opens
  it until its `ul` tags balance. A list that prose follows, with no table before it, is itself
  prose.
-/
import DocTypes.Page.Section

namespace DocTypes.Page

open Text Markup

/-- The lines of a section, told apart. -/
structure Parts where
  prose : List Text
  table : Option (List Text)
  list : Option (List Text)
  deriving DecidableEq

def opensTable (line : Text) : Bool := opensWith "table".toList line

def opensList (line : Text) : Bool := opensWith "ul".toList line

def closesTable (line : Text) : Bool := countClose "table".toList line != 0

/-- The lines through the first that closes a table, and the lines after it. -/
def splitTable : List Text → List Text × List Text
  | [] => ([], [])
  | line :: rest =>
    if closesTable line then ([line], rest)
    else
      let (run, after) := splitTable rest
      (line :: run, after)

/-- The lines until the open lists, `depth` of them at first, are all closed, and the lines after
them. -/
def splitList (depth : Nat) : List Text → List Text × List Text
  | [] => ([], [])
  | line :: rest =>
    let depth := depth + countOpen "ul".toList line - countClose "ul".toList line
    if depth = 0 then ([line], rest)
    else
      let (run, after) := splitList depth rest
      (line :: run, after)

theorem splitTable_append (ls : List Text) : (splitTable ls).1 ++ (splitTable ls).2 = ls := by
  induction ls with
  | nil => rfl
  | cons l ls ih => rw [splitTable]; split <;> simp [ih]

theorem splitList_append (d : Nat) (ls : List Text) :
    (splitList d ls).1 ++ (splitList d ls).2 = ls := by
  induction ls generalizing d with
  | nil => rfl
  | cons l ls ih => simp only [splitList]; split <;> simp [ih]

theorem splitList_snd_le (d : Nat) (ls : List Text) : (splitList d ls).2.length ≤ ls.length := by
  have := congrArg List.length (splitList_append d ls)
  simp only [List.length_append] at this
  omega

theorem splitList_cons_snd_le (d : Nat) (l : Text) (ls : List Text) :
    (splitList d (l :: ls)).2.length ≤ ls.length := by
  simp only [splitList]
  split
  · exact Nat.le_refl _
  · exact splitList_snd_le _ ls

/-- After a table: prose up to a list, the list, and prose again. -/
def Parts.afterTable (table : List Text) (rest : List Text) : Parts :=
  let prose := rest.takeWhile fun l => !opensList l
  match rest.dropWhile fun l => !opensList l with
  | [] => ⟨prose, some table, none⟩
  | line :: rest =>
    let (list, rest) := splitList 0 (line :: rest)
    ⟨prose ++ rest, some table, some list⟩

/-- Tells the lines of a section apart. -/
def Parts.ofLines : List Text → Parts
  | [] => ⟨[], none, none⟩
  | line :: rest =>
    if opensTable line then
      let (table, rest) := splitTable (line :: rest)
      .afterTable table rest
    else if opensList line then
      match _h : splitList 0 (line :: rest) with
      | (list, []) => ⟨[], none, some list⟩
      | (list, next :: after) =>
        let parts := ofLines (next :: after)
        { parts with prose := list ++ parts.prose }
    else
      let parts := ofLines rest
      { parts with prose := line :: parts.prose }
termination_by ls => ls.length
decreasing_by
  · have := splitList_cons_snd_le 0 line rest
    rw [_h] at this
    exact Nat.lt_succ_of_le this
  · exact Nat.lt_succ_self _

/-- A part as one text. -/
def ofPart (lines : List Text) : Text := joinWith ['\n'] lines

/-- A section as marked-up text, part by part. -/
structure Fragment where
  name : Text
  prose : Text
  table : Option Text
  list : Option Text
  deriving DecidableEq

/-- Tells the parts of a section apart. -/
def Fragment.ofSection (s : Section) : Fragment :=
  let parts := Parts.ofLines s.lines
  { name := s.name
    prose := ofPart parts.prose
    table := parts.table.map ofPart
    list := parts.list.map ofPart }

/-- The fragments of a page in order. -/
def fragments (page : Text) : List Fragment := (sections page).map Fragment.ofSection

end DocTypes.Page
