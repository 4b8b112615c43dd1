/-
  A page as lines, and its sections. Every structural tag is put on a line's start or end, and
  blank lines do not count; a section is an `h4` heading whose text is an identifier, with the
  lines up to the next heading.
-/
import DocTypes.Markup.Reference
import DocTypes.Text.Name

namespace DocTypes.Page

open Text Markup

/-- Writes a newline for each carriage return, with the newline that may follow it. -/
def unifyLineEnds : Text → Text
  | [] => []
  | '\r' :: '\n' :: s => '\n' :: unifyLineEnds s
  | c :: s => (if c = '\r' then '\n' else c) :: unifyLineEnds s

/-- The opening tag of a heading, a table or a list. -/
def structuralOpen : Pattern :=
  (openTag "h3".toList).or <| (openTag "h4".toList).or <|
    (openTag "table".toList).or (openTag "ul".toList)

/-- The closing tag of a heading, a table or a list. -/
def structuralClose : Pattern :=
  (closeTag "h3".toList).or <| (closeTag "h4".toList).or <|
    (closeTag "table".toList).or (closeTag "ul".toList)

/-- Starts a line at every structural opening tag and ends one after every structural closing
tag. -/
def regroup (page : Text) : Text :=
  structuralClose.substitute (· ++ ['\n']) <|
    structuralOpen.substitute ('\n' :: ·) (unifyLineEnds page)

/-- The trimmed lines of a regrouped page, blank ones left out. -/
def lines (page : Text) : List Text :=
  ((splitOn '\n' (regroup page)).map trim).filter fun line => !line.isEmpty

/-- A line that starts a new part of the page. -/
def isHeading (line : Text) : Bool :=
  opensWith "h3".toList line || opensWith "h4".toList line

/-- The name that a heading gives to the section below it: only an `h4` heading whose text is an
identifier gives one. -/
def sectionName? (line : Text) : Option Text :=
  let title := trim (plainText line)
  if opensWith "h4".toList line && isIdentifier title then some title else none

/-- One documented name with the lines that document it. -/
structure Section where
  name : Text
  lines : List Text
  deriving DecidableEq

/-- Each named heading with the lines up to the next heading. -/
def sectionsOfLines : List Text → List Section
  | [] => []
  | line :: rest =>
    match sectionName? line with
    | some name => ⟨name, rest.takeWhile fun l => !isHeading l⟩ :: sectionsOfLines rest
    | none => sectionsOfLines rest

/-- The sections of a page in order. -/
def sections (page : Text) : List Section := sectionsOfLines (lines page)

theorem isHeading_of_sectionName? {line name : Text} (h : sectionName? line = some name) :
    isHeading line = true := by
  simp only [sectionName?] at h
  split at h
  · next hc => simp_all [isHeading]
  · simp at h

end DocTypes.Page
