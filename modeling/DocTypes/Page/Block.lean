/-
  Sections with the markup removed: paragraphs of prose, table rows with tabs between the cells,
  and list items.
-/
import DocTypes.Page.Parts

namespace DocTypes.Page

open Text Markup

/-- Writes one space for each run of spaces, tabs and no-break spaces, and trims. -/
def collapse (s : Text) : Text :=
  trim ((Pattern.many1 fun c => c == ' ' || c == '\t' || c == '\u00a0').replace [' '] s)

/-- The closing tags that end a paragraph. -/
def paragraphEnd : Pattern :=
  (closeTag "p".toList).or <| (closeTag "blockquote".toList).or <| (closeTag "div".toList).or <|
    (Pattern.anyCase "</h".toList).followedBy <|
      (Pattern.one fun c => '1' ≤ c && c ≤ '6').toTail.followedBy (Pattern.char '>').toTail

/-- The tags that end a line of prose. -/
def lineEnd : Pattern :=
  lineBreak.or ((closeTag "li".toList).or (closeTag "tr".toList))

/-- The head of a table, from its opening tag through its closing tag. -/
def tableHead : Pattern :=
  (Pattern.anyCase "<thead".toList).followedBy <|
    throughClose.followedBy (Tail.through (closeTag "thead".toList).toTail)

/-- A cell's closing tag and the next cell's opening tag. -/
def cellBoundary : Pattern :=
  let cell := (Pattern.one fun c => foldCase c == 'd' || foldCase c == 'h').toTail
  (Pattern.anyCase "</t".toList).followedBy <| cell.followedBy <|
    (Pattern.char '>').toTail.followedBy <| (Tail.many isBlank).followedBy <|
      (Pattern.anyCase "<t".toList).toTail.followedBy <| cell.followedBy tagEnd

/-- Adds a paragraph in front of others, and a break only in front of a paragraph. -/
def addParagraph (t : Text) (ts : List Text) : List Text :=
  if t.isEmpty && (ts.head?.all List.isEmpty) then ts else t :: ts

/-- Keeps one break between paragraphs and none at the ends; a break is an empty text. -/
def tidyBreaks (ts : List Text) : List Text :=
  (ts.foldr addParagraph []).dropWhile List.isEmpty

/-- The paragraphs of prose. -/
def cleanProse (html : Text) : List Text :=
  let broken := lineEnd.replace ['\n'] (paragraphEnd.replace ['\n', '\n'] (replaceChar '\n' ' ' html))
  tidyBreaks ((splitOn '\n' (plainText broken)).map collapse)

/-- The rows of a table less its head, with tabs between the cells; blank rows are left out. -/
def cleanTable (html : Text) : List Text :=
  let flat := replaceChar '\n' ' ' (lineBreak.replace [' '] (tableHead.replace [] html))
  let rows := (closeTag "tr".toList).replace ['\n'] (cellBoundary.replace ['\t'] flat)
  ((splitOn '\n' (plainText rows)).map fun row =>
    joinWith ['\t'] ((splitOn '\t' row).map collapse)).filter fun row => !(trim row).isEmpty

/-- The items of a list, empty ones left out. -/
def cleanList (html : Text) : List Text :=
  let flat := replaceChar '\n' ' ' (lineBreak.replace [' '] html)
  ((splitOn '\n' (plainText ((closeTag "li".toList).replace ['\n'] flat))).map collapse).filter
    fun item => !item.isEmpty

/-- A section with its markup removed. In the prose an empty text is a break between
paragraphs. -/
structure Block where
  name : Text
  prose : List Text
  table : List Text
  list : List Text
  deriving DecidableEq

/-- Removes the markup of a fragment. -/
def Block.ofFragment (f : Fragment) : Block where
  name := f.name
  prose := cleanProse f.prose
  table := (f.table.map cleanTable).getD []
  list := (f.list.map cleanList).getD []

/-- The paragraphs as one text. -/
def Block.text (b : Block) : Text :=
  joinWith [' '] (b.prose.filter fun t => !t.isEmpty)

/-- The blocks of a page in order. -/
def blocks (page : Text) : List Block := (fragments page).map Block.ofFragment

end DocTypes.Page
