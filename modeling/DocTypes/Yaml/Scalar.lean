/-
  How a text is written as a YAML scalar. Plain where nothing in it could be misread, else
  between single quotation marks; a text of several lines is a literal block; double quotation
  marks are left for texts with characters that have to be escaped.
-/
import DocTypes.Yaml.Plain

namespace DocTypes.Yaml

open Text

/-- A character that ends a line. -/
def isBreak (c : Char) : Bool :=
  c == '\n' || c == '\r' || c == '\u0085' || c == '\u2028' || c == '\u2029'

/-- A character that may be written unescaped. -/
def isPrintable (c : Char) : Bool :=
  let n := c.toNat
  n == 0xa || (0x20 ≤ n && n ≤ 0x7e) || (0xa0 ≤ n && n ≤ 0xd7ff) ||
    (0xe000 ≤ n && n != 0xfeff && n != 0xfffe && n != 0xffff)

/-- Space, tab, the end of a line or the end of the text. -/
def isBlankOrEnd : Option Char → Bool
  | none => true
  | some c => c == ' ' || c == '\t' || c == '\x00' || isBreak c

/-- Characters that may not start a plain scalar. -/
def isIndicator (c : Char) : Bool := "#,[]\x7b\x7d&*!|>'\"%@".toList.contains c || c == '\x60'

/-- Does the text start like an indicator or a document mark? -/
def startsLikeIndicator (s : Text) : Bool :=
  "---".toList.isPrefixOf s || "...".toList.isPrefixOf s ||
    match s with
    | [] => false
    | c :: r => isIndicator c || ((c == '?' || c == ':' || c == '-') && isBlankOrEnd r.head?)

/-- Is there a colon before a blank, or a number sign after a blank? `previous` stands before the
text. -/
def hasInnerIndicator (previous : Char) : Text → Bool
  | [] => false
  | c :: s =>
    (c == ':' && isBlankOrEnd s.head?) || (c == '#' && isBlankOrEnd (some previous)) ||
      hasInnerIndicator c s

/-- Do two characters with the properties `p` and `q` stand side by side? -/
def hasPair (p q : Char → Bool) : Text → Bool
  | a :: b :: s => (p a && q b) || hasPair p q (b :: s)
  | _ => false

def isSpace (c : Char) : Bool := c == ' '

/-- The ways in which a text may be written. -/
inductive Style where
  | plain
  | single
  | double
  | block
  deriving DecidableEq

/-- Must the text be escaped: for a character that cannot be shown, or a space before a break? -/
def needsEscapes (s : Text) : Bool := !s.all isPrintable || hasPair isSpace isBreak s

/-- The style of a text. -/
def styleOf (s : Text) : Style :=
  let last := s.getLast?.any isSpace
  if needsEscapes s then .double
  else if s.contains '\n' then if last then .double else .block
  else if hasPair isBreak isSpace s then .double
  else if looksTyped s || s.any isBreak || s.head?.any isSpace || last || startsLikeIndicator s then
    .single
  else
    match s with
    | [] => .single
    | c :: r => if hasInnerIndicator c r then .single else .plain

/-- A character between double quotation marks. -/
def escapedChar (c : Char) : Text :=
  let upperHex (width n : Nat) : Text :=
    let ds := (Nat.toDigits 16 n).map Char.toUpper
    List.replicate (width - ds.length) '0' ++ ds
  match c with
  | '\x00' => "\\0".toList
  | '\x07' => "\\a".toList
  | '\x08' => "\\b".toList
  | '\t' => "\\t".toList
  | '\n' => "\\n".toList
  | '\x0b' => "\\v".toList
  | '\x0c' => "\\f".toList
  | '\r' => "\\r".toList
  | '\x1b' => "\\e".toList
  | '"' => "\\\"".toList
  | '\\' => "\\\\".toList
  | '\u0085' => "\\N".toList
  | '\u2028' => "\\L".toList
  | '\u2029' => "\\P".toList
  | c =>
    if isPrintable c then [c]
    else if c.toNat ≤ 0xff then "\\x".toList ++ upperHex 2 c.toNat
    else if c.toNat ≤ 0xffff then "\\u".toList ++ upperHex 4 c.toNat
    else "\\U".toList ++ upperHex 8 c.toNat

/-- Spaces in front of the first character of each line; the text is at the start of a line
where `fresh`. -/
def indented (indent : Nat) (fresh : Bool) : Text → Text
  | [] => []
  | c :: s =>
    if isBreak c then c :: indented indent true s
    else (if fresh then List.replicate indent ' ' else []) ++ c :: indented indent false s

/-- What follows the bar of a literal block: whether the text starts with a space or a break,
and how many breaks end it. -/
def blockHints (s : Text) : Text :=
  (if s.head?.any fun c => isSpace c || isBreak c then ['2'] else []) ++
    match s.reverse with
    | [] => ['-']
    | c :: r =>
      if !isBreak c then ['-']
      else
        match r with
        | [] => ['+']
        | b :: _ => if isBreak b then ['+'] else []

/-- The scalar with the end of its line, for text that is indented by `indent` where it goes on
over several lines. -/
def scalarLine (indent : Nat) (s : Text) : Text :=
  match styleOf s with
  | .plain => s ++ ['\n']
  | .double => '"' :: s.flatMap escapedChar ++ "\"\n".toList
  | .single =>
    let quoted := s.flatMap fun c => if c == '\'' then ['\'', '\''] else [c]
    let closing := if s.getLast?.any isBreak then List.replicate indent ' ' else []
    '\'' :: indented indent false quoted ++ closing ++ "'\n".toList
  | .block =>
    '|' :: blockHints s ++ ['\n'] ++ indented indent true s ++
      if s.getLast?.any isBreak then [] else ['\n']

end DocTypes.Yaml
