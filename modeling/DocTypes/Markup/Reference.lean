/-
  Character references: `&` to `;` with a decimal number, a hexadecimal number or one of a few
  names between. A reference that denotes no character stands for itself.
-/
import DocTypes.Markup.Tag

namespace DocTypes.Markup

open Text

/-- The value of a digit in the bases up to sixteen. -/
def digitValue (c : Char) : Nat :=
  if c.isDigit then c.toNat - '0'.toNat
  else if c.isLower then c.toNat - 'a'.toNat + 10
  else c.toNat - 'A'.toNat + 10

/-- The number that the digits denote. -/
def numeral (base : Nat) (digits : Text) : Nat :=
  digits.foldl (fun n d => n * base + digitValue d) 0

/-- A hexadecimal digit in either case. -/
def isHexDigit (c : Char) : Bool :=
  c.isDigit || ('a' ≤ c && c ≤ 'f') || ('A' ≤ c && c ≤ 'F')

/-- The character with the given code point, where there is one. -/
def charAt? (n : Nat) : Option Char :=
  if h : n.isValidChar then some (Char.ofNatAux n h) else none

/-- The characters that have names. The no-break space is read as a plain space. -/
def namedChars : List (Text × Char) := [
  ("amp".toList, '&'), ("lt".toList, '<'), ("gt".toList, '>'), ("quot".toList, '"'),
  ("apos".toList, '\''), ("nbsp".toList, ' '), ("laquo".toList, '«'), ("raquo".toList, '»'),
  ("mdash".toList, '—'), ("ndash".toList, '–')]

/-- The form of a reference. -/
def reference : Pattern :=
  let number := (Pattern.char '#').followedBy (Pattern.many1 Char.isDigit).toTail
  let hexNumber := (Pattern.char '#').followedBy <|
    (Pattern.one fun c => c == 'x' || c == 'X').toTail.followedBy (Pattern.many1 isHexDigit).toTail
  let name := Pattern.many1 Char.isAlpha
  (Pattern.char '&').followedBy <|
    (number.or (hexNumber.or name)).toTail.followedBy (Pattern.char ';').toTail

/-- The character that the body of a reference denotes. -/
def denoted? : Text → Option Char
  | '#' :: 'x' :: ds => charAt? (numeral 16 ds)
  | '#' :: 'X' :: ds => charAt? (numeral 16 ds)
  | '#' :: ds => charAt? (numeral 10 ds)
  | name => namedChars.lookup name

/-- What a reference stands for. -/
def decodeReference (piece : Text) : Text :=
  match denoted? (piece.tail.dropLast) with
  | some c => [c]
  | none => piece

/-- Puts what it stands for in place of each reference. -/
def decodeReferences (s : Text) : Text := reference.substitute decodeReference s

/-- The text that a marked-up text shows: tags removed first, references decoded after. -/
def plainText (s : Text) : Text := decodeReferences (stripTags s)

end DocTypes.Markup
