/-
  Texts between double quotation marks, in two forms: string literals of the output languages,
  and the form in which messages show a text.
-/
import DocTypes.Text.Basic
import DocTypes.Text.Visible

namespace DocTypes.Text

/-- The digits of a number in lower-case hexadecimal. -/
def hexDigits (n : Nat) : Text := Nat.toDigits 16 n

/-- Digits padded on the left with zeros to the given width. -/
def padZeros (width : Nat) (digits : Text) : Text :=
  List.replicate (width - digits.length) '0' ++ digits

/-- A character within a string literal. -/
def literalChar (c : Char) : Text :=
  match c with
  | '"' => "\\\"".toList
  | '\\' => "\\\\".toList
  | '\x08' => "\\b".toList
  | '\x0c' => "\\f".toList
  | '\n' => "\\n".toList
  | '\r' => "\\r".toList
  | '\t' => "\\t".toList
  | c => if c.toNat < 0x20 then "\\u".toList ++ padZeros 4 (hexDigits c.toNat) else [c]

/-- A string literal: quotation marks, backslashes and controls are escaped. -/
def literal (s : Text) : Text := '"' :: s.flatMap literalChar ++ ['"']

/-- A character within a quoted text of a message. -/
def shownChar (c : Char) : Text :=
  match c with
  | '"' => "\\\"".toList
  | '\\' => "\\\\".toList
  | '\x00' => "\\0".toList
  | '\n' => "\\n".toList
  | '\r' => "\\r".toList
  | '\t' => "\\t".toList
  | c => if isVisible c then [c] else "\\u\x7b".toList ++ hexDigits c.toNat ++ "\x7d".toList

/-- A text as messages show it: what is not visible is written by code point. -/
def shown (s : Text) : Text := '"' :: s.flatMap shownChar ++ ['"']

end DocTypes.Text
