/-
  The characters of a YAML text with their positions. A text is UTF-8; control characters are not
  allowed, and every line end but the line and paragraph separators counts as a newline.
-/
import DocTypes.Yaml.Scalar

namespace DocTypes.Yaml

/-- Where a character stands: how many bytes, lines and characters of its line precede it. -/
structure Position where
  index : Nat
  line : Nat
  column : Nat
  deriving DecidableEq, Repr

/-- What is wrong with a YAML text. -/
inductive Error where
  | badEncoding
  | badCharacter (c : Char)
  | badToken (at_ : Position)
  | misplaced (at_ : Position)
  | keyWithoutColon (at_ : Position)
  | openQuotation
  | badEscape (at_ : Position)
  | badIndentation (at_ : Position)
  | badDirective (at_ : Position)
  | badName (at_ : Position)
  | badTag (at_ : Position)
  | badStructure
  | unknownAnchor (name : Text)
  | severalDocuments
  deriving DecidableEq, Repr

namespace Position

/-- The position as messages show it. -/
def text (p : Position) : Text :=
  "line ".toList ++ Nat.toDigits 10 (p.line + 1) ++ " column ".toList ++
    Nat.toDigits 10 (p.column + 1)

/-- The position after the character. -/
def next (p : Position) (c : Char) : Position :=
  if isBreak c then ⟨p.index + c.utf8Size, p.line + 1, 0⟩
  else ⟨p.index + c.utf8Size, p.line, p.column + 1⟩

end Position

namespace Error

/-- The wording of a fault. -/
def message : Error → Text
  | badEncoding => "the text is not UTF-8".toList
  | badCharacter _ => "control characters are not allowed".toList
  | badToken p => "found character that cannot start any token at ".toList ++ p.text
  | misplaced p => "found an indicator that is not allowed in this context at ".toList ++ p.text
  | keyWithoutColon p => "could not find the colon after the key at ".toList ++ p.text
  | openQuotation => "found the end of the text within a quotation".toList
  | badEscape p => "found a bad escape sequence at ".toList ++ p.text
  | badIndentation p => "found bad indentation at ".toList ++ p.text
  | badDirective p => "found a bad directive at ".toList ++ p.text
  | badName p => "found a bad anchor name at ".toList ++ p.text
  | badTag p => "found a bad tag at ".toList ++ p.text
  | badStructure => "the parts of the document do not fit together".toList
  | unknownAnchor n => "found an undefined anchor: ".toList ++ n
  | severalDocuments => "found more than one document".toList

end Error

/-- The characters left to read, each with its position. -/
abbrev Input := List (Char × Position)

/-- May the character stand in a YAML text? -/
def isAllowed (c : Char) : Bool :=
  let n := c.toNat
  n == 0x9 || n == 0xa || n == 0xd || (0x20 ≤ n && n ≤ 0x7e) || n == 0x85 ||
    (0xa0 ≤ n && n ≤ 0xd7ff) || (0xe000 ≤ n && n ≤ 0xfffd) || 0x10000 ≤ n

/-- Writes a newline for every line end but the separators. -/
def unifyBreaks : Text → Text
  | [] => []
  | '\r' :: '\n' :: s => '\n' :: unifyBreaks s
  | c :: s => (if c == '\r' || c == '\u0085' then '\n' else c) :: unifyBreaks s

/-- Gives each character its position. -/
def place (p : Position) : Text → Input
  | [] => []
  | c :: s => (c, p) :: place (p.next c) s

/-- Prepares the characters of a text for reading. -/
def Input.ofText (s : Text) : Except Error Input :=
  match s.find? fun c => !isAllowed c with
  | some c => .error (.badCharacter c)
  | none => .ok (place ⟨0, 0, 0⟩ (unifyBreaks s))

end DocTypes.Yaml
