/-
  The tokens of a YAML text, and the readers of single tokens: scalars, names, tags and
  directives. Each reader takes the characters from its token on and gives what follows it.
-/
import DocTypes.Yaml.Source

namespace DocTypes.Yaml

/-- How a scalar is written. -/
inductive Form where
  | plain
  | quoted
  | literal
  | folded
  deriving DecidableEq, Repr

/-- A tag as its bytes. -/
abbrev Tag := List UInt8

namespace Tag

/-- The tag that bytes make up: it ends before the first zero byte. -/
def ofBytes (bytes : List UInt8) : Tag := bytes.takeWhile (· != 0)

/-- The tag that a text spells. -/
def ofString (s : String) : Tag := ofBytes s.toUTF8.data.toList

end Tag

/-- A token. -/
inductive Token where
  | version (major minor : Nat)
  | tagHandle (handle : Text) (start : Tag)
  | documentStart
  | documentEnd
  | sequenceStart
  | mappingStart
  | blockEnd
  | flowSequenceStart
  | flowSequenceEnd
  | flowMappingStart
  | flowMappingEnd
  | entry
  | flowEntry
  | key
  | value
  | anchor (name : Text)
  | alias_ (name : Text)
  | tag (handle : Text) (suffix : Tag)
  | scalar (text : Text) (form : Form)
  deriving DecidableEq, Repr

/-- The next character. -/
def peek : Input → Option Char
  | [] => none
  | (c, _) :: _ => some c

/-- Is there a blank, a line end or nothing after `n` characters? -/
def blankAfter (s : Input) (n : Nat) : Bool := isBlankOrEnd (peek (s.drop n))

/-- Does the text start with `w`? -/
def startsWith (w : String) (s : Input) : Bool :=
  w.toList == (s.take w.length).map Prod.fst

/-- Does a document mark stand here, at the start of a line? -/
def atDocumentMark : Input → Bool
  | [] => false
  | (c, p) :: s =>
    p.column == 0 && (startsWith "---" ((c, p) :: s) || startsWith "..." ((c, p) :: s)) &&
      blankAfter s 2

/-- The leading characters with the property, and what follows them. -/
def spanChars (p : Char → Bool) (s : Input) : Text × Input :=
  ((s.takeWhile fun c => p c.1).map Prod.fst, s.dropWhile fun c => p c.1)

def isBlank (c : Char) : Bool := c == ' ' || c == '\t'

/-- A character of a name. -/
def isWordChar (c : Char) : Bool := c.isAlphanum || c == '_' || c == '-'

/-- What blanks and line ends within a scalar stand for: blanks alone stand for themselves, one
newline for a space, and of several line ends the first is dropped. A line end that was escaped
leaves the others. -/
def foldRun (escaped : Bool) (run : Text) : Text :=
  match run.filter isBreak with
  | [] => if escaped then [] else run
  | b :: more =>
    if escaped then b :: more
    else if b == '\n' then (if more.isEmpty then [' '] else more)
    else b :: more

/-- Where the reader of a quotation is. -/
inductive QuoteMode where
  | text
  /-- After a single quotation mark, which may be doubled. -/
  | mark
  | escape
  /-- Within a character code: the digits left, and the value of those before. -/
  | code (left value : Nat)
  deriving DecidableEq

/-- What a letter after a backslash stands for: a character, or a code of so many digits. -/
def escapeOf (c : Char) : Option (Char ⊕ Nat) :=
  match c with
  | '0' => some (.inl '\x00')
  | 'a' => some (.inl '\x07')
  | 'b' => some (.inl '\x08')
  | 't' | '\t' => some (.inl '\t')
  | 'n' => some (.inl '\n')
  | 'v' => some (.inl '\x0b')
  | 'f' => some (.inl '\x0c')
  | 'r' => some (.inl '\r')
  | 'e' => some (.inl '\x1b')
  | ' ' => some (.inl ' ')
  | '"' => some (.inl '"')
  | '/' => some (.inl '/')
  | '\\' => some (.inl '\\')
  | 'N' => some (.inl '\u0085')
  | '_' => some (.inl '\u00a0')
  | 'L' => some (.inl '\u2028')
  | 'P' => some (.inl '\u2029')
  | 'x' => some (.inr 2)
  | 'u' => some (.inr 4)
  | 'U' => some (.inr 8)
  | _ => none

/-- The character with the given code point, where there is one. -/
def ofCode? (n : Nat) : Option Char :=
  if h : n.isValidChar then some (Char.ofNatAux n h) else none

/-- Reads a quotation after its opening mark. `run` holds blanks and line ends not yet folded,
after an escaped line end where `escaped`; `run` and `acc` are reversed. -/
def readQuoted (single : Bool) (mode : QuoteMode) (escaped : Bool) (run acc : Text) :
    Input → Except Error (Text × Input)
  | [] => if mode == .mark then .ok (acc.reverse, []) else .error .openQuotation
  | (c, p) :: s =>
    match mode with
    | .mark =>
      if c == '\'' then readQuoted single .text false [] (c :: acc) s
      else .ok (acc.reverse, (c, p) :: s)
    | .escape =>
      if isBreak c then readQuoted single .text true [] acc s
      else
        match escapeOf c with
        | some (.inl d) => readQuoted single .text false [] (d :: acc) s
        | some (.inr n) => readQuoted single (.code n 0) false [] acc s
        | none => .error (.badEscape p)
    | .code left value =>
      match digit? 16 c with
      | none => .error (.badEscape p)
      | some d =>
        if left ≤ 1 then
          match ofCode? (16 * value + d) with
          | some e => readQuoted single .text false [] (e :: acc) s
          | none => .error (.badEscape p)
        else readQuoted single (.code (left - 1) (16 * value + d)) false [] acc s
    | .text =>
      if isBlank c || isBreak c then readQuoted single .text escaped (c :: run) acc s
      else if atDocumentMark ((c, p) :: s) then .error (.misplaced p)
      else
        let acc := (foldRun escaped run.reverse).reverse ++ acc
        if single && c == '\'' then readQuoted single .mark false [] acc s
        else if !single && c == '"' then .ok (acc.reverse, s)
        else if !single && c == '\\' then readQuoted single .escape false [] acc s
        else readQuoted single .text false [] (c :: acc) s

/-- Does a plain scalar end before this character? -/
def endsPlain (inFlow : Bool) (c : Char) (next : Option Char) : Bool :=
  (c == ':' && isBlankOrEnd next) || (inFlow && ",[]\x7b\x7d".toList.contains c)

/-- Reads a plain scalar. Lines that go on stand at column `indent` or further in. Gives the
text, whether a line end follows it, and what follows. -/
def readPlain (inFlow : Bool) (indent : Nat) (run acc : Text) :
    Input → Except Error (Text × Bool × Input)
  | [] => .ok (acc.reverse, run.any isBreak, [])
  | (c, p) :: s =>
    let done := .ok (acc.reverse, run.any isBreak, (c, p) :: s)
    if isBlank c || isBreak c then
      if c == '\t' && run.any isBreak && p.column < indent then .error (.badIndentation p)
      else readPlain inFlow indent (c :: run) acc s
    else if !run.isEmpty && ((!inFlow && p.column < indent) || c == '#' ||
        atDocumentMark ((c, p) :: s)) then done
    else if inFlow && c == ':' && (peek s).any (",?[]\x7b\x7d".toList.contains ·) then
      .error (.badToken p)
    else if endsPlain inFlow c (peek s) then done
    else readPlain inFlow indent [] (c :: ((foldRun false run.reverse).reverse ++ acc)) s

/-- How the end of a block scalar is treated. -/
inductive Chomping where
  | strip
  | clip
  | keep
  deriving DecidableEq

/-- Reads the leading empty lines of a block scalar, of unknown indentation where `indent` is
zero. Gives the line ends, the furthest column, and what follows. -/
def readLeadingBreaks (indent furthest : Nat) (breaks : Text) :
    Input → Except Error (Text × Nat × Input)
  | [] => .ok (breaks.reverse, furthest, [])
  | (c, p) :: s =>
    let within := indent == 0 || p.column < indent
    let furthest := max furthest p.column
    if c == ' ' && within then readLeadingBreaks indent furthest breaks s
    else if c == '\t' && within then .error (.badIndentation p)
    else if isBreak c then readLeadingBreaks indent furthest (c :: breaks) s
    else .ok (breaks.reverse, furthest, (c, p) :: s)

/-- Where the reader of a block scalar is. -/
structure BlockState where
  /-- Is the reader within a line of text? -/
  inLine : Bool := false
  /-- The end of the last line of text. -/
  leading : Option Char := none
  /-- The line ends after it, reversed. -/
  trailing : Text := []
  /-- Did the last line of text start with a blank? -/
  blankStart : Bool := false
  /-- The text so far, reversed. -/
  acc : Text := []

namespace BlockState

/-- The text of the scalar. -/
def finish (b : BlockState) (chomping : Chomping) : Text :=
  b.acc.reverse ++ (if chomping == .strip then [] else b.leading.toList) ++
    if chomping == .keep then b.trailing.reverse else []

/-- Starts a line with `c`. A folded scalar joins it to the last line, unless either starts with
a blank. -/
def startLine (b : BlockState) (literal : Bool) (c : Char) : BlockState :=
  let joined :=
    if !literal && b.leading == some '\n' && !b.blankStart && !isBlank c then
      (if b.trailing.isEmpty then [' '] else [])
    else b.leading.toList
  { inLine := true, leading := none, trailing := [], blankStart := isBlank c,
    acc := c :: (b.trailing ++ joined ++ b.acc) }

end BlockState

/-- Reads the lines of a block scalar with known indentation. -/
def readBlockLines (literal : Bool) (chomping : Chomping) (indent : Nat) (b : BlockState) :
    Input → Except Error (Text × Input)
  | [] => .ok (b.finish chomping, [])
  | (c, p) :: s =>
    if b.inLine then
      let b := if isBreak c then { b with inLine := false, leading := some c, trailing := [] }
        else { b with acc := c :: b.acc }
      readBlockLines literal chomping indent b s
    else if c == ' ' && p.column < indent then readBlockLines literal chomping indent b s
    else if c == '\t' && p.column < indent then .error (.badIndentation p)
    else if isBreak c then
      readBlockLines literal chomping indent { b with trailing := c :: b.trailing } s
    else if p.column == indent then
      readBlockLines literal chomping indent (b.startLine literal c) s
    else .ok (b.finish chomping, (c, p) :: s)

/-- Reads chomping and indentation marks in either order. -/
def readBlockHeader (s : Input) : Except Error (Chomping × Option Nat × Input) := do
  let chomping? (s : Input) : Option (Chomping × Input) :=
    match s with
    | ('+', _) :: s => some (.keep, s)
    | ('-', _) :: s => some (.strip, s)
    | _ => none
  let digit? (s : Input) : Except Error (Option Nat × Input) :=
    match s with
    | (c, p) :: r =>
      if c == '0' then .error (.badIndentation p)
      else if c.isDigit then .ok (some (c.toNat - '0'.toNat), r)
      else .ok (none, s)
    | [] => .ok (none, s)
  match chomping? s with
  | some (chomping, s) =>
    let (indent, s) ← digit? s
    return (chomping, indent, s)
  | none =>
    let (indent, s) ← digit? s
    match indent, chomping? s with
    | some _, some (chomping, s) => return (chomping, indent, s)
    | _, _ => return (.clip, indent, s)

/-- Passes over blanks and a comment to the end of the line. -/
def skipLine (s : Input) : Except Error Input :=
  let s := s.dropWhile fun c => isBlank c.1
  let s := if peek s == some '#' then s.dropWhile fun c => !isBreak c.1 else s
  match s with
  | [] => .ok []
  | (c, p) :: r => if isBreak c then .ok r else .error (.badToken p)

/-- Reads a block scalar after its indicator. `parent` is the indentation of the block that holds
it, if there is one. -/
def readBlock (literal : Bool) (parent : Option Nat) (s : Input) :
    Except Error (Text × Input) := do
  let (chomping, increment, s) ← readBlockHeader s
  let s ← skipLine s
  let given := increment.map fun n => parent.getD 0 + n
  let (breaks, furthest, s) ← readLeadingBreaks (given.getD 0) 0 [] s
  let least := max 1 ((parent.map (· + 1)).getD 0)
  let indent := given.getD (max furthest least)
  readBlockLines literal chomping indent { trailing := breaks.reverse } s

/-- Reads the name of an anchor or alias. -/
def readName (p : Position) (s : Input) : Except Error (Text × Input) :=
  let (name, s) := spanChars isWordChar s
  let ends := blankAfter s 0 || (peek s).any ("?:,]\x7d%@\x60".toList.contains ·)
  if name.isEmpty || !ends then .error (.badName p) else .ok (name, s)

/-- The number of bytes of a character in UTF-8, by its first byte. -/
def utf8Width (b : Nat) : Nat :=
  if b < 0x80 then 1 else if b / 0x20 == 6 then 2 else if b / 0x10 == 14 then 3
  else if b / 8 == 30 then 4 else 0

/-- A character that may stand in a tag as it is. -/
def isTagChar (verbatim : Bool) (c : Char) : Bool :=
  isWordChar c || ";/?:@&=+$.!~*'()".toList.contains c || (verbatim && ",[]".toList.contains c)

/-- Reads the bytes of a tag. A percent sign starts a byte in hexadecimal; `left` bytes of a
character are still to come. `acc` is reversed. -/
def readTagBytes (verbatim : Bool) (left : Nat) (acc : List UInt8) :
    Input → Except Error (List UInt8 × Input)
  | ('%', p) :: (a, _) :: (b, _) :: s =>
    match digit? 16 a, digit? 16 b with
    | some x, some y =>
      let byte := 16 * x + y
      let acc := UInt8.ofNat byte :: acc
      if left == 0 then
        match utf8Width byte with
        | 0 => .error (.badTag p)
        | n + 1 => readTagBytes verbatim n acc s
      else if byte / 0x40 != 2 then .error (.badTag p)
      else readTagBytes verbatim (left - 1) acc s
    | _, _ => .error (.badTag p)
  | (c, p) :: s =>
    if left != 0 || c == '%' then .error (.badTag p)
    else if isTagChar verbatim c then readTagBytes verbatim 0 (UInt8.ofNat c.toNat :: acc) s
    else .ok (acc.reverse, (c, p) :: s)
  | [] => if left != 0 then .error .badStructure else .ok (acc.reverse, [])

/-- Reads a handle: an exclamation mark, and where another follows a name, both of them. -/
def readHandle (s : Input) : Text × Input :=
  match s with
  | ('!', _) :: s =>
    let (name, s) := spanChars isWordChar s
    match s with
    | ('!', _) :: s => ('!' :: name ++ ['!'], s)
    | _ => ('!' :: name, s)
  | _ => ([], s)

/-- Reads a tag from its exclamation mark on; the handle is empty where the tag is given in
full. -/
def readTag (inFlow : Bool) (p : Position) (s : Input) : Except Error (Text × Tag × Input) := do
  let finish (handle : Text) (suffix : Tag) (s : Input) : Except Error (Text × Tag × Input) :=
    if blankAfter s 0 || (inFlow && peek s == some ',') then .ok (handle, suffix, s)
    else .error (.badTag p)
  if startsWith "!<" s then
    let (suffix, s) ← readTagBytes true 0 [] (s.drop 2)
    if suffix.isEmpty || peek s != some '>' then .error (.badTag p)
    finish [] (.ofBytes suffix) (s.drop 1)
  else
    let (handle, s) := readHandle s
    let (more, s) ← readTagBytes false 0 [] s
    if 1 < handle.length && handle.getLast? == some '!' then
      if more.isEmpty then .error (.badTag p)
      finish handle (.ofBytes more) s
    else
      let suffix := Tag.ofBytes ((handle.drop 1).map (fun c => UInt8.ofNat c.toNat) ++ more)
      if suffix.isEmpty then finish [] (.ofString "!") s else finish ['!'] suffix s

/-- Reads a directive after its percent sign. -/
def readDirective (p : Position) (s : Input) : Except Error (Token × Input) := do
  let bad : Except Error (Token × Input) := .error (.badDirective p)
  let number? (s : Input) : Option (Nat × Input) :=
    let (ds, s) := spanChars Char.isDigit s
    if ds.length ≤ 9 then (digits? 10 ds).map fun n => (n, s) else none
  let blanks (s : Input) : Input := s.dropWhile fun c => isBlank c.1
  let (name, s) := spanChars isWordChar s
  if !blankAfter s 0 then bad
  else if name == "YAML".toList then
    match number? (blanks s) with
    | some (major, ('.', _) :: s) =>
      match number? s with
      | some (minor, s) => return (.version major minor, ← skipLine s)
      | none => bad
    | _ => bad
  else if name == "TAG".toList then
    let (handle, s) := readHandle (blanks s)
    if handle.isEmpty || (handle != ['!'] && handle.getLast? != some '!') ||
        !(peek s).any isBlank then bad
    else
      let (start, s) ← readTagBytes true 0 [] (blanks s)
      if start.isEmpty || !blankAfter s 0 then bad
      else return (.tagHandle handle (.ofBytes start), ← skipLine s)
  else bad

end DocTypes.Yaml
