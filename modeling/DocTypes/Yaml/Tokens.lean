/-
  A YAML text as its list of tokens. Indentation becomes start and end tokens of blocks. A token
  that may turn out to be a key is remembered for each level of brackets; when its colon comes,
  the key token is put in front of it.
-/
import DocTypes.Yaml.Token

namespace DocTypes.Yaml

/-- A place where a key without its own indicator may have started. -/
structure PossibleKey where
  /-- Must a colon follow, because the place starts an entry of its block? -/
  required : Bool
  /-- The number of tokens before it. -/
  index : Nat
  start : Position

/-- What is known between two tokens. -/
structure Scan where
  rest : Input
  tokens : Array Token := #[]
  /-- The columns of the open blocks, innermost first. -/
  blocks : List Nat := []
  keyAllowed : Bool := true
  key : Option PossibleKey := none
  /-- The possible keys around the open brackets, innermost first. -/
  outerKeys : List (Option PossibleKey) := []

namespace Scan

def inFlow (s : Scan) : Bool := !s.outerKeys.isEmpty

def emit (s : Scan) (t : Token) : Scan := { s with tokens := s.tokens.push t }

/-- Closes the blocks that stand further in than the column. -/
def closeBlocks (s : Scan) (column : Nat) : Scan :=
  if s.inFlow then s
  else
    let closed := s.blocks.takeWhile (column < ·)
    { s with blocks := s.blocks.drop closed.length,
             tokens := s.tokens ++ (closed.map fun _ => Token.blockEnd) }

/-- Closes all blocks. -/
def closeAll (s : Scan) : Scan :=
  if s.inFlow then s
  else { s with blocks := [], tokens := s.tokens ++ (s.blocks.map fun _ => Token.blockEnd) }

/-- Opens a block at the column, unless one is open there or further in; its token goes to the
given index. -/
def openBlock (s : Scan) (column index : Nat) (t : Token) : Scan :=
  if s.inFlow || s.blocks.head?.any (column ≤ ·) then s
  else { s with blocks := column :: s.blocks, tokens := s.tokens.insertIdxIfInBounds index t }

/-- Gives up the possible key; a required one is missing its colon. -/
def dropKey (s : Scan) : Except Error Scan :=
  match s.key with
  | some k => if k.required then .error (.keyWithoutColon k.start) else .ok { s with key := none }
  | none => .ok s

/-- Remembers that a key may start here. -/
def saveKey (s : Scan) (p : Position) : Except Error Scan :=
  if s.keyAllowed then do
    let s ← s.dropKey
    let required := !s.inFlow && s.blocks.head? == some p.column
    return { s with key := some ⟨required, s.tokens.size, p⟩ }
  else .ok s

/-- Can the key still get its colon here? A key stays on one line and within 1024 bytes. -/
def isStale (k : PossibleKey) (p : Position) : Bool :=
  k.start.line < p.line || k.start.index + 1024 < p.index

/-- Gives up keys that can no longer get their colon. -/
def dropStale (s : Scan) (p : Position) : Except Error Scan := do
  let check (k : Option PossibleKey) : Except Error (Option PossibleKey) :=
    match k with
    | some k =>
      if isStale k p then
        if k.required then .error (.keyWithoutColon k.start) else .ok none
      else .ok (some k)
    | none => .ok none
  return { s with key := ← check s.key, outerKeys := ← s.outerKeys.mapM check }

/-- Passes over blanks, comments and line ends. A new line may start a key, outside brackets; a
tab is a blank only where no key may start, and a byte order mark is one at the start of a
line. -/
def toNextToken (inFlow keyAllowed comment : Bool) : Input → Bool × Input
  | [] => (keyAllowed, [])
  | (c, p) :: s =>
    if isBreak c then toNextToken inFlow (keyAllowed || !inFlow) false s
    else if comment then toNextToken inFlow keyAllowed true s
    else if c == ' ' || (c == '\t' && (inFlow || !keyAllowed)) || (p.column == 0 && c == '\ufeff')
      then toNextToken inFlow keyAllowed false s
    else if c == '#' then toNextToken inFlow keyAllowed true s
    else (keyAllowed, (c, p) :: s)

/-- Takes the first `n` characters as the token. -/
def take (s : Scan) (n : Nat) (t : Token) : Scan := { s with rest := s.rest.drop n }.emit t

/-- Reads a bracket that opens a collection. -/
def openFlow (s : Scan) (p : Position) (t : Token) : Except Error Scan := do
  let s ← s.saveKey p
  return { s with key := none, outerKeys := s.key :: s.outerKeys, keyAllowed := true }.take 1 t

/-- Reads a bracket that closes a collection. -/
def closeFlow (s : Scan) (t : Token) : Except Error Scan := do
  let s ← s.dropKey
  let s := match s.outerKeys with
    | k :: ks => { s with key := k, outerKeys := ks }
    | [] => s
  return { s with keyAllowed := false }.take 1 t

/-- Reads the dash of a list entry. -/
def readEntry (s : Scan) (p : Position) : Except Error Scan := do
  if !s.inFlow && !s.keyAllowed then .error (.misplaced p)
  let s ← (s.openBlock p.column s.tokens.size .sequenceStart).dropKey
  return { s with keyAllowed := true }.take 1 .entry

/-- Reads the question mark of a key. -/
def readKey (s : Scan) (p : Position) : Except Error Scan := do
  if !s.inFlow && !s.keyAllowed then .error (.misplaced p)
  let s ← (s.openBlock p.column s.tokens.size .mappingStart).dropKey
  return { s with keyAllowed := !s.inFlow }.take 1 .key

/-- Reads the colon of a value: the possible key before it becomes a key. -/
def readValue (s : Scan) (p : Position) : Except Error Scan := do
  match s.key with
  | some k =>
    let s := { s with tokens := s.tokens.insertIdxIfInBounds k.index .key }
    let s := s.openBlock k.start.column k.index .mappingStart
    return { s with key := none, keyAllowed := false }.take 1 .value
  | none =>
    if !s.inFlow && !s.keyAllowed then .error (.misplaced p)
    let s := s.openBlock p.column s.tokens.size .mappingStart
    return { s with keyAllowed := !s.inFlow }.take 1 .value

/-- Remembers the possible key, and takes what `read` reads after the first character. -/
def readNode (s : Scan) (p : Position) (skipped : Nat)
    (read : Input → Except Error (Token × Input)) : Except Error Scan := do
  let s ← s.saveKey p
  let (t, rest) ← read (s.rest.drop skipped)
  return { s with keyAllowed := false, rest }.emit t

/-- The characters that may not start a plain scalar, wherever they stand. -/
def isReserved (c : Char) : Bool := ",[]\x7b\x7d#&*!|>'\"%@\x60".toList.contains c

/-- Can the character start a plain scalar, where `next` comes after it? -/
def startsPlain (inFlow : Bool) (c : Char) (next : Option Char) : Bool :=
  if c == '-' then next != some ' ' && next != some '\t'
  else if c == '?' || c == ':' then !inFlow && !isBlankOrEnd next
  else !isReserved c && !isBlankOrEnd (some c)

/-- Reads the next token, whose first character is `c`. -/
def readToken (s : Scan) (c : Char) (p : Position) : Except Error Scan := do
  let next := peek (s.rest.drop 1)
  let indicator := isBlankOrEnd next
  if p.column == 0 && c == '%' then
    let s ← s.closeAll.dropKey
    let (t, rest) ← readDirective p (s.rest.drop 1)
    return { s with keyAllowed := false, rest }.emit t
  else if atDocumentMark s.rest then
    let s ← s.closeAll.dropKey
    let t := if c == '-' then Token.documentStart else Token.documentEnd
    return { s with keyAllowed := false }.take 3 t
  else if c == '[' then s.openFlow p .flowSequenceStart
  else if c == '\x7b' then s.openFlow p .flowMappingStart
  else if c == ']' then s.closeFlow .flowSequenceEnd
  else if c == '\x7d' then s.closeFlow .flowMappingEnd
  else if c == ',' then
    let s ← s.dropKey
    return { s with keyAllowed := true }.take 1 .flowEntry
  else if c == '-' && indicator then s.readEntry p
  else if c == '?' && (s.inFlow || indicator) then s.readKey p
  else if c == ':' && (s.inFlow || indicator) then s.readValue p
  else if c == '*' then
    s.readNode p 1 fun r => (readName p r).map fun (n, r) => (.alias_ n, r)
  else if c == '&' then
    s.readNode p 1 fun r => (readName p r).map fun (n, r) => (.anchor n, r)
  else if c == '!' then
    s.readNode p 0 fun r => (readTag s.inFlow p r).map fun (h, t, r) => (.tag h t, r)
  else if (c == '|' || c == '>') && !s.inFlow then
    let s ← s.dropKey
    let literal := c == '|'
    let (text, rest) ← readBlock literal s.blocks.head? (s.rest.drop 1)
    return { s with keyAllowed := true, rest }.emit
      (.scalar text (if literal then .literal else .folded))
  else if c == '\'' || c == '"' then
    s.readNode p 1 fun r =>
      (readQuoted (c == '\'') .text false [] [] r).map fun (t, r) => (.scalar t .quoted, r)
  else if startsPlain s.inFlow c next then
    let s ← s.saveKey p
    let indent := (s.blocks.head?.map (· + 1)).getD 0
    let (text, newLine, rest) ← readPlain s.inFlow indent [] [] s.rest
    return { s with keyAllowed := newLine, rest }.emit (.scalar text .plain)
  else .error (.badToken p)

/-- Reads tokens to the end of the text, at most `fuel` of them. -/
def readAll : Nat → Scan → Except Error Scan
  | 0, s => .ok s
  | fuel + 1, s => do
    let (keyAllowed, rest) := toNextToken s.inFlow s.keyAllowed false s.rest
    let s := { s with keyAllowed, rest }
    match rest with
    | [] => s.closeAll.dropKey
    | (c, p) :: _ =>
      let s ← s.dropStale p
      let s ← (s.closeBlocks p.column).readToken c p
      readAll fuel s

end Scan

/-- The tokens of a text. Each token takes a character at least, so that the fuel is enough. -/
def tokens (s : Input) : Except Error (List Token) :=
  (Scan.readAll (s.length + 1) { rest := s }).map fun s => s.tokens.toList

end DocTypes.Yaml
