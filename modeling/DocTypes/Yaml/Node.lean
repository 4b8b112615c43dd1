/-
  YAML documents as trees. An anchor gives its node a number, and an alias is a reference by the
  number of its name. Nodes may share a number; a reference stands for the last of them in the
  document. Only scalars are taken over this way: a collection under a reference counts as an
  empty list, since it may not be finished.
-/
import DocTypes.Yaml.Tokens

namespace DocTypes.Yaml

/-- A node of a document. -/
inductive Node where
  | scalar (text : Text) (form : Form) (tag : Option Tag)
  | sequence (items : List Node)
  | mapping (pairs : List (Node × Node))
  | reference (number : Nat)
  deriving Repr

/-- A document, with the nodes that are marked and their numbers, the last node first. -/
structure Document where
  root : Node
  marked : List (Nat × Node) := []
  deriving Repr

namespace Node

/-- The node that stands where nothing is written. -/
def empty : Node := scalar [] .plain none

/-- What is known while a document is read. -/
structure Cursor where
  rest : List Token
  /-- What tag handles stand for. -/
  handles : List (Text × Tag)
  /-- The numbers of the names of anchors, each name once. -/
  numbers : List (Text × Nat) := []
  /-- The marked nodes, the last first. -/
  marked : List (Nat × Node) := []

/-- A reader of tokens. -/
abbrev Reader := StateT Cursor (Except Error)

/-- The next token. -/
def peekToken : Reader (Option Token) := do return (← get).rest.head?

/-- Passes over the next token. -/
def skipToken : Reader Unit := modify fun r => { r with rest := r.rest.tail }

/-- Passes over the next token if it is `t`, and tells whether it is. -/
def skipIf (t : Token) : Reader Bool := do
  if (← peekToken) == some t then
    skipToken
    return true
  return false

def fail {α : Type} : Reader α := throw .badStructure

/-- Marks a node. Its number is how many names there are already; a name that is given again gets
a new number, and as it adds no name, a later name may get the same one. -/
def mark (anchor : Option Text) (n : Node) : Reader Unit :=
  match anchor with
  | some a => modify fun r =>
    let number := r.numbers.length
    { r with numbers := (a, number) :: r.numbers.filter (fun x => x.1 != a),
             marked := (number, n) :: r.marked }
  | none => return

/-- The anchor and the tag in front of a node, in either order. -/
def properties : Reader (Option Text × Option (Text × Tag)) := do
  match (← get).rest with
  | .anchor a :: .tag h t :: _ => skipToken; skipToken; return (some a, some (h, t))
  | .tag h t :: .anchor a :: _ => skipToken; skipToken; return (some a, some (h, t))
  | .anchor a :: _ => skipToken; return (some a, none)
  | .tag h t :: _ => skipToken; return (none, some (h, t))
  | _ => return (none, none)

/-- The full tag; a tag without handle is given in full. -/
def resolveTag : Option (Text × Tag) → Reader (Option Tag)
  | none => return none
  | some ([], t) => return some t
  | some (h, t) => do
    match (← get).handles.lookup h with
    | some start => return some (start ++ t)
    | none => fail

/-- The tokens that end a node of a block. -/
def blockEnds : List Token := [.key, .value, .blockEnd]

mutual

/-- Reads a node. In a block it may be a block collection, and after a key also a list whose
dashes stand at the column of the key. -/
def readNode : Nat → (block dashes : Bool) → Reader Node
  | 0, _, _ => fail
  | fuel + 1, block, dashes => do
    if let some (.alias_ name) ← peekToken then
      match (← get).numbers.lookup name with
      | some number => skipToken; return .reference number
      | none => throw (.unknownAnchor name)
    let (anchor, tag) ← properties
    let tag ← resolveTag tag
    let collection : Reader Unit := do
      mark anchor (.sequence [])
      skipToken
    match ← peekToken with
    | some (.scalar text form) =>
      mark anchor (.scalar text form tag)
      skipToken
      return .scalar text form tag
    | some .flowSequenceStart => collection; return .sequence (← readFlowItems fuel true)
    | some .flowMappingStart => collection; return .mapping (← readFlowPairs fuel true)
    | some .sequenceStart =>
      if !block then fail
      collection
      return .sequence (← readItems fuel)
    | some .mappingStart =>
      if !block then fail
      collection
      return .mapping (← readPairs fuel)
    | t =>
      if dashes && t == some .entry then
        mark anchor (.sequence [])
        return .sequence (← readDashes fuel)
      else if anchor.isSome || tag.isSome then
        mark anchor (.scalar [] .plain tag)
        return .scalar [] .plain tag
      else fail

/-- Reads a node, or nothing where one of the tokens follows. -/
def readNodeUnless : Nat → (block dashes : Bool) → List Token → Reader Node
  | 0, _, _, _ => fail
  | fuel + 1, block, dashes, ends => do
    if (← peekToken).all ends.contains then return empty
    readNode fuel block dashes

/-- Reads the items of a list in a block. -/
def readItems : Nat → Reader (List Node)
  | 0 => fail
  | fuel + 1 => do
    if ← skipIf .blockEnd then return []
    if !(← skipIf .entry) then fail
    let n ← readNodeUnless fuel true false [.entry, .blockEnd]
    return n :: (← readItems fuel)

/-- Reads the items of a list whose dashes stand at the column of a key. -/
def readDashes : Nat → Reader (List Node)
  | 0 => fail
  | fuel + 1 => do
    if !(← skipIf .entry) then return []
    let n ← readNodeUnless fuel true false (.entry :: blockEnds)
    return n :: (← readDashes fuel)

/-- Reads the pairs of a mapping in a block. -/
def readPairs : Nat → Reader (List (Node × Node))
  | 0 => fail
  | fuel + 1 => do
    if ← skipIf .blockEnd then return []
    if !(← skipIf .key) then fail
    let k ← readNodeUnless fuel true true blockEnds
    let v ← if ← skipIf .value then readNodeUnless fuel true true blockEnds else pure empty
    return (k, v) :: (← readPairs fuel)

/-- Reads the items of a list between brackets; an item may be one pair of a mapping. -/
def readFlowItems : Nat → (first : Bool) → Reader (List Node)
  | 0, _ => fail
  | fuel + 1, first => do
    if ← skipIf .flowSequenceEnd then return []
    if !first then
      if !(← skipIf .flowEntry) then fail
    if ← skipIf .flowSequenceEnd then return []
    let n ←
      if ← skipIf .key then do
        let k ←
          if (← peekToken).all [.value, .flowEntry, .flowSequenceEnd].contains then do
            skipToken
            pure empty
          else readNode fuel false false
        let v ←
          if ← skipIf .value then readNodeUnless fuel false false [.flowEntry, .flowSequenceEnd]
          else pure empty
        pure (.mapping [(k, v)])
      else readNode fuel false false
    return n :: (← readFlowItems fuel false)

/-- Reads the pairs of a mapping between brackets; a key may stand without a value. -/
def readFlowPairs : Nat → (first : Bool) → Reader (List (Node × Node))
  | 0, _ => fail
  | fuel + 1, first => do
    if ← skipIf .flowMappingEnd then return []
    if !first then
      if !(← skipIf .flowEntry) then fail
    if ← skipIf .flowMappingEnd then return []
    let pair ←
      if ← skipIf .key then do
        let k ← readNodeUnless fuel false false [.value, .flowEntry, .flowMappingEnd]
        let v ←
          if ← skipIf .value then readNodeUnless fuel false false [.flowEntry, .flowMappingEnd]
          else pure empty
        pure (k, v)
      else do
        let k ← readNode fuel false false
        pure (k, empty)
    return pair :: (← readFlowPairs fuel false)

end

/-- The handles that need no directive. -/
def standardHandles : List (Text × Tag) :=
  [("!".toList, .ofString "!"), ("!!".toList, .ofString "tag:yaml.org,2002:")]

/-- Reads the directives in front of a document: the handles, and what follows. -/
def directives (versioned : Bool) (handles : List (Text × Tag)) :
    List Token → Except Error (List (Text × Tag) × List Token)
  | .version major minor :: ts =>
    if versioned || major != 1 || (minor != 1 && minor != 2) then .error .badStructure
    else directives true handles ts
  | .tagHandle h start :: ts =>
    if (handles.lookup h).isSome then .error .badStructure
    else directives versioned ((h, start) :: handles) ts
  | ts => .ok (handles ++ standardHandles, ts)

/-- Is the token a document mark or a directive? -/
def endsDocument : Token → Bool
  | .version _ _ | .tagHandle _ _ | .documentStart | .documentEnd => true
  | _ => false

end Node

namespace Document

/-- Reads the content of the only document. Every call of a reader leads to a token, so that the
fuel is enough. -/
def ofContent (handles : List (Text × Tag)) (ts : List Token) : Except Error Document := do
  let (root, r) ← (Node.readNode (4 * ts.length + 8) true false).run { rest := ts, handles }
  if r.rest.all (· == .documentEnd) then return { root, marked := r.marked }
  else throw .severalDocuments

/-- The document of a stream, if there is one; it may go without a mark and without
directives. -/
def ofTokens : List Token → Except Error (Option Document)
  | [] => .ok none
  | t :: ts => do
    if Node.endsDocument t && t != .documentEnd then
      match ← Node.directives false [] (t :: ts) with
      | (handles, .documentStart :: ts) =>
        if ts.head?.all Node.endsDocument then
          if ts.all (· == .documentEnd) then return some { root := .empty }
          else throw .severalDocuments
        else return some (← ofContent handles ts)
      | _ => throw .badStructure
    else return some (← ofContent Node.standardHandles (t :: ts))

/-- The document of a file, if it holds one. -/
def ofBytes (bytes : ByteArray) : Except Error (Option Document) := do
  match String.fromUTF8? bytes with
  | none => throw .badEncoding
  | some s => ofTokens (← tokens (← Input.ofText s.toList))

/-- What a node stands for: a reference stands for the last node with its number. -/
def resolve (d : Document) : Node → Node
  | .reference number => (d.marked.lookup number).getD .empty
  | n => n

end Document

end DocTypes.Yaml
