/-
  Announced results. The first sentence that announces a result and names a capitalized type
  gives the type. An operation whose description announces none takes the type announced last
  before it.
-/
import DocTypes.Phrase.TypePhrase

namespace DocTypes.Phrase

open Text

/-- A full stop that ends a sentence: blanks follow it, or nothing. -/
def sentenceEnd : Pattern := (Pattern.char '.').followedBy (blanks1.toTail.or Tail.atEnd)

/-- The sentences of a description. -/
def sentences (description : Text) : List Text := sentenceEnd.split description

def onSuccess : Pattern := (Pattern.anyCase "on success".toList).followedBy Tail.wordEnd

def returnsWord : Pattern :=
  (Pattern.one fun c => c == 'R' || c == 'r').followedBy <|
    (Pattern.exactly "eturns".toList).toTail.followedBy Tail.wordEnd

/-- A word that may name a type: an ASCII capital and name characters. -/
def typeWord : Pattern :=
  (Pattern.one Char.isUpper).followedBy ((Tail.many isNameChar).followedBy Tail.wordEnd)

/-- The word "of" as the next word. -/
def ofNext : Pattern :=
  blanks1.followedBy ((Pattern.exactly ofWord ofWord_ne_nil).toTail.followedBy Tail.wordEnd)

/-- The words "array of" at the end of a text. -/
def arrayOfEnd : Pattern :=
  arrayWord.followedBy <| blanks1.toTail.followedBy <|
    (Pattern.anyCase ofWord ofWord_ne_nil).toTail.followedBy <| blanks.followedBy Tail.atEnd

/-- The word "object" or "objects" as the next word. -/
def objectNext : Pattern :=
  blanks1.followedBy <| (Pattern.exactly "object".toList).toTail.followedBy <|
    (Pattern.char 's').toTail.optional.followedBy Tail.wordEnd

def otherwiseWord : Pattern :=
  (Pattern.one fun c => c == 'O' || c == 'o').followedBy <|
    (Pattern.exactly "therwise".toList).toTail.followedBy Tail.wordEnd

/-- A result named in one sentence, before its type is resolved. -/
structure ReturnPhrase where
  typeName : Text
  isArray : Bool
  fallback : Option Text
  deriving DecidableEq

namespace ReturnPhrase

/-- The type of the result; a fallback is one more alternative. -/
def type (r : ReturnPhrase) : TypeExpr :=
  let base := resolve r.typeName
  let base := if r.isArray then .array base else base
  match r.fallback with
  | some f => .union [base, resolve f]
  | none => base

end ReturnPhrase

/-- A word less a final "s", unless it ends in "ss". -/
def singular (word : Text) : Text :=
  match word.reverse with
  | 's' :: 's' :: _ => word
  | 's' :: front => front.reverse
  | _ => word

/-- The type named after "otherwise": the first capital that follows has to start a type word. -/
def otherwiseType? (after : Text) : Option Text :=
  let between := after.takeWhile fun c => !c.isUpper
  let rest := after.dropWhile fun c => !c.isUpper
  if between.getLast?.any isWord then none
  else typeWord.piece? rest

/-- The result named in the rest of a sentence after its announcing words. -/
def returnPhraseIn? (rest : Text) : Option ReturnPhrase :=
  let isArrayWord (o : Occurrence) : Bool :=
    o.found == "Array".toList && (ofNext.read o.after).isSome
  (typeWord.occurrences rest).find? (fun o => !isArrayWord o) |>.map fun o =>
    let isArray := !(arrayOfEnd.occurrences o.before).isEmpty
    { typeName :=
        if isArray && (objectNext.read o.after).isNone then singular o.found else o.found
      isArray
      fallback := (otherwiseWord.occurrences o.after).findSome? fun o => otherwiseType? o.after }

/-- The result that a sentence announces: "on success" is tried before "returns". -/
def returnPhraseOfSentence? (sentence : Text) : Option ReturnPhrase :=
  let after (p : Pattern) : Option Text := (p.occurrences sentence).head?.map Occurrence.after
  ((after onSuccess).bind returnPhraseIn?).or ((after returnsWord).bind returnPhraseIn?)

/-- The result that a description announces first. -/
def returnPhrase? (description : Text) : Option ReturnPhrase :=
  (sentences description).findSome? returnPhraseOfSentence?

/-- The type of the announced result. -/
def announced? (description : Text) : Option TypeExpr :=
  (returnPhrase? description).map ReturnPhrase.type

/-- How the result of an operation came to be known. -/
inductive Resolution where
  | found (type : TypeExpr)
  | carriedOver (type : TypeExpr)
  | missing
  deriving BEq, Repr

namespace Resolution

/-- The type of the result; `unknown` where it is missing. -/
def type : Resolution → TypeExpr
  | found t | carriedOver t => t
  | missing => .unknown

/-- The result of the operation with this description, where `last` was announced last before
it. -/
def ofDescription (last : Option TypeExpr) (description : Text) : Resolution :=
  match announced? description, last with
  | some t, _ => found t
  | none, some t => carriedOver t
  | none, none => missing

/-- The type announced last, once this resolution is made. -/
def carry (last : Option TypeExpr) : Resolution → Option TypeExpr
  | found t => some t
  | _ => last

/-- The results of consecutive operations. -/
def ofDescriptions (last : Option TypeExpr) : List Text → List Resolution
  | [] => []
  | d :: ds =>
    let r := ofDescription last d
    r :: ofDescriptions (r.carry last) ds

end Resolution

end DocTypes.Phrase
