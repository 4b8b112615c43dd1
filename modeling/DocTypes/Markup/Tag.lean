/-
  Tags in a marked-up text: the patterns of an opening tag, a closing tag and a line break,
  and the text less its tags.
-/
import DocTypes.Text.Pattern

namespace DocTypes.Markup

open Text

/-- Everything through the next `>`. -/
def throughClose : Tail := Tail.through (Pattern.char '>').toTail

/-- The end of an opening tag after its name: `>`, or a blank and then everything through the
next `>`. -/
def tagEnd : Tail :=
  (Pattern.char '>').toTail.or ((Pattern.one isBlank).followedBy throughClose).toTail

/-- A line break tag, `<br>` or `<br />`. -/
def lineBreak : Pattern :=
  (Pattern.anyCase "<br".toList).followedBy <|
    (Tail.many isBlank).followedBy <|
      (Pattern.char '/').toTail.optional.followedBy (Pattern.char '>').toTail

/-- Any tag: a `<` and everything through the next `>`. -/
def anyTag : Pattern := (Pattern.char '<').followedBy throughClose

/-- The opening tag of the element `name`. -/
def openTag (name : Text) : Pattern :=
  (Pattern.anyCase ('<' :: name) (by simp)).followedBy tagEnd

/-- The closing tag of the element `name`. -/
def closeTag (name : Text) : Pattern :=
  Pattern.anyCase ('<' :: '/' :: name ++ ['>']) (by simp)

/-- A text less its tags; a line break tag leaves a newline. -/
def stripTags (s : Text) : Text := anyTag.replace [] (lineBreak.replace ['\n'] s)

/-- Does the text start with the opening tag of `name`, as far as its name goes? -/
def opensWith (name s : Text) : Bool :=
  match after? Char.toLower ('<' :: name) s with
  | some (c :: _) => c == '>' || isAsciiBlank c
  | _ => false

/-- How often the opening tag of `name` occurs, as far as its name goes. -/
def countOpen (name : Text) : Text → Nat
  | [] => 0
  | c :: s => (if opensWith name (c :: s) then 1 else 0) + countOpen name s

/-- How often the closing tag of `name` occurs. -/
def countClose (name : Text) : Text → Nat
  | [] => 0
  | c :: s =>
    (if (after? Char.toLower ('<' :: '/' :: name ++ ['>']) (c :: s)).isSome then 1 else 0) +
      countClose name s

end DocTypes.Markup
