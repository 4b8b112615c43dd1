/-
  The shape of an entity. Bare names make a union, field rows a record; lines of both kinds in
  one entity are a fault. A sentence of the prose marks entities without input.
-/
import DocTypes.Content.Line
import DocTypes.Page.Block
import DocTypes.Text.Quoted

namespace DocTypes

open Text Content Page

/-- An entity whose content lines do not go together; `line` is the first that does not fit. -/
structure ShapeError where
  entity : Text
  line : Text
  deriving DecidableEq

/-- The wording of the fault. -/
def ShapeError.message (e : ShapeError) : Text :=
  "inconsistent entity shape in ".toList ++ e.entity ++ ": unexpected line ".toList ++
    shown e.line

namespace Content

/-- The shape that the content of an entity has. -/
inductive Shape where
  | union (members : List Text)
  | record (rows : List FieldRow)
  | noInput
  deriving DecidableEq

/-- The content lines that count, trimmed; list items of an operation are prose. -/
def contentLines (b : Block) (isOperation : Bool) : List Text :=
  ((b.table ++ if isOperation then [] else b.list).map trim).filter fun l => !l.isEmpty

/-- The bare names among the lines. -/
def bareNames (ls : List Text) : List Text :=
  ls.filterMap fun l => match Line.ofText l with | .bare n => some n | _ => none

/-- The field rows among the lines. -/
def fieldRows (ls : List Text) : List FieldRow :=
  ls.filterMap fun l => match Line.ofText l with | .field r => some r | _ => none

/-- The lines that are neither names, rows nor headings. -/
def unrecognized (ls : List Text) : List Text := ls.filter fun l => Line.ofText l == .unrecognized

/-- Is the line a bare name (`true`) or a field row (`false`)? -/
def isBare? (l : Text) : Option Bool :=
  match Line.ofText l with
  | .bare _ => some true
  | .field _ => some false
  | _ => none

/-- The first line of another kind than the first bare name or field row. -/
def misfit? (ls : List Text) : Option Text :=
  (ls.findSome? isBare?).bind fun kind => ls.find? fun l => isBare? l == some !kind

/-- The sentence that marks an entity without input. -/
def noParameters : Text := "Requires no parameters.".toList

/-- A shape, and the lines that were passed over to find it. -/
structure Classification where
  shape : Shape
  skipped : List Text
  deriving DecidableEq

/-- The shape of a block. -/
def classify (b : Block) (isOperation : Bool) : Except ShapeError Classification :=
  if occurs noParameters b.text then .ok ⟨.noInput, []⟩
  else
    let ls := contentLines b isOperation
    match misfit? ls with
    | some line => .error ⟨b.name, line⟩
    | none =>
      let shape := if (bareNames ls).isEmpty then .record (fieldRows ls) else .union (bareNames ls)
      .ok ⟨shape, unrecognized ls⟩

end Content

end DocTypes
