/-
  A reading of a page: its entities in order, and notes on what was passed over, carried over or
  missing. Blocks are read in order, because results carry over from one operation to the next;
  an inconsistent block ends the reading without entities.
-/
import DocTypes.Content.Shape
import DocTypes.Phrase.Enumeration
import DocTypes.Phrase.Returns
import DocTypes.Type.Finding

namespace DocTypes

open Text Content Page Phrase

/-- The fields that rows describe. -/
def Field.ofRow (r : FieldRow) : Field where
  name := String.ofList r.name
  optional := r.optional
  type := fieldType r.typePhrase r.description
  description := String.ofList r.description

/-- What is remembered about a reading besides its entities. -/
structure Notes where
  /-- Each passed-over line with the name of its entity. -/
  skipped : List (Text × Text) := []
  /-- The operations whose result was carried over. -/
  carriedOver : List Text := []
  /-- The operations without a result. -/
  missing : List Text := []
  deriving DecidableEq

namespace Notes

/-- The notes of one reading and then those of the next. -/
def append (a b : Notes) : Notes :=
  ⟨a.skipped ++ b.skipped, a.carriedOver ++ b.carriedOver, a.missing ++ b.missing⟩

instance : Append Notes := ⟨append⟩

/-- The notes on the lines that were passed over in an entity. -/
def ofSkipped (name : Text) (ls : List Text) : Notes := { skipped := ls.map fun l => (name, l) }

/-- The notes on how the result of an operation came to be known. -/
def ofResolution (name : Text) : Resolution → Notes
  | .found _ => {}
  | .carriedOver _ => { carriedOver := [name] }
  | .missing => { missing := [name] }

end Notes

/-- What one block gives: an entity or a fault, notes, and the result announced last. -/
structure BlockReading where
  notes : Notes
  entity : Except ShapeError Entity
  last : Option TypeExpr

/-- The description of an operation: its paragraphs, and after a break the items of its list. -/
def operationDescription (b : Block) : List Text :=
  if b.list.isEmpty then b.prose
  else if b.prose.isEmpty then b.list
  else b.prose ++ [] :: b.list

/-- The request of an operation; bare names cannot be its parameters. -/
def Request.ofShape (name : Text) : Shape → Except ShapeError Request
  | .noInput => .ok .noInput
  | .record rows => .ok (.record (rows.map Field.ofRow))
  | .union members => .error ⟨name, members.headD []⟩

/-- The kind of a data shape. -/
def Kind.ofShape : Shape → Kind
  | .noInput => .noInput
  | .record rows => .record (rows.map Field.ofRow)
  | .union members => .union (members.map String.ofList)

/-- Reads one block, where `last` is the result announced last before it. -/
def BlockReading.ofBlock (last : Option TypeExpr) (b : Block) : BlockReading :=
  let isOperation := isOperationName b.name
  match classify b isOperation with
  | .error e => ⟨{}, .error e, last⟩
  | .ok c =>
    let skipped := Notes.ofSkipped b.name c.skipped
    let entity (description : List Text) (kind : Kind) : Entity :=
      ⟨String.ofList b.name, description.map String.ofList, kind⟩
    if isOperation then
      match Request.ofShape b.name c.shape with
      | .error e => ⟨skipped, .error e, last⟩
      | .ok request =>
        let result := Resolution.ofDescription last b.text
        { notes := skipped ++ Notes.ofResolution b.name result
          entity := .ok (entity (operationDescription b) (.operation request result.type))
          last := result.carry last }
    else ⟨skipped, .ok (entity b.prose (Kind.ofShape c.shape)), last⟩

/-- Reads blocks in order up to the first fault. -/
def readBlocks (last : Option TypeExpr) : List Block → Notes × Except ShapeError (List Entity)
  | [] => ({}, .ok [])
  | b :: bs =>
    let r := BlockReading.ofBlock last b
    match r.entity with
    | .error e => (r.notes, .error e)
    | .ok entity =>
      let (notes, entities) := readBlocks r.last bs
      (r.notes ++ notes, entities.map (entity :: ·))

/-- The reading of a page. -/
structure Reading where
  /-- The number of blocks on the page. -/
  blocks : Nat
  notes : Notes
  entities : Except ShapeError (List Entity)

namespace Reading

/-- Reads a page. -/
def ofPage (page : Text) : Reading :=
  let bs := Page.blocks page
  let (notes, entities) := readBlocks none bs
  ⟨bs.length, notes, entities⟩

/-- The findings on the entities; none where there is a fault. -/
def findings (r : Reading) : List Finding :=
  match r.entities with
  | .ok es => Entity.findings es
  | .error _ => []

/-- The warnings: one for each missing result, then the findings. -/
def warnings (r : Reading) : List String :=
  (r.notes.missing.map fun n => "no return type found for " ++ String.ofList n) ++
    r.findings.map Finding.message

end Reading

end DocTypes
