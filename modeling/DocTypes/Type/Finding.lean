/-
  Validation: what is wrong with a list of entities, or with a registry for it. Every fault is a
  finding, in the order in which the faults stand.
-/
import DocTypes.Type.Registry

namespace DocTypes

open Text

/-- A fault of an entity list or of its registry. -/
inductive Finding where
  | emptyEntityName
  | duplicateEntity (name : String)
  | duplicateField (entity field : String)
  | emptyUnion (name : String)
  | duplicateOperation (operation : String)
  | unregisteredOperation (operation : String)
  deriving DecidableEq, Repr

namespace Finding

/-- The wording of a finding. -/
def message : Finding → String
  | emptyEntityName => "entity name cannot be empty"
  | duplicateEntity n => "duplicate entity: " ++ n
  | duplicateField e f => "duplicate field '" ++ f ++ "' in " ++ e
  | emptyUnion n => "union " ++ n ++ " has no members"
  | duplicateOperation o => "duplicate registry entry: " ++ o
  | unregisteredOperation o => "operation " ++ o ++ " is missing from the registry"

end Finding

/-- The elements that occur earlier in the list, or in `seen`, in order. -/
def repeats {α : Type} [DecidableEq α] (seen : List α) : List α → List α
  | [] => []
  | a :: as => if a ∈ seen then a :: repeats seen as else repeats (a :: seen) as

namespace Entity

/-- The fields whose names an entity declares: those of a record, or of an operation's request. -/
def fields (e : Entity) : List Field :=
  match e.kind with
  | .record fields => fields
  | .operation (.record fields) _ => fields
  | _ => []

/-- The name less surrounding blanks, by which entities are compared. -/
def key (e : Entity) : String := String.ofList (trim e.name.toList)

/-- What is wrong within one entity of the given key. -/
def ownFindings (key : String) (e : Entity) : List Finding :=
  match e.kind with
  | .union [] => [.emptyUnion key]
  | _ => (repeats [] (e.fields.map Field.name)).map (Finding.duplicateField key)

/-- The findings on entities that follow others with the given keys. -/
def findingsFrom (seen : List String) : List Entity → List Finding
  | [] => []
  | e :: es =>
    if e.key.isEmpty then .emptyEntityName :: findingsFrom seen es
    else
      (if e.key ∈ seen then [.duplicateEntity e.key] else []) ++ e.ownFindings e.key ++
        findingsFrom (e.key :: seen) es

/-- The findings on a list of entities: blank and repeated names, unions without members, and
repeated fields. -/
def findings (es : List Entity) : List Finding := findingsFrom [] es

end Entity

namespace Registry

/-- The findings on a registry for the entities: repeated entries, and operations without one. -/
def findings (r : Registry) (es : List Entity) : List Finding :=
  (repeats [] r.operations).map Finding.duplicateOperation ++
    ((es.filter Entity.isOperation).filter fun e => e.name ∉ r.operations).map
      fun e => Finding.unregisteredOperation e.name

end Registry

end DocTypes
