/-
  The registry of operations: which request each takes and what it returns, in the order in which
  the operations were registered.
-/
import DocTypes.Type.Entity

namespace DocTypes

/-- One operation with the name of its request and the type of its result. -/
structure Registry.Entry where
  operation : String
  request : String
  returns : TypeExpr
  deriving BEq, Repr

/-- The registered operations in order. -/
structure Registry where
  entries : List Registry.Entry := []
  deriving BEq, Repr

namespace Registry

/-- Appends an entry. -/
def register (r : Registry) (e : Entry) : Registry := ⟨r.entries ++ [e]⟩

/-- The first entry of the operation. -/
def get? (r : Registry) (operation : String) : Option Entry :=
  r.entries.find? fun e => e.operation == operation

def size (r : Registry) : Nat := r.entries.length

def isEmpty (r : Registry) : Bool := r.entries.isEmpty

/-- The registered names in order. -/
def operations (r : Registry) : List String := r.entries.map Entry.operation

/-- The entry of an entity, which only an operation has. -/
def Entry.ofEntity? (e : Entity) : Option Entry :=
  match e.kind with
  | .operation _ returns => some ⟨e.name, e.requestName, returns⟩
  | _ => none

/-- Registers the operations among the entities in order. -/
def ofEntities (es : List Entity) : Registry := ⟨es.filterMap Entry.ofEntity?⟩

/-- Registering the operation of one more entity. -/
theorem register_ofEntities (es : List Entity) (e : Entity) (entry : Entry)
    (h : Entry.ofEntity? e = some entry) :
    (ofEntities es).register entry = ofEntities (es ++ [e]) := by
  simp [register, ofEntities, List.filterMap_append, h]

end Registry

end DocTypes
