/-
  Documented entities. A data shape is a union of named variants, a record of fields, or the
  marker for no input; an operation has a request and a result.
-/
import DocTypes.Text.Name
import DocTypes.Type.Basic

namespace DocTypes

/-- A field of a record. -/
structure Field where
  name : String
  optional : Bool
  type : TypeExpr
  description : String
  deriving BEq, Repr

/-- What an operation takes. -/
inductive Request where
  | record (fields : List Field)
  | noInput
  deriving BEq, Repr

/-- What kind of thing a documented name is. -/
inductive Kind where
  | union (members : List String)
  | record (fields : List Field)
  | noInput
  | operation (request : Request) (returns : TypeExpr)
  deriving BEq, Repr

namespace Kind

/-- The word for the kind. -/
def label : Kind → String
  | union _ => "union"
  | record _ => "record"
  | noInput => "no_input"
  | operation _ _ => "operation"

def isOperation : Kind → Bool
  | operation _ _ => true
  | _ => false

end Kind

/-- One documented name. In the description an empty text is a break between paragraphs. -/
structure Entity where
  name : String
  description : List String
  kind : Kind
  deriving BEq, Repr

namespace Entity

def isOperation (e : Entity) : Bool := e.kind.isOperation

/-- The name of the request, were the entity an operation. -/
def requestName (e : Entity) : String := String.ofList (DocTypes.requestName e.name.toList)

end Entity

end DocTypes
