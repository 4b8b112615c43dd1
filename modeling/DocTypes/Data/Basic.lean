/-
  Structured data: what a document in a data format holds. A record keeps its fields in order.
-/

namespace DocTypes

/-- A value of a data format. -/
inductive Data where
  | null
  | bool (b : Bool)
  | int (n : Int)
  | text (s : String)
  | list (items : List Data)
  | record (fields : List (String × Data))
  deriving BEq, Repr, Inhabited

namespace Data

/-- The list of the given texts. -/
def texts (ss : List String) : Data := list (ss.map text)

/-- The number `n`. -/
def nat (n : Nat) : Data := int n

end Data

end DocTypes
