/-
  Types as the documentation describes them, and their text in the declaration language.
  An array binds tighter than a union, so an array of alternatives is put in parentheses.
-/
import DocTypes.Text.Number
import DocTypes.Text.Quoted

namespace DocTypes

open Text

/-- The documented primitive types; a flag can only be set, never cleared. -/
inductive Primitive where
  | integer
  | float
  | string
  | boolean
  | flag
  deriving DecidableEq, Repr

namespace Primitive

/-- The documented spellings. -/
def ofDocName? (name : Text) : Option Primitive :=
  match String.ofList (trim name) with
  | "Integer" | "Int" => some integer
  | "Float" | "Float number" => some float
  | "String" => some string
  | "Boolean" => some boolean
  | "True" => some flag
  | _ => none

/-- The name in the declaration language. -/
def typeName : Primitive → String
  | integer | float => "number"
  | string => "string"
  | boolean => "boolean"
  | flag => "true"

/-- May prose narrow the primitive to a closed set of values? -/
def admitsEnumeration : Primitive → Bool
  | string | integer => true
  | _ => false

end Primitive

/-- A type: a primitive, an array, alternatives, a closed set of values, or a name. -/
inductive TypeExpr where
  | primitive (p : Primitive)
  | array (element : TypeExpr)
  | union (members : List TypeExpr)
  | literalSet (values : List String)
  | named (name : String)
  deriving BEq, Repr

/-- Is the text a decimal number, with at most one sign, between `-2^63` and `2^63 - 1`? -/
def isInteger64 (s : Text) : Bool :=
  match s with
  | '-' :: ds => (decimal? ds).any (· ≤ Nat.pow 2 63)
  | '+' :: ds => (decimal? ds).any (· < Nat.pow 2 63)
  | ds => (decimal? ds).any (· < Nat.pow 2 63)

/-- A value of a closed set: an integer as it stands, anything else as a string literal. -/
def literalValue (v : Text) : Text := if isInteger64 v then v else literal v

namespace TypeExpr

/-- The type of an operation whose result is not announced. -/
def unknown : TypeExpr := named "unknown"

/-- The primitive that the type is, if it is one. -/
def primitive? : TypeExpr → Option Primitive
  | primitive p => some p
  | _ => none

/-- Does the text of the type need parentheses before it is made an array? -/
def isAlternatives : TypeExpr → Bool
  | union _ | literalSet _ => true
  | _ => false

/-- Texts with a bar between each two neighbours. -/
def bars (ts : List Text) : Text := joinWith " | ".toList ts

mutual

/-- The text of the type in the declaration language. -/
def text : TypeExpr → Text
  | primitive p => p.typeName.toList
  | array t =>
    (if t.isAlternatives then '(' :: t.text ++ [')'] else t.text) ++ "[]".toList
  | union ts => bars (texts ts)
  | literalSet vs => bars (vs.map fun v => literalValue v.toList)
  | named n => n.toList

/-- The texts of several types. -/
def texts : List TypeExpr → List Text
  | [] => []
  | t :: ts => t.text :: texts ts

end

theorem texts_eq_map (ts : List TypeExpr) : texts ts = ts.map text := by
  induction ts with
  | nil => rfl
  | cons t ts ih => rw [texts, ih, List.map_cons]

end TypeExpr

end DocTypes
