/-
  The JSON text of a value, with two spaces of indentation for each level and nothing between
  the brackets of what is empty.
-/
import DocTypes.Data.Basic
import DocTypes.Text.Quoted

namespace DocTypes.Data

open Text

/-- The digits of a number in decimal, with a sign where it is negative. -/
def decimal : Int → Text
  | .ofNat n => Nat.toDigits 10 n
  | .negSucc n => '-' :: Nat.toDigits 10 (n + 1)

/-- A new line at the given level. -/
def newLine (level : Nat) : Text := '\n' :: List.replicate (2 * level) ' '

/-- Items between brackets, each on a line of its own one level further in. -/
def bracketed (opening closing : Char) (level : Nat) : List Text → Text
  | [] => [opening, closing]
  | items =>
    opening :: joinWith [','] (items.map fun i => newLine (level + 1) ++ i) ++
      newLine level ++ [closing]

mutual

/-- The JSON text of a value that stands at the given level. -/
def jsonAt (level : Nat) : Data → Text
  | null => "null".toList
  | bool b => if b then "true".toList else "false".toList
  | int n => decimal n
  | text s => literal s.toList
  | list items => bracketed '[' ']' level (jsonItems (level + 1) items)
  | record fields => bracketed '\x7b' '\x7d' level (jsonFields (level + 1) fields)

/-- The JSON texts of the items of a list. -/
def jsonItems (level : Nat) : List Data → List Text
  | [] => []
  | d :: ds => jsonAt level d :: jsonItems level ds

/-- The JSON texts of the fields of a record. -/
def jsonFields (level : Nat) : List (String × Data) → List Text
  | [] => []
  | (k, d) :: fs => (literal k.toList ++ ": ".toList ++ jsonAt level d) :: jsonFields level fs

end

/-- The JSON text of a value. -/
def json (d : Data) : Text := jsonAt 0 d

end DocTypes.Data
