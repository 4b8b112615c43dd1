/-
  The YAML text of a value, in block style: a field on a line of its own, a list item behind a
  dash at the indentation of the field that holds the list, and brackets for what is empty.
-/
import DocTypes.Data.Json
import DocTypes.Yaml.Scalar

namespace DocTypes.Yaml

open Data (decimal)

def spaces (n : Nat) : Text := List.replicate n ' '

mutual

/-- What follows a field's colon in a record indented by `indent`, through the end of the
line. -/
def afterColon (indent : Nat) : Data → Text
  | .null => " null\n".toList
  | .bool b => if b then " true\n".toList else " false\n".toList
  | .int n => ' ' :: decimal n ++ ['\n']
  | .text s => ' ' :: scalarLine (indent + 2) s.toList
  | .list [] => " []\n".toList
  | .list (d :: ds) => '\n' :: listItems indent (d :: ds)
  | .record [] => " \x7b\x7d\n".toList
  | .record (f :: fs) => '\n' :: recordFields (indent + 2) (f :: fs)

/-- What follows the dash of a list indented by `indent`; a record or a list starts on the same
line. -/
def afterDash (indent : Nat) : Data → Text
  | .null => " null\n".toList
  | .bool b => if b then " true\n".toList else " false\n".toList
  | .int n => ' ' :: decimal n ++ ['\n']
  | .text s => ' ' :: scalarLine (indent + 2) s.toList
  | .list [] => " []\n".toList
  | .list (d :: ds) => ' ' :: (listItems (indent + 2) (d :: ds)).drop (indent + 2)
  | .record [] => " \x7b\x7d\n".toList
  | .record (f :: fs) => ' ' :: (recordFields (indent + 2) (f :: fs)).drop (indent + 2)

/-- The items of a list, each behind a dash. -/
def listItems (indent : Nat) : List Data → Text
  | [] => []
  | d :: ds => spaces indent ++ '-' :: afterDash indent d ++ listItems indent ds

/-- The fields of a record. -/
def recordFields (indent : Nat) : List (String × Data) → Text
  | [] => []
  | (k, d) :: fs =>
    spaces indent ++ k.toList ++ ':' :: afterColon indent d ++ recordFields indent fs

end

/-- The YAML text of a value whose field names need no quotation marks. -/
def document : Data → Text
  | .null => "null\n".toList
  | .bool b => if b then "true\n".toList else "false\n".toList
  | .int n => decimal n ++ ['\n']
  | .text s => scalarLine 0 s.toList
  | .list [] => "[]\n".toList
  | .list (d :: ds) => listItems 0 (d :: ds)
  | .record [] => "\x7b\x7d\n".toList
  | .record (f :: fs) => recordFields 0 (f :: fs)

end DocTypes.Yaml
