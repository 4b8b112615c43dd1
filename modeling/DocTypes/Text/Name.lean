/-
  Names: identifiers, operation names, and the name of an operation's request.
-/
import DocTypes.Text.Basic
import DocTypes.Text.Capital
import DocTypes.Text.Word

namespace DocTypes

open Text

/-- An ASCII letter or underscore, then name characters. -/
def isIdentifier : Text → Bool
  | [] => false
  | c :: s => (c.isAlpha || c == '_') && s.all isNameChar

/-- Operations are named in lower camel case, data shapes in upper camel case. -/
def isOperationName : Text → Bool
  | [] => false
  | c :: _ => c.isLower

/-- The name with its first character in upper case. -/
def capitalize : Text → Text
  | [] => []
  | c :: s => upperCase c ++ s

/-- The name of the request of an operation. -/
def requestName (operation : Text) : Text := capitalize operation ++ "Data".toList

end DocTypes
