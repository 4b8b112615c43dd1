/-
  The content lines of a table or a list: a bare name, a field row of three or four cells, the
  heading of the columns, or none of these.
-/
import DocTypes.Text.Name

namespace DocTypes.Content

open Text

/-- A field row before its type is resolved. -/
structure FieldRow where
  name : Text
  typePhrase : Text
  optional : Bool
  description : Text
  deriving DecidableEq

/-- What a content line is. -/
inductive Line where
  | bare (name : Text)
  | field (row : FieldRow)
  | heading
  | unrecognized
  deriving DecidableEq

namespace Line

/-- Does the marker cell say "optional", in any case of ASCII letters? -/
def marksOptional (marker : Text) : Bool := marker.map Char.toLower == "optional".toList

/-- The line with the given cells. A field is optional where its marker says so or its
description starts with "Optional.". -/
def ofCells (name typePhrase : Text) (marker : Option Text) (description : Text) : Line :=
  if (name == "Field".toList || name == "Parameter".toList) && typePhrase == "Type".toList then
    heading
  else if !isIdentifier name || typePhrase.isEmpty then unrecognized
  else
    let optional := marker.any marksOptional || "Optional.".toList.isPrefixOf description
    field { name, typePhrase, optional, description }

/-- Reads a trimmed, nonempty line. -/
def ofText (line : Text) : Line :=
  match (splitOn '\t' line).map trim with
  | [name] => if isIdentifier name then bare name else unrecognized
  | [name, type, description] => ofCells name type none description
  | [name, type, marker, description] => ofCells name type (some marker) description
  | _ => unrecognized

end Line

end DocTypes.Content
