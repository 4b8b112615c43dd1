/-
  What may go wrong with files.
-/

namespace DocTypes

/-- A failed file operation. -/
inductive Fault where
  | notFound
  | exists_
  | notADirectory
  | isADirectory
  | nameTooLong
  | notUtf8
  | other (description : String)
  deriving DecidableEq, Repr

namespace Fault

/-- The wording of a fault. -/
def message : Fault → String
  | notFound => "No such file or directory (os error 2)"
  | exists_ => "File exists (os error 17)"
  | notADirectory => "Not a directory (os error 20)"
  | isADirectory => "Is a directory (os error 21)"
  | nameTooLong => "File name too long (os error 36)"
  | notUtf8 => "stream did not contain valid UTF-8"
  | other d => d

end Fault

end DocTypes
