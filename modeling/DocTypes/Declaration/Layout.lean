/-
  Declarations of the entities: data shapes, requests of operations, and the registry, in three
  sections with a fixed line between them. Descriptions become comments.
-/
import DocTypes.Declaration.Wrap
import DocTypes.Type.Registry

namespace DocTypes.Declaration

open Text

/-- How declarations are written. -/
structure Style where
  width : Nat := 80
  registryName : Text := "Methods".toList
  source : Option Text := none
  deriving DecidableEq

/-- The line between two sections. -/
def delimiter : Text := "// ".toList ++ List.replicate 75 '-'

/-- What stands before the text on a line of a comment. -/
def commentMargin : Text := " * ".toList

/-- The end of a comment must not occur within it. -/
def escapeEnd : Text → Text
  | [] => []
  | '*' :: '/' :: s => "*\\/".toList ++ escapeEnd s
  | c :: s => c :: escapeEnd s

/-- The lines of a paragraph within a comment; a blank paragraph is an empty line. -/
def paragraphLines (width : Nat) (paragraph : Text) : List Text :=
  if (trim paragraph).isEmpty then [" *".toList]
  else (wrap width (escapeEnd paragraph)).map (commentMargin ++ ·)

/-- Each line with a newline after it. -/
def endLines (ls : List Text) : Text := ls.flatMap fun l => l ++ ['\n']

/-- The comment that holds a description; nothing where all paragraphs are blank. -/
def comment (width : Nat) (paragraphs : List Text) : Text :=
  if paragraphs.all fun p => (trim p).isEmpty then []
  else
    let room := max (width - commentMargin.length) 1
    endLines ("/**".toList :: paragraphs.flatMap (paragraphLines room) ++ [" */".toList])

/-- The name of the type of no input. -/
def noInputName : Text := "NoInput".toList

/-- The declaration of `name` as the type with the given text. -/
def typeAlias (name type : Text) : Text :=
  "export type ".toList ++ name ++ " = ".toList ++ type ++ ";\n".toList

/-- The line of one field; its description is a comment behind it. -/
def fieldLine (f : Field) : Text :=
  "  ".toList ++ f.name.toList ++ (if f.optional then ['?'] else []) ++ ": ".toList ++
    f.type.text ++ [';'] ++
    (if f.description.isEmpty then [] else " // ".toList ++ f.description.toList)

/-- The declaration of a record. -/
def interface (name : Text) (fields : List Field) : Text :=
  "export interface ".toList ++ name ++
    if fields.isEmpty then " \x7b\x7d\n".toList
    else " \x7b\n".toList ++ endLines (fields.map fieldLine) ++ "\x7d\n".toList

/-- The declaration of what an operation takes. -/
def request (name : Text) : Request → Text
  | .noInput => typeAlias name noInputName
  | .record fields => interface name fields

/-- The declaration of a data shape; an operation is none. -/
def dataShape? (e : Entity) : Option Text :=
  let name := e.name.toList
  match e.kind with
  | .union members => some (typeAlias name (TypeExpr.bars (members.map String.toList)))
  | .noInput => some (typeAlias name noInputName)
  | .record fields => some (interface name fields)
  | .operation _ _ => none

/-- The declaration of the request of an operation; a data shape has none. -/
def request? (e : Entity) : Option Text :=
  match e.kind with
  | .operation r _ => some (request e.requestName.toList r)
  | _ => none

/-- The declarations that `decl?` gives, each below the description of its entity. -/
def declarations (width : Nat) (decl? : Entity → Option Text) (es : List Entity) : List Text :=
  es.filterMap fun e =>
    (decl? e).map fun d => comment width (e.description.map String.toList) ++ d

/-- The line of an operation in the registry type. -/
def entryLine (e : Registry.Entry) : Text :=
  "  ".toList ++ e.operation.toList ++ ": [".toList ++ e.request.toList ++ ", ".toList ++
    e.returns.text ++ "];".toList

/-- The declaration of the registry type. -/
def registryType (name : Text) (r : Registry) : Text :=
  "export type ".toList ++ name ++
    if r.isEmpty then " = \x7b\x7d;\n".toList
    else " = \x7b\n".toList ++ endLines (r.entries.map entryLine) ++ "\x7d;\n".toList

/-- The line that names where the declarations come from. -/
def header (source : Option Text) : Text :=
  "// Generated from ".toList ++ source.getD "bot API documentation".toList ++
    ". Do not edit.\n".toList

/-- The declarations of the entities. -/
def text (style : Style) (es : List Entity) : Text :=
  let spaced (ds : List Text) : Text := ds.flatMap ('\n' :: ·)
  header style.source ++ ['\n'] ++ typeAlias noInputName "Record<string, never>".toList ++
    spaced (declarations style.width dataShape? es) ++ ['\n'] ++ delimiter ++ ['\n'] ++
    spaced (declarations style.width request? es) ++ ['\n'] ++ delimiter ++ "\n\n".toList ++
    registryType style.registryName (Registry.ofEntities es)

end DocTypes.Declaration
