/-
  Entities and registries as structured data, and back. Every alternative carries its name in a
  field of its own; reading takes the fields in any order, and passes over fields that the form
  does not have. The fields of an alternative are read more freely than a value by itself.
-/
import DocTypes.Data.Basic
import DocTypes.Type.Registry

namespace DocTypes

namespace Data

/-- The values of the named fields in this order. A record may also be given as the list of the
values. -/
def fields? (names : List String) : Data → Option (List Data)
  | record fs => names.mapM fun n => fs.lookup n
  | list ds => if ds.length = names.length then some ds else none
  | _ => none

/-- Where a value stands: by itself, or within the fields of an alternative. -/
inductive Level where
  | top
  | nested
  deriving DecidableEq, Repr

/-- No value. Within an alternative an empty record is none either. -/
def isNothing (level : Level) : Data → Bool
  | null => true
  | record [] => level == .nested
  | _ => false

/-- The name of a choice: a text, or the one field of a record that has no value. -/
def choice? (level : Level) : Data → Option String
  | text name => some name
  | record [(name, d)] => if d.isNothing level then some name else none
  | _ => none

/-- The name of an alternative: a text, or within another alternative also the place of the name
among all names. -/
def label? (level : Level) (names : List String) : Data → Option String
  | text name => some name
  | int (.ofNat n) => if level = .nested then names[n]? else none
  | _ => none

/-- The name of the alternative, and the value less that name where it was given as a list. -/
def tagged? (level : Level) (tag : String) (names : List String) :
    Data → Option (String × Data)
  | record fs =>
    match fs.lookup tag with
    | some d => (d.label? level names).map fun name => (name, record fs)
    | none => none
  | list (d :: ds) => (d.label? level names).map fun name => (name, list ds)
  | _ => none

def text? : Data → Option String
  | text s => some s
  | _ => none

def bool? : Data → Option Bool
  | bool b => some b
  | _ => none

/-- The items of a list, each read by `f`. -/
def listOf? {α : Type} (f : Data → Option α) : Data → Option (List α)
  | list ds => ds.mapM f
  | _ => none

theorem sizeOf_lookup_lt {fs : List (String × Data)} {n : String} {d : Data}
    (h : fs.lookup n = some d) : sizeOf d < sizeOf fs := by
  induction fs with
  | nil => simp at h
  | cons f fs ih =>
    obtain ⟨k, v⟩ := f
    rw [List.lookup_cons] at h
    split at h
    · simp only [Option.some.injEq] at h
      subst h
      simp; omega
    · have := ih h
      simp; omega

theorem sizeOf_mem_lt {ds : List Data} {d : Data} (h : d ∈ ds) : sizeOf d < sizeOf ds :=
  List.sizeOf_lt_of_mem h

end Data

namespace Primitive

/-- The name of a primitive in data. -/
def tag : Primitive → String
  | integer => "integer"
  | float => "float"
  | string => "string"
  | boolean => "boolean"
  | flag => "true"

def ofTag? : String → Option Primitive
  | "integer" => some integer
  | "float" => some float
  | "string" => some string
  | "boolean" => some boolean
  | "true" => some flag
  | _ => none

def toData (p : Primitive) : Data := .text p.tag

/-- The primitive that the data chooses. -/
def ofData? (level : Data.Level) (d : Data) : Option Primitive := (d.choice? level).bind ofTag?

@[simp] theorem ofTag?_tag (p : Primitive) : ofTag? p.tag = some p := by cases p <;> rfl

end Primitive

namespace TypeExpr

/-- A type with the name of its form and its content. -/
def form (name : String) (content : Data) : Data :=
  .record [("kind", .text name), ("of", content)]

mutual

def toData : TypeExpr → Data
  | primitive p => form "primitive" p.toData
  | array t => form "array" t.toData
  | union ts => form "union" (.list (toDatas ts))
  | literalSet vs => form "literal_set" (.texts vs)
  | named n => form "named" (.text n)

def toDatas : List TypeExpr → List Data
  | [] => []
  | t :: ts => t.toData :: toDatas ts

end

theorem toDatas_eq_map (ts : List TypeExpr) : toDatas ts = ts.map toData := by
  induction ts with
  | nil => rfl
  | cons t ts ih => rw [toDatas, ih, List.map_cons]

/-- The names of the forms of types. -/
def forms : List String := ["primitive", "array", "union", "literal_set", "named"]

/-- The name of a form, and the content. -/
def ofForm? (level : Data.Level) : Data → Option (String × Data)
  | .record fs => do return (← (← fs.lookup "kind").choice? level, ← fs.lookup "of")
  | .list [name, content] => (name.label? level forms).map fun n => (n, content)
  | _ => none

theorem sizeOf_ofForm?_lt {level : Data.Level} {d content : Data} {name : String}
    (h : ofForm? level d = some (name, content)) : sizeOf content < sizeOf d := by
  unfold ofForm? at h
  split at h
  · next fs =>
    simp only [Option.bind_eq_bind, Option.pure_def, Option.bind_eq_some_iff,
      Option.some.injEq, Prod.mk.injEq] at h
    obtain ⟨k, _, n, _, c, hc, _, rfl⟩ := h
    have := Data.sizeOf_lookup_lt hc
    simp; omega
  · next n c =>
    obtain ⟨m, _, hm⟩ := Option.map_eq_some_iff.1 h
    simp only [Prod.mk.injEq] at hm
    rw [← hm.2]
    simp; omega
  · simp at h

/-- The type that the data gives. -/
def ofData? (level : Data.Level) (d : Data) : Option TypeExpr :=
  match _h : ofForm? level d with
  | some ("primitive", content) => (Primitive.ofData? level content).map primitive
  | some ("array", content) => (ofData? level content).map array
  | some ("union", .list ds) => (ds.attach.mapM fun d => ofData? level d.1).map union
  | some ("literal_set", content) => (content.listOf? Data.text?).map literalSet
  | some ("named", content) => content.text?.map named
  | _ => none
termination_by sizeOf d
decreasing_by
  · exact sizeOf_ofForm?_lt _h
  · have h1 : sizeOf (Data.list ds) < sizeOf _ := sizeOf_ofForm?_lt _h
    have h2 := Data.sizeOf_mem_lt d.2
    simp at h1
    omega

end TypeExpr

namespace Field

def names : List String := ["name", "optional", "type_expr", "description"]

def toData (f : Field) : Data :=
  .record [("name", .text f.name), ("optional", .bool f.optional), ("type_expr", f.type.toData),
    ("description", .text f.description)]

/-- The field that the data gives. -/
def ofData? (level : Data.Level) (d : Data) : Option Field :=
  match d.fields? names with
  | some [name, optional, type, description] => do
    return ⟨← name.text?, ← optional.bool?, ← TypeExpr.ofData? level type, ← description.text?⟩
  | _ => none

end Field

namespace Request

def toData : Request → Data
  | record fields => .record [("shape", .text "record"), ("fields", .list (fields.map Field.toData))]
  | noInput => .record [("shape", .text "no_input")]

/-- The request that the data gives. -/
def ofData? (level : Data.Level) (d : Data) : Option Request :=
  match d.tagged? level "shape" ["record", "no_input"] with
  | some ("record", d) =>
    match d.fields? ["fields"] with
    | some [fields] => (fields.listOf? (Field.ofData? .nested)).map record
    | _ => none
  | some ("no_input", .record _) => some noInput
  | some ("no_input", .list []) => some noInput
  | _ => none

end Request

namespace Kind

def toData : Kind → Data
  | union members => .record [("kind", .text "union"), ("members", .texts members)]
  | record fields => .record [("kind", .text "record"), ("fields", .list (fields.map Field.toData))]
  | noInput => .record [("kind", .text "no_input")]
  | operation request returns =>
    .record [("kind", .text "operation"), ("request", request.toData), ("returns", returns.toData)]

/-- The kind that the data gives. -/
def ofData? (level : Data.Level) (d : Data) : Option Kind :=
  match d.tagged? level "kind" ["union", "record", "no_input", "operation"] with
  | some ("union", d) =>
    match d.fields? ["members"] with
    | some [members] => (members.listOf? Data.text?).map union
    | _ => none
  | some ("record", d) =>
    match d.fields? ["fields"] with
    | some [fields] => (fields.listOf? (Field.ofData? .nested)).map record
    | _ => none
  | some ("no_input", .record _) => some noInput
  | some ("no_input", .list []) => some noInput
  | some ("operation", d) =>
    match d.fields? ["request", "returns"] with
    | some [request, returns] => do
      return operation (← Request.ofData? .nested request) (← TypeExpr.ofData? .nested returns)
    | _ => none
  | _ => none

end Kind

namespace Entity

def toData (e : Entity) : Data :=
  .record [("name", .text e.name), ("description", .texts e.description), ("kind", e.kind.toData)]

/-- The entity that the data gives. -/
def ofData? (d : Data) : Option Entity :=
  match d.fields? ["name", "description", "kind"] with
  | some [name, description, kind] => do
    return ⟨← name.text?, ← description.listOf? Data.text?, ← Kind.ofData? .top kind⟩
  | _ => none

end Entity

namespace Registry

def Entry.toData (e : Entry) : Data :=
  .record [("operation", .text e.operation), ("request_shape", .text e.request),
    ("returns", e.returns.toData)]

/-- The entry that the data gives. -/
def Entry.ofData? (d : Data) : Option Entry :=
  match d.fields? ["operation", "request_shape", "returns"] with
  | some [operation, request, returns] => do
    return ⟨← operation.text?, ← request.text?, ← TypeExpr.ofData? .top returns⟩
  | _ => none

def toData (r : Registry) : Data := .record [("entries", .list (r.entries.map Entry.toData))]

/-- The registry that the data gives. -/
def ofData? (d : Data) : Option Registry :=
  match d.fields? ["entries"] with
  | some [entries] => (entries.listOf? Entry.ofData?).map Registry.mk
  | _ => none

end Registry

end DocTypes
