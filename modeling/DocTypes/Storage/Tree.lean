/-
  A tree of files and directories with a working directory. Paths are walked name by name, and
  every name but the last has to be a directory. The entries form a map from places to files and
  directories, so that what an operation leaves alone can be read off the place.
-/
import DocTypes.Storage.Fault
import DocTypes.Storage.Path

namespace DocTypes

/-- The names from the root to a file or directory. -/
abbrev Place := List Text

/-- What stands at a place. -/
inductive Entry where
  | file (content : ByteArray)
  | directory

/-- The entries by their places. The root is a directory without an entry. -/
structure Tree where
  entries : List (Place × Entry) := []
  working : Place := []

namespace Tree

/-- What stands at the place. -/
def get? (t : Tree) (p : Place) : Option Entry :=
  if p = [] then some .directory else t.entries.lookup p

/-- The tree with the entry at the place. -/
def put (t : Tree) (p : Place) (e : Entry) : Tree :=
  { t with entries := (p, e) :: t.entries.filter fun x => x.1 != p }

/-- The tree without what stands at the place. -/
def erase (t : Tree) (p : Place) : Tree :=
  { t with entries := t.entries.filter fun x => x.1 != p }

theorem lookup_filter_ne {es : List (Place × Entry)} {p q : Place} (h : q ≠ p) :
    (es.filter fun x => x.1 != p).lookup q = es.lookup q := by
  induction es with
  | nil => rfl
  | cons x es ih =>
    obtain ⟨r, e⟩ := x
    by_cases hr : r = p
    · subst hr
      have hq : (q == r) = false := beq_eq_false_iff_ne.2 h
      simp [List.lookup_cons, hq, ih]
    · simp [List.lookup_cons, hr, ih]

@[simp] theorem working_put (t : Tree) (p : Place) (e : Entry) : (t.put p e).working = t.working :=
  rfl

theorem get?_put_self {t : Tree} {p : Place} {e : Entry} (h : p ≠ []) :
    (t.put p e).get? p = some e := by
  simp [get?, put, h]

theorem get?_put_of_ne {t : Tree} {p q : Place} {e : Entry} (h : q ≠ p) :
    (t.put p e).get? q = t.get? q := by
  have hq : (q == p) = false := beq_eq_false_iff_ne.2 h
  simp [get?, put, List.lookup_cons, hq, lookup_filter_ne h]

theorem get?_erase_of_ne {t : Tree} {p q : Place} (h : q ≠ p) :
    (t.erase p).get? q = t.get? q := by
  simp [get?, erase, lookup_filter_ne h]

/-- Steps from a place, which has to be a directory, to the place that a name means there. -/
def step (t : Tree) (here : Place) (name : Text) : Except Fault Place :=
  match t.get? here with
  | none => .error .notFound
  | some (.file _) => .error .notADirectory
  | some .directory =>
    if name == ['.'] then .ok here
    else if name == ['.', '.'] then .ok here.dropLast
    else if 255 < (String.ofList name).utf8ByteSize then .error .nameTooLong
    else .ok (here ++ [name])

/-- Walks along names. The last of them may mean a place where nothing stands. -/
def walk (t : Tree) (here : Place) (names : List Text) : Except Fault Place :=
  names.foldlM t.step here

/-- The place from which a path starts. -/
def start (t : Tree) (path : Text) : Place := if Path.isAbsolute path then [] else t.working

/-- The place that a path means. -/
def resolve (t : Tree) (path : Text) : Except Fault Place :=
  if path.isEmpty then .error .notFound
  else if Path.isTooLong path then .error .nameTooLong
  else
    t.walk (t.start path) (Path.names path ++ if Path.endsInSlash path then [['.']] else [])

/-- What stands where the path leads. -/
def entry? (t : Tree) (path : Text) : Option Entry :=
  match t.resolve path with
  | .ok p => t.get? p
  | .error _ => none

def isFile (t : Tree) (path : Text) : Bool :=
  match t.entry? path with
  | some (.file _) => true
  | _ => false

def isDirectory (t : Tree) (path : Text) : Bool :=
  match t.entry? path with
  | some .directory => true
  | _ => false

/-- The content of the file that the path names. -/
def read (t : Tree) (path : Text) : Except Fault ByteArray := do
  match t.get? (← t.resolve path) with
  | some (.file content) => return content
  | some .directory => throw .isADirectory
  | none => throw .notFound

/-- Makes the directory that the path names, within a directory that exists. -/
def makeDir (t : Tree) (path : Text) : Except Fault Tree := do
  if path.isEmpty then throw .notFound
  if Path.isTooLong path then throw .nameTooLong
  let p ← t.walk (t.start path) (Path.names path)
  match t.get? p with
  | some _ => throw .exists_
  | none => return t.put p .directory

/-- The result of an operation and the tree after it. -/
abbrev Step (α : Type) := Except Fault α × Tree

/-- Makes the directory that the path names, and the directories on the way that are missing. -/
def makeDirs (t : Tree) (path : Text) : Step Unit :=
  if path.isEmpty then (.ok (), t)
  else
    let try_ (t : Tree) : Step Unit :=
      match t.makeDir path with
      | .ok t' => (.ok (), t')
      | .error f => (if t.isDirectory path then .ok () else .error f, t)
    match t.makeDir path with
    | .error .notFound =>
      match _h : Path.parent? path with
      | none => (.error (.other "failed to create whole tree"), t)
      | some parent =>
        match makeDirs t parent with
        | (.ok (), t') => try_ t'
        | (.error f, t') => (.error f, t')
    | _ => try_ t
termination_by path.length
decreasing_by exact Path.parent?_length_lt _h

/-- Writes a file: makes it, or replaces its content. -/
def write (t : Tree) (path : Text) (content : ByteArray) : Step Unit :=
  let names := Path.names path
  let name := if Path.endsInSlash path then ['.'] else names.getLastD ['.']
  let place : Except Fault Place := do
    if path.isEmpty then throw .notFound
    if Path.isTooLong path then throw .nameTooLong
    let p ← t.step (← t.walk (t.start path) names.dropLast) name
    if name == ['.'] || name == ['.', '.'] then throw .isADirectory
    match t.get? p with
    | some .directory => throw .isADirectory
    | _ => return p
  match place with
  | .ok p => (.ok (), t.put p (.file content))
  | .error f => (.error f, t)

/-- Removes a file, and tells whether there was one. -/
def remove (t : Tree) (path : Text) : Bool × Tree :=
  match t.resolve path with
  | .ok p =>
    match t.get? p with
    | some (.file _) => (true, t.erase p)
    | _ => (false, t)
  | .error _ => (false, t)

/-- The files below the working directory, by their paths. -/
def files (t : Tree) : List (Text × ByteArray) :=
  t.entries.filterMap fun (p, e) =>
    match e with
    | .file content =>
      if t.working.isPrefixOf p then
        some (Text.joinWith ['/'] (p.drop t.working.length), content)
      else none
    | .directory => none

end Tree

end DocTypes
