/-
  The configuration of a run: its values, their defaults, how a YAML file gives them, and which
  values a run can work with.
-/
import DocTypes.Storage.Fault
import DocTypes.Text.Quoted
import DocTypes.Text.Word
import DocTypes.Yaml.Node

namespace DocTypes

open Text

/-- What a run works with. -/
structure Config where
  sourceUrl : String := "https://core.telegram.org/bots/api"
  cachePath : String := "bot-api.html"
  timeout : Nat := 30
  width : Nat := 80
  registryName : String := "Methods"
  deriving DecidableEq, Repr

/-- Why a configuration cannot be used. -/
inductive Config.Invalid where
  | zeroWidth
  | zeroTimeout
  | blankUrl
  | badRegistryName (name : String)
  deriving DecidableEq, Repr

/-- Why a configuration file cannot be read. -/
inductive Config.LoadError where
  | unreadable (f : Fault)
  | notAFile
  | badYaml (e : Yaml.Error)
  | notARecord
  | repeatedKey (key : Text)
  | badValue (key : Text)
  deriving DecidableEq, Repr

namespace Config

/-- The wording of a fault. -/
def Invalid.message (e : Invalid) : String :=
  "invalid config: " ++
    match e with
    | zeroWidth => "wrap_width must be greater than 0"
    | zeroTimeout => "timeout_secs must be greater than 0"
    | blankUrl => "source_url must not be empty"
    | badRegistryName n =>
      "registry_name " ++ String.ofList (shown n.toList) ++ " is not a valid type name"

@[inherit_doc Invalid.message]
def LoadError.message (e : LoadError) : String :=
  match e with
  | unreadable f => "failed to read config: " ++ f.message
  | notAFile => "invalid config YAML: " ++ Fault.isADirectory.message
  | badYaml e => "invalid config YAML: " ++ String.ofList e.message
  | notARecord => "invalid config YAML: expected a record"
  | repeatedKey k => "invalid config YAML: duplicate field " ++ String.ofList k
  | badValue k => "invalid config YAML: invalid value of " ++ String.ofList k

/-- A name that a type may have: letters, digits, underscores and dollar signs, no digit
first. -/
def isTypeName : Text → Bool
  | [] => false
  | c :: s => (c.isAlpha || c == '_' || c == '$') && s.all fun c => isNameChar c || c == '$'

/-- The first reason against a configuration. -/
def invalid? (c : Config) : Option Invalid :=
  if c.width = 0 then some .zeroWidth
  else if c.timeout = 0 then some .zeroTimeout
  else if (trim c.sourceUrl.toList).isEmpty then some .blankUrl
  else if !isTypeName c.registryName.toList then some (.badRegistryName c.registryName)
  else none

/-- The values of a configuration by their names in a file. -/
inductive Key where
  | sourceUrl
  | cachePath
  | timeout
  | width
  | registryName
  deriving DecidableEq, Repr

/-- The key with the given name. -/
def Key.ofName? (name : Text) : Option Key :=
  [("source_url".toList, sourceUrl), ("cache_path".toList, cachePath),
    ("timeout_secs".toList, timeout), ("wrap_width".toList, width),
    ("registry_name".toList, registryName)].lookup name

/-- The number below `2^64` that a node gives: a plain scalar, or a literal one with the tag of
integers. -/
def number? : Yaml.Node → Option Nat
  | .scalar s form tag =>
    let counts := form == .plain ||
      (form == .literal && tag == some (.ofString "tag:yaml.org,2002:int"))
    if counts then (Yaml.natural? s).filter (· < UInt64.size) else none
  | _ => none

/-- The text that a node gives: any scalar, as it stands. -/
def text? : Yaml.Node → Option String
  | .scalar s _ _ => some (String.ofList s)
  | _ => none

/-- The configuration with the value of the key replaced by what the node gives. -/
def set? (c : Config) (k : Key) (n : Yaml.Node) : Option Config :=
  match k with
  | .sourceUrl => (text? n).map fun s => { c with sourceUrl := s }
  | .cachePath => (text? n).map fun s => { c with cachePath := s }
  | .timeout => (number? n).map fun m => { c with timeout := m }
  | .width => (number? n).map fun m => { c with width := m }
  | .registryName => (text? n).map fun s => { c with registryName := s }

/-- Takes over the pairs of a mapping. Unknown keys are passed over; `seen` are the keys given
before. -/
def ofPairs (c : Config) (seen : List Key) :
    List (Yaml.Node × Yaml.Node) → Except LoadError Config
  | [] => .ok c
  | (.scalar name _ _, n) :: ps =>
    match Key.ofName? name with
    | none => ofPairs c seen ps
    | some k =>
      if seen.contains k then .error (.repeatedKey name)
      else
        match c.set? k n with
        | some c => ofPairs c (k :: seen) ps
        | none => .error (.badValue name)
  | _ :: _ => .error .notARecord

/-- The configuration that a document gives; nothing written gives the defaults. -/
def ofDocument (d : Yaml.Document) : Except LoadError Config :=
  match d.root with
  | .mapping ps => ofPairs {} [] (ps.map fun p => (d.resolve p.1, d.resolve p.2))
  | .scalar [] .plain _ => .ok {}
  | _ => .error .notARecord

/-- The configuration in a file. -/
def ofBytes (bytes : ByteArray) : Except LoadError Config :=
  match Yaml.Document.ofBytes bytes with
  | .ok none => .ok {}
  | .ok (some d) => ofDocument d
  | .error e => .error (.badYaml e)

/-- The configuration in a file that was read. -/
def ofRead : Except Fault ByteArray → Except LoadError Config
  | .ok bytes => ofBytes bytes
  | .error .isADirectory => .error .notAFile
  | .error f => .error (.unreadable f)

end Config

end DocTypes
