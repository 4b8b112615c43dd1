/-
  The command line. Arguments are read from left to right, and the first fault or the first
  request for help or the version ends the reading. A value follows its option as the next
  argument or behind an equals sign.
-/
import DocTypes.Compilation
import DocTypes.Text.Number

namespace DocTypes

open Text

/-- What the arguments of a run say. -/
structure Arguments where
  cache : Option String := none
  url : Option String := none
  config : Option String := none
  format : Option Format := none
  output : Option String := none
  width : Option Nat := none
  timeout : Option Nat := none
  registryName : Option String := none
  report : Bool := false
  verbose : Bool := false
  deriving DecidableEq, Repr

/-- What the command line asks for. -/
inductive Command where
  | run (a : Arguments)
  | help
  | version
  deriving DecidableEq, Repr

/-- Why the arguments cannot be used. -/
inductive ArgumentError where
  | unknown (argument : Text)
  | noValue (option : Text)
  | needlessValue (option : Text)
  | badValue (option value : Text)
  | repeated (option : Text)
  | tooMany (argument : Text)
  deriving DecidableEq, Repr

/-- The wording of a fault. -/
def ArgumentError.message : ArgumentError → Text
  | unknown a => "unexpected argument '".toList ++ a ++ "' found".toList
  | noValue o => "a value is required for '--".toList ++ o ++ "' but none was supplied".toList
  | needlessValue o => "unexpected value for '--".toList ++ o ++ "' found".toList
  | badValue o v => "invalid value '".toList ++ v ++ "' for '--".toList ++ o ++ "'".toList
  | repeated o => "the argument '--".toList ++ o ++ "' cannot be used multiple times".toList
  | tooMany a => "unexpected argument '".toList ++ a ++ "' found".toList

/-- An argument that stands alone. -/
inductive Flag where
  | report
  | verbose
  | help
  | version
  deriving DecidableEq, Repr

/-- An argument that takes a value. -/
inductive Setting where
  | url
  | config
  | format
  | output
  | width
  | timeout
  | registryName
  deriving DecidableEq, Repr

def Flag.name : Flag → Text
  | report => "report".toList
  | verbose => "verbose".toList
  | help => "help".toList
  | version => "version".toList

def Setting.name : Setting → Text
  | url => "url".toList
  | config => "config".toList
  | format => "format".toList
  | output => "output".toList
  | width => "wrap-width".toList
  | timeout => "timeout".toList
  | registryName => "registry-name".toList

def Flag.ofName? (name : Text) : Option Flag :=
  [Flag.report, .verbose, .help, .version].find? fun f => f.name == name

def Flag.ofLetter? : Char → Option Flag
  | 'v' => some verbose
  | 'h' => some help
  | 'V' => some version
  | _ => none

def Setting.ofName? (name : Text) : Option Setting :=
  [Setting.url, .config, .format, .output, .width, .timeout, .registryName].find? fun s =>
    s.name == name

namespace Arguments

/-- A number below `2^64`, with or without a plus sign. -/
def number? : Text → Option Nat
  | '+' :: ds => natural64? ds
  | ds => natural64? ds

/-- A path, which is not empty. -/
def path? (v : Text) : Option String := if v.isEmpty then none else some (String.ofList v)

/-- Sets what is not set yet. -/
def once {α : Type} (old : Option α) (new : Option α) (s : Setting) (v : Text)
    (update : α → Arguments) : Except ArgumentError Arguments :=
  match old, new with
  | some _, _ => .error (.repeated s.name)
  | none, none => .error (.badValue s.name v)
  | none, some a => .ok (update a)

/-- Takes over the value of a setting. -/
def set (a : Arguments) (s : Setting) (v : Text) : Except ArgumentError Arguments :=
  match s with
  | .url => once a.url (some (String.ofList v)) s v fun x => { a with url := x }
  | .config => once a.config (path? v) s v fun x => { a with config := x }
  | .format => once a.format (Format.ofName? (String.ofList v)) s v fun x => { a with format := x }
  | .output => once a.output (path? v) s v fun x => { a with output := x }
  | .width => once a.width (number? v) s v fun x => { a with width := x }
  | .timeout => once a.timeout (number? v) s v fun x => { a with timeout := x }
  | .registryName =>
    once a.registryName (some (String.ofList v)) s v fun x => { a with registryName := x }

/-- Takes over an argument without option, the cache file. -/
def setCache (a : Arguments) (v : Text) : Except ArgumentError Arguments :=
  match a.cache, path? v with
  | none, some p => .ok { a with cache := p }
  | none, none => .error (.badValue "cache".toList v)
  | some _, _ => .error (.tooMany v)

/-- Takes over a flag; a request for help or the version ends the reading. -/
def raise (a : Arguments) (f : Flag) : Except ArgumentError (Arguments ⊕ Command) :=
  match f with
  | .help => .ok (.inr .help)
  | .version => .ok (.inr .version)
  | .report =>
    if a.report then .error (.repeated f.name) else .ok (.inl { a with report := true })
  | .verbose =>
    if a.verbose then .error (.repeated f.name) else .ok (.inl { a with verbose := true })

/-- Takes over flags given by their letters. -/
def raiseLetters (a : Arguments) : Text → Except ArgumentError (Arguments ⊕ Command)
  | [] => .ok (.inl a)
  | c :: s =>
    match Flag.ofLetter? c with
    | none => .error (.unknown ['-', c])
    | some f =>
      match a.raise f with
      | .ok (.inl a) => raiseLetters a s
      | other => other

/-- Does the argument look like an option, and so not like a value? -/
def looksLikeOption (v : Text) : Bool := v.head? == some '-' && v != ['-']

/-- Goes on with the arguments that a flag leaves, unless the flag ends the reading. -/
def goOn (r : Except ArgumentError (Arguments ⊕ Command))
    (f : Arguments → Except ArgumentError Command) : Except ArgumentError Command :=
  match r with
  | .ok (.inl a) => f a
  | .ok (.inr c) => .ok c
  | .error e => .error e

/-- Reads arguments none of which is an option. -/
def readPlain (a : Arguments) : List Text → Except ArgumentError Command
  | [] => .ok (.run a)
  | v :: vs => do readPlain (← a.setCache v) vs

/-- Reads arguments. -/
def readFrom (a : Arguments) : List Text → Except ArgumentError Command
  | [] => .ok (.run a)
  | arg :: rest =>
    match arg with
    | ['-', '-'] => readPlain a rest
    | '-' :: '-' :: option =>
      let name := option.takeWhile (· != '=')
      let value := if name.length < option.length then some (option.drop (name.length + 1)) else none
      match Flag.ofName? name, Setting.ofName? name with
      | some f, _ =>
        if value.isSome then .error (.needlessValue name)
        else goOn (a.raise f) fun a => readFrom a rest
      | none, none => .error (.unknown arg)
      | none, some s =>
        match value, rest with
        | some v, rest => do readFrom (← a.set s v) rest
        | none, [] => .error (.noValue name)
        | none, v :: rest => do
          if looksLikeOption v then throw (.noValue name)
          readFrom (← a.set s v) rest
    | '-' :: c :: letters => goOn (a.raiseLetters (c :: letters)) fun a => readFrom a rest
    | v => do readFrom (← a.setCache v) rest

end Arguments

/-- Reads a command line. -/
def Command.ofArguments (args : List String) : Except ArgumentError Command :=
  Arguments.readFrom {} (args.map String.toList)

end DocTypes
