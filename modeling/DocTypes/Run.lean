/-
  A run of the command: arguments, configuration, page, compilation, output. A run that fails
  prints nothing on the standard output, and writes no output file.
-/
import DocTypes.Arguments
import DocTypes.Source

namespace DocTypes

open Text

/-- What a run leaves besides files. -/
structure Outcome where
  exitCode : Nat
  stdout : Text := []
  stderr : Text := []
  deriving DecidableEq

/-- Why a run fails after its arguments were read. -/
inductive Failure where
  | config (path : String) (e : Config.LoadError)
  | invalid (e : Config.Invalid)
  | source (e : Source.LoadError)
  | shape (e : ShapeError)
  | create (path : Text) (f : Fault)
  | write (path : Text) (f : Fault)
  deriving DecidableEq

/-- The wording of a failure. -/
def Failure.message : Failure → Text
  | config path e => ("Failed to load '" ++ path ++ "': " ++ e.message).toList
  | invalid e => e.message.toList
  | source e => e.message.toList
  | shape e => e.message
  | create path f => "Failed to create '".toList ++ path ++ "': ".toList ++ f.message.toList
  | write path f => "Failed to write '".toList ++ path ++ "': ".toList ++ f.message.toList

/-- The configuration with what the arguments say in place of its values. -/
def Arguments.override (a : Arguments) (c : Config) : Config where
  cachePath := a.cache.getD c.cachePath
  sourceUrl := a.url.getD c.sourceUrl
  width := a.width.getD c.width
  timeout := a.timeout.getD c.timeout
  registryName := a.registryName.getD c.registryName

/-- The style of the declarations under a configuration. -/
def Config.style (c : Config) : Declaration.Style where
  width := c.width
  registryName := c.registryName.toList
  source := some c.sourceUrl.toList

/-- A text with a newline at its end. -/
def endLine (s : Text) : Text := if s.getLast? == some '\n' then s else s ++ ['\n']

namespace Run

variable {m : Type → Type} [Monad m] [Storage m]

/-- The configuration of a run. -/
def config (a : Arguments) : m (Except Failure Config) := do
  let base ← match a.config with
    | none => pure (.ok {})
    | some path => do
      match Config.ofRead (← Storage.read path.toList) with
      | .ok c => pure (.ok c)
      | .error e => pure (.error (.config path e))
  return do
    let c := a.override (← base)
    match c.invalid? with
    | some e => throw (.invalid e)
    | none => return c

/-- Writes the output to a file, and makes the directories above it that are missing. -/
def deliver (path : Text) (text : Text) : m (Except Failure Unit) := do
  let write : m (Except Failure Unit) := do
    return (← Storage.write path (String.ofList text).toUTF8).mapError (.write path)
  match Path.parent? path with
  | none => write
  | some parent =>
    match ← Storage.makeDirs parent with
    | .ok () => write
    | .error f => return .error (.create parent f)

/-- What a loaded page gives: the output, and the report as the standard error shows it. -/
def produce (a : Arguments) (c : Config) (s : Source) : Except Failure (Text × Text) :=
  match compile s.page.toList with
  | .error e => .error (.shape e)
  | .ok compilation =>
    let report := { compilation.report with source := some s.provenance }
    .ok (endLine (render c.style (a.format.getD .typescript) compilation.entities),
      if a.report then report.toData.json ++ ['\n'] else [])

/-- Runs the command: gives what goes to the standard output and the standard error. -/
def perform (a : Arguments) : m (Except Failure (Text × Text)) := do
  match ← config a with
  | .error e => return .error e
  | .ok c =>
    match ← Source.load c.sourceUrl c.cachePath c.timeout with
    | .error e => return .error (.source e)
    | .ok source =>
      match produce a c source with
      | .error e => return .error e
      | .ok (text, report) =>
        match a.output with
        | none => return .ok (text, report)
        | some path => return (← deliver path.toList text).map fun _ => ([], report)

/-- The version as the command shows it. -/
def versionText : Text := "bot-api-typegen 0.1.0\n".toList

/-- The help as `--help` shows it. -/
def helpText : Text :=
  ("Generate TypeScript declarations and a method registry from bot API documentation\n\n" ++
    "Usage: bot-api-typegen [OPTIONS] [CACHE]\n\n" ++
    "Arguments:\n" ++
    "  [CACHE]\n" ++
    "          Cache file for the documentation page. Fetched and written when missing\n\n" ++
    "Options:\n" ++
    "      --url <URL>\n" ++
    "          Documentation URL fetched on a cache miss\n\n" ++
    "      --config <CONFIG>\n" ++
    "          YAML configuration file\n\n" ++
    "      --format <FORMAT>\n" ++
    "          Output format\n\n" ++
    "          Possible values:\n" ++
    "          - typescript: TypeScript declarations\n" ++
    "          - json:       The IR and registry as JSON\n" ++
    "          - yaml:       The IR and registry as YAML\n\n" ++
    "          [default: typescript]\n\n" ++
    "      --output <OUTPUT>\n" ++
    "          Write output to this file instead of stdout\n\n" ++
    "      --wrap-width <WRAP_WIDTH>\n" ++
    "          Column width for wrapped description comments\n\n" ++
    "      --timeout <TIMEOUT>\n" ++
    "          Fetch timeout in seconds\n\n" ++
    "      --registry-name <REGISTRY_NAME>\n" ++
    "          Name of the emitted registry type\n\n" ++
    "      --report\n" ++
    "          Print a JSON run report to stderr\n\n" ++
    "  -v, --verbose\n" ++
    "          Enable debug logging\n\n" ++
    "  -h, --help\n" ++
    "          Print help (see a summary with '-h')\n\n" ++
    "  -V, --version\n" ++
    "          Print version\n").toList

/-- Runs a command line. -/
def commandLine (args : List String) : m Outcome := do
  match Command.ofArguments args with
  | .error e =>
    return { exitCode := 2, stderr := "error: ".toList ++ e.message ++ ['\n'] }
  | .ok .help => return { exitCode := 0, stdout := helpText }
  | .ok .version => return { exitCode := 0, stdout := versionText }
  | .ok (.run a) =>
    match ← perform a with
    | .ok (stdout, stderr) => return { exitCode := 0, stdout, stderr }
    | .error e => return { exitCode := 1, stderr := "error: ".toList ++ e.message ++ ['\n'] }

end Run

end DocTypes
