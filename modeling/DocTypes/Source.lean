/-
  The page of a run. Its cache file is read where it exists, and never refreshed; where it does
  not exist the page is fetched once and the file written.
-/
import DocTypes.Config
import DocTypes.Report
import DocTypes.Storage.Basic

namespace DocTypes

/-- A loaded page. -/
structure Source where
  page : String
  origin : Origin
  path : String
  deriving DecidableEq

namespace Source

/-- Why no page was loaded. -/
inductive LoadError where
  | storage (f : Fault)
  | fetch (url : String)
  deriving DecidableEq

/-- The wording of a fault. -/
def LoadError.message : LoadError → String
  | storage f => "I/O error: " ++ f.message
  | fetch url => "failed to fetch " ++ url ++ ": no page was received"

variable {m : Type → Type} [Monad m] [Storage m]

/-- Writes a file, and the directories above it that are missing. -/
def install (path : Text) (content : ByteArray) : m (Except Fault Unit) := do
  match Path.parent? path with
  | none => Storage.write path content
  | some parent =>
    match ← Storage.makeDirs parent with
    | .ok () => Storage.write path content
    | .error f => return .error f

/-- Loads the page from the cache file, filling it where it does not exist. -/
def load (url path : String) (seconds : Nat) : m (Except LoadError Source) := do
  if ← Storage.isFile path.toList then
    match ← Storage.read path.toList with
    | .error f => return .error (.storage f)
    | .ok bytes =>
      match String.fromUTF8? bytes with
      | some page => return .ok ⟨page, .cache, path⟩
      | none => return .error (.storage .notUtf8)
  else
    match ← Storage.fetch url seconds with
    | none => return .error (.fetch url)
    | some page =>
      match ← install path.toList page.toUTF8 with
      | .ok () => return .ok ⟨page, .network, path⟩
      | .error f => return .error (.storage f)

/-- Where the page came from, for the report. -/
def provenance (s : Source) : Provenance := ⟨s.path, s.origin, s.page.utf8ByteSize⟩

end Source

end DocTypes
