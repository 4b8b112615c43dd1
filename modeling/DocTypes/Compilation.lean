/-
  From a page to its output: the entities read from it, written as declarations or as data, and
  the report.
-/
import DocTypes.Data.Codec
import DocTypes.Declaration.Layout
import DocTypes.Report
import DocTypes.Yaml.Writer

namespace DocTypes

/-- The forms of the output. -/
inductive Format where
  | typescript
  | json
  | yaml
  deriving DecidableEq, Repr

/-- The formats by name. -/
def Format.ofName? : String → Option Format
  | "typescript" => some .typescript
  | "json" => some .json
  | "yaml" => some .yaml
  | _ => none

/-- The entities and their registry as data. -/
def dump (es : List Entity) : Data :=
  .record [("entities", .list (es.map Entity.toData)),
    ("registry", (Registry.ofEntities es).toData)]

/-- The entities in the given format. -/
def render (style : Declaration.Style) (format : Format) (es : List Entity) : Text :=
  match format with
  | .typescript => Declaration.text style es
  | .json => (dump es).json
  | .yaml => Yaml.document (dump es)

/-- What a page gives. -/
structure Compilation where
  entities : List Entity
  report : Report

/-- Reads a page and reports on it. -/
def compile (page : Text) : Except ShapeError Compilation :=
  let reading := Reading.ofPage page
  reading.entities.map fun es => ⟨es, .ofReading reading es⟩

/-- A page gives what its reading gives, and the report on that. -/
theorem compile_eq_ok {page : Text} {c : Compilation} (h : compile page = .ok c) :
    (Reading.ofPage page).entities = .ok c.entities ∧
      c.report = .ofReading (Reading.ofPage page) c.entities := by
  unfold compile at h
  dsimp only at h
  cases he : (Reading.ofPage page).entities with
  | error e => rw [he] at h; cases h
  | ok es =>
    rw [he] at h
    cases h
    exact ⟨rfl, rfl⟩

end DocTypes
