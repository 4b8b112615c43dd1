/-
  The data that an output holds, and that no value of the model is lost in it. The names of the
  fields of a record differ (`Entity.hasDistinctKeys_toData`), so a parser that gives a printed
  value back up to the order of its fields gives data from which the entities and their registry
  are read (`readsBack_output`). The reader of `Proofs.Data.Json` is such a parser.
-/
import DocTypes.Compilation
import DocTypes.Proofs.Data.Codec
import DocTypes.Proofs.Data.Json

namespace DocTypes

open Data

/-! ## Names of fields -/

/-- No record within the value has two fields of one name. -/
inductive Data.HasDistinctKeys : Data → Prop where
  | null : HasDistinctKeys null
  | bool (b : Bool) : HasDistinctKeys (bool b)
  | int (n : Int) : HasDistinctKeys (int n)
  | text (s : String) : HasDistinctKeys (text s)
  | list {ds : List Data} : (∀ d ∈ ds, HasDistinctKeys d) → HasDistinctKeys (list ds)
  | record {fs : List (String × Data)} : (fs.map Prod.fst).Nodup →
      (∀ f ∈ fs, HasDistinctKeys f.2) → HasDistinctKeys (record fs)

theorem hasDistinctKeys_map {α : Type} {write : α → Data} {xs : List α}
    (h : ∀ x ∈ xs, (write x).HasDistinctKeys) : (list (xs.map write)).HasDistinctKeys :=
  .list (List.forall_mem_map.2 h)

theorem hasDistinctKeys_texts (ss : List String) : (texts ss).HasDistinctKeys :=
  hasDistinctKeys_map fun s _ => .text s

namespace TypeExpr

theorem hasDistinctKeys_form (name : String) {content : Data} (h : content.HasDistinctKeys) :
    (form name content).HasDistinctKeys :=
  .record (by simp) (by simpa using ⟨.text name, h⟩)

theorem hasDistinctKeys_toData (t : TypeExpr) : t.toData.HasDistinctKeys := by
  cases t with
  | primitive p => exact hasDistinctKeys_form _ (.text _)
  | array t => exact hasDistinctKeys_form _ (hasDistinctKeys_toData t)
  | union ts =>
    rw [toData, toDatas_eq_map]
    exact hasDistinctKeys_form _ (hasDistinctKeys_map fun t _ => hasDistinctKeys_toData t)
  | literalSet vs => exact hasDistinctKeys_form _ (hasDistinctKeys_texts vs)
  | named n => exact hasDistinctKeys_form _ (.text n)
termination_by sizeOf t

end TypeExpr

theorem Field.hasDistinctKeys_toData (f : Field) : f.toData.HasDistinctKeys :=
  .record (by simp) (by simpa using
    ⟨.text _, .bool _, TypeExpr.hasDistinctKeys_toData f.type, .text _⟩)

theorem hasDistinctKeys_fields (fields : List Field) :
    (list (fields.map Field.toData)).HasDistinctKeys :=
  hasDistinctKeys_map fun f _ => f.hasDistinctKeys_toData

theorem Request.hasDistinctKeys_toData (r : Request) : r.toData.HasDistinctKeys := by
  cases r with
  | record fields =>
    exact .record (by simp) (by simpa using ⟨.text _, hasDistinctKeys_fields fields⟩)
  | noInput => exact .record (by simp) (by simpa using .text _)

theorem Kind.hasDistinctKeys_toData (k : Kind) : k.toData.HasDistinctKeys := by
  cases k with
  | union members =>
    exact .record (by simp) (by simpa using ⟨.text _, hasDistinctKeys_texts members⟩)
  | record fields =>
    exact .record (by simp) (by simpa using ⟨.text _, hasDistinctKeys_fields fields⟩)
  | noInput => exact .record (by simp) (by simpa using .text _)
  | operation request returns =>
    exact .record (by simp) (by simpa using
      ⟨.text _, request.hasDistinctKeys_toData, returns.hasDistinctKeys_toData⟩)

theorem Entity.hasDistinctKeys_toData (e : Entity) : e.toData.HasDistinctKeys :=
  .record (by simp) (by simpa using
    ⟨.text _, hasDistinctKeys_texts e.description, e.kind.hasDistinctKeys_toData⟩)

theorem Registry.Entry.hasDistinctKeys_toData (e : Registry.Entry) :
    e.toData.HasDistinctKeys :=
  .record (by simp) (by simpa using ⟨.text _, .text _, e.returns.hasDistinctKeys_toData⟩)

theorem Registry.hasDistinctKeys_toData (r : Registry) : r.toData.HasDistinctKeys := by
  have hentries : (list (r.entries.map Registry.Entry.toData)).HasDistinctKeys :=
    hasDistinctKeys_map fun e _ => e.hasDistinctKeys_toData
  exact .record (by simp) (by simpa using hentries)

theorem hasDistinctKeys_dump (es : List Entity) : (dump es).HasDistinctKeys :=
  .record (by simp) (by simpa using
    ⟨hasDistinctKeys_map fun e _ => e.hasDistinctKeys_toData,
      (Registry.ofEntities es).hasDistinctKeys_toData⟩)

/-! ## Outputs -/

/-- The entities and the registry that the data of an output gives. -/
def ofDump? (d : Data) : Option (List Entity × Registry) :=
  match d.fields? ["entities", "registry"] with
  | some [entities, registry] => do
    return (← entities.listOf? Entity.ofData?, ← Registry.ofData? registry)
  | _ => none

theorem readsBack_dump {es : List Entity} {d : Data} (h : (dump es).Rearranged d) :
    ofDump? d = some (es, Registry.ofEntities es) := by
  obtain ⟨ws, hws, hfields⟩ := h.fields? ["entities", "registry"] rfl
  rcases hfields with _ | ⟨hentities, _ | ⟨hregistry, _ | _⟩⟩
  rw [ofDump?, hws]
  simp only [readsBack_list Entity.readsBack es _ hentities, Registry.readsBack _ _ hregistry]
  rfl

/-- **Main theorem.** Types, fields, requests, kinds, entities and registries are read back from
what is written for them, wherever they stand and also where fields were reordered and unknown
ones added. Hence a parser that gives every value back from its text, up to the order of fields,
gives from the text of an output its entities and their registry. -/
theorem readsBack_output {parse : Text → Option Data}
    (hparse : ∀ d : Data, d.HasDistinctKeys → ∃ d', parse d.json = some d' ∧ d.Rearranged d') :
    (∀ level, ReadsBack TypeExpr.toData (TypeExpr.ofData? level)) ∧
      (∀ level, ReadsBack Field.toData (Field.ofData? level)) ∧
      (∀ level, ReadsBack Request.toData (Request.ofData? level)) ∧
      (∀ level, ReadsBack Kind.toData (Kind.ofData? level)) ∧
      ReadsBack Entity.toData Entity.ofData? ∧
      ReadsBack Registry.toData Registry.ofData? ∧
      ∀ style es, (parse (render style .json es)).bind ofDump? =
        some (es, Registry.ofEntities es) := by
  refine ⟨TypeExpr.readsBack, Field.readsBack, Request.readsBack, Kind.readsBack,
    Entity.readsBack, Registry.readsBack, fun style es => ?_⟩
  obtain ⟨d, hd, hrearranged⟩ := hparse (dump es) (hasDistinctKeys_dump es)
  rw [render, hd, Option.bind_some]
  exact readsBack_dump hrearranged

/-- An operation whose result is an array of alternatives, through the reader of JSON texts. -/
theorem readsBack_output_operation :
    let e : Entity := ⟨"getPets", ["All \"pets\"."], .operation
      (.record [⟨"kind", true, .literalSet ["cat", "dog"], ""⟩])
      (.array (.union [.named "Cat", .primitive .flag]))⟩
    (∀ d : Data, d.HasDistinctKeys → ∃ d', Data.ofJson? d.json = some d' ∧ d.Rearranged d') ∧
      (Data.ofJson? (render {} .json [e])).bind ofDump? = some ([e], Registry.ofEntities [e]) := by
  intro e
  have hparse : ∀ d : Data, d.HasDistinctKeys →
      ∃ d', Data.ofJson? d.json = some d' ∧ d.Rearranged d' :=
    fun d _ => ⟨d, ofJson?_json d, .refl d⟩
  obtain ⟨-, -, -, -, -, -, houtput⟩ := readsBack_output hparse
  exact ⟨hparse, houtput {} [e]⟩

end DocTypes
