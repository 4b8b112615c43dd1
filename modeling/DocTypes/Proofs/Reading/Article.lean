/-
  Reading a written page. `ofPage_writePage`: a page of articles is read back as one entity for
  each article, with its paragraphs, and with its rows as fields or its members as alternatives;
  no line is passed over.
-/
import DocTypes.Proofs.Content.Row
import DocTypes.Proofs.Page.Article
import DocTypes.Proofs.Reading.Blocks

namespace DocTypes

open Text Content Page Phrase

/-! ## What articles say -/

namespace Page

/-- The field that a row documents. -/
def ArticleRow.field (r : ArticleRow) : Field where
  name := String.ofList r.name.text
  optional := (r.marker.any fun m => m.text.map Char.toLower == "optional".toList) ||
    "Optional.".toList.isPrefixOf r.description.text
  type := fieldType r.type.text r.description.text
  description := String.ofList r.description.text

namespace Article

/-- The kind of the documented name, where an operation gives `returns`. -/
def kind (returns : TypeExpr) (a : Article) : Kind :=
  match a.content with
  | .members first others => .union ((first :: others).map fun n => String.ofList n.text)
  | .rows rs =>
    if isOperationName a.name.text then .operation (.record (rs.map ArticleRow.field)) returns
    else .record (rs.map ArticleRow.field)

/-- The documented entity: its paragraphs with a break between each two, and its kind. -/
def entity (returns : TypeExpr) (a : Article) : Entity where
  name := String.ofList a.name.text
  description := (a.paragraphs.map fun t => String.ofList t.text).intersperse ""
  kind := a.kind returns

/-- The result that the paragraphs of an operation announce. -/
def announcement? (a : Article) : Option TypeExpr :=
  if isOperationName a.name.text then announced? (joinWith [' '] (a.paragraphs.map PlainText.text))
  else none

/-- The entities of articles in order. An operation gives the result announced last, in its own
paragraphs or before; `last` is what was announced before all of them. -/
def entities (last : Option TypeExpr) : List Article → List Entity
  | [] => []
  | a :: as =>
    let result := a.announcement?.or last
    a.entity (result.getD .unknown) :: entities result as

end Article

end Page

/-! ## Lines of rows and members -/

theorem misfit?_eq_none (kind : Bool) {ls : List Text} (h : ∀ l ∈ ls, isBare? l = some kind) :
    misfit? ls = none := by
  unfold misfit?
  cases ls with
  | nil => rfl
  | cons l ls =>
    rw [List.findSome?_cons, h l List.mem_cons_self]
    refine List.find?_eq_none.2 fun m hm => ?_
    rw [h m hm]
    cases kind <;> decide

/-- The row that is read from the documentation of a field. -/
def ArticleRow.fieldRow (r : ArticleRow) : FieldRow where
  name := r.name.text
  typePhrase := r.type.text
  optional := (r.marker.any fun m => Line.marksOptional m.text) ||
    "Optional.".toList.isPrefixOf r.description.text
  description := r.description.text

/-- The row by its cells. -/
def ArticleRow.toCells (r : ArticleRow) : Cells where
  name := r.name
  type := r.type.text
  marker := r.marker.map PlainText.text
  description := r.description.text
  isCell_type := isCell_plain r.type
  type_ne_nil := r.type.ne_nil
  isCell_marker := fun m hm => by
    obtain ⟨t, -, rfl⟩ := Option.map_eq_some_iff.1 hm
    exact isCell_plain t
  marker_ne_nil := fun m hm => by
    obtain ⟨t, -, rfl⟩ := Option.map_eq_some_iff.1 hm
    exact t.ne_nil
  isCell_description := isCell_plain r.description
  not_heading := r.not_heading

theorem ofText_rowText (r : ArticleRow) :
    Line.ofText (rowText r.cells) = .field (ArticleRow.fieldRow r) := by
  have htext : rowText r.cells = (ArticleRow.toCells r).text := by
    rcases r with ⟨name, type, _ | marker, description, hheading⟩ <;> rfl
  have hfield : ArticleRow.fieldRow r = (ArticleRow.toCells r).field := by
    rcases r with ⟨name, type, _ | marker, description, hheading⟩ <;> rfl
  rw [htext, hfield, ofText_text]

/-! ## Blocks of articles -/

theorem text_block (a : Article) :
    a.block.text = joinWith [' '] (a.paragraphs.map PlainText.text) := by
  have hfilter : ∀ ts : List PlainText, ((ts.map PlainText.text).intersperse []).filter
      (fun t => !t.isEmpty) = ts.map PlainText.text := by
    intro ts
    induction ts with
    | nil => rfl
    | cons t ts ih =>
      cases ts with
      | nil => simp [t.ne_nil]
      | cons u us =>
        rw [List.map_cons] at ih
        simp [t.ne_nil, ih]
  exact congrArg (joinWith [' ']) (hfilter a.paragraphs)

theorem announcement?_block (a : Article) : a.block.announcement? = a.announcement? := by
  unfold Block.announcement? Article.announcement?
  rw [text_block]
  rfl

/-- The content lines of an article. -/
theorem contentLines_block (a : Article) :
    contentLines a.block (isOperationName a.name.text) =
      a.content.table.map rowText ++ a.content.list.map Identifier.text := by
  have hline : ∀ l ∈ a.content.table.map rowText ++ a.content.list.map Identifier.text,
      trim l = l ∧ l ≠ [] := by
    intro l hl
    rcases List.mem_append.1 hl with hl | hl
    · obtain ⟨cells, hc, rfl⟩ := List.mem_map.1 hl
      refine ⟨trim_rowText cells, rowText_ne_nil ?_⟩
      cases ha : a.content with
      | members first others => rw [ha] at hc; cases hc
      | rows rs =>
        rw [ha] at hc
        obtain ⟨r, -, rfl⟩ := List.mem_map.1 hc
        exact List.cons_ne_nil _ _
    · obtain ⟨n, -, rfl⟩ := List.mem_map.1 hl
      exact ⟨n.toPlain.plain.trim_eq, n.ne_nil⟩
  have hlist : (if isOperationName a.name.text = true then [] else a.block.list) =
      a.content.list.map Identifier.text := by
    split
    · next hop =>
      cases ha : a.content with
      | rows rs => rfl
      | members first others =>
        rw [a.dataShape_of_members first others ha] at hop
        cases hop
    · rfl
  unfold contentLines
  rw [hlist]
  show List.filter _ ((a.content.table.map rowText ++ a.content.list.map Identifier.text).map trim) = _
  rw [List.map_congr_left (g := id) fun l hl => (hline l hl).1, List.map_id,
    List.filter_eq_self.2 fun l hl => by simpa using (hline l hl).2]

/-- The shape that the content of an article has. -/
def articleShape (a : Article) : Content.Shape :=
  match a.content with
  | .rows rs => .record (rs.map ArticleRow.fieldRow)
  | .members first others => .union ((first :: others).map Identifier.text)

theorem classify_block (a : Article) :
    classify a.block (isOperationName a.name.text) = .ok ⟨articleShape a, []⟩ := by
  have hmarker : ¬ occurs noParameters a.block.text = true := by
    rw [text_block, a.takes_input]
    decide
  unfold classify articleShape
  rw [if_neg hmarker, contentLines_block]
  cases a.content with
  | rows rs =>
    have hlines : (ArticleContent.rows rs).table.map rowText ++
        (ArticleContent.rows rs).list.map Identifier.text = rs.map fun r => rowText r.cells := by
      simp [ArticleContent.table, ArticleContent.list]
    have hmisfit : misfit? (rs.map fun r => rowText r.cells) = none :=
      misfit?_eq_none false fun l hl => by
        obtain ⟨r, -, rfl⟩ := List.mem_map.1 hl
        rw [isBare?, ofText_rowText]
    have hbare : bareNames (rs.map fun r => rowText r.cells) = [] := by
      simp [bareNames, List.filterMap_map, ofText_rowText]
    have hrows : fieldRows (rs.map fun r => rowText r.cells) = rs.map ArticleRow.fieldRow := by
      unfold fieldRows
      rw [List.filterMap_map]
      simp only [Function.comp_def, ofText_rowText]
      exact congrFun List.filterMap_eq_map _
    have hskipped : unrecognized (rs.map fun r => rowText r.cells) = [] := by
      simp [unrecognized, ofText_rowText]
    dsimp only
    rw [hlines, hmisfit, hbare, hrows, hskipped]
    rfl
  | members first others =>
    have hlines : (ArticleContent.members first others).table.map rowText ++
        (ArticleContent.members first others).list.map Identifier.text =
          (first :: others).map Identifier.text := rfl
    have hmisfit : misfit? ((first :: others).map Identifier.text) = none :=
      misfit?_eq_none true fun l hl => by
        obtain ⟨n, -, rfl⟩ := List.mem_map.1 hl
        rw [isBare?, ofText_identifier]
    have hbare : bareNames ((first :: others).map Identifier.text) =
        (first :: others).map Identifier.text := by
      unfold bareNames
      rw [List.filterMap_map]
      simp only [Function.comp_def, ofText_identifier]
      exact congrFun List.filterMap_eq_map _
    have hskipped : unrecognized ((first :: others).map Identifier.text) = [] := by
      simp [unrecognized, ofText_identifier]
    dsimp only
    rw [hlines, hmisfit, hbare, hskipped]
    rfl

theorem map_intersperse (f : Text → String) (ts : List Text) :
    (ts.intersperse []).map f = (ts.map f).intersperse (f []) := by
  induction ts with
  | nil => rfl
  | cons t ts ih =>
    cases ts with
    | nil => rfl
    | cons u us =>
      rw [List.map_cons] at ih
      simp [ih]

theorem description_block (a : Article) : a.block.prose.map String.ofList =
    (a.paragraphs.map fun t => String.ofList t.text).intersperse "" := by
  show ((a.paragraphs.map PlainText.text).intersperse []).map String.ofList = _
  rw [map_intersperse, List.map_map]
  rfl

/-- Reading the block of an article gives its entity and passes over nothing. -/
theorem ofBlock_block (last : Option TypeExpr) (a : Article) :
    (BlockReading.ofBlock last a.block).entity =
        .ok (a.entity ((a.announcement?.or last).getD .unknown)) ∧
      (BlockReading.ofBlock last a.block).notes.skipped = [] := by
  have hc := classify_block a
  have hfields : ∀ rs : List ArticleRow,
      (rs.map ArticleRow.fieldRow).map Field.ofRow = rs.map ArticleRow.field := fun rs => by
    rw [List.map_map]
    rfl
  cases hop : isOperationName a.name.text with
  | false =>
    rw [ofBlock_of_dataShape last hc hop, description_block]
    unfold Article.entity Article.kind articleShape
    cases a.content with
    | rows rs =>
      dsimp only [Kind.ofShape]
      rw [hfields, hop]
      exact ⟨rfl, rfl⟩
    | members first others =>
      dsimp only [Kind.ofShape]
      rw [List.map_map]
      exact ⟨rfl, rfl⟩
  | true =>
    cases ha : a.content with
    | members first others =>
      rw [a.dataShape_of_members first others ha] at hop
      cases hop
    | rows rs =>
      have hr : Request.ofShape a.block.name (articleShape a) =
          .ok (.record (rs.map ArticleRow.field)) := by
        unfold articleShape
        rw [ha, ← hfields]
        rfl
      have hdescription : operationDescription a.block = a.block.prose := by
        unfold operationDescription
        rw [show a.block.list = [] by simp [Article.block, ha, ArticleContent.list]]
        rfl
      have hskipped : (Notes.ofResolution a.block.name
          (Resolution.ofDescription last a.block.text)).skipped = [] := by
        cases Resolution.ofDescription last a.block.text <;> rfl
      rw [ofBlock_of_operation last hc hop hr, hdescription, description_block,
        type_ofDescription, text_block]
      unfold Article.entity Article.kind Article.announcement?
      rw [ha, hop]
      refine ⟨rfl, ?_⟩
      show [] ++ (Notes.ofResolution _ _).skipped = []
      rw [← text_block, hskipped]
      rfl

/-- **A page of articles is read back.** There is exactly one entity for each article, in order,
and no line is passed over. -/
theorem ofPage_writePage (as : List Article) :
    (Reading.ofPage (writePage as)).entities = .ok (Article.entities none as) ∧
      (Reading.ofPage (writePage as)).notes.skipped = [] := by
  have hread : ∀ last, (readBlocks last (as.map Article.block)).2 = .ok (Article.entities last as) ∧
      (readBlocks last (as.map Article.block)).1.skipped = [] := by
    induction as with
    | nil => exact fun last => ⟨rfl, rfl⟩
    | cons a as ih =>
      intro last
      obtain ⟨hentity, hskipped⟩ := ofBlock_block last a
      obtain ⟨-, hlast⟩ := ofBlock_entity last a.block
      obtain ⟨hes, hnotes⟩ := ih (a.announcement?.or last)
      have hnext := hlast _ hentity
      rw [announcement?_block] at hnext
      rw [List.map_cons, readBlocks]
      dsimp only
      rw [hentity, hnext]
      refine ⟨?_, ?_⟩
      · show (readBlocks _ _).2.map _ = _
        rw [hes]
        rfl
      · show _ ++ _ = []
        rw [hskipped, hnotes]
        rfl
  obtain ⟨hes, hskipped⟩ := hread none
  rw [Reading.ofPage, blocks_writePage]
  exact ⟨hes, hskipped⟩

/-- A record with a row of three cells and one of four, an operation that announces its result, and
a union. -/
theorem ofPage_writePage_user :
    let user : Article :=
      { name := ⟨"User".toList, by decide⟩
        paragraphs := [⟨"A user.".toList, by decide, by decide⟩]
        content := .rows [
          { name := ⟨"id".toList, by decide⟩
            type := ⟨"Integer".toList, by decide, by decide⟩
            marker := none
            description := ⟨"Id > 0".toList, by decide, by decide⟩
            not_heading := by decide },
          { name := ⟨"tags".toList, by decide⟩
            type := ⟨"Array of String".toList, by decide, by decide⟩
            marker := some ⟨"Optional".toList, by decide, by decide⟩
            description := ⟨"Tags".toList, by decide, by decide⟩
            not_heading := by decide }]
        takes_input := by decide
        dataShape_of_members := nofun }
    let get : Article :=
      { name := ⟨"get".toList, by decide⟩
        paragraphs := [⟨"Gets it.".toList, by decide, by decide⟩,
          ⟨"Returns a User.".toList, by decide, by decide⟩]
        content := .rows [
          { name := ⟨"key".toList, by decide⟩
            type := ⟨"Key".toList, by decide, by decide⟩
            marker := some ⟨"Yes".toList, by decide, by decide⟩
            description := ⟨"Any".toList, by decide, by decide⟩
            not_heading := by decide }]
        takes_input := by decide
        dataShape_of_members := nofun }
    let key : Article :=
      { name := ⟨"Key".toList, by decide⟩
        paragraphs := []
        content := .members ⟨"Name".toList, by decide⟩ [⟨"Id".toList, by decide⟩]
        takes_input := by decide
        dataShape_of_members := fun _ _ _ => by decide }
    let as := [user, get, key]
    writePage as = "<h4>User</h4><p>A user.</p><table>".toList ++
      "<tr><td>id</td><td>Integer</td><td>Id &gt; 0</td></tr>".toList ++
      "<tr><td>tags</td><td>Array of String</td><td>Optional</td><td>Tags</td></tr>".toList ++
      "</table><h4>get</h4><p>Gets it.</p><p>Returns a User.</p><table>".toList ++
      "<tr><td>key</td><td>Key</td><td>Yes</td><td>Any</td></tr></table>".toList ++
      "<h4>Key</h4><ul><li>Name</li><li>Id</li></ul>".toList ∧
    ∃ es, (Reading.ofPage (writePage as)).entities = .ok es ∧
      (Reading.ofPage (writePage as)).notes.skipped = [] ∧
      es.map (fun e => (e.name, e.description, e.kind.label)) =
        [("User", ["A user."], "record"),
          ("get", ["Gets it.", "", "Returns a User."], "operation"), ("Key", [], "union")] ∧
      (es.flatMap Entity.fields).map (fun f => (f.name, f.optional, f.type.text, f.description)) =
        [("id", false, "number".toList, "Id > 0"), ("tags", true, "string[]".toList, "Tags"),
          ("key", false, "Key".toList, "Any")] ∧
      (Registry.ofEntities es).entries.map (fun r => (r.operation, r.returns.text)) =
        [("get", "User".toList)] ∧
      es.filterMap (fun e => match e.kind with | .union ms => some ms | _ => none) =
        [["Name", "Id"]] := by
  intro user get key as
  obtain ⟨hes, hskipped⟩ := ofPage_writePage as
  exact ⟨by decide +kernel, _, hes, hskipped, by decide +kernel, by decide +kernel,
    by decide +kernel, by decide +kernel⟩

end DocTypes
