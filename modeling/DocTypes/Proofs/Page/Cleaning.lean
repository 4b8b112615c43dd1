/-
  Cleaning of written parts: paragraphs, tables and lists of plain texts, with their markup
  characters escaped, come back as they were. For paragraphs each stage of the cleaning is followed
  on the parts of the written text, from which its effect on the whole is put together. Tables and
  lists are written in one of the layouts whose texts are known to come back (`cleanTable_markup`,
  `cleanList_markup`).
-/
import DocTypes.Proofs.Page.Table

namespace DocTypes.Page

open Text Markup

/-! ## The written parts -/

/-- Paragraphs one after the other. -/
def writeProse (ts : List PlainText) : Text :=
  ts.flatMap fun t => element "p".toList (escape t.text)

/-- A row of cells. -/
def writeRow (cells : List PlainText) : Text :=
  element "tr".toList (cells.flatMap fun c => element "td".toList (escape c.text))

/-- A table of rows. -/
def writeTable (rows : List (List PlainText)) : Text :=
  element "table".toList (rows.flatMap writeRow)

/-- A list of items. -/
def writeList (items : List PlainText) : Text :=
  element "ul".toList (items.flatMap fun t => element "li".toList (escape t.text))

/-! Written parts are without line ends. -/

section LineEnds

variable {c : Char} (hc : c = '\n' ∨ c = '\r')

include hc

theorem notMem_element_escape {name : Text} (hname : c ∉ '<' :: '/' :: '>' :: name)
    (t : PlainText) : c ∉ element name (escape t.text) := by
  refine notMem_element hname (notMem_escape (t.plain.notMem ?_ ?_) ?_)
  · rcases hc with rfl | rfl <;> rfl
  · rcases hc with rfl | rfl <;> decide
  · rcases hc with rfl | rfl <;> decide

theorem notMem_writeProse (ts : List PlainText) : c ∉ writeProse ts := by
  intro hmem
  obtain ⟨t, -, hmem⟩ := List.mem_flatMap.1 hmem
  exact notMem_element_escape hc (by rcases hc with rfl | rfl <;> decide) t hmem

theorem notMem_writeTable (rows : List (List PlainText)) : c ∉ writeTable rows := by
  refine notMem_element (by rcases hc with rfl | rfl <;> decide) fun hmem => ?_
  obtain ⟨cells, -, hmem⟩ := List.mem_flatMap.1 hmem
  refine notMem_element (by rcases hc with rfl | rfl <;> decide) (fun hmem => ?_) hmem
  obtain ⟨t, -, hmem⟩ := List.mem_flatMap.1 hmem
  exact notMem_element_escape hc (by rcases hc with rfl | rfl <;> decide) t hmem

theorem notMem_writeList (items : List PlainText) : c ∉ writeList items := by
  refine notMem_element (by rcases hc with rfl | rfl <;> decide) fun hmem => ?_
  obtain ⟨t, -, hmem⟩ := List.mem_flatMap.1 hmem
  exact notMem_element_escape hc (by rcases hc with rfl | rfl <;> decide) t hmem

end LineEnds

theorem collapse_text (t : PlainText) : collapse t.text = t.text := t.plain.collapse_eq

/-! ## Paragraphs -/

theorem startsWith_paragraphEnd : paragraphEnd.StartsWith '<' :=
  (startsWith_closeTag _).or ((startsWith_closeTag _).or ((startsWith_closeTag _).or
    ((startsWith_anyCase _).followedBy _)))

theorem startsWith_lineEnd : lineEnd.StartsWith '<' :=
  startsWith_lineBreak.or ((startsWith_closeTag _).or (startsWith_closeTag _))

/-- Each paragraph, followed by a break. -/
def paragraphLines (ts : List PlainText) : List Text := ts.flatMap fun t => [t.text, []]

/-- Of the breaks after the paragraphs those between two of them are kept. -/
theorem tidyBreaks_paragraphLines (ts : List PlainText) :
    tidyBreaks (paragraphLines ts ++ [[]]) = (ts.map PlainText.text).intersperse [] := by
  have hfold : (paragraphLines ts ++ [[]]).foldr addParagraph [] =
      (ts.map PlainText.text).intersperse [] := by
    induction ts with
    | nil => rfl
    | cons t ts ih =>
      have ht : t.text.isEmpty = false := List.isEmpty_eq_false_iff.2 t.ne_nil
      have hcons : paragraphLines (t :: ts) ++ [[]] =
          t.text :: [] :: (paragraphLines ts ++ [[]]) := rfl
      rw [hcons, List.foldr_cons, List.foldr_cons, ih]
      cases ts with
      | nil => simp [addParagraph, t.ne_nil]
      | cons u us => cases us <;> simp [addParagraph, t.ne_nil, u.ne_nil]
  unfold tidyBreaks
  rw [hfold]
  cases ts with
  | nil => rfl
  | cons t ts => cases ts <;> simp [t.ne_nil]

theorem plainText_prose (ts : List PlainText) :
    plainText (lineEnd.replace ['\n'] (paragraphEnd.replace ['\n', '\n'] (writeProse ts))) =
      (paragraphLines ts).flatMap (· ++ ['\n']) := by
  have hends : paragraphEnd.replace ['\n', '\n'] (writeProse ts) =
      ts.flatMap fun t => openMark "p".toList ++ escape t.text ++ ['\n', '\n'] :=
    Pattern.Rewrites.substitute_eq <| Pattern.Rewrites.flatMap fun t _ =>
      rewrites_element
        (rewrites_openMark startsWith_paragraphEnd (by decide) fun _ => rfl)
        (rewrites_escape startsWith_paragraphEnd t.text)
        (Pattern.Rewrites.of_span fun _ => rfl)
  have hkeep : lineEnd.replace ['\n']
      (ts.flatMap fun t => openMark "p".toList ++ escape t.text ++ ['\n', '\n']) =
        ts.flatMap fun t => openMark "p".toList ++ escape t.text ++ ['\n', '\n'] :=
    Pattern.Rewrites.substitute_eq <| Pattern.Rewrites.flatMap fun t _ =>
      ((rewrites_openMark startsWith_lineEnd (by decide) fun _ => rfl).append
        (rewrites_escape startsWith_lineEnd t.text)).append
          (Pattern.Rewrites.of_notMem startsWith_lineEnd (by decide))
  have hshows : Shows (ts.flatMap fun t => openMark "p".toList ++ escape t.text ++ ['\n', '\n'])
      (ts.flatMap fun t => [] ++ t.text ++ ['\n', '\n']) :=
    Shows.flatMap fun t _ => ((Shows.tag (fun _ => rfl) (fun _ => rfl) (by decide)).append
      (Shows.escape t.text)).append (Shows.of_notMem (by decide) (by decide))
  rw [hends, hkeep, hshows.plainText_eq, paragraphLines, List.flatMap_assoc]
  simp

/-- Paragraphs come back with a break between each two. -/
theorem cleanProse_writeProse (ts : List PlainText) :
    cleanProse (writeProse ts) = (ts.map PlainText.text).intersperse [] := by
  have hnl : '\n' ∉ writeProse ts := notMem_writeProse (Or.inl rfl) ts
  have hline : ∀ l ∈ paragraphLines ts, '\n' ∉ l ∧ collapse l = l := by
    intro l hl
    obtain ⟨t, -, hl⟩ := List.mem_flatMap.1 hl
    rcases List.mem_cons.1 hl with rfl | hl
    · exact ⟨t.plain.notMem rfl (by decide), collapse_text t⟩
    · rw [List.mem_singleton.1 hl]
      exact ⟨by decide, isPlain_nil.collapse_eq⟩
  have hcollapse : (paragraphLines ts ++ [[]]).map collapse = paragraphLines ts ++ [[]] := by
    rw [List.map_append, List.map_congr_left (g := id) fun l hl => (hline l hl).2, List.map_id,
      List.map_singleton, isPlain_nil.collapse_eq]
  show tidyBreaks ((splitOn '\n' (plainText (lineEnd.replace ['\n']
    (paragraphEnd.replace ['\n', '\n'] (replaceChar '\n' ' ' (writeProse ts)))))).map collapse) = _
  rw [replaceChar_of_notMem hnl, plainText_prose, splitOn_ended fun l hl => (hline l hl).1,
    hcollapse, tidyBreaks_paragraphLines]

/-! ## Tables -/

/-- The text of a row, with tabs between the cells. -/
def rowText (cells : List PlainText) : Text := joinWith ['\t'] (cells.map PlainText.text)

/-- A pattern that fits at no tag of a row leaves rows as they are. -/
theorem rewrites_rows {p : Pattern} {f : Text → Text} (hp : p.StartsWith '<')
    (hfit : ∀ name ∈ ["tr".toList, "td".toList], ∀ rest,
      p.span? (openMark name ++ rest) = none ∧ p.span? (closeMark name ++ rest) = none)
    (rows : List (List PlainText)) :
    p.Rewrites f (rows.flatMap writeRow) (rows.flatMap writeRow) := by
  have helement : ∀ name ∈ ["tr".toList, "td".toList], '<' ∉ name →
      ∀ x, p.Rewrites f x x → p.Rewrites f (element name x) (element name x) :=
    fun name hmem hname x hx => rewrites_element
      (rewrites_openMark hp hname fun rest => (hfit name hmem rest).1) hx
      (rewrites_closeMark hp hname fun rest => (hfit name hmem rest).2)
  refine Pattern.Rewrites.flatMap fun cells _ => ?_
  refine helement _ (by simp) (by decide) _ (Pattern.Rewrites.flatMap fun c _ => ?_)
  exact helement _ (by simp) (by decide) _ (rewrites_escape hp c.text)

theorem rowText_ne_nil {cells : List PlainText} (h : cells ≠ []) : rowText cells ≠ [] := by
  obtain ⟨t, ts, rfl⟩ := List.exists_cons_of_ne_nil h
  cases ts <;> simp [rowText, t.ne_nil]

/-- A row has no blanks at its ends, since its cells have none. -/
theorem trim_rowText (cells : List PlainText) : trim (rowText cells) = rowText cells := by
  refine trim_joinWith (fun t ht => ?_) fun t ht => ?_
  · obtain ⟨c, -, rfl⟩ := List.mem_map.1 ht
    exact c.ne_nil
  · obtain ⟨c, -, rfl⟩ := List.mem_map.1 ht
    exact c.plain.trim_eq

/-- A cell without gaps or attributes. -/
def CellMarkup.ofText (t : PlainText) : CellMarkup where
  before := .empty
  isHeader := false
  opening := .bare _
  lead := .empty
  text := t.text
  plain := t.plain
  trail := .empty
  closing := .bare _

theorem markup_ofText (t : PlainText) :
    (CellMarkup.ofText t).markup = element "td".toList (escape t.text) := by
  simp [CellMarkup.markup, CellMarkup.content, CellMarkup.ofText, element, ElementName.text]

section Rows

variable (cells : {cells : List PlainText // cells ≠ []})

/-- A row of such cells. -/
def RowMarkup.ofCells : RowMarkup where
  before := .empty
  opening := .bare _
  first := .ofText (cells.1.head cells.2)
  others := cells.1.tail.map .ofText
  ending := .empty
  closing := .bare _

theorem cells_ofCells : (RowMarkup.ofCells cells).cells = cells.1.map .ofText := by
  show CellMarkup.ofText (cells.1.head cells.2) :: cells.1.tail.map .ofText = _
  rw [← List.map_cons, List.cons_head_tail]

theorem markup_ofCells : (RowMarkup.ofCells cells).markup = writeRow cells := by
  rw [RowMarkup.markup, cells_ofCells, List.flatMap_map]
  simp [RowMarkup.ofCells, markup_ofText, writeRow, element, ElementName.text]

theorem line_ofCells : (RowMarkup.ofCells cells).line = rowText cells := by
  rw [RowMarkup.line, cells_ofCells, List.map_map]
  rfl

end Rows

/-- A table of such rows. -/
def TableMarkup.ofRows (rows : List {cells : List PlainText // cells ≠ []}) : TableMarkup where
  opening := .bare _
  head := none
  rows := rows.map .ofCells
  ending := .empty
  closing := .bare _

theorem markup_ofRows (rows : List {cells : List PlainText // cells ≠ []}) :
    (TableMarkup.ofRows rows).markup = writeTable (rows.map Subtype.val) := by
  simp [TableMarkup.markup, TableMarkup.ofRows, List.flatMap_map, markup_ofCells, writeTable,
    element, ElementName.text]

/-- The rows of a table come back with tabs between their cells. -/
theorem cleanTable_writeTable {rows : List (List PlainText)} (h : [] ∉ rows) :
    cleanTable (writeTable rows) = rows.map rowText := by
  have hne : ∀ cells ∈ rows, cells ≠ [] := fun cells hc hnil => h (hnil ▸ hc)
  obtain ⟨rows, rfl⟩ : ∃ rs : List {cells : List PlainText // cells ≠ []},
      rs.map Subtype.val = rows := ⟨_, List.attachWith_map_subtype_val hne⟩
  have hfilled : ∀ r ∈ rows.map RowMarkup.ofCells,
      (r.cells.any fun c => !c.text.isEmpty) = true := by
    intro r hr
    obtain ⟨cells, -, rfl⟩ := List.mem_map.1 hr
    have hfirst : (RowMarkup.ofCells cells).first.text ≠ [] := (cells.1.head cells.2).ne_nil
    exact List.any_eq_true.2 ⟨_, List.mem_cons_self, by simpa using hfirst⟩
  calc cleanTable (writeTable (rows.map Subtype.val))
      = cleanTable (TableMarkup.ofRows rows).markup := by rw [markup_ofRows]
    _ = ((rows.map RowMarkup.ofCells).filter fun r => r.cells.any fun c => !c.text.isEmpty).map
          RowMarkup.line := cleanTable_markup _
    _ = (rows.map Subtype.val).map rowText := by
        rw [List.filter_eq_self.2 hfilled, List.map_map, List.map_map]
        exact List.map_congr_left fun cells _ => line_ofCells cells

/-! ## Lists -/

/-- A pattern that fits at no tag of an item leaves items as they are. -/
theorem rewrites_items {p : Pattern} {f : Text → Text} (hp : p.StartsWith '<')
    (hfit : ∀ rest, p.span? (openMark "li".toList ++ rest) = none ∧
      p.span? (closeMark "li".toList ++ rest) = none) (items : List PlainText) :
    p.Rewrites f (items.flatMap fun t => element "li".toList (escape t.text))
      (items.flatMap fun t => element "li".toList (escape t.text)) :=
  Pattern.Rewrites.flatMap fun t _ => rewrites_element
    (rewrites_openMark hp (by decide) fun rest => (hfit rest).1) (rewrites_escape hp t.text)
    (rewrites_closeMark hp (by decide) fun rest => (hfit rest).2)

/-- An item without gaps or attributes. -/
def ItemMarkup.ofText (t : PlainText) : ItemMarkup where
  before := .empty
  opening := .bare _
  lead := .empty
  text := t
  trail := .empty
  closing := .bare _

/-- A list of such items. -/
def ListMarkup.ofItems (items : List PlainText) : ListMarkup where
  opening := .bare _
  items := items.map .ofText
  ending := .empty
  closing := .bare _

theorem markup_ofItems (items : List PlainText) :
    (ListMarkup.ofItems items).markup = writeList items := by
  simp [ListMarkup.markup, ListMarkup.ofItems, List.flatMap_map, ItemMarkup.markup,
    ItemMarkup.content, ItemMarkup.ofText, writeList, element, ElementName.text]

/-- The items of a list come back as they were. -/
theorem cleanList_writeList (items : List PlainText) :
    cleanList (writeList items) = items.map PlainText.text := by
  rw [← markup_ofItems, cleanList_markup]
  exact List.map_map

end DocTypes.Page
