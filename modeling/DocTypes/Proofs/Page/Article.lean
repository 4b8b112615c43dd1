/-
  Written pages. An article documents one name: paragraphs, and then field rows or member names.
  `blocks_writePage`: the blocks of a page of articles are what the articles say, in order.
-/
import DocTypes.Content.Shape
import DocTypes.Proofs.Page.Cleaning
import DocTypes.Proofs.Page.Parts
import DocTypes.Proofs.Page.Regroup
import DocTypes.Proofs.Page.Sections

namespace DocTypes.Page

open Text Markup

/-- The documentation of a field: three cells, or four with a marker. The headings of the columns
are no field. -/
structure ArticleRow where
  name : Identifier
  type : PlainText
  marker : Option PlainText
  description : PlainText
  not_heading : ¬ ((name.text = "Field".toList ∨ name.text = "Parameter".toList) ∧
    type.text = "Type".toList)

/-- The cells of the row in order. -/
def ArticleRow.cells (r : ArticleRow) : List PlainText :=
  r.name.toPlain :: r.type :: (r.marker.toList ++ [r.description])

/-- What an article lists. -/
inductive ArticleContent where
  | rows (rs : List ArticleRow)
  | members (first : Identifier) (others : List Identifier)

namespace ArticleContent

/-- The rows as cells. -/
def table : ArticleContent → List (List PlainText)
  | rows rs => rs.map ArticleRow.cells
  | members _ _ => []

/-- The member names. -/
def list : ArticleContent → List Identifier
  | rows _ => []
  | members first others => first :: others

/-- Rows are written as a table, members as a list. -/
def write : ArticleContent → Text
  | rows rs => writeTable (rows rs).table
  | members first others => writeList ((members first others).list.map Identifier.toPlain)

end ArticleContent

/-- The documentation of one name. Its prose does not say that there is no input, and only data
shapes have members. -/
structure Article where
  name : Identifier
  paragraphs : List PlainText
  content : ArticleContent
  takes_input : occurs Content.noParameters (joinWith [' '] (paragraphs.map PlainText.text)) = false
  dataShape_of_members : ∀ first others, content = .members first others →
    isOperationName name.text = false

namespace Article

def heading (a : Article) : Text := element "h4".toList a.name.text

/-- A heading, the paragraphs, and the content. -/
def write (a : Article) : Text := a.heading ++ writeProse a.paragraphs ++ a.content.write

/-- The lines below the heading. -/
def body (a : Article) : List Text :=
  (if a.paragraphs.isEmpty then [] else [writeProse a.paragraphs]) ++ [a.content.write]

/-- The article with its markup removed. -/
def block (a : Article) : Block where
  name := a.name.text
  prose := (a.paragraphs.map PlainText.text).intersperse []
  table := a.content.table.map rowText
  list := a.content.list.map Identifier.text

end Article

/-- A page of articles. -/
def writePage (as : List Article) : Text := as.flatMap Article.write

/-! ## Regrouping -/

/-- A table or a list whose inner markup regrouping leaves as it is. -/
theorem ArticleContent.exists_element (c : ArticleContent) : ∃ name inner,
    (name = "table".toList ∨ name = "ul".toList) ∧ c.write = element name inner ∧
      (structuralOpen.Rewrites ('\n' :: ·) inner inner) ∧
      (structuralClose.Rewrites (· ++ ['\n']) inner inner) := by
  cases c with
  | rows rs =>
    exact ⟨_, _, Or.inl rfl, rfl,
      rewrites_rows startsWith_structuralOpen (List.forall_mem_cons.2 ⟨fun _ => ⟨rfl, rfl⟩,
        List.forall_mem_singleton.2 fun _ => ⟨rfl, rfl⟩⟩) _,
      rewrites_rows startsWith_structuralClose (List.forall_mem_cons.2 ⟨fun _ => ⟨rfl, rfl⟩,
        List.forall_mem_singleton.2 fun _ => ⟨rfl, rfl⟩⟩) _⟩
  | members first others =>
    exact ⟨_, _, Or.inr rfl, rfl,
      rewrites_items startsWith_structuralOpen (fun _ => ⟨rfl, rfl⟩) _,
      rewrites_items startsWith_structuralClose (fun _ => ⟨rfl, rfl⟩) _⟩

theorem ArticleContent.rewrites_open (c : ArticleContent) :
    structuralOpen.Rewrites ('\n' :: ·) c.write ('\n' :: c.write) := by
  obtain ⟨name, inner, hname, hw, hinner, -⟩ := c.exists_element
  have hp := startsWith_structuralOpen
  rw [hw]
  rcases hname with rfl | rfl
  · exact rewrites_element (Pattern.Rewrites.of_span fun _ => rfl) hinner
      (rewrites_closeMark hp (by decide) fun _ => rfl)
  · exact rewrites_element (Pattern.Rewrites.of_span fun _ => rfl) hinner
      (rewrites_closeMark hp (by decide) fun _ => rfl)

theorem ArticleContent.rewrites_close (c : ArticleContent) :
    structuralClose.Rewrites (· ++ ['\n']) c.write (c.write ++ ['\n']) := by
  obtain ⟨name, inner, hname, hw, -, hinner⟩ := c.exists_element
  have hp := startsWith_structuralClose
  rw [hw]
  rcases hname with rfl | rfl
  · exact rewrites_element_ended (rewrites_openMark hp (by decide) fun _ => rfl) hinner
      (Pattern.Rewrites.of_span fun _ => rfl)
  · exact rewrites_element_ended (rewrites_openMark hp (by decide) fun _ => rfl) hinner
      (Pattern.Rewrites.of_span fun _ => rfl)

theorem rewrites_writeProse {p : Pattern} {f : Text → Text} (hp : p.StartsWith '<')
    (hfit : ∀ rest, p.span? (openMark "p".toList ++ rest) = none ∧
      p.span? (closeMark "p".toList ++ rest) = none) (ts : List PlainText) :
    p.Rewrites f (writeProse ts) (writeProse ts) :=
  Pattern.Rewrites.flatMap fun t _ => rewrites_element
    (rewrites_openMark hp (by decide) fun rest => (hfit rest).1) (rewrites_escape hp t.text)
    (rewrites_closeMark hp (by decide) fun rest => (hfit rest).2)

namespace Article

theorem rewrites_open (a : Article) : structuralOpen.Rewrites ('\n' :: ·) a.write
    ('\n' :: a.heading ++ writeProse a.paragraphs ++ '\n' :: a.content.write) := by
  have hp := startsWith_structuralOpen
  have hhead : structuralOpen.Rewrites ('\n' :: ·) a.heading ('\n' :: a.heading) :=
    rewrites_element (Pattern.Rewrites.of_span fun _ => rfl)
      (Pattern.Rewrites.of_notMem hp (a.name.notMem rfl))
      (rewrites_closeMark hp (by decide) fun _ => rfl)
  exact (hhead.append (rewrites_writeProse hp (fun _ => ⟨rfl, rfl⟩) _)).append
    a.content.rewrites_open

theorem rewrites_close (a : Article) : structuralClose.Rewrites (· ++ ['\n'])
    ('\n' :: a.heading ++ writeProse a.paragraphs ++ '\n' :: a.content.write)
    ('\n' :: (a.heading ++ ['\n']) ++ writeProse a.paragraphs ++
      '\n' :: (a.content.write ++ ['\n'])) := by
  have hp := startsWith_structuralClose
  have hnl : structuralClose.Rewrites (· ++ ['\n']) ['\n'] ['\n'] :=
    Pattern.Rewrites.of_notMem hp (by decide)
  have hhead : structuralClose.Rewrites (· ++ ['\n']) a.heading (a.heading ++ ['\n']) :=
    rewrites_element_ended (rewrites_openMark hp (by decide) fun _ => rfl)
      (Pattern.Rewrites.of_notMem hp (a.name.notMem rfl))
      (Pattern.Rewrites.of_span fun _ => rfl)
  exact ((hnl.append hhead).append (rewrites_writeProse hp (fun _ => ⟨rfl, rfl⟩) _)).append
    (hnl.append a.content.rewrites_close)

end Article

/-! ## Lines -/

/-- Markup that is all on one line is one line. -/
theorem nonblankLines_of_markup {s : Text} (hhead : s.head? = some '<')
    (hlast : s.getLast? = some '>') (hnl : '\n' ∉ s) : nonblankLines s = [s] := by
  apply nonblankLines_of_line
  · rintro rfl
    cases hhead
  · exact hnl
  · apply trim_of_ends
    · intro c hc
      rw [hhead, Option.mem_some_iff] at hc
      exact hc ▸ rfl
    · intro c hc
      rw [hlast, Option.mem_some_iff] at hc
      exact hc ▸ rfl

theorem head?_element (name x : Text) : (element name x).head? = some '<' := rfl

theorem getLast?_element (name x : Text) : (element name x).getLast? = some '>' := by
  show (openMark name ++ x ++ ('<' :: '/' :: name ++ ['>'])).getLast? = some '>'
  rw [← List.append_assoc, List.getLast?_concat]

theorem nonblankLines_element {name x : Text} (h : '\n' ∉ element name x) :
    nonblankLines (element name x) = [element name x] :=
  nonblankLines_of_markup (head?_element name x) (getLast?_element name x) h

theorem nonblankLines_writeProse (ts : List PlainText) :
    nonblankLines (writeProse ts) = if ts.isEmpty then [] else [writeProse ts] := by
  cases ts with
  | nil => rfl
  | cons t ts =>
    apply nonblankLines_of_markup
    · rfl
    · rw [writeProse, List.getLast?_flatMap]
      cases h : (t :: ts).reverse with
      | nil => simp at h
      | cons u us => rw [List.findSome?_cons, getLast?_element]
    · exact notMem_writeProse (Or.inl rfl) _

theorem ArticleContent.notMem_write {c : Char} (hc : c = '\n' ∨ c = '\r') (a : ArticleContent) :
    c ∉ a.write := by
  cases a with
  | rows rs => exact notMem_writeTable hc _
  | members first others => exact notMem_writeList hc _

theorem Article.notMem_heading {c : Char} (hc : c = '\n' ∨ c = '\r') (a : Article) :
    c ∉ a.heading := by
  refine notMem_element ?_ (a.name.notMem ?_)
  · rcases hc with rfl | rfl <;> decide
  · rcases hc with rfl | rfl <;> rfl

theorem ArticleContent.nonblankLines_write (c : ArticleContent) :
    nonblankLines c.write = [c.write] := by
  obtain ⟨name, inner, -, hw, -, -⟩ := c.exists_element
  have hnl := c.notMem_write (Or.inl rfl)
  rw [hw] at hnl ⊢
  exact nonblankLines_element hnl

/-- The lines of a regrouped article, with whatever follows it. -/
theorem Article.nonblankLines_append (a : Article) (rest : Text) :
    nonblankLines ('\n' :: (a.heading ++ ['\n']) ++ writeProse a.paragraphs ++
      '\n' :: (a.content.write ++ ['\n']) ++ rest) =
        (a.heading :: a.body) ++ nonblankLines rest := by
  have hparts : '\n' :: (a.heading ++ ['\n']) ++ writeProse a.paragraphs ++
      '\n' :: (a.content.write ++ ['\n']) ++ rest = '\n' :: (a.heading ++ '\n' ::
        (writeProse a.paragraphs ++ '\n' :: (a.content.write ++ '\n' :: rest))) := by
    simp
  have hheading : nonblankLines a.heading = [a.heading] :=
    nonblankLines_element (a.notMem_heading (Or.inl rfl))
  rw [hparts, nonblankLines_newline, Text.nonblankLines_append, Text.nonblankLines_append,
    Text.nonblankLines_append, hheading, nonblankLines_writeProse, a.content.nonblankLines_write,
    body]
  simp

/-- The lines of a written page. -/
theorem lines_writePage (as : List Article) :
    lines (writePage as) = as.flatMap fun a => a.heading :: a.body := by
  have hcr : '\r' ∉ writePage as := by
    intro h
    obtain ⟨a, -, h⟩ := List.mem_flatMap.1 h
    rcases List.mem_append.1 h with h | h
    · rcases List.mem_append.1 h with h | h
      · exact a.notMem_heading (Or.inr rfl) h
      · exact notMem_writeProse (Or.inr rfl) _ h
    · exact a.content.notMem_write (Or.inr rfl) h
  have hopen : breakOpen (writePage as) = as.flatMap fun a =>
      '\n' :: a.heading ++ writeProse a.paragraphs ++ '\n' :: a.content.write :=
    (Pattern.Rewrites.flatMap fun a _ => a.rewrites_open).substitute_eq
  have hclose : breakClose (as.flatMap fun a =>
      '\n' :: a.heading ++ writeProse a.paragraphs ++ '\n' :: a.content.write) =
        as.flatMap fun a => '\n' :: (a.heading ++ ['\n']) ++ writeProse a.paragraphs ++
          '\n' :: (a.content.write ++ ['\n']) :=
    (Pattern.Rewrites.flatMap fun a _ => a.rewrites_close).substitute_eq
  rw [lines_eq, regroup_eq, unifyLineEnds_of_notMem hcr, hopen, hclose]
  clear hcr hopen hclose
  induction as with
  | nil => rfl
  | cons a as ih => rw [List.flatMap_cons, a.nonblankLines_append, ih, List.flatMap_cons]

/-! ## Sections -/

theorem sectionName?_heading (a : Article) : sectionName? a.heading = some a.name.text := by
  have hshows : Shows a.heading ([] ++ a.name.text ++ []) :=
    ((Shows.tag (fun _ => rfl) (fun _ => rfl) (by decide)).append
      (Shows.of_notMem (a.name.notMem rfl) (a.name.notMem rfl))).append
        (Shows.tag (fun _ => rfl) (fun _ => rfl) (by decide))
  have htitle : trim (plainText a.heading) = a.name.text := by
    rw [hshows.plainText_eq, List.append_nil, List.nil_append]
    exact a.name.toPlain.plain.trim_eq
  have hopens : opensWith "h4".toList a.heading = true := rfl
  unfold sectionName?
  dsimp only
  rw [htitle, hopens, a.name.isIdentifier]
  rfl

theorem isHeading_body (a : Article) : ∀ l ∈ a.body, isHeading l = false := by
  intro l hl
  unfold Article.body at hl
  rcases List.mem_append.1 hl with hl | hl
  · cases hp : a.paragraphs with
    | nil => simp [hp] at hl
    | cons t ts =>
      rw [hp] at hl
      rw [List.mem_singleton.1 hl]
      rfl
  · rw [List.mem_singleton.1 hl]
    obtain ⟨name, inner, hname, hw, -, -⟩ := a.content.exists_element
    rw [hw]
    rcases hname with rfl | rfl <;> rfl

theorem sections_writePage (as : List Article) :
    sections (writePage as) = as.map fun a => ⟨a.name.text, a.body⟩ := by
  rw [sections, lines_writePage]
  induction as with
  | nil => rfl
  | cons a as ih =>
    have hrest : ∀ l ∈ (as.flatMap fun a => a.heading :: a.body).head?, isHeading l = true := by
      intro l hl
      cases as with
      | nil => cases hl
      | cons b bs =>
        rw [List.flatMap_cons, List.cons_append, List.head?_cons, Option.mem_some_iff] at hl
        rw [← hl]
        exact isHeading_of_sectionName? (sectionName?_heading b)
    rw [List.flatMap_cons, List.cons_append, sectionsOfLines_group _ (isHeading_body a) hrest,
      sectionName?_heading, ih]
    rfl

/-! ## Blocks -/

/-- The prose of an article is one line or none. -/
theorem ofLines_body (a : Article) : Parts.ofLines a.body =
    { Parts.ofLines [a.content.write] with
      prose := (if a.paragraphs.isEmpty then [] else [writeProse a.paragraphs]) ++
        (Parts.ofLines [a.content.write]).prose } := by
  unfold Article.body
  cases a.paragraphs with
  | nil => rfl
  | cons t ts => exact ofLines_prose rfl rfl _

theorem block_ofSection (a : Article) :
    Block.ofFragment (Fragment.ofSection ⟨a.name.text, a.body⟩) = a.block := by
  have hprose : ofPart ((if a.paragraphs.isEmpty then [] else [writeProse a.paragraphs]) ++ []) =
      writeProse a.paragraphs := by
    cases a.paragraphs with
    | nil => rfl
    | cons t ts => exact joinWith_singleton _ _
  unfold Fragment.ofSection Block.ofFragment Article.block
  rw [ofLines_body]
  cases hc : a.content with
  | rows rs =>
    have hne : [] ∉ (ArticleContent.rows rs).table := by
      intro h
      obtain ⟨r, -, hr⟩ := List.mem_map.1 h
      cases hr
    have hpart : ofPart [(ArticleContent.rows rs).write] =
        writeTable (ArticleContent.rows rs).table := joinWith_singleton _ _
    rw [ofLines_table_line rfl]
    dsimp only [Option.map_some, Option.map_none, Option.getD_some, Option.getD_none]
    rw [hprose, cleanProse_writeProse, hpart, cleanTable_writeTable hne]
    rfl
  | members first others =>
    have hpart : ofPart [(ArticleContent.members first others).write] =
        writeList ((first :: others).map Identifier.toPlain) := joinWith_singleton _ _
    rw [ofLines_list_line rfl rfl]
    dsimp only [Option.map_some, Option.map_none, Option.getD_some, Option.getD_none]
    rw [hprose, cleanProse_writeProse, hpart, cleanList_writeList, List.map_map]
    rfl

/-- A page of articles has their blocks. -/
theorem blocks_writePage (as : List Article) : blocks (writePage as) = as.map Article.block := by
  rw [blocks, fragments, sections_writePage, List.map_map, List.map_map]
  exact List.map_congr_left fun a _ => block_ofSection a

end DocTypes.Page
