/-
  Tables and lists of plain texts in any layout: names of tags in any letter case, attributes,
  spaces and newlines between the tags, and a head in front of the rows. Cleaning gives the texts
  back (`cleaned_markup`). What all its stages together make of a part of the markup does not
  depend on what follows (`Turns`), so they are followed for each kind of part once: inert parts
  show their texts, the head shows nothing, a boundary between cells becomes a tab and the end of a
  row or an item a newline. The lines put together from these are those of the cells, but for
  spaces around the texts, which collapsing removes (`eq_of_padded`).
-/
import DocTypes.Proofs.Markup.Spelling
import DocTypes.Proofs.Page.Characters
import DocTypes.Proofs.Text.Plain

namespace DocTypes.Page

open Text Markup

/-! ## The markup -/

/-- A cell with its text, which may be empty. -/
structure CellMarkup where
  before : Gap
  isHeader : Bool
  opening : OpenTag (.cell isHeader)
  lead : Gap
  text : Text
  plain : IsPlain text
  trail : Gap
  closing : CloseTag (.cell isHeader)

/-- A row of one or more cells. -/
structure RowMarkup where
  before : Gap
  opening : OpenTag .row
  first : CellMarkup
  others : List CellMarkup
  ending : Gap
  closing : CloseTag .row

/-- The head of a table, whatever its content, which its closing tag ends. -/
structure HeadMarkup where
  before : Gap
  opening : OpenTag .head
  content : Text
  unclosed : countClose "thead".toList content = 0
  closing : CloseTag .head

/-- A table with or without a head. -/
structure TableMarkup where
  opening : OpenTag .table
  head : Option HeadMarkup
  rows : List RowMarkup
  ending : Gap
  closing : CloseTag .table

/-- An item of a list. -/
structure ItemMarkup where
  before : Gap
  opening : OpenTag .item
  lead : Gap
  text : PlainText
  trail : Gap
  closing : CloseTag .item

/-- A list of items. -/
structure ListMarkup where
  opening : OpenTag .list
  items : List ItemMarkup
  ending : Gap
  closing : CloseTag .list

def CellMarkup.content (c : CellMarkup) : Text := c.lead.text ++ (escape c.text ++ c.trail.text)

def CellMarkup.markup (c : CellMarkup) : Text :=
  c.before.text ++ (c.opening.text ++ (c.content ++ c.closing.text))

def RowMarkup.cells (r : RowMarkup) : List CellMarkup := r.first :: r.others

def RowMarkup.markup (r : RowMarkup) : Text :=
  r.before.text ++ (r.opening.text ++ (r.cells.flatMap CellMarkup.markup ++
    (r.ending.text ++ r.closing.text)))

def HeadMarkup.markup (h : HeadMarkup) : Text :=
  h.before.text ++ (h.opening.text ++ (h.content ++ h.closing.text))

def TableMarkup.markup (t : TableMarkup) : Text :=
  t.opening.text ++ (t.head.elim [] HeadMarkup.markup ++ (t.rows.flatMap RowMarkup.markup ++
    (t.ending.text ++ t.closing.text)))

def ItemMarkup.content (i : ItemMarkup) : Text :=
  i.lead.text ++ (escape i.text.text ++ i.trail.text)

def ItemMarkup.markup (i : ItemMarkup) : Text :=
  i.before.text ++ (i.opening.text ++ (i.content ++ i.closing.text))

def ListMarkup.markup (l : ListMarkup) : Text :=
  l.opening.text ++ (l.items.flatMap ItemMarkup.markup ++ (l.ending.text ++ l.closing.text))

/-! ## Patterns at tags -/

variable {n : ElementName}

theorem startsWith_tableHead : tableHead.StartsWith '<' := (startsWith_anyCase _).followedBy _

theorem startsWith_cellBoundary : cellBoundary.StartsWith '<' := (startsWith_anyCase _).followedBy _

theorem asks_tableHead : tableHead.Asks ["<thead".toList] := (Pattern.asks_anyCase _).followedBy _

/-- The letter of a tag of a cell. -/
def cellLetter : Pattern := Pattern.one fun c => foldCase c == 'd' || foldCase c == 'h'

/-- The opening tag of a cell. -/
def openCell : Pattern :=
  (Pattern.anyCase ['<', 't']).followedBy (cellLetter.toTail.followedBy tagEnd)

section Cells

variable {isHeader : Bool}

theorem exists_letters (w : Spelling (.cell isHeader)) :
    ∃ a b, w.text = [a, b] ∧ foldCase a = 't' ∧ (foldCase b == 'd' || foldCase b == 'h') = true := by
  have hletters : ∃ d, w.text.map foldCase = ['t', d] ∧ (d == 'd' || d == 'h') = true := by
    cases isHeader with
    | false => exact ⟨'d', w.fold_eq, rfl⟩
    | true => exact ⟨'h', w.fold_eq, rfl⟩
  obtain ⟨d, htext, hd⟩ := hletters
  obtain ⟨a, rest, hw, ha, hrest⟩ := List.map_eq_cons_iff.1 htext
  obtain ⟨b, rest, rfl, hb, hnil⟩ := List.map_eq_cons_iff.1 hrest
  obtain rfl := List.map_eq_nil_iff.1 hnil
  exact ⟨a, b, hw, ha, by rw [hb]; exact hd⟩

/-- Behind a cell and blanks, a boundary is read if the opening tag of a cell follows. -/
theorem read_cellBoundary (t : CloseTag (.cell isHeader)) {g s : Text}
    (hg : ∀ c ∈ g, isBlank c = true) (hs : ∀ c ∈ s.head?, isBlank c = false) :
    cellBoundary.read (t.text ++ (g ++ s)) = openCell.read s := by
  obtain ⟨a, b, hname, ha, hb⟩ := exists_letters t.name
  have htext : t.text ++ (g ++ s) = '<' :: '/' :: a :: b :: '>' :: (g ++ s) := by
    simp [CloseTag.text, closeMark, hname]
  have hword : after? foldCase "</t".toList (t.text ++ (g ++ s)) = some (b :: '>' :: (g ++ s)) :=
    after?_eq_some_iff.2 ⟨['<', '/', a], htext, by simp [ha]; decide⟩
  show ((Pattern.anyCase "</t".toList).toTail.followedBy (cellLetter.toTail.followedBy
    ((Pattern.char '>').toTail.followedBy ((Tail.many isBlank).followedBy
      openCell.toTail)))).read _ = _
  rw [Tail.read_followedBy, Pattern.anyCase, Pattern.read_like, hword, Option.bind_some,
    Tail.read_followedBy, cellLetter, Pattern.read_one_cons, if_pos hb, Option.bind_some,
    Tail.read_followedBy, Pattern.char, Pattern.read_one_cons, if_pos (beq_self_eq_true '>'),
    Option.bind_some, Tail.read_followedBy, Tail.read_many, dropWhile_run hg hs, Option.bind_some]

theorem read_openCell (t : OpenTag (.cell isHeader)) (rest : Text) :
    openCell.read (t.text ++ rest) = some rest := by
  obtain ⟨a, b, hname, ha, hb⟩ := exists_letters t.name
  show ((Pattern.anyCase ['<', 't']).toTail.followedBy
    (cellLetter.toTail.followedBy tagEnd)).read _ = _
  have htext : t.text ++ rest = '<' :: a :: b :: (t.attributes ++ '>' :: rest) := by
    simp [OpenTag.text, openMark, hname]
  have hword : after? foldCase ['<', 't'] (t.text ++ rest) =
      some (b :: (t.attributes ++ '>' :: rest)) :=
    after?_eq_some_iff.2 ⟨['<', a], htext, by rw [List.map_cons, List.map_singleton, ha]; rfl⟩
  rw [Tail.read_followedBy, Pattern.anyCase, Pattern.read_like, hword, Option.bind_some,
    Tail.read_followedBy, cellLetter, Pattern.read_one_cons, if_pos hb, Option.bind_some]
  exact t.read_tagEnd rest

end Cells

theorem asks_openCell : openCell.Asks ["<t".toList] := (Pattern.asks_anyCase _).followedBy _

theorem asks_cellBoundary : cellBoundary.Asks ["</td".toList, "</th".toList] := by
  intro s h
  rw [← Pattern.read_eq_none_iff]
  show ((Pattern.anyCase "</t".toList).toTail.followedBy (cellLetter.toTail.followedBy _)).read s = _
  rw [Tail.read_followedBy, Pattern.anyCase, Pattern.read_like, Option.bind_eq_none_iff]
  intro r hr
  obtain ⟨u, rfl, hu⟩ := after?_eq_some_iff.1 hr
  cases r with
  | nil => rfl
  | cons c r =>
    have hword : ∀ d, foldCase c = d → after? foldCase ("</t".toList ++ [d]) (u ++ c :: r) = some r :=
      fun d hd => after?_eq_some_iff.2 ⟨u ++ [c], by simp, by rw [List.map_append, hu, ← hd]; rfl⟩
    rw [Tail.read_followedBy, cellLetter, Pattern.read_one_cons, if_neg, Option.bind_none]
    rw [Bool.or_eq_true, beq_iff_eq, beq_iff_eq]
    rintro (hd | hd)
    · cases (hword 'd' hd).symm.trans (h "</td".toList (by simp))
    · cases (hword 'h' hd).symm.trans (h "</th".toList (by simp))

/-- A header cell is told from the head of a table by what stands behind its name. -/
theorem span?_headerCell (o : OpenTag (.cell true)) (rest : Text) :
    tableHead.span? (o.text ++ rest) = none := by
  obtain ⟨c, more, htext, hc⟩ := o.exists_behind_name rest
  have hne : c ≠ 'e' := by
    rintro rfl
    exact absurd hc (by decide)
  have hfold : foldCase c = c := by
    rcases hc with hc | rfl
    · exact foldCase_of_blank hc
    · rfl
  refine asks_tableHead.span?_eq_none (v := "<th".toList ++ [c]) ⟨more.map foldCase, ?_⟩ ?_
  · rw [htext, List.map_cons, List.map_append, List.map_cons, o.name.fold_eq, hfold]
    rfl
  · simp [comparable, List.isPrefixOf, hne]

/-- No tag opens with the name of a head but its own. -/
theorem span?_tableHead (o : OpenTag n) (hn : n ≠ .head) (rest : Text) :
    tableHead.span? (o.text ++ rest) = none := by
  rcases n with _ | _ | _ | (_ | _) | _ | _
  case head => exact absurd rfl hn
  case cell.true => exact span?_headerCell o rest
  all_goals exact o.span?_eq_none asks_tableHead (by decide) rest

theorem span?_tableHead_closeTag (t : CloseTag n) (rest : Text) :
    tableHead.span? (t.text ++ rest) = none := by
  refine t.span?_eq_none asks_tableHead ?_ rest
  rcases n with _ | _ | _ | (_ | _) | _ | _ <;> decide

theorem skips_tableHead : Skips tableHead :=
  ⟨startsWith_tableHead, fun o rest h => span?_tableHead o h rest,
    fun t rest _ => span?_tableHead_closeTag t rest⟩

theorem skips_cellBoundary : Skips cellBoundary where
  startsWith := startsWith_cellBoundary
  openTag {n} o rest _ := by
    refine o.span?_eq_none asks_cellBoundary ?_ rest
    rcases n with _ | _ | _ | (_ | _) | _ | _ <;> decide
  closeTag t rest h := by
    refine t.span?_eq_none asks_cellBoundary ?_ rest
    rcases h with rfl | rfl <;> decide

theorem skips_closeRow : Skips (closeTag ElementName.row.text) := skips_closeTag nofun nofun

theorem skips_closeItem : Skips (closeTag ElementName.item.text) := skips_closeTag nofun nofun

/-! ## What becomes of the parts of a table -/

/-- What a table shows, with tabs between cells and newlines behind rows. -/
abbrev tableText (html : Text) : Text := plainText (tableMarkup html)

/-- The stages of the cleaning, one after the other. -/
theorem turns_tableText {a a' b b' t : Text} (hhead : tableHead.Rewrites (fun _ => []) a a')
    (hbreak : lineBreak.Rewrites (fun _ => [' ']) a' a')
    (hcells : cellBoundary.Rewrites (fun _ => ['\t']) (replaceChar '\n' ' ' a') b)
    (hrows : (closeTag ElementName.row.text).Rewrites (fun _ => ['\n']) b b')
    (hshows : Shows b' t) : Turns tableText a t :=
  hhead.turns.comp <| hbreak.turns.comp <| (Turns.replaceChar '\n' ' ' a').comp <|
    hcells.turns.comp <| hrows.turns.comp hshows.turns

theorem tableText_nil : tableText [] = [] := by
  simp [tableMarkup, flatten, plainText, stripTags, decodeReferences, Pattern.replace,
    Pattern.substitute_nil, replaceChar]

/-- Inert parts show their texts. -/
theorem turns_of_inert {a t : Text} (h : Inert a t) : Turns tableText a t :=
  turns_tableText (h.rewrites skips_tableHead) (h.rewrites skips_lineBreak)
    (h.rewrites_line skips_cellBoundary) (h.rewrites_line skips_closeRow) h.shows

/-- The head is removed. -/
theorem turns_head (h : HeadMarkup) : Turns tableText h.markup h.before.flat := by
  have hread : ∀ rest, tableHead.read
      (h.opening.text ++ (h.content ++ h.closing.text) ++ rest) = some rest := by
    intro rest
    show ((Pattern.anyCase ('<' :: ElementName.head.text)).toTail.followedBy (throughClose.followedBy
      (Tail.through (closeTag ElementName.head.text).toTail))).read _ = _
    rw [List.append_assoc, List.append_assoc, Tail.read_followedBy, Pattern.anyCase,
      Pattern.read_like, h.opening.after?_name, Option.bind_some, Tail.read_followedBy,
      throughClose, Tail.read_through_char h.opening.gt_notMem, Option.bind_some]
    exact h.closing.read_through h.unclosed rest
  have hremoved : Turns tableText (h.opening.text ++ (h.content ++ h.closing.text)) [] :=
    turns_tableText (.of_span fun rest => Pattern.span?_of_read (hread rest)) (.nil _ _) (.nil _ _)
      (.nil _ _) Shows.nil
  have := (turns_of_inert (inert_gap h.before)).append hremoved
  rwa [List.append_nil] at this

section CellEnds

variable {isHeader isHeader' : Bool} (t : CloseTag (.cell isHeader)) (g : Gap)

/-- The end of a cell and a gap stay where the pattern does not fit. -/
theorem rewrites_cellEnd {p : Pattern} {f : Text → Text} {gap x y : Text} (hp : p.StartsWith '<')
    (ht : ∀ rest, p.span? (t.text ++ rest) = none) (hgap : '<' ∉ gap) (hx : p.Rewrites f x y) :
    p.Rewrites f (t.text ++ (gap ++ x)) (t.text ++ (gap ++ y)) :=
  (t.rewrites hp ht).append ((Pattern.Rewrites.of_notMem hp hgap).append hx)

theorem replace_newline_cellEnd {x y : Text} (h : replaceChar '\n' ' ' x = y) :
    replaceChar '\n' ' ' (t.text ++ (g.text ++ x)) = t.text ++ (g.flat ++ y) := by
  rw [replaceChar_append, replaceChar_append, t.replace_newline, h]
  rfl

/-- The end of a cell, a gap and the next cell's start become a tab. -/
theorem turns_boundary (o : OpenTag (.cell isHeader')) :
    Turns tableText (t.text ++ (g.text ++ o.text)) ['\t'] := by
  have hread : ∀ rest, cellBoundary.read
      (t.text ++ (g.flat ++ o.flat.text) ++ rest) = some rest := by
    intro rest
    rw [List.append_assoc, List.append_assoc,
      read_cellBoundary t (fun _ => g.isBlank_of_mem_flat) (by rintro _ ⟨⟩; rfl)]
    exact read_openCell o.flat rest
  have hopen : Inert o.text [] := inert_openTag o nofun
  refine turns_tableText
    (rewrites_cellEnd t startsWith_tableHead (span?_tableHead_closeTag t) g.lt_notMem
      (hopen.rewrites skips_tableHead))
    (rewrites_cellEnd t startsWith_lineBreak t.span?_lineBreak g.lt_notMem
      (hopen.rewrites skips_lineBreak)) ?_
    (.of_notMem (startsWith_closeTag _) (show '<' ∉ ['\t'] by decide))
    (Shows.of_notMem (by decide) (by decide))
  rw [replace_newline_cellEnd t g o.replace_newline]
  exact .of_span fun rest => Pattern.span?_of_read (hread rest)

/-- The end of the last cell, a gap and the end of the row become the gap and a newline. -/
theorem turns_rowEnd (u : CloseTag .row) :
    Turns tableText (t.text ++ (g.text ++ u.text)) (g.flat ++ ['\n']) := by
  -- behind the last cell no cell follows
  have hnone : ∀ rest, cellBoundary.span? (t.text ++ (g.flat ++ u.text) ++ rest) = none := by
    intro rest
    rw [← Pattern.read_eq_none_iff, List.append_assoc, List.append_assoc,
      read_cellBoundary t (fun _ => g.isBlank_of_mem_flat) (by rintro _ ⟨⟩; rfl),
      Pattern.read_eq_none_iff]
    exact u.span?_eq_none asks_openCell (by decide) rest
  have hcells : cellBoundary.Rewrites (fun _ => ['\t']) (t.text ++ (g.flat ++ u.text))
      (t.text ++ (g.flat ++ u.text)) := by
    have hname : '<' ∉ '/' :: t.name.text ++ ['>'] := by simpa using t.name.notMem rfl
    refine .cons_of_none hnone ((Pattern.Rewrites.of_notMem startsWith_cellBoundary hname).append
      ((Pattern.Rewrites.of_notMem startsWith_cellBoundary g.lt_notMem_flat).append ?_))
    exact u.rewrites startsWith_cellBoundary (u.span?_eq_none asks_cellBoundary (by decide))
  refine turns_tableText
    (rewrites_cellEnd t startsWith_tableHead (span?_tableHead_closeTag t) g.lt_notMem
      (u.rewrites startsWith_tableHead (span?_tableHead_closeTag u)))
    (rewrites_cellEnd t startsWith_lineBreak t.span?_lineBreak g.lt_notMem
      (u.rewrites startsWith_lineBreak u.span?_lineBreak)) ?_
    (rewrites_cellEnd t (startsWith_closeTag _) (span?_closeTag t nofun) g.lt_notMem_flat
      (.of_span fun rest => Pattern.span?_of_read (u.read_text rest)))
    (t.shows.append (g.shows_flat.append (Shows.of_notMem (by decide) (by decide))))
  rw [replace_newline_cellEnd t g u.replace_newline]
  exact hcells

end CellEnds

/-! ## Rows and tables -/

/-- What a cell shows. -/
def CellMarkup.shown (c : CellMarkup) : Text := c.lead.flat ++ (c.text ++ c.trail.flat)

theorem inert_content (c : CellMarkup) : Inert c.content c.shown :=
  (inert_gap c.lead).append ((inert_escape (c.plain.notMem rfl (by decide))).append
    (inert_gap c.trail))

/-- Each cell behind another shows behind a tab. -/
theorem turns_others {isHeader : Bool} (t : CloseTag (.cell isHeader)) (cs : List CellMarkup)
    (g : Gap) (u : CloseTag .row) :
    Turns tableText (t.text ++ (cs.flatMap CellMarkup.markup ++ (g.text ++ u.text)))
      ((cs.flatMap fun c => ['\t'] ++ c.shown) ++ (g.flat ++ ['\n'])) := by
  induction cs generalizing isHeader with
  | nil => exact turns_rowEnd t g u
  | cons c cs ih =>
    have h := (turns_boundary t c.before c.opening).append
      ((turns_of_inert (inert_content c)).append (ih c.closing))
    simpa only [List.flatMap_cons, CellMarkup.markup, List.append_assoc] using h

/-- What a row shows, but for the newline behind it. -/
def RowMarkup.shown (r : RowMarkup) : Text :=
  r.before.flat ++ (r.first.before.flat ++ (joinWith ['\t'] (r.cells.map CellMarkup.shown) ++
    r.ending.flat))

theorem turns_row (r : RowMarkup) : Turns tableText r.markup (r.shown ++ ['\n']) := by
  have hstart := (inert_gap r.before).append ((inert_openTag r.opening nofun).append
    ((inert_gap r.first.before).append ((inert_openTag r.first.opening nofun).append
      (inert_content r.first))))
  have h := (turns_of_inert hstart).append
    (turns_others r.first.closing r.others r.ending r.closing)
  have hcells : joinWith ['\t'] (r.cells.map CellMarkup.shown) =
      r.first.shown ++ r.others.flatMap fun c => ['\t'] ++ c.shown := by
    rw [RowMarkup.cells, List.map_cons, joinWith_cons, List.flatMap_map]
  rw [RowMarkup.shown, hcells]
  simpa only [RowMarkup.markup, RowMarkup.cells, List.flatMap_cons, CellMarkup.markup,
    List.append_assoc, List.nil_append] using h

/-- The gap that stays of the head. -/
def TableMarkup.front (t : TableMarkup) : Text := t.head.elim [] fun h => h.before.flat

theorem turns_table (t : TableMarkup) : Turns tableText t.markup
    (t.front ++ ((t.rows.flatMap fun r => r.shown ++ ['\n']) ++ t.ending.flat)) := by
  have hhead : Turns tableText (t.head.elim [] HeadMarkup.markup) t.front := by
    unfold TableMarkup.front
    cases t.head with
    | none => exact .nil _
    | some h => exact turns_head h
  have hrows : Turns tableText (t.rows.flatMap RowMarkup.markup)
      (t.rows.flatMap fun r => r.shown ++ ['\n']) := .flatMap fun r _ => turns_row r
  have h := (turns_of_inert (inert_openTag t.opening nofun)).append (hhead.append (hrows.append
    (turns_of_inert ((inert_gap t.ending).append (inert_closeTag t.closing (Or.inl rfl))))))
  simpa only [TableMarkup.markup, List.append_nil, List.nil_append] using h

/-! ## Rows without the spaces around their texts -/

theorem cleanRow_cons_space (row : Text) : cleanRow (' ' :: row) = cleanRow row := by
  rw [cleanRow, cleanRow, map_splitOn_cons (by decide) collapse_cons_space]

theorem cleanRow_concat_space (row : Text) : cleanRow (row ++ [' ']) = cleanRow row := by
  rw [cleanRow, cleanRow, map_splitOn_concat (by decide) collapse_concat_space]

/-- The texts of the cells, with tabs between them. -/
def RowMarkup.line (r : RowMarkup) : Text := joinWith ['\t'] (r.cells.map CellMarkup.text)

theorem CellMarkup.notMem_shown (c : CellMarkup) {d : Char} (hd : isBlank d = true)
    (hs : d ≠ ' ') : d ∉ c.shown := by
  simp only [shown, List.mem_append, not_or]
  exact ⟨c.lead.notMem_flat hs, c.plain.notMem hd hs, c.trail.notMem_flat hs⟩

theorem cleanRow_shown (r : RowMarkup) : cleanRow r.shown = r.line := by
  have hcells : splitOn '\t' (joinWith ['\t'] (r.cells.map CellMarkup.shown)) =
      r.cells.map CellMarkup.shown := by
    refine splitOn_joinWith (by simp [RowMarkup.cells]) fun t ht => ?_
    obtain ⟨c, -, rfl⟩ := List.mem_map.1 ht
    exact c.notMem_shown rfl (by decide)
  have hcollapse : ∀ c ∈ r.cells, (collapse ∘ CellMarkup.shown) c = c.text := fun c _ =>
    c.plain.collapse_padded (fun _ => c.lead.eq_space_of_mem) fun _ => c.trail.eq_space_of_mem
  have hfront : ∀ c ∈ r.before.flat ++ r.first.before.flat, c = ' ' := fun c hc =>
    (List.mem_append.1 hc).elim r.before.eq_space_of_mem r.first.before.eq_space_of_mem
  rw [RowMarkup.shown, ← List.append_assoc, eq_of_padded cleanRow_cons_space cleanRow_concat_space
    hfront fun _ => r.ending.eq_space_of_mem, cleanRow, hcells, List.map_map,
    List.map_congr_left hcollapse, RowMarkup.line]

theorem newline_notMem_shown (r : RowMarkup) : '\n' ∉ r.shown := by
  have hcells : '\n' ∉ joinWith ['\t'] (r.cells.map CellMarkup.shown) := by
    intro h
    rcases mem_joinWith h with h | ⟨t, ht, h⟩
    · revert h
      decide
    · obtain ⟨c, -, rfl⟩ := List.mem_map.1 ht
      exact c.notMem_shown rfl (by decide) h
  simp only [RowMarkup.shown, List.mem_append, not_or]
  exact ⟨r.before.notMem_flat (by decide), r.first.before.notMem_flat (by decide), hcells,
    r.ending.notMem_flat (by decide)⟩

/-- A row is blank exactly if all of its cells are empty. -/
theorem isEmpty_trim_line (r : RowMarkup) :
    (!(trim r.line).isEmpty) = r.cells.any fun c => !c.text.isEmpty := by
  rw [Bool.eq_iff_iff, Bool.not_eq_true', List.isEmpty_eq_false_iff, List.any_eq_true]
  constructor
  · intro hne
    by_contra hnone
    refine hne (trim_eq_nil_iff.2 fun d hd => ?_)
    rcases mem_joinWith hd with hd | ⟨t, ht, hd⟩
    · rw [List.mem_singleton.1 hd]
      rfl
    · obtain ⟨c, hc, rfl⟩ := List.mem_map.1 ht
      exact absurd ⟨c, hc, by simpa using List.ne_nil_of_mem hd⟩ hnone
  · rintro ⟨c, hc, hfilled⟩ hnil
    obtain ⟨d, s, htext⟩ := List.exists_cons_of_ne_nil
      (show c.text ≠ [] by simpa using hfilled)
    have hd : d ∈ c.text := htext ▸ List.mem_cons_self
    have hblank := trim_eq_nil_iff.1 hnil d
      (mem_joinWith_of_mem ['\t'] (List.mem_map_of_mem hc) hd)
    rw [c.plain.isBlank_head d (by rw [htext]; rfl)] at hblank
    cases hblank

/-- The rows come back, but for those without a filled cell. -/
theorem cleanTable_markup (t : TableMarkup) : cleanTable t.markup =
    (t.rows.filter fun r => r.cells.any fun c => !c.text.isEmpty).map RowMarkup.line := by
  have hfront : ∀ c ∈ t.front, c = ' ' := by
    unfold TableMarkup.front
    cases t.head with
    | none => simp
    | some h => exact fun c => h.before.eq_space_of_mem
  have hrest : cleanRow [] = [] := by
    show joinWith ['\t'] [collapse []] = []
    rw [isPlain_nil.collapse_eq, joinWith_singleton]
  have hrows : (splitOn '\n' (tableText t.markup)).map cleanRow =
      t.rows.map RowMarkup.line ++ [[]] := by
    rw [(turns_table t).eq tableText_nil, map_splitOn_padded cleanRow_cons_space
      cleanRow_concat_space hfront (fun _ => t.ending.eq_space_of_mem)
      fun r _ => newline_notMem_shown r, List.map_congr_left fun r _ => cleanRow_shown r, hrest]
  calc cleanTable t.markup
      = ((splitOn '\n' (tableText t.markup)).map cleanRow).filter
          fun row => !(trim row).isEmpty := cleanTable_eq t.markup
    _ = (t.rows.map RowMarkup.line).filter fun row => !(trim row).isEmpty := by
        rw [hrows, List.filter_append]
        exact List.append_nil _
    _ = (t.rows.filter fun r => r.cells.any fun c => !c.text.isEmpty).map RowMarkup.line := by
        rw [List.filter_map]
        exact congrArg (List.map _) (List.filter_congr fun r _ => isEmpty_trim_line r)

/-! ## Lists -/

/-- What a list shows, with newlines behind items. -/
abbrev listText (html : Text) : Text := plainText (listMarkup html)

theorem turns_listText {a b t : Text} (hbreak : lineBreak.Rewrites (fun _ => [' ']) a a)
    (hitems : (closeTag ElementName.item.text).Rewrites (fun _ => ['\n']) (replaceChar '\n' ' ' a) b)
    (hshows : Shows b t) : Turns listText a t :=
  hbreak.turns.comp <| (Turns.replaceChar '\n' ' ' a).comp <| hitems.turns.comp hshows.turns

theorem listText_nil : listText [] = [] := by
  simp [listMarkup, flatten, plainText, stripTags, decodeReferences, Pattern.replace,
    Pattern.substitute_nil, replaceChar]

theorem turns_listText_of_inert {a t : Text} (h : Inert a t) : Turns listText a t :=
  turns_listText (h.rewrites skips_lineBreak) (h.rewrites_line skips_closeItem) h.shows

/-- What an item shows, but for the newline behind it. -/
def ItemMarkup.shown (i : ItemMarkup) : Text :=
  i.before.flat ++ i.lead.flat ++ (i.text.text ++ i.trail.flat)

theorem turns_item (i : ItemMarkup) : Turns listText i.markup (i.shown ++ ['\n']) := by
  have hstart := (inert_gap i.before).append ((inert_openTag i.opening nofun).append
    ((inert_gap i.lead).append ((inert_escape (i.text.plain.notMem rfl (by decide))).append
      (inert_gap i.trail))))
  have hclose : Turns listText i.closing.text ['\n'] := by
    refine turns_listText (i.closing.rewrites startsWith_lineBreak i.closing.span?_lineBreak) ?_
      (Shows.of_notMem (show '<' ∉ ['\n'] by decide) (by decide))
    rw [i.closing.replace_newline]
    exact .of_span fun rest => Pattern.span?_of_read (i.closing.read_text rest)
  have h := (turns_listText_of_inert hstart).append hclose
  simpa only [ItemMarkup.markup, ItemMarkup.content, ItemMarkup.shown, List.append_assoc,
    List.nil_append] using h

theorem turns_list (l : ListMarkup) : Turns listText l.markup
    ([] ++ ((l.items.flatMap fun i => i.shown ++ ['\n']) ++ l.ending.flat)) := by
  have hitems : Turns listText (l.items.flatMap ItemMarkup.markup)
      (l.items.flatMap fun i => i.shown ++ ['\n']) := .flatMap fun i _ => turns_item i
  have h := (turns_listText_of_inert (inert_openTag l.opening nofun)).append (hitems.append
    (turns_listText_of_inert ((inert_gap l.ending).append
      (inert_closeTag l.closing (Or.inr rfl)))))
  simpa only [ListMarkup.markup, List.append_nil, List.nil_append] using h

theorem collapse_shown (i : ItemMarkup) : collapse i.shown = i.text.text :=
  i.text.plain.collapse_padded
    (fun _ hc => (List.mem_append.1 hc).elim i.before.eq_space_of_mem i.lead.eq_space_of_mem)
    fun _ => i.trail.eq_space_of_mem

theorem newline_notMem_shown_item (i : ItemMarkup) : '\n' ∉ i.shown := by
  simp only [ItemMarkup.shown, List.mem_append, not_or]
  exact ⟨⟨i.before.notMem_flat (by decide), i.lead.notMem_flat (by decide)⟩,
    i.text.plain.notMem rfl (by decide), i.trail.notMem_flat (by decide)⟩

/-- The items come back. -/
theorem cleanList_markup (l : ListMarkup) :
    cleanList l.markup = l.items.map fun i => i.text.text := by
  have hitems : (splitOn '\n' (listText l.markup)).map collapse =
      (l.items.map fun i => i.text.text) ++ [[]] := by
    rw [(turns_list l).eq listText_nil, map_splitOn_padded collapse_cons_space
      collapse_concat_space (by simp) (fun _ => l.ending.eq_space_of_mem)
      fun i _ => newline_notMem_shown_item i, List.map_congr_left fun i _ => collapse_shown i,
      isPlain_nil.collapse_eq]
  calc cleanList l.markup
      = ((splitOn '\n' (listText l.markup)).map collapse).filter
          fun item => !item.isEmpty := cleanList_eq l.markup
    _ = (l.items.map fun i => i.text.text).filter fun item => !item.isEmpty := by
        rw [hitems, List.filter_append]
        exact List.append_nil _
    _ = l.items.map fun i => i.text.text := by
        refine List.filter_eq_self.2 fun item hitem => ?_
        obtain ⟨i, -, rfl⟩ := List.mem_map.1 hitem
        simpa using i.text.ne_nil

/-- **Main theorem.** Whatever the letter case and the attributes of the tags, the gaps between
them and the head of the table: of a table come the rows that have a filled cell, in order, each as
the texts of all its cells with tabs between them, and of a list come the items in order. -/
theorem cleaned_markup (t : TableMarkup) (l : ListMarkup) :
    cleanTable t.markup = (t.rows.filter fun r => r.cells.any fun c => !c.text.isEmpty).map
        (fun r => joinWith ['\t'] (r.cells.map CellMarkup.text)) ∧
      cleanList l.markup = l.items.map fun i => i.text.text :=
  ⟨cleanTable_markup t, cleanList_markup l⟩

/-- A table with attributes, a head, letters of both cases, an empty cell and an empty row, and a
list with spaces around an item. -/
theorem cleaned_markup_mixed :
    let head : HeadMarkup :=
      { before := ⟨"\n".toList, by decide⟩
        opening := ⟨⟨"tHead".toList, rfl⟩, "\nid=\"h\"".toList, by decide, by decide, by decide⟩
        content := "<tr><th>Name</th></tr>".toList
        unclosed := by decide
        closing := ⟨⟨"THEAD".toList, rfl⟩⟩ }
    let name : CellMarkup :=
      { before := ⟨"\n  ".toList, by decide⟩
        isHeader := true
        opening := ⟨⟨"Th".toList, rfl⟩, " scope=row".toList, by decide, by decide, by decide⟩
        lead := ⟨" ".toList, by decide⟩
        text := "a & b".toList
        plain := by decide
        trail := ⟨"\n".toList, by decide⟩
        closing := ⟨⟨"tH".toList, rfl⟩⟩ }
    let blank : CellMarkup :=
      { before := .empty
        isHeader := false
        opening := .bare _
        lead := ⟨" ".toList, by decide⟩
        text := []
        plain := by decide
        trail := .empty
        closing := ⟨⟨"TD".toList, rfl⟩⟩ }
    let row (first : CellMarkup) (others : List CellMarkup) : RowMarkup :=
      { before := ⟨"\n".toList, by decide⟩
        opening := ⟨⟨"TR".toList, rfl⟩, [], by decide, by decide, by decide⟩
        first := first
        others := others
        ending := .empty
        closing := .bare _ }
    let t : TableMarkup :=
      { opening := ⟨.lower _, " class=\"t\"".toList, by decide, by decide, by decide⟩
        head := some head
        rows := [row name [blank], row blank []]
        ending := ⟨"\n".toList, by decide⟩
        closing := ⟨⟨"Table".toList, rfl⟩⟩ }
    let l : ListMarkup :=
      { opening := .bare _
        items := [{
          before := ⟨"\n".toList, by decide⟩
          opening := ⟨⟨"LI".toList, rfl⟩, " x".toList, by decide, by decide, by decide⟩
          lead := ⟨" ".toList, by decide⟩
          text := ⟨"c < d".toList, by decide, by decide⟩
          trail := ⟨" ".toList, by decide⟩
          closing := .bare _ }]
        ending := .empty
        closing := ⟨⟨"UL".toList, rfl⟩⟩ }
    t.markup = ("<table class=\"t\">\n<tHead\nid=\"h\"><tr><th>Name</th></tr></THEAD>\n<TR>\n  " ++
        "<Th scope=row> a &amp; b\n</tH><td> </TD></tr>\n<TR><td> </TD></tr>\n</Table>").toList ∧
      cleanTable t.markup = ["a & b\t".toList] ∧
      l.markup = "<ul>\n<LI x> c &lt; d </li></UL>".toList ∧
      cleanList l.markup = ["c < d".toList] := by
  intro head name blank row t l
  obtain ⟨htable, hlist⟩ := cleaned_markup t l
  exact ⟨by decide +kernel, htable.trans (by decide +kernel), by decide +kernel,
    hlist.trans (by decide +kernel)⟩

end DocTypes.Page
