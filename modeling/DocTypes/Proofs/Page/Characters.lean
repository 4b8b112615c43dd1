/-
  The characters in the lines of a block. None of its lines has a newline in it, whatever the page
  is (`newline_notMem_blocks`), and no list item a tab (`tab_notMem_list`): the cleaning cuts at
  newlines and tabs after it has decoded references. So a cell of a row is what decoding and
  collapsing make of a part of the table with its tags stripped (`exists_cell_of_mem_cleanTable`),
  and what such a part has besides spaces, tabs and newlines stands on the page, in order
  (`ink_parts_sublist`); no carriage return is among it.
-/
import Mathlib.Data.List.Flatten
import DocTypes.Page.Block
import DocTypes.Proofs.Markup.Reference
import DocTypes.Proofs.Page.Division
import DocTypes.Proofs.Text.Plain

namespace DocTypes.Page

open Text Markup

/-! ## Collapsing -/

theorem mem_collapse {c : Char} {s : Text} (h : c ∈ collapse s) :
    c = ' ' ∨ c ∈ s ∧ isGap c = false :=
  mem_squeeze ((trim_isInfix (squeeze s)).mem h)

theorem notMem_collapse {c : Char} (hc : isGap c = true) (hne : c ≠ ' ') (s : Text) :
    c ∉ collapse s := by
  intro hmem
  rcases mem_collapse hmem with heq | ⟨-, hgap⟩
  · exact hne heq
  · rw [hc] at hgap
    cases hgap

theorem tab_notMem_collapse (s : Text) : '\t' ∉ collapse s := notMem_collapse rfl (by decide) s

theorem trim_collapse (s : Text) : trim (collapse s) = collapse s := trim_trim (squeeze s)

theorem newline_notMem_collapse {s : Text} (h : '\n' ∉ s) : '\n' ∉ collapse s := by
  intro hmem
  rcases mem_collapse hmem with heq | ⟨hmem, -⟩
  · cases heq
  · exact h hmem

/-! ## Lines without newlines -/

theorem mem_of_mem_addParagraph {t l : Text} {ts : List Text} (h : l ∈ addParagraph t ts) :
    l ∈ t :: ts := by
  unfold addParagraph at h
  split at h
  · exact List.mem_cons_of_mem t h
  · exact h

theorem mem_of_mem_tidyBreaks {l : Text} {ts : List Text} (h : l ∈ tidyBreaks ts) : l ∈ ts := by
  have hfold : ∀ ts : List Text, l ∈ ts.foldr addParagraph [] → l ∈ ts := by
    intro ts
    induction ts with
    | nil => exact id
    | cons t ts ih =>
      intro h
      rcases List.mem_cons.1 (mem_of_mem_addParagraph h) with rfl | h
      · exact List.mem_cons_self
      · exact List.mem_cons_of_mem t (ih h)
  exact hfold ts ((List.dropWhile_suffix _).mem h)

section Cleaning

variable {html l : Text}

theorem newline_notMem_cleanProse (h : l ∈ cleanProse html) : '\n' ∉ l := by
  obtain ⟨piece, hpiece, rfl⟩ := List.mem_map.1 (mem_of_mem_tidyBreaks h)
  exact newline_notMem_collapse (notMem_of_mem_splitOn hpiece)

/-- A markup on one line, with a space for each line break. -/
def flatten (html : Text) : Text := replaceChar '\n' ' ' (lineBreak.replace [' '] html)

/-- The markup of a table on its way to plain text, with tabs and newlines for its shape. -/
def tableMarkup (html : Text) : Text :=
  (closeTag "tr".toList).replace ['\n']
    (cellBoundary.replace ['\t'] (flatten (tableHead.replace [] html)))

/-- The markup of a list on its way to plain text, with a newline behind each item. -/
def listMarkup (html : Text) : Text := (closeTag "li".toList).replace ['\n'] (flatten html)

/-- The cells of a row, each collapsed, with tabs between them. -/
def cleanRow (row : Text) : Text := joinWith ['\t'] ((splitOn '\t' row).map collapse)

theorem cleanTable_eq (html : Text) : cleanTable html =
    ((splitOn '\n' (plainText (tableMarkup html))).map cleanRow).filter
      fun row => !(trim row).isEmpty := rfl

theorem cleanList_eq (html : Text) : cleanList html =
    ((splitOn '\n' (plainText (listMarkup html))).map collapse).filter
      fun item => !item.isEmpty := rfl

theorem ink_flatten_sublist (html : Text) : (ink (flatten html)).Sublist (ink html) := by
  rw [flatten, ink_replaceChar]
  exact Pattern.ink_replace rfl html

theorem ink_tableMarkup_sublist (html : Text) : (ink (tableMarkup html)).Sublist (ink html) :=
  (Pattern.ink_replace rfl _).trans <| (Pattern.ink_replace rfl _).trans <|
    (ink_flatten_sublist _).trans (Pattern.ink_replace rfl html)

theorem ink_listMarkup_sublist (html : Text) : (ink (listMarkup html)).Sublist (ink html) :=
  (Pattern.ink_replace rfl _).trans (ink_flatten_sublist html)

theorem exists_row_of_mem_cleanTable (h : l ∈ cleanTable html) :
    ∃ row ∈ splitOn '\n' (plainText (tableMarkup html)), l = cleanRow row := by
  rw [cleanTable_eq] at h
  obtain ⟨row, hrow, rfl⟩ := List.mem_map.1 (List.mem_filter.1 h).1
  exact ⟨row, hrow, rfl⟩

theorem exists_item_of_mem_cleanList (h : l ∈ cleanList html) :
    ∃ item ∈ splitOn '\n' (plainText (listMarkup html)), l = collapse item := by
  rw [cleanList_eq] at h
  obtain ⟨item, hitem, rfl⟩ := List.mem_map.1 (List.mem_filter.1 h).1
  exact ⟨item, hitem, rfl⟩

theorem mem_row {c : Char} {row : Text} (h : c ∈ cleanRow row) :
    c = '\t' ∨ c = ' ' ∨ c ∈ row := by
  rcases mem_joinWith h with h | ⟨t, ht, h⟩
  · exact Or.inl (List.mem_singleton.1 h)
  · obtain ⟨cell, hcell, rfl⟩ := List.mem_map.1 ht
    exact Or.inr ((mem_collapse h).imp_right fun h => (infix_of_mem_splitOn hcell).mem h.1)

/-- The cells of a cleaned row. -/
theorem splitOn_cleanRow (row : Text) :
    splitOn '\t' (cleanRow row) = (splitOn '\t' row).map collapse := by
  refine splitOn_joinWith (by simpa using splitOn_ne_nil '\t' row) fun cell hcell => ?_
  obtain ⟨c, -, rfl⟩ := List.mem_map.1 hcell
  exact tab_notMem_collapse c

/-- A cell of a row is what decoding and collapsing make of a part of the table without tags. -/
theorem exists_cell_of_mem_cleanTable (h : l ∈ cleanTable html) {x : Text}
    (hx : x ∈ splitOn '\t' l) :
    ∃ cell, cell <:+: stripTags (tableMarkup html) ∧ x = collapse (decodeReferences cell) := by
  obtain ⟨row, hrow, rfl⟩ := exists_row_of_mem_cleanTable h
  obtain ⟨strippedRow, hstrippedRow, rfl⟩ := exists_part_of_mem_splitOn rfl hrow
  rw [splitOn_cleanRow] at hx
  obtain ⟨piece, hpiece, rfl⟩ := List.mem_map.1 hx
  obtain ⟨cell, hcell, rfl⟩ := exists_part_of_mem_splitOn rfl hpiece
  exact ⟨cell, hcell.trans hstrippedRow, rfl⟩

theorem newline_notMem_cleanTable (h : l ∈ cleanTable html) : '\n' ∉ l := by
  obtain ⟨row, hrow, rfl⟩ := exists_row_of_mem_cleanTable h
  intro hmem
  rcases mem_row hmem with heq | heq | hmem
  · cases heq
  · cases heq
  · exact notMem_of_mem_splitOn hrow hmem

theorem newline_notMem_cleanList (h : l ∈ cleanList html) : '\n' ∉ l := by
  obtain ⟨item, hitem, rfl⟩ := exists_item_of_mem_cleanList h
  exact newline_notMem_collapse (notMem_of_mem_splitOn hitem)

end Cleaning

/-! ## Blocks -/

section Blocks

variable {page l : Text} {b : Block}

/-- A row of a block comes from the table of its section. -/
theorem exists_markup_of_mem_table (hb : b ∈ blocks page) (hl : l ∈ b.table) :
    ∃ f ∈ fragments page, f.name = b.name ∧ ∃ html ∈ f.table, l ∈ cleanTable html := by
  obtain ⟨f, hf, rfl⟩ := List.mem_map.1 hb
  cases ht : f.table with
  | none => rw [Block.ofFragment, ht] at hl; cases hl
  | some html =>
    rw [Block.ofFragment, ht] at hl
    exact ⟨f, hf, rfl, html, ht, hl⟩

/-- An item of a block comes from the list of its section. -/
theorem exists_markup_of_mem_list (hb : b ∈ blocks page) (hl : l ∈ b.list) :
    ∃ html, l ∈ cleanList html := by
  obtain ⟨f, -, rfl⟩ := List.mem_map.1 hb
  cases ht : f.list with
  | none => rw [Block.ofFragment, ht] at hl; cases hl
  | some html =>
    rw [Block.ofFragment, ht] at hl
    exact ⟨html, hl⟩

/-- No line of a block has a newline in it. -/
theorem newline_notMem_blocks (hb : b ∈ blocks page) :
    ∀ l ∈ b.prose ++ (b.table ++ b.list), '\n' ∉ l := by
  intro l hl
  rcases List.mem_append.1 hl with hl | hl
  · obtain ⟨f, -, rfl⟩ := List.mem_map.1 hb
    exact newline_notMem_cleanProse hl
  · rcases List.mem_append.1 hl with hl | hl
    · obtain ⟨f, -, -, html, -, hrow⟩ := exists_markup_of_mem_table hb hl
      exact newline_notMem_cleanTable hrow
    · obtain ⟨html, hitem⟩ := exists_markup_of_mem_list hb hl
      exact newline_notMem_cleanList hitem

/-- No list item of a block has a tab in it. -/
theorem tab_notMem_list (hb : b ∈ blocks page) : ∀ l ∈ b.list, '\t' ∉ l := by
  intro l hl
  obtain ⟨html, hitem⟩ := exists_markup_of_mem_list hb hl
  obtain ⟨item, -, rfl⟩ := exists_item_of_mem_cleanList hitem
  exact tab_notMem_collapse item

end Blocks

/-! ## Where characters come from -/

theorem carriageReturn_notMem_unifyLineEnds (s : Text) : '\r' ∉ unifyLineEnds s := by
  induction s using unifyLineEnds.induct with
  | case1 => simp [unifyLineEnds]
  | case2 s ih => simpa [unifyLineEnds] using ih
  | case3 c s hne ih =>
    rw [unifyLineEnds, List.mem_cons, not_or]
    · refine ⟨?_, ih⟩
      split
      · decide
      · next hc => exact Ne.symm hc
    · exact hne

theorem ink_unifyLineEnds_sublist (s : Text) : (ink (unifyLineEnds s)).Sublist (ink s) := by
  induction s using unifyLineEnds.induct with
  | case1 => exact List.Sublist.refl _
  | case2 s ih => exact ih.cons '\r'
  | case3 c s hne ih =>
    have hstep : unifyLineEnds (c :: s) = (if c = '\r' then '\n' else c) :: unifyLineEnds s := by
      rw [unifyLineEnds]
      exact hne
    rw [hstep, ← List.singleton_append, ← List.singleton_append (l := s), ink_append, ink_append]
    refine List.Sublist.append ?_ ih
    split
    · exact List.nil_sublist _
    · exact List.Sublist.refl _

/-- Regrouping adds nothing but newlines. -/
theorem ink_regroup_sublist (page : Text) :
    (ink (regroup page)).Sublist (ink (unifyLineEnds page)) := by
  refine (Pattern.ink_substitute (fun piece => ?_) _).trans
    (Pattern.ink_substitute (fun piece => ?_) _)
  · have hpiece : ink (piece ++ ['\n']) = ink piece := by
      rw [ink_append, show ink ['\n'] = [] from rfl, List.append_nil]
    exact hpiece ▸ List.Sublist.refl _
  · exact List.Sublist.refl _

theorem Division.table_sublist {ls : List Text} (d : Division ls) : d.table.Sublist ls := by
  have h : d.table.Sublist (d.before ++ (d.table ++ (d.between ++ (d.list ++ d.after)))) :=
    (List.sublist_append_left _ _).trans (List.sublist_append_right _ _)
  rwa [← d.lines_eq] at h

theorem Division.list_sublist {ls : List Text} (d : Division ls) : d.list.Sublist ls := by
  have h : d.list.Sublist (d.before ++ (d.table ++ (d.between ++ (d.list ++ d.after)))) :=
    (((List.sublist_append_left _ _).trans (List.sublist_append_right _ _)).trans
      (List.sublist_append_right _ _)).trans (List.sublist_append_right _ _)
  rwa [← d.lines_eq] at h

theorem eq_ofPart_of_mem {html : Text} {ls : List Text} (h : html ∈ (part? ls).map ofPart) :
    html = ofPart ls := by
  unfold part? at h
  split at h
  · cases h
  · cases h
    rfl

/-- The lines of a table or a list are lines of the page, in order. -/
theorem ink_parts_sublist {page : Text} {f : Fragment} (h : f ∈ fragments page) {html : Text}
    (hhtml : html ∈ f.table ∨ html ∈ f.list) : (ink html).Sublist (ink (unifyLineEnds page)) := by
  obtain ⟨front, gs, hlines, -, hfragments⟩ : ∃ front gs, lines page = front ++ _ ∧ _ ∧
      fragments page = _ := exists_groups fun _ => countClose_le_one
  rw [hfragments] at h
  obtain ⟨g, hg, hf⟩ := List.mem_filterMap.1 h
  obtain ⟨name, -, rfl⟩ := Option.map_eq_some_iff.1 hf
  have hbody : g.body.Sublist (lines page) := by
    rw [hlines]
    refine ((List.sublist_cons_self g.heading g.body).trans ?_).trans
      (List.sublist_append_right front _)
    rw [List.flatMap_def]
    exact List.sublist_flatten_of_mem (List.mem_map_of_mem hg)
  have hpart : ∃ ls : List Text, ls.Sublist g.body ∧ html = ofPart ls := by
    rcases hhtml with hhtml | hhtml
    · exact ⟨g.division.table, g.division.table_sublist, eq_ofPart_of_mem hhtml⟩
    · exact ⟨g.division.list, g.division.list_sublist, eq_ofPart_of_mem hhtml⟩
  obtain ⟨ls, hls, rfl⟩ := hpart
  rw [ofPart, ink_joinWith_newline]
  exact (ink_sublist ((hls.trans hbody).flatten.trans
    (flatten_nonblankLines_sublist (regroup page)))).trans (ink_regroup_sublist page)

/-- The text of a cell in the table of the section `name`, with its tags stripped and its references
still in place. -/
def IsStrippedCell (page name cell : Text) : Prop :=
  ∃ f ∈ fragments page, f.name = name ∧ ∃ html ∈ f.table, cell <:+: stripTags (tableMarkup html)

namespace IsStrippedCell

variable {page name cell : Text} (h : IsStrippedCell page name cell)

include h

theorem ink_sublist : (ink cell).Sublist (ink (unifyLineEnds page)) := by
  obtain ⟨f, hf, -, html, hhtml, hcell⟩ := h
  exact (Text.ink_sublist hcell.sublist).trans <| (ink_stripTags_sublist _).trans <|
    (ink_tableMarkup_sublist html).trans (ink_parts_sublist hf (Or.inl hhtml))

/-- What stands in the cell stands on the page, in order. -/
theorem ink_sublist_page : (ink cell).Sublist page :=
  h.ink_sublist.trans ((ink_unifyLineEnds_sublist page).trans List.filter_sublist)

/-- Line ends are unified before, so a carriage return can only come from a reference. -/
theorem carriageReturn_notMem : '\r' ∉ cell := fun hmem =>
  carriageReturn_notMem_unifyLineEnds page (mem_of_mem_ink (h.ink_sublist.mem (mem_ink rfl hmem)))

end IsStrippedCell

/-- The cells of a row of a block are what decoding and collapsing make of stripped cells. -/
theorem exists_cell_of_mem_table {page : Text} {b : Block} (hb : b ∈ blocks page) {l x : Text}
    (hl : l ∈ b.table) (hx : x ∈ splitOn '\t' l) :
    ∃ cell, IsStrippedCell page b.name cell ∧ x = collapse (decodeReferences cell) := by
  obtain ⟨f, hf, hname, html, hhtml, hrow⟩ := exists_markup_of_mem_table hb hl
  obtain ⟨cell, hcell, heq⟩ := exists_cell_of_mem_cleanTable hrow hx
  exact ⟨cell, ⟨f, hf, hname, html, hhtml, hcell⟩, heq⟩

end DocTypes.Page
