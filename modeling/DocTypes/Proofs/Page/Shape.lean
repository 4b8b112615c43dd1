/-
  What decides the shape of a table and of a list. Rows, columns and items are written into the
  text as newlines and tabs, so whatever else shows as one of these changes the shape. In markup
  whose tags are whole, the rows and items are bounded by the closing tags and the columns by the
  boundaries between cells, but for the characters that references denote and, among the tabs, for
  those that stand between the tags (`shape_of_tags`). Line breaks and newlines of the markup are
  not counted: they never split a row or an item. The exceptions are real ones
  (`shape_changed_by_text`).
-/
import DocTypes.Proofs.Markup.Whole
import DocTypes.Proofs.Page.Characters
import DocTypes.Proofs.Page.Table

namespace DocTypes.Page

open Text Markup

/-! ## The tags of tables and lists -/

/-- The closing tag of a cell. -/
def closeCell : Pattern :=
  (Pattern.anyCase ['<', '/', 't']).followedBy
    (cellLetter.toTail.followedBy (Pattern.char '>').toTail)

/-- A cell boundary is a closing tag, blanks and an opening tag. -/
theorem cellBoundary_eq : cellBoundary = closeCell.spaced openCell := by
  refine Pattern.eq_of_toTail ?_
  show _ = ((Pattern.anyCase ['<', '/', 't']).toTail.followedBy
    (cellLetter.toTail.followedBy (Pattern.char '>').toTail)).followedBy _
  rw [Tail.followedBy_assoc, Tail.followedBy_assoc]
  rfl

theorem readsTag_closeTag (name : Text) (h : '>' ∉ name) : (closeTag name).ReadsTag :=
  ⟨startsWith_closeTag name, decidedBy_closeTag h⟩

theorem readsTags_closeTag (name : Text) (h : '>' ∉ name) : (closeTag name).ReadsTags :=
  ⟨startsWith_closeTag name, (endsAt_closeTag h).endsWith⟩

theorem readsTag_lineBreak : lineBreak.ReadsTag := ⟨startsWith_lineBreak, decidedBy_lineBreak⟩

theorem readsTags_lineBreak : lineBreak.ReadsTags :=
  ⟨startsWith_lineBreak, endsAt_lineBreak.endsWith⟩

theorem readsTags_tableHead : tableHead.ReadsTags :=
  ⟨startsWith_tableHead, .followedBy _ <| .followedBy _ <|
    (endsAt_closeTag (by decide)).endsWith.through⟩

theorem readsTags_cellBoundary : cellBoundary.ReadsTags :=
  ⟨startsWith_cellBoundary, .followedBy _ <| .followedBy _ <| .followedBy _ <| .followedBy _ <|
    .followedBy _ <| .followedBy _ endsAt_tagEnd.endsWith⟩

theorem readsTag_closeCell : closeCell.ReadsTag :=
  ⟨(startsWith_anyCase _).followedBy _,
    (Tail.decidedBy_like _ (by decide)).followedBy (Tail.avoids_like _ (by decide)) <|
      (Tail.decidedBy_one '>').followedBy (Tail.avoids_one rfl) (Tail.decidedBy_one '>')⟩

theorem endsAt_closeCell : closeCell.EndsAt '>' :=
  Tail.EndsAt.followedBy (Tail.avoids_like _ (by decide)) <|
    Tail.EndsAt.followedBy (Tail.avoids_one rfl) (Tail.endsAt_char '>')

theorem readsTag_openCell : openCell.ReadsTag :=
  ⟨(startsWith_anyCase _).followedBy _,
    (Tail.decidedBy_like _ (by decide)).followedBy (Tail.avoids_like _ (by decide)) <|
      (Tail.decidedBy_one '>').followedBy (Tail.avoids_one rfl) decidedBy_tagEnd⟩

/-! A newline in a tag is a blank as good as a space. -/

theorem lineBlind_closeTag (name : Text) (hnl : '\n' ∉ name) (hsp : ' ' ∉ name) :
    (closeTag name).LineBlind :=
  Tail.lineBlind_like (by simp) (by simpa [show foldCase '\n' = '\n' from rfl] using hnl)
    (by simpa [show foldCase ' ' = ' ' from rfl] using hsp)

theorem lineBlind_throughClose : throughClose.LineBlind := (Tail.lineBlind_one rfl).through

theorem lineBlind_anyTag : anyTag.LineBlind :=
  (Tail.lineBlind_one rfl).followedBy lineBlind_throughClose

theorem lineBlind_lineBreak : lineBreak.LineBlind :=
  (Tail.lineBlind_like _ (by decide) (by decide)).followedBy <|
    (Tail.lineBlind_many rfl).followedBy <|
      (Tail.lineBlind_one rfl).optional.followedBy (Tail.lineBlind_one rfl)

theorem lineBlind_cellBoundary : cellBoundary.LineBlind := by
  have hletter : cellLetter.LineBlind := Tail.lineBlind_one rfl
  have hend : tagEnd.LineBlind := (Tail.lineBlind_one rfl).or
    ((Tail.lineBlind_one rfl).followedBy lineBlind_throughClose)
  exact (Tail.lineBlind_like _ (by decide) (by decide)).followedBy <| hletter.followedBy <|
    (Tail.lineBlind_one rfl).followedBy <| (Tail.lineBlind_many rfl).followedBy <|
      (Tail.lineBlind_like _ (by decide) (by decide)).followedBy <| hletter.followedBy hend

/-- Closing tags are counted alike, where no other character folds onto a letter of the name. -/
theorem count_closeTag_le (name : Text) (hs : 's' ∉ name) (hk : 'k' ∉ name) (s : Text) :
    (closeTag name).count s ≤ countClose name s := by
  induction s with
  | nil => exact Nat.le_refl _
  | cons c s ih =>
    rw [Pattern.count, countClose]
    by_cases hplace : ((closeTag name).span? (c :: s)).isSome
    · have hfold : (after? foldCase ('<' :: '/' :: name ++ ['>']) (c :: s)).isSome := by
        have : ((after? foldCase ('<' :: '/' :: name ++ ['>']) (c :: s)).map _).isSome := hplace
        rwa [Option.isSome_map] at this
      rw [if_pos hplace, if_pos (after?_toLower (by simp [hs]) (by simp [hk]) hfold)]
      exact Nat.add_le_add_left ih 1
    · rw [if_neg hplace, Nat.zero_add]
      exact Nat.le_trans ih (Nat.le_add_left _ _)

/-! ## Flattened markup -/

theorem newline_notMem_flatten (html : Text) : '\n' ∉ flatten html := by
  intro h
  obtain ⟨c, -, hc⟩ := List.mem_map.1 h
  split at hc
  · cases hc
  · next hne => exact hne hc

/-- A newline is in front of the same tags as a space. -/
theorem mem_takeWhile_of_replaceChar {s : Text}
    (h : '<' ∈ (replaceChar '\n' ' ' s).takeWhile (· != '>')) : '<' ∈ s.takeWhile (· != '>') := by
  induction s with
  | nil => exact h
  | cons c s ih =>
    rw [replaceChar_cons] at h
    by_cases hc : c = '>'
    · subst hc
      rw [if_neg (by decide), List.takeWhile_cons_of_neg (by simp)] at h
      cases h
    · rw [List.takeWhile_cons_of_pos (by split <;> simp [hc])] at h
      rw [List.takeWhile_cons_of_pos (by simpa using hc)]
      rcases List.mem_cons.1 h with heq | h
      · split at heq
        · cases heq
        · exact heq ▸ List.mem_cons_self
      · exact List.mem_cons_of_mem c (ih h)

theorem tagsWhole_replaceChar {s : Text} (h : tagsWhole s = true) :
    tagsWhole (replaceChar '\n' ' ' s) = true := by
  induction s with
  | nil => rfl
  | cons c s ih =>
    obtain ⟨hc, hs⟩ := tagsWhole_cons.1 h
    rw [replaceChar_cons]
    refine tagsWhole_cons.2 ⟨fun hlt hmem => hc ?_ (mem_takeWhile_of_replaceChar hmem), ih hs⟩
    split at hlt
    · cases hlt
    · exact hlt

section Flatten

variable {html : Text} (h : tagsWhole html = true)

include h

theorem tagsWhole_flatten : tagsWhole (flatten html) = true := by
  exact tagsWhole_replaceChar (tagsWhole_substitute readsTags_lineBreak (fun _ => by decide) h)

/-- No line break is left. -/
theorem count_lineBreak_flatten : lineBreak.count (flatten html) = 0 := by
  rw [flatten, Pattern.count_replaceChar lineBlind_lineBreak]
  exact count_substitute_self readsTags_lineBreak readsTag_lineBreak (fun _ => by decide) h

theorem count_flatten_le {q : Pattern} (hq : q.ReadsTag) (hblind : q.LineBlind) :
    q.count (flatten html) ≤ q.count html := by
  rw [flatten, Pattern.count_replaceChar hblind]
  exact count_substitute_le_of_whole readsTags_lineBreak hq (fun _ => by decide) h

/-- A boundary of the flattened markup is one of the markup, or has a line break in it. -/
theorem count_cellBoundary_flatten_le : cellBoundary.count (flatten html) ≤
    (closeCell.spaced (openCell.or lineBreak)).count html := by
  rw [flatten, Pattern.count_replaceChar lineBlind_cellBoundary, cellBoundary_eq]
  exact count_spaced_substitute_le readsTags_lineBreak readsTag_closeCell endsAt_closeCell
    readsTag_openCell (fun _ => by decide) h

theorem tabs_between_flatten_le : (anyTag.replace [] (flatten html)).count '\t' ≤
    (anyTag.replace [] html).count '\t' := by
  have hbreaks := count_between_le (k := 0) (d := '\t') readsTags_lineBreak
    (f := fun _ => [' ']) (fun _ => ⟨by decide, by decide⟩) h
  rw [Nat.mul_zero, Nat.zero_add] at hbreaks
  rw [flatten, Pattern.replace_nil_replaceChar lineBlind_anyTag,
    count_replaceChar (by decide) (by decide)]
  exact hbreaks

end Flatten

/-! ## Newlines and tabs of the plain text -/

/-- Without line breaks, what plain text shows of a character is in the text between the tags, or a
reference denotes it. -/
theorem count_plainText_le {s : Text} (c : Char) (h : lineBreak.count s = 0) :
    (plainText s).count c ≤
      (referenceTo c).count (stripTags s) + (anyTag.replace [] s).count c := by
  have hkeep : lineBreak.replace ['\n'] s = s := Pattern.substitute_of_count_eq_zero h _
  have hstrip : stripTags s = anyTag.replace [] s := by rw [stripTags, hkeep]
  have hdecode := count_decodeReferences_le c (stripTags s)
  rw [hstrip] at hdecode ⊢
  rw [plainText, hstrip]
  exact hdecode

/-- Where an element's closing tags become newlines, there are as many lines as these and the
references to newlines make. -/
theorem length_lines_le (name : Text) {s : Text} (hgt : '>' ∉ name) (hwhole : tagsWhole s = true)
    (hbreak : lineBreak.count s = 0) (hnl : '\n' ∉ s) :
    (splitOn '\n' (plainText ((closeTag name).replace ['\n'] s))).length ≤ (closeTag name).count s +
      (referenceTo '\n').count (stripTags ((closeTag name).replace ['\n'] s)) + 1 := by
  have hfree : lineBreak.count ((closeTag name).replace ['\n'] s) = 0 :=
    Nat.eq_zero_of_le_zero (hbreak ▸ count_substitute_le_of_whole (readsTags_closeTag name hgt)
      readsTag_lineBreak (fun _ => by decide) hwhole)
  have hplain := count_plainText_le '\n' hfree
  have hbetween := (Pattern.replace_nil_sublist anyTag
    ((closeTag name).replace ['\n'] s)).count_le '\n'
  have hclose : ((closeTag name).replace ['\n'] s).count '\n' ≤
      (closeTag name).count s + s.count '\n' := by
    refine Pattern.count_substitute_le (fun t n ht => ?_) s
    rw [if_pos (Option.isSome_of_eq_some ht)]
    exact Nat.le_add_right 1 _
  rw [List.count_eq_zero.2 hnl] at hclose
  rw [length_splitOn]
  omega

/-- A row has as many tabs as were in it. -/
theorem count_cleanRow (row : Text) : (cleanRow row).count '\t' = row.count '\t' := by
  have hcells : ∀ t ∈ (splitOn '\t' row).map collapse, '\t' ∉ t := by
    intro t ht hmem
    obtain ⟨cell, -, rfl⟩ := List.mem_map.1 ht
    exact tab_notMem_collapse cell hmem
  rw [cleanRow, count_joinWith hcells, List.length_map, length_splitOn, Nat.add_sub_cancel]

theorem count_flatten_cleanTable_le (html : Text) : (cleanTable html).flatten.count '\t' ≤
    (plainText (tableMarkup html)).count '\t' := by
  have hrows : ∀ rows : List Text,
      (rows.map cleanRow).flatten.count '\t' = rows.flatten.count '\t' := by
    intro rows
    rw [List.count_flatten, List.count_flatten, List.map_map]
    exact congrArg _ (List.map_congr_left fun row _ => count_cleanRow row)
  rw [cleanTable_eq]
  refine Nat.le_trans ((flatten_sublist (List.filter_sublist)).count_le '\t') ?_
  rw [hrows]
  exact (flatten_splitOn_sublist '\n' _).count_le '\t'

/-! ## Tables and lists -/

theorem length_cleanList_le {html : Text} (h : tagsWhole html = true) :
    (cleanList html).length ≤ countClose "li".toList html +
      (referenceTo '\n').count (stripTags (listMarkup html)) + 1 := by
  have hlines := length_lines_le "li".toList (by decide) (tagsWhole_flatten h)
    (count_lineBreak_flatten h) (newline_notMem_flatten html)
  have hclose := count_flatten_le h (readsTag_closeTag "li".toList (by decide))
    (lineBlind_closeTag _ (by decide) (by decide))
  have hcount := count_closeTag_le "li".toList (by decide) (by decide) html
  have hitems : (cleanList html).length ≤ (splitOn '\n' (plainText (listMarkup html))).length := by
    rw [cleanList_eq]
    exact Nat.le_trans (List.length_filter_le _ _) (Nat.le_of_eq (List.length_map _))
  unfold listMarkup at hitems ⊢
  omega

section Table

variable {html : Text} (h : tagsWhole html = true)

include h

theorem tagsWhole_body : tagsWhole (tableHead.replace [] html) = true :=
  tagsWhole_substitute readsTags_tableHead (fun _ => by decide) h

theorem tagsWhole_cells :
    tagsWhole (cellBoundary.replace ['\t'] (flatten (tableHead.replace [] html))) = true :=
  tagsWhole_substitute readsTags_cellBoundary (fun _ => by decide)
    (tagsWhole_flatten (tagsWhole_body h))

theorem count_lineBreak_cells :
    lineBreak.count (cellBoundary.replace ['\t'] (flatten (tableHead.replace [] html))) = 0 :=
  Nat.eq_zero_of_le_zero (count_lineBreak_flatten (tagsWhole_body h) ▸
    count_substitute_le_of_whole readsTags_cellBoundary readsTag_lineBreak (fun _ => by decide)
      (tagsWhole_flatten (tagsWhole_body h)))

theorem length_cleanTable_le : (cleanTable html).length ≤ countClose "tr".toList html +
    (referenceTo '\n').count (stripTags (tableMarkup html)) + 1 := by
  have hbody := tagsWhole_body h
  have htr : (closeTag "tr".toList).ReadsTag := readsTag_closeTag _ (by decide)
  have hnl : '\n' ∉ cellBoundary.replace ['\t'] (flatten (tableHead.replace [] html)) := by
    intro hmem
    rcases Pattern.mem_substitute hmem with hmem | ⟨t, n, -, -, hmem⟩
    · exact newline_notMem_flatten _ hmem
    · cases List.mem_singleton.1 hmem
  have hlines := length_lines_le "tr".toList (by decide) (tagsWhole_cells h)
    (count_lineBreak_cells h) hnl
  have hcells := count_substitute_le_of_whole (f := fun _ => ['\t']) readsTags_cellBoundary htr
    (fun _ => by decide) (tagsWhole_flatten hbody)
  have hflat := count_flatten_le hbody htr (lineBlind_closeTag _ (by decide) (by decide))
  have hhead := count_substitute_le_of_whole (f := fun _ => []) readsTags_tableHead htr
    (fun _ => by decide) h
  have hcount := count_closeTag_le "tr".toList (by decide) (by decide) html
  have hrows : (cleanTable html).length ≤ (splitOn '\n' (plainText (tableMarkup html))).length := by
    rw [cleanTable_eq]
    exact Nat.le_trans (List.length_filter_le _ _) (Nat.le_of_eq (List.length_map _))
  unfold tableMarkup at hrows ⊢
  unfold Pattern.replace at *
  omega

/-- The boundaries at which tabs are put in are boundaries of the markup, but for a line break or a
table head in them. -/
theorem count_boundaries_le :
    cellBoundary.count (flatten (tableHead.replace [] html)) ≤ cellBoundary.count html +
      (closeCell.spaced (lineBreak.or tableHead)).count html := by
  have hor : (openCell.or lineBreak).ReadsTag :=
    ⟨readsTag_openCell.startsWith.or readsTag_lineBreak.startsWith,
      readsTag_openCell.decidedBy.or readsTag_lineBreak.decidedBy⟩
  refine Nat.le_trans (count_cellBoundary_flatten_le (tagsWhole_body h)) ?_
  refine Nat.le_trans (count_spaced_substitute_le readsTags_tableHead readsTag_closeCell
    endsAt_closeCell hor (fun _ => by decide) h) ?_
  rw [cellBoundary_eq]
  refine Pattern.count_le_add (fun s hs => ?_) html
  obtain ⟨n, hn, hnext⟩ := isSome_spaced_iff.1 hs
  rw [isSome_or_iff, isSome_or_iff] at hnext
  rcases hnext with (hnext | hnext) | hnext
  · exact Or.inl (isSome_spaced_iff.2 ⟨n, hn, hnext⟩)
  · exact Or.inr (isSome_spaced_iff.2 ⟨n, hn, isSome_or_iff.2 (Or.inl hnext)⟩)
  · exact Or.inr (isSome_spaced_iff.2 ⟨n, hn, isSome_or_iff.2 (Or.inr hnext)⟩)

theorem tabs_cleanTable_le : (cleanTable html).flatten.count '\t' ≤
    cellBoundary.count html + (closeCell.spaced (lineBreak.or tableHead)).count html +
      (anyTag.replace [] html).count '\t' +
        (referenceTo '\t').count (stripTags (tableMarkup html)) := by
  have hbody := tagsWhole_body h
  have hrows : lineBreak.count (tableMarkup html) = 0 :=
    Nat.eq_zero_of_le_zero (count_lineBreak_cells h ▸ count_substitute_le_of_whole
      (readsTags_closeTag _ (by decide)) readsTag_lineBreak (fun _ => by decide) (tagsWhole_cells h))
  have hplain := count_plainText_le '\t' hrows
  have hclose := count_between_le (k := 0) (d := '\t') (f := fun _ => ['\n'])
    (readsTags_closeTag "tr".toList (by decide)) (fun _ => ⟨by decide, by decide⟩)
    (tagsWhole_cells h)
  have hcells := count_between_le (k := 1) (d := '\t') (f := fun _ => ['\t']) readsTags_cellBoundary
    (fun _ => ⟨by decide, by decide⟩) (tagsWhole_flatten hbody)
  have hflat := tabs_between_flatten_le hbody
  have hhead := count_between_le (k := 0) (d := '\t') (f := fun _ => []) readsTags_tableHead
    (fun _ => ⟨by decide, by decide⟩) h
  have hboundaries := count_boundaries_le h
  have htabs := count_flatten_cleanTable_le html
  unfold tableMarkup Pattern.replace at *
  omega

end Table

/-- Markup that does not spell a reference to a character shows none to it. -/
theorem count_referenceTo_markup {html : Text} {c : Char} (h : ¬ Spells (ink html) c) :
    (referenceTo c).count (stripTags (listMarkup html)) = 0 ∧
      (referenceTo c).count (stripTags (tableMarkup html)) = 0 := by
  have hmarkup : ∀ s, (ink s).Sublist (ink html) → (referenceTo c).count (stripTags s) = 0 :=
    fun s hs => count_referenceTo_eq_zero fun hspells =>
      h (hspells.of_sublist ((ink_stripTags_sublist s).trans hs))
  exact ⟨hmarkup _ (ink_listMarkup_sublist html), hmarkup _ (ink_tableMarkup_sublist html)⟩

/-- **Main theorem.** In markup whose tags are whole, a list has no more items than closing `li`
tags and references to newlines, and one; a table has no more rows than closing `tr` tags and
references to newlines, and one; and its rows have no more tabs together than there are boundaries
between cells, with nothing or only a line break or a table head in between, tabs outside the tags
and references to tabs. Where the markup does not spell a reference, there is none. -/
theorem shape_of_tags {html : Text} (h : tagsWhole html = true) :
    (cleanList html).length ≤ countClose "li".toList html +
      (referenceTo '\n').count (stripTags (listMarkup html)) + 1 ∧
    (cleanTable html).length ≤ countClose "tr".toList html +
      (referenceTo '\n').count (stripTags (tableMarkup html)) + 1 ∧
    (cleanTable html).flatten.count '\t' ≤
      cellBoundary.count html + (closeCell.spaced (lineBreak.or tableHead)).count html +
        (anyTag.replace [] html).count '\t' +
          (referenceTo '\t').count (stripTags (tableMarkup html)) ∧
    ∀ c, ¬ Spells (ink html) c →
      (referenceTo c).count (stripTags (listMarkup html)) = 0 ∧
        (referenceTo c).count (stripTags (tableMarkup html)) = 0 :=
  ⟨length_cleanList_le h, length_cleanTable_le h, tabs_cleanTable_le h,
    fun _ => count_referenceTo_markup⟩

/-- A table with a head, newlines and tabs in its markup and a line break in a cell. -/
theorem shape_of_tags_photo :
    let html := ("<thead><tr><th>Type</th></tr></thead>" ++
      "<tr><td\tid>photo</td>\n<td>Array<br/>of\nPhoto</td></tr>").toList
    tagsWhole html = true ∧ cleanTable html = ["photo\tArray of Photo".toList] ∧
      (cleanTable html).length ≤ 3 ∧ (cleanTable html).flatten.count '\t' ≤ 1 := by
  intro html
  have hwhole : tagsWhole html = true := by decide +kernel
  have hshape := shape_of_tags hwhole
  have hrows : countClose "tr".toList html +
      (referenceTo '\n').count (stripTags (tableMarkup html)) + 1 = 3 := by decide +kernel
  have htabs : cellBoundary.count html +
      (closeCell.spaced (lineBreak.or tableHead)).count html +
        (anyTag.replace [] html).count '\t' +
          (referenceTo '\t').count (stripTags (tableMarkup html)) = 1 := by decide +kernel
  exact ⟨hwhole, by decide +kernel, hrows ▸ hshape.2.1, htabs ▸ hshape.2.2.1⟩

/-- References to newlines split a row and an item, a tab in a cell and a reference to one add
columns, and a line break inside a tag splits an item. -/
theorem shape_changed_by_text :
    let rows := "<tr><td>a&#10;b&#10;c</td></tr>".toList
    let items := "<li>a&#10;b&#10;c</li>".toList
    let tab := "<tr><td>a\tb</td></tr>".toList
    let tabs := "<tr><td>a&#9;b</td></tr>".toList
    let nested := "<li>a<br<br>>b<br<br>>c</li>".toList
    countClose "tr".toList rows + 1 < (cleanTable rows).length ∧
      countClose "li".toList items + 1 < (cleanList items).length ∧
      cellBoundary.count tab < (cleanTable tab).flatten.count '\t' ∧
      cellBoundary.count tabs < (cleanTable tabs).flatten.count '\t' ∧
      countClose "li".toList nested + 1 < (cleanList nested).length := by
  decide +kernel

end DocTypes.Page
