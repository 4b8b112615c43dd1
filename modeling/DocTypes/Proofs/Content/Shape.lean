/-
  What content lines and shapes are made of. The cells of a field row are those of its line, its
  name is an identifier and its type phrase is not empty (`RowOf`); a bare name is an identifier.
  A block that is no fault is without input, or a record of its field rows, or a union of one or
  more bare names; what is passed over are its unrecognized lines (`Classified`).
-/
import DocTypes.Content.Shape
import DocTypes.Proofs.Text.Lines

namespace DocTypes.Content

open Text Page

/-! ## Lines -/

/-- The row may stand on the line. -/
structure RowOf (line : Text) (r : FieldRow) : Prop where
  isIdentifier_name : isIdentifier r.name = true
  typePhrase_ne_nil : r.typePhrase ≠ []
  tab_mem : '\t' ∈ line
  typePhrase_mem : r.typePhrase ∈ (splitOn '\t' line).map trim
  description_mem : r.description ∈ (splitOn '\t' line).map trim

section Cells

variable {name type description : Text} {marker : Option Text}

/-- Cells that make a row are the cells of the row. -/
theorem ofCells_eq_field {r : FieldRow} (h : Line.ofCells name type marker description = .field r) :
    isIdentifier name = true ∧ type ≠ [] ∧ r.name = name ∧ r.typePhrase = type ∧
      r.description = description := by
  unfold Line.ofCells at h
  split at h
  · cases h
  · split at h
    · cases h
    · next hcells =>
      rw [Bool.or_eq_true, not_or, Bool.not_eq_true', Bool.not_eq_false] at hcells
      cases h
      exact ⟨hcells.1, by simpa using hcells.2, rfl, rfl, rfl⟩

/-- Cells below the headings of the columns make a row if they start with a name and a type. -/
theorem ofCells_of_isIdentifier (hname : isIdentifier name = true) (htype : type ≠ [])
    (hheading : ¬ ((name = "Field".toList ∨ name = "Parameter".toList) ∧ type = "Type".toList)) :
    Line.ofCells name type marker description =
      .field ⟨name, type, marker.any Line.marksOptional ||
        "Optional.".toList.isPrefixOf description, description⟩ := by
  unfold Line.ofCells
  rw [if_neg (by simpa using hheading), if_neg (by simp [hname, htype])]

theorem ofCells_ne_bare (n : Text) : Line.ofCells name type marker description ≠ .bare n := by
  unfold Line.ofCells
  split
  · intro h; cases h
  · split <;> (intro h; cases h)

end Cells

/-- The cells of a line are parts of it. -/
theorem infix_of_mem_cells {line cell : Text} (h : cell ∈ (splitOn '\t' line).map trim) :
    cell <:+: line := by
  obtain ⟨piece, hpiece, rfl⟩ := List.mem_map.1 h
  exact (trim_isInfix piece).trans (infix_of_mem_splitOn hpiece)

theorem rowOf_of_ofText {line : Text} {r : FieldRow} (h : Line.ofText line = .field r) :
    RowOf line r := by
  have htab : ∀ {c d : Text} {cs : List Text}, (splitOn '\t' line).map trim = c :: d :: cs →
      '\t' ∈ line := by
    intro c d cs heq
    refine Decidable.byContradiction fun hnot => ?_
    rw [splitOn_of_notMem hnot] at heq
    cases heq
  unfold Line.ofText at h
  split at h
  · split at h <;> cases h
  · next heq =>
    obtain ⟨hname, htype, h1, h2, h3⟩ := ofCells_eq_field h
    exact ⟨h1 ▸ hname, h2 ▸ htype, htab heq, by rw [heq, h2]; simp, by rw [heq, h3]; simp⟩
  · next heq =>
    obtain ⟨hname, htype, h1, h2, h3⟩ := ofCells_eq_field h
    exact ⟨h1 ▸ hname, h2 ▸ htype, htab heq, by rw [heq, h2]; simp, by rw [heq, h3]; simp⟩
  · cases h

theorem isIdentifier_of_ofText {line name : Text} (h : Line.ofText line = .bare name) :
    isIdentifier name = true := by
  unfold Line.ofText at h
  split at h
  · split at h
    · next hname =>
      cases h
      exact hname
    · cases h
  · exact absurd h (ofCells_ne_bare name)
  · exact absurd h (ofCells_ne_bare name)
  · cases h

theorem isIdentifier_of_mem_bareNames {ls : List Text} {n : Text} (h : n ∈ bareNames ls) :
    isIdentifier n = true := by
  obtain ⟨l, -, hl⟩ := List.mem_filterMap.1 h
  split at hl
  · next hline =>
    cases hl
    exact isIdentifier_of_ofText hline
  · cases hl

theorem exists_rowOf_of_mem_fieldRows {ls : List Text} {r : FieldRow} (h : r ∈ fieldRows ls) :
    ∃ l ∈ ls, RowOf l r := by
  obtain ⟨l, hmem, hl⟩ := List.mem_filterMap.1 h
  split at hl
  · next hline =>
    cases hl
    exact ⟨l, hmem, rowOf_of_ofText hline⟩
  · cases hl

/-- A content line is a trimmed line of the table or the list. -/
theorem exists_line_of_mem_contentLines {b : Block} {isOperation : Bool} {l : Text}
    (h : l ∈ contentLines b isOperation) : ∃ line ∈ b.table ++ b.list, l = trim line := by
  obtain ⟨line, hline, rfl⟩ := List.mem_map.1 (List.mem_filter.1 h).1
  refine ⟨line, ?_, rfl⟩
  rcases List.mem_append.1 hline with hline | hline
  · exact List.mem_append_left _ hline
  · split at hline
    · cases hline
    · exact List.mem_append_right _ hline

/-! ## Blocks -/

/-- The ways in which a block has a shape. -/
inductive Classified (b : Block) (isOperation : Bool) : Classification → Prop
  | noInput : occurs noParameters b.text = true → Classified b isOperation ⟨.noInput, []⟩
  | record : occurs noParameters b.text = false →
      Classified b isOperation ⟨.record (fieldRows (contentLines b isOperation)),
        unrecognized (contentLines b isOperation)⟩
  | union : occurs noParameters b.text = false → bareNames (contentLines b isOperation) ≠ [] →
      Classified b isOperation ⟨.union (bareNames (contentLines b isOperation)),
        unrecognized (contentLines b isOperation)⟩

theorem classified {b : Block} {isOperation : Bool} {c : Classification}
    (h : classify b isOperation = .ok c) : Classified b isOperation c := by
  unfold classify at h
  split at h
  · next hmarker =>
    cases h
    exact .noInput hmarker
  · next hmarker =>
    rw [Bool.not_eq_true] at hmarker
    dsimp only at h
    split at h
    · cases h
    · cases h
      split
      · exact .record hmarker
      · next hbare => exact .union hmarker (by simpa using hbare)

end DocTypes.Content
