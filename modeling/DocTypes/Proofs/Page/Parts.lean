/-
  How the lines of a section are told apart, by what the first of them opens.
-/
import DocTypes.Page.Parts

namespace DocTypes.Page

open Text

@[simp] theorem ofLines_nil : Parts.ofLines [] = ⟨[], none, none⟩ := by rw [Parts.ofLines]

/-- A line that opens nothing is prose. -/
theorem ofLines_prose {l : Text} (ht : opensTable l = false) (hl : opensList l = false)
    (rest : List Text) :
    Parts.ofLines (l :: rest) =
      { Parts.ofLines rest with prose := l :: (Parts.ofLines rest).prose } := by
  rw [Parts.ofLines, if_neg (by simp [ht]), if_neg (by simp [hl])]

/-- A line that opens a table starts its run. -/
theorem ofLines_table {l : Text} (ht : opensTable l = true) (rest : List Text) :
    Parts.ofLines (l :: rest) =
      Parts.afterTable (splitTable (l :: rest)).1 (splitTable (l :: rest)).2 := by
  rw [Parts.ofLines, if_pos ht]

/-- A list that nothing follows is the section's list. -/
theorem ofLines_list {l : Text} (ht : opensTable l = false) (hl : opensList l = true)
    {rest run : List Text} (h : splitList 0 (l :: rest) = (run, [])) :
    Parts.ofLines (l :: rest) = ⟨[], none, some run⟩ := by
  rw [Parts.ofLines, if_neg (by simp [ht]), if_pos hl]
  split
  · next run' h' => rw [h] at h'; rw [(Prod.mk.inj h').1]
  · next h' => rw [h] at h'; cases h'

/-- A list that more lines follow is prose. -/
theorem ofLines_demoted {l : Text} (ht : opensTable l = false) (hl : opensList l = true)
    {rest run after : List Text} {next : Text}
    (h : splitList 0 (l :: rest) = (run, next :: after)) :
    Parts.ofLines (l :: rest) =
      { Parts.ofLines (next :: after) with
        prose := run ++ (Parts.ofLines (next :: after)).prose } := by
  rw [Parts.ofLines, if_neg (by simp [ht]), if_pos hl]
  split
  · next h' => rw [h] at h'; cases h'
  · next run' next' after' h' =>
    rw [h] at h'
    cases h'
    rfl

/-- A table on one line, closed there or not. -/
theorem ofLines_table_line {l : Text} (ht : opensTable l = true) :
    Parts.ofLines [l] = ⟨[], some [l], none⟩ := by
  have hsplit : splitTable [l] = ([l], []) := by
    rw [splitTable]
    split <;> rfl
  rw [ofLines_table ht, hsplit]
  rfl

/-- A list on one line, closed there or not. -/
theorem ofLines_list_line {l : Text} (ht : opensTable l = false) (hl : opensList l = true) :
    Parts.ofLines [l] = ⟨[], none, some [l]⟩ := by
  refine ofLines_list ht hl ?_
  rw [splitList]
  dsimp only
  split <;> rfl

end DocTypes.Page
