/-
  Which characters descriptions have. No text of an entity has a newline in it: its paragraphs and
  the descriptions of its fields are lines of its block, or parts of them, and the types of its
  fields stay on one line. The cells of a field are those of a row of its table, so its description
  is what decoding and collapsing make of a stripped cell (`exists_cell_of_mem_fields`). The other
  line terminators of the declaration language are no blanks for the collapsing, so the description
  can have them: those that stand in the cell, or to which the cell has a reference
  (`terminator_in_description`).
-/
import DocTypes.Compilation
import DocTypes.Proofs.Page.Characters
import DocTypes.Proofs.Phrase.FieldType
import DocTypes.Proofs.Reading.Entities

namespace DocTypes

open Text Markup Content Page Phrase

/-! ## Fields -/

@[simp] theorem Field.toList_description_ofRow (r : FieldRow) :
    (Field.ofRow r).description.toList = r.description := String.toList_ofList

section Block

variable {page : Text} {b : Block} {f : Field}

/-- The cells of a field are those of a row of the table: no list item has a tab. -/
theorem exists_row_of_mem_fields (hb : b ∈ blocks page) (hf : f ∈ b.fields) :
    ∃ l ∈ b.table, ∃ r : FieldRow, f = Field.ofRow r ∧
      r.typePhrase ∈ (splitOn '\t' l).map trim ∧ r.description ∈ (splitOn '\t' l).map trim := by
  obtain ⟨r, hr, rfl⟩ := List.mem_map.1 hf
  obtain ⟨content, hcontent, hrow⟩ := exists_rowOf_of_mem_fieldRows hr
  obtain ⟨l, hl, rfl⟩ := exists_line_of_mem_contentLines hcontent
  have htable : l ∈ b.table := (List.mem_append.1 hl).resolve_right fun hlist =>
    tab_notMem_list hb l hlist ((trim_isInfix l).mem hrow.tab_mem)
  have hcells := map_trim_splitOn_trim_subset '\t' l
  exact ⟨l, htable, r, rfl, hcells hrow.typePhrase_mem, hcells hrow.description_mem⟩

theorem newline_notMem_fieldDescription (hb : b ∈ blocks page) (hf : f ∈ b.fields) :
    '\n' ∉ f.description.toList := by
  obtain ⟨l, hl, r, rfl, -, hdescription⟩ := exists_row_of_mem_fields hb hf
  rw [Field.toList_description_ofRow]
  exact fun h => newline_notMem_blocks hb l
    (List.mem_append_right _ (List.mem_append_left _ hl)) ((infix_of_mem_cells hdescription).mem h)

theorem newline_notMem_fieldTypeText (hb : b ∈ blocks page) (hf : f ∈ b.fields) :
    '\n' ∉ f.type.text := by
  obtain ⟨l, hl, r, rfl, htype, -⟩ := exists_row_of_mem_fields hb hf
  exact newline_notMem_fieldType (fun h => newline_notMem_blocks hb l
    (List.mem_append_right _ (List.mem_append_left _ hl)) ((infix_of_mem_cells htype).mem h))
    r.description

/-- The description of a field is what decoding and collapsing make of a stripped cell. -/
theorem exists_cell_of_mem_fields (hb : b ∈ blocks page) (hf : f ∈ b.fields) :
    ∃ cell, IsStrippedCell page b.name cell ∧
      f.description.toList = collapse (decodeReferences cell) := by
  obtain ⟨l, hl, r, rfl, -, hdescription⟩ := exists_row_of_mem_fields hb hf
  obtain ⟨x, hx, heq⟩ := List.mem_map.1 hdescription
  obtain ⟨cell, hcell, rfl⟩ := exists_cell_of_mem_table hb hl hx
  exact ⟨cell, hcell, by rw [Field.toList_description_ofRow, ← heq, trim_collapse]⟩

end Block

/-! ## Paragraphs -/

/-- The paragraphs of an entity are lines of its block, or breaks. -/
theorem Describes.newline_notMem_description {page : Text} {b : Block} {returns : TypeExpr}
    {e : Entity} (h : Describes b returns e) (hb : b ∈ blocks page) :
    ∀ p ∈ e.description, '\n' ∉ p.toList := by
  have hlines := newline_notMem_blocks hb
  have hparagraph : ∀ l ∈ if isOperationName b.name then operationDescription b else b.prose,
      l ∈ b.prose ∨ l = [] ∨ l ∈ b.list := by
    intro l hl
    split at hl
    · unfold operationDescription at hl
      split at hl
      · exact Or.inl hl
      · split at hl
        · exact Or.inr (Or.inr hl)
        · rcases List.mem_append.1 hl with hl | hl
          · exact Or.inl hl
          · exact Or.inr (List.mem_cons.1 hl)
    · exact Or.inl hl
  intro p hp
  rw [h.description_eq] at hp
  obtain ⟨l, hl, rfl⟩ := List.mem_map.1 hp
  rw [String.toList_ofList]
  rcases hparagraph l hl with hl | rfl | hl
  · exact hlines l (List.mem_append_left _ hl)
  · exact List.not_mem_nil
  · exact hlines l (List.mem_append_right _ (List.mem_append_right _ hl))

/-! ## Line terminators -/

/-- The characters that end a line, and with it a comment, in the declaration language. -/
def lineTerminators : List Char := ['\n', '\r', '\u2028', '\u2029']

/-- **Main theorem.** No description of a field has a newline in it. It is what decoding and
collapsing make of a stripped cell in the table of the entity's section, and another line terminator
is in it only if it stands in that cell, or the cell has a reference to it; a carriage return, only
if there is a reference. What stands in the cell stands on the page, in order. -/
theorem terminator_in_description {page : Text} {c : Compilation} (h : compile page = .ok c)
    {e : Entity} (he : e ∈ c.entities) {f : Field} (hf : f ∈ e.fields) :
    '\n' ∉ f.description.toList ∧
      ∃ cell, IsStrippedCell page e.name.toList cell ∧ (ink cell).Sublist page ∧
        f.description.toList = collapse (decodeReferences cell) ∧
        ∀ t ∈ lineTerminators, t ∈ f.description.toList →
          (t ≠ '\r' ∧ t ∈ cell) ∨ 0 < (referenceTo t).count cell := by
  obtain ⟨b, hb, returns, -, hdescribes⟩ := exists_describes (compile_eq_ok h).1 he
  have hfield := hdescribes.mem_fields hf
  obtain ⟨cell, hcell, heq⟩ := exists_cell_of_mem_fields hb hfield
  have hname : e.name.toList = b.name := by rw [hdescribes.name_eq, String.toList_ofList]
  refine ⟨newline_notMem_fieldDescription hb hfield, cell, hname ▸ hcell, hcell.ink_sublist_page,
    heq, fun t ht hmem => ?_⟩
  have hspace : t ≠ ' ' := by
    rintro rfl
    revert ht
    decide
  rw [heq] at hmem
  have hdecoded := ((mem_collapse hmem).resolve_left hspace).1
  refine (mem_decodeReferences hdecoded).imp_left fun hmem => ⟨?_, hmem⟩
  rintro rfl
  exact hcell.carriageReturn_notMem hmem

/-- A test for a field of a page, and the field that passes it. -/
theorem exists_field_of_any (page : Text) (test : Field → Bool)
    (h : ((compile page).toOption.any fun c => c.entities.any fun e => e.fields.any test) = true) :
    ∃ c, compile page = .ok c ∧ ∃ e ∈ c.entities, ∃ f ∈ e.fields, test f = true := by
  cases hc : compile page with
  | error e => rw [hc] at h; cases h
  | ok c =>
    rw [hc] at h
    obtain ⟨e, he, h⟩ := List.any_eq_true.1 h
    obtain ⟨f, hf, h⟩ := List.any_eq_true.1 h
    exact ⟨c, rfl, e, he, f, hf, h⟩

/-- A line separator that stands on the page. -/
theorem terminator_in_description_separator :
    let page := ("<h4>send</h4><table><tr><td>id</td><td>Integer</td><td>Yes</td>" ++
      "<td>a\u2028b</td></tr></table>").toList
    ∃ c, compile page = .ok c ∧ ∃ e ∈ c.entities, ∃ f ∈ e.fields,
      '\u2028' ∈ f.description.toList ∧ '\n' ∉ f.description.toList ∧
        ∃ cell, IsStrippedCell page e.name.toList cell ∧
          f.description.toList = collapse (decodeReferences cell) ∧
          (('\u2028' ≠ '\r' ∧ '\u2028' ∈ cell) ∨ 0 < (referenceTo '\u2028').count cell) := by
  intro page
  obtain ⟨c, hc, e, he, f, hf, hmem⟩ := exists_field_of_any page
    (fun f => f.description.toList.contains '\u2028') (by decide +kernel)
  have hmem := List.contains_iff_mem.1 hmem
  obtain ⟨hnewline, cell, hcell, -, heq, hterminator⟩ := terminator_in_description hc he hf
  exact ⟨c, hc, e, he, f, hf, hmem, hnewline, cell, hcell, heq, hterminator _ (by decide) hmem⟩

/-- A reference to a carriage return puts one into a description. -/
theorem carriageReturn_in_description :
    let page := ("<h4>A</h4><table><tr><td>id</td><td>Integer</td><td>a&#13;b</td></tr>" ++
      "</table>").toList
    ∃ c, compile page = .ok c ∧
      ∃ e ∈ c.entities, ∃ f ∈ e.fields, ∃ t ∈ lineTerminators, t ∈ f.description.toList := by
  intro page
  obtain ⟨c, hc, e, he, f, hf, hmem⟩ := exists_field_of_any page
    (fun f => f.description.toList.contains '\r') (by decide +kernel)
  exact ⟨c, hc, e, he, f, hf, '\r', by decide, List.contains_iff_mem.1 hmem⟩

end DocTypes
