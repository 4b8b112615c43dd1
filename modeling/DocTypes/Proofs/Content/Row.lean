/-
  Field rows by their cells. A line of cells is read as the field that they document, an empty
  description included (`ofText_text`). But the lines of a block are trimmed before they are read,
  and the tab in front of an empty description goes then: of three cells two are left, which make
  no row, and of four cells the marker is taken for the description (`classify_row`).
-/
import DocTypes.Proofs.Content.Shape
import DocTypes.Proofs.Text.Plain

namespace DocTypes.Content

open Text Page

/-- A text that can stand in a cell: there is no tab in it and no blank at its ends. -/
structure IsCell (s : Text) : Prop where
  notMem : '\t' ∉ s
  trim_eq : trim s = s

theorem isCell_plain (t : PlainText) : IsCell t.text where
  notMem := t.plain.notMem rfl (by decide)
  trim_eq := t.plain.trim_eq

/-- The cells of a field row: three, or four with a marker. Only the description may be empty. The
headings of the columns are no field. -/
structure Cells where
  name : Identifier
  type : Text
  marker : Option Text
  description : Text
  isCell_type : IsCell type
  type_ne_nil : type ≠ []
  isCell_marker : ∀ m ∈ marker, IsCell m
  marker_ne_nil : ∀ m ∈ marker, m ≠ []
  isCell_description : IsCell description
  not_heading : ¬ ((name.text = "Field".toList ∨ name.text = "Parameter".toList) ∧
    type = "Type".toList)

namespace Cells

variable (r : Cells)

/-- The cells in front of the description. -/
def front : List Text := r.name.text :: r.type :: r.marker.toList

/-- The line of the row. -/
def text : Text := joinWith ['\t'] (r.front ++ [r.description])

/-- The field that the row documents. It is optional where the marker says so or the description
starts with "Optional.". -/
def field : FieldRow where
  name := r.name.text
  typePhrase := r.type
  optional := r.marker.any Line.marksOptional || "Optional.".toList.isPrefixOf r.description
  description := r.description

variable {r}

theorem isCell_of_mem_front {c : Text} (h : c ∈ r.front) : IsCell c ∧ c ≠ [] := by
  rcases List.mem_cons.1 h with rfl | h
  · exact ⟨isCell_plain r.name.toPlain, r.name.ne_nil⟩
  · rcases List.mem_cons.1 h with rfl | h
    · exact ⟨r.isCell_type, r.type_ne_nil⟩
    · rw [Option.mem_toList] at h
      exact ⟨r.isCell_marker c h, r.marker_ne_nil c h⟩

theorem isCell_of_mem {c : Text} (h : c ∈ r.front ++ [r.description]) : IsCell c := by
  rcases List.mem_append.1 h with h | h
  · exact (isCell_of_mem_front h).1
  · rw [List.mem_singleton.1 h]
    exact r.isCell_description

theorem front_ne_nil (r : Cells) : r.front ≠ [] := List.cons_ne_nil _ _

end Cells

/-! ## Lines of cells -/

/-- Cells are what cutting their line at the tabs gives back. -/
theorem cells_joinWith {cells : List Text} (hne : cells ≠ []) (h : ∀ c ∈ cells, IsCell c) :
    (splitOn '\t' (joinWith ['\t'] cells)).map trim = cells := by
  rw [splitOn_joinWith hne fun c hc => (h c hc).notMem,
    List.map_congr_left (g := id) fun c hc => (h c hc).trim_eq, List.map_id]

/-- A line of cells is read as the field that they document. -/
theorem ofText_text (r : Cells) : Line.ofText r.text = .field r.field := by
  have hcells : (splitOn '\t' r.text).map trim = r.front ++ [r.description] :=
    cells_joinWith (by simp) fun c hc => Cells.isCell_of_mem hc
  have hfield : ∀ marker, Line.ofCells r.name.text r.type marker r.description = _ := fun _ =>
    ofCells_of_isIdentifier r.name.isIdentifier r.type_ne_nil r.not_heading
  unfold Line.ofText
  rw [hcells, Cells.front, Cells.field]
  cases r.marker with
  | none => exact hfield none
  | some m => exact hfield (some m)

/-- An identifier alone is a bare name. -/
theorem ofText_identifier (n : Identifier) : Line.ofText n.text = .bare n.text := by
  unfold Line.ofText
  rw [splitOn_of_notMem (n.notMem rfl), List.map_singleton, show trim n.text = n.text from
    n.toPlain.plain.trim_eq]
  dsimp only
  rw [if_pos n.isIdentifier]

/-- Two cells alone are no row. -/
theorem ofText_two_cells (r : Cells) :
    Line.ofText (joinWith ['\t'] [r.name.text, r.type]) = .unrecognized := by
  have hcells : ∀ c ∈ [r.name.text, r.type], IsCell c := by
    simpa using ⟨isCell_plain r.name.toPlain, r.isCell_type⟩
  unfold Line.ofText
  rw [cells_joinWith (by simp) hcells]

/-- The line of a row with a description is trimmed. -/
theorem trim_text {r : Cells} (h : r.description ≠ []) : trim r.text = r.text := by
  refine trim_joinWith (fun c hc => ?_) fun c hc => (Cells.isCell_of_mem hc).trim_eq
  rcases List.mem_append.1 hc with hc | hc
  · exact (Cells.isCell_of_mem_front hc).2
  · rwa [List.mem_singleton.1 hc]

/-- Without a description only the cells in front of it are left. -/
theorem trim_text_of_nil {r : Cells} (h : r.description = []) :
    trim r.text = joinWith ['\t'] r.front := by
  have htext : r.text = joinWith ['\t'] r.front ++ ['\t'] := by
    rw [Cells.text, joinWith_concat _ _ r.front_ne_nil, h, List.append_nil]
  rw [htext, trim_concat_of_blank rfl]
  exact trim_joinWith (fun c hc => (Cells.isCell_of_mem_front hc).2)
    fun c hc => (Cells.isCell_of_mem_front hc).1.trim_eq

/-! ## Blocks whose table is one line -/

/-- What a content line makes of a block that has no other. -/
def lineShape (line : Text) : Classification :=
  match Line.ofText line with
  | .bare n => ⟨.union [n], []⟩
  | .field r => ⟨.record [r], []⟩
  | .heading => ⟨.record [], []⟩
  | .unrecognized => ⟨.record [], [line]⟩

/-- The content lines of the list alone. An operation has none. -/
def listLines (b : Block) (isOperation : Bool) : List Text :=
  contentLines { b with table := [] } isOperation

theorem contentLines_of_table {b : Block} {isOperation : Bool} {line : Text}
    (htable : b.table = [line]) (hne : trim line ≠ []) :
    contentLines b isOperation = trim line :: listLines b isOperation := by
  unfold listLines contentLines
  rw [htable, List.singleton_append, List.map_cons, List.filter_cons_of_pos (by simpa),
    List.nil_append]

/-- Lines that are neither names nor rows, and that are not passed over, are headings. -/
theorem forall_heading_iff {ls : List Text} :
    (∀ l ∈ ls, Line.ofText l = .heading) ↔
      bareNames ls = [] ∧ fieldRows ls = [] ∧ unrecognized ls = [] := by
  induction ls with
  | nil => simp [bareNames, fieldRows, unrecognized]
  | cons l ls ih =>
    cases hl : Line.ofText l <;> simp_all [bareNames, fieldRows, unrecognized]

/-- A block that is a record has no bare names. -/
theorem record_of_classify {b : Block} {isOperation : Bool} {rows : List FieldRow}
    {skipped : List Text} (hmarker : occurs noParameters b.text = false)
    (h : classify b isOperation = .ok ⟨.record rows, skipped⟩) :
    bareNames (contentLines b isOperation) = [] ∧
      fieldRows (contentLines b isOperation) = rows ∧
        unrecognized (contentLines b isOperation) = skipped := by
  unfold classify at h
  rw [if_neg (by simp [hmarker])] at h
  dsimp only at h
  split at h
  · cases h
  · split at h
    · next hbare =>
      cases h
      exact ⟨by simpa using hbare, rfl, rfl⟩
    · cases h

theorem misfit?_of_headings {line : Text} {rest : List Text}
    (h : ∀ l ∈ rest, Line.ofText l = .heading) : misfit? (line :: rest) = none := by
  have hnone : ∀ l ∈ rest, isBare? l = none := fun l hl => by rw [isBare?, h l hl]
  unfold misfit?
  cases hk : isBare? line with
  | none =>
    have hfirst : (line :: rest).findSome? isBare? = none := by simpa [hk] using hnone
    rw [hfirst]
    rfl
  | some kind =>
    rw [List.findSome?_cons_of_isSome (by rw [hk]; rfl), hk, Option.bind_some]
    cases kind <;> simp +contextual [hk, hnone]

/-- Headings below a line change nothing. -/
theorem classify_of_headings {b : Block} {isOperation : Bool} {line : Text} {rest : List Text}
    (hmarker : occurs noParameters b.text = false)
    (hlines : contentLines b isOperation = line :: rest)
    (hrest : ∀ l ∈ rest, Line.ofText l = .heading) :
    classify b isOperation = .ok (lineShape line) := by
  obtain ⟨hbare, hfields, hskipped⟩ := forall_heading_iff.1 hrest
  unfold classify lineShape
  rw [if_neg (by simp [hmarker]), hlines]
  dsimp only
  rw [misfit?_of_headings hrest]
  unfold bareNames fieldRows unrecognized at *
  cases hl : Line.ofText line <;> simp [*]

/-- A block is a record of one field, with nothing passed over, only if its first line, unless that
is a heading, documents the field and headings follow. -/
theorem headings_of_classify {b : Block} {isOperation : Bool} {line : Text} {rest : List Text}
    {r : FieldRow} (hmarker : occurs noParameters b.text = false)
    (hlines : contentLines b isOperation = line :: rest)
    (hne : lineShape line ≠ ⟨.record [], []⟩)
    (h : classify b isOperation = .ok ⟨.record [r], []⟩) :
    lineShape line = ⟨.record [r], []⟩ ∧ ∀ l ∈ rest, Line.ofText l = .heading := by
  obtain ⟨hbare, hfields, hskipped⟩ := record_of_classify hmarker h
  rw [hlines] at hbare hfields hskipped
  rw [forall_heading_iff]
  unfold lineShape at *
  unfold bareNames fieldRows unrecognized at *
  cases hl : Line.ofText line <;> simp_all

/-! ## Rows without a description -/

/-- What is read where the description is empty: nothing of three cells, and of four cells a row of
three, whose description is the marker. -/
def Cells.shortened (r : Cells) : Classification :=
  match r.marker with
  | none => ⟨.record [], [joinWith ['\t'] [r.name.text, r.type]]⟩
  | some m => ⟨.record [⟨r.name.text, r.type, "Optional.".toList.isPrefixOf m, m⟩], []⟩

theorem lineShape_front (r : Cells) : lineShape (joinWith ['\t'] r.front) = r.shortened := by
  unfold lineShape Cells.shortened Cells.front
  cases hm : r.marker with
  | none => rw [Option.toList_none, ofText_two_cells]
  | some m =>
    -- the marker is where the description of a row of three cells is
    let short : Cells := { r with
      marker := none
      description := m
      isCell_marker := by simp
      marker_ne_nil := by simp
      isCell_description := r.isCell_marker m hm }
    have htext : joinWith ['\t'] (r.name.text :: r.type :: [m]) = short.text := rfl
    rw [Option.toList_some, htext, ofText_text]
    rfl

theorem Cells.shortened_ne_field {r : Cells} (h : r.description = []) :
    r.shortened ≠ ⟨.record [r.field], []⟩ := by
  unfold Cells.shortened
  cases hm : r.marker with
  | none => simp
  | some m =>
    intro heq
    have hm' := r.marker_ne_nil m hm
    simp only [Classification.mk.injEq, Shape.record.injEq, List.cons.injEq, Cells.field,
      FieldRow.mk.injEq] at heq
    exact hm' (heq.1.1.2.2.2.trans h)

theorem Cells.shortened_ne_nothing (r : Cells) : r.shortened ≠ ⟨.record [], []⟩ := by
  unfold Cells.shortened
  cases r.marker <;> simp

/-- **Main theorem.** A block whose table is one row of cells is a record of the one field that the
row documents, with no line passed over, exactly where the description is not empty and the list
that counts has nothing but headings. Where the description is empty, a row of three cells is
passed over, and of four cells the marker is taken for the description. -/
theorem classify_row {b : Block} {isOperation : Bool} (r : Cells)
    (hmarker : occurs noParameters b.text = false) (htable : b.table = [r.text]) :
    (classify b isOperation = .ok ⟨.record [r.field], []⟩ ↔
      r.description ≠ [] ∧ ∀ l ∈ listLines b isOperation, Line.ofText l = .heading) ∧
    (r.description = [] → (∀ l ∈ listLines b isOperation, Line.ofText l = .heading) →
      classify b isOperation = .ok r.shortened) := by
  have hfront : joinWith ['\t'] r.front ≠ [] := by
    obtain ⟨c, s, hname⟩ := List.exists_cons_of_ne_nil r.name.ne_nil
    simp [Cells.front, hname]
  by_cases h : r.description = []
  · have htrim := trim_text_of_nil h
    have hlines : contentLines b isOperation = _ := contentLines_of_table htable (htrim ▸ hfront)
    have hline : lineShape (trim r.text) = r.shortened := by rw [htrim, lineShape_front]
    refine ⟨iff_of_false (fun hc => ?_) (absurd h ·.1), fun _ hrest => ?_⟩
    · have hone := headings_of_classify hmarker hlines (hline ▸ r.shortened_ne_nothing) hc
      exact Cells.shortened_ne_field h (hline ▸ hone.1)
    · rw [classify_of_headings hmarker hlines hrest, hline]
  · have htrim := trim_text h
    have hne : r.text ≠ [] := by
      rw [Cells.text, joinWith_concat _ _ r.front_ne_nil]
      simp [hfront]
    have hlines : contentLines b isOperation = _ := contentLines_of_table htable (htrim.symm ▸ hne)
    have hline : lineShape (trim r.text) = ⟨.record [r.field], []⟩ := by
      rw [htrim, lineShape, ofText_text]
    refine ⟨⟨fun hc => ⟨h, ?_⟩, fun hc => ?_⟩, (absurd · h)⟩
    · exact (headings_of_classify hmarker hlines (by simp [hline]) hc).2
    · rw [classify_of_headings hmarker hlines hc.2, hline]

/-- An operation's row of four cells, the marker in capitals; the items of its list are prose. -/
theorem classify_row_photo :
    let r : Cells :=
      { name := ⟨"photo".toList, by decide⟩
        type := "InputFile or String".toList
        marker := some "OPTIONAL".toList
        description := "Photo to send".toList
        isCell_type := ⟨by decide, by decide⟩
        type_ne_nil := by decide
        isCell_marker := by rintro _ ⟨⟩; exact ⟨by decide, by decide⟩
        marker_ne_nil := by rintro _ ⟨⟩; decide
        isCell_description := ⟨by decide, by decide⟩
        not_heading := by decide }
    let b : Block := ⟨"sendPhoto".toList, ["Sends it.".toList], [r.text], ["Note".toList]⟩
    occurs noParameters b.text = false ∧ r.description ≠ [] ∧ classify b true =
      .ok ⟨.record [⟨"photo".toList, "InputFile or String".toList, true, "Photo to send".toList⟩],
        []⟩ := by
  intro r b
  have hmarker : occurs noParameters b.text = false := by decide
  have hdescription : r.description ≠ [] := by decide
  exact ⟨hmarker, hdescription,
    (@classify_row b true r hmarker rfl).1.2 ⟨hdescription, by decide⟩⟩

/-- Rows whose description is empty: one is passed over, of the other the marker is taken for the
description. -/
theorem classify_row_without_description :
    classify ⟨"User".toList, [], ["id\tInteger\t".toList], []⟩ false =
        .ok ⟨.record [], ["id\tInteger".toList]⟩ ∧
      classify ⟨"send".toList, [], ["id\tInteger\tOptional\t".toList], []⟩ true =
        .ok ⟨.record [⟨"id".toList, "Integer".toList, false, "Optional".toList⟩], []⟩ :=
  ⟨rfl, rfl⟩

end DocTypes.Content
