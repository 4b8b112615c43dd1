/-
  Which shape a block has, from what its content lines are. `Line.Reads` says by the cells of a
  line what it is: a bare name, a field row, a heading of the columns, or none of these; every
  trimmed line is exactly one of them (`reads_iff`). Told apart in this way (`ToldApart`), the
  lines decide everything: a block is a fault exactly where bare names and field rows both occur,
  the fault names the first line of the kind that came second (`FirstMisfit`), and else all names
  or all rows are in the shape, in order. Reading the lines one by one, up to the first misfit,
  comes to the same (`run_eq`, `classify_eq_classifyByLine`).
-/
import DocTypes.Proofs.Content.Row
import Mathlib.Logic.ExistsUnique

namespace DocTypes.Content

open Text Page

/-! ## Lines by their cells -/

namespace Line

/-- The cells of the line are a name, a type and a description, with or without a marker in front
of the description. -/
def HasCells (line name type : Text) (marker : Option Text) (description : Text) : Prop :=
  (splitOn '\t' line).map trim = name :: type :: (marker.toList ++ [description])

/-- The first two columns are headed so. -/
def AreHeadings (name type : Text) : Prop :=
  (name = "Field".toList ∨ name = "Parameter".toList) ∧ type = "Type".toList

/-- What a line is by its cells. -/
inductive Reads (line : Text) : Line → Prop
  | bare : isIdentifier line = true → Reads line (bare line)
  | field {r : FieldRow} {marker : Option Text} :
      HasCells line r.name r.typePhrase marker r.description →
        ¬ AreHeadings r.name r.typePhrase → isIdentifier r.name = true → r.typePhrase ≠ [] →
          r.optional = (marker.any marksOptional || "Optional.".toList.isPrefixOf r.description) →
            Reads line (field r)
  | heading {name type description : Text} {marker : Option Text} :
      HasCells line name type marker description → AreHeadings name type → Reads line heading
  | unrecognized : isIdentifier line = false →
      (∀ name type marker description, HasCells line name type marker description →
        ¬ AreHeadings name type ∧ (isIdentifier name = false ∨ type = [])) →
          Reads line unrecognized

section Cells

variable {line name type description name' type' description' : Text} {marker marker' : Option Text}

theorem HasCells.eq (h : HasCells line name type marker description)
    (h' : HasCells line name' type' marker' description') :
    name' = name ∧ type' = type ∧ marker' = marker ∧ description' = description := by
  have hcells := h'.symm.trans h
  cases marker <;> cases marker' <;> simp_all

/-- A line of cells has tabs, so it is no name. -/
theorem HasCells.not_identifier (h : HasCells line name type marker description) :
    isIdentifier line = false := by
  cases hline : isIdentifier line with
  | false => rfl
  | true =>
    let n : Identifier := ⟨line, hline⟩
    have hone : splitOn '\t' line = [line] := splitOn_of_notMem (n.notMem rfl)
    rw [HasCells, hone] at h
    cases marker <;> simp at h

theorem HasCells.ofText_eq (h : HasCells line name type marker description) :
    ofText line = ofCells name type marker description := by
  unfold ofText
  rw [h]
  cases marker <;> rfl

theorem ofCells_of_areHeadings (h : AreHeadings name type) :
    ofCells name type marker description = heading := by
  unfold ofCells
  rw [if_pos (by simpa [AreHeadings] using h)]

theorem ofCells_of_not (hheading : ¬ AreHeadings name type)
    (h : isIdentifier name = false ∨ type = []) :
    ofCells name type marker description = unrecognized := by
  unfold ofCells
  rw [if_neg (by simpa [AreHeadings] using hheading), if_pos (by simpa using h)]

/-- Cells are read as the row that they document, as headings or as neither. -/
theorem HasCells.reads (h : HasCells line name type marker description) :
    Reads line (ofCells name type marker description) := by
  by_cases hheading : AreHeadings name type
  · rw [ofCells_of_areHeadings hheading]
    exact .heading h hheading
  · by_cases hcells : isIdentifier name = false ∨ type = []
    · rw [ofCells_of_not hheading hcells]
      refine .unrecognized h.not_identifier fun name' type' marker' description' h' => ?_
      obtain ⟨rfl, rfl, -, -⟩ := h.eq h'
      exact ⟨hheading, hcells⟩
    · rw [not_or, Bool.not_eq_false] at hcells
      rw [ofCells_of_isIdentifier hcells.1 hcells.2 hheading]
      exact .field h hheading hcells.1 hcells.2 rfl

end Cells

/-- A trimmed line with one cell is that cell. -/
theorem eq_of_cells {line cell : Text} (htrim : trim line = line)
    (h : (splitOn '\t' line).map trim = [cell]) : cell = line := by
  obtain ⟨piece, hpiece, rfl⟩ := List.map_eq_singleton_iff.1 h
  have hline := joinWith_splitOn '\t' line
  rw [hpiece, joinWith_singleton] at hline
  rw [hline, htrim]

theorem reads_ofText {line : Text} (htrim : trim line = line) : Reads line (ofText line) := by
  -- neither one cell nor three or four: there is no name and no row
  have hother : ∀ cells, (splitOn '\t' line).map trim = cells → isIdentifier line = false →
      (∀ name type marker description,
        cells ≠ name :: type :: (Option.toList marker ++ [description])) →
        Reads line unrecognized :=
    fun cells hcells hname hne => .unrecognized hname fun name type marker description h =>
      absurd (hcells.symm.trans h) (hne name type marker description)
  unfold ofText
  split
  · next cell hcell =>
    obtain rfl := eq_of_cells htrim hcell
    split
    · next hname => exact .bare hname
    · next hname =>
      refine hother _ hcell (by simpa using hname) fun name type marker description => ?_
      cases marker <;> simp
  · next hcells => exact (show HasCells line _ _ none _ from hcells).reads
  · next marker _ hcells => exact (show HasCells line _ _ (some marker) _ from hcells).reads
  · next hone hthree hfour =>
    refine hother _ rfl ?_ fun name type marker description hcells => ?_
    · cases hline : isIdentifier line with
      | false => rfl
      | true =>
        let n : Identifier := ⟨line, hline⟩
        have hcell : (splitOn '\t' line).map trim = [line] := by
          rw [splitOn_of_notMem (n.notMem rfl), List.map_singleton, htrim]
        exact absurd hcell (hone line)
    · cases marker with
      | none => exact hthree _ _ _ hcells
      | some marker => exact hfour _ _ _ _ hcells

/-- A trimmed line is exactly what it is read as. -/
theorem reads_iff {line : Text} (htrim : trim line = line) {k : Line} :
    Reads line k ↔ ofText line = k := by
  refine ⟨fun h => ?_, fun h => h ▸ reads_ofText htrim⟩
  cases h with
  | bare hname => exact ofText_identifier ⟨line, hname⟩
  | field hcells hheading hname htype hoptional =>
    rw [hcells.ofText_eq, ofCells_of_isIdentifier hname htype hheading, ← hoptional]
  | heading hcells hheading => rw [hcells.ofText_eq, ofCells_of_areHeadings hheading]
  | unrecognized hname hnone =>
    have h := reads_ofText htrim
    generalize ofText line = k at h ⊢
    cases h with
    | bare hline => rw [hline] at hname; cases hname
    | field hcells hheading hr htype =>
      rcases (hnone _ _ _ _ hcells).2 with h | h
      · rw [h] at hr; cases hr
      · exact absurd h htype
    | heading hcells hheading => exact absurd hheading (hnone _ _ _ _ hcells).1
    | unrecognized => rfl

end Line

/-! ## Lines told apart -/

/-- The lines have these bare names, these field rows and these lines that are neither, each in
order; headings are left out. -/
inductive ToldApart : List Text → List Text → List FieldRow → List Text → Prop
  | nil : ToldApart [] [] [] []
  | bare {l n : Text} {ls ns : List Text} {rs : List FieldRow} {us : List Text} :
      Line.Reads l (.bare n) → ToldApart ls ns rs us → ToldApart (l :: ls) (n :: ns) rs us
  | field {l : Text} {r : FieldRow} {ls ns : List Text} {rs : List FieldRow} {us : List Text} :
      Line.Reads l (.field r) → ToldApart ls ns rs us → ToldApart (l :: ls) ns (r :: rs) us
  | heading {l : Text} {ls ns : List Text} {rs : List FieldRow} {us : List Text} :
      Line.Reads l .heading → ToldApart ls ns rs us → ToldApart (l :: ls) ns rs us
  | unrecognized {l : Text} {ls ns : List Text} {rs : List FieldRow} {us : List Text} :
      Line.Reads l .unrecognized → ToldApart ls ns rs us → ToldApart (l :: ls) ns rs (l :: us)

/-- The line is of the other kind than the bare names or field rows in front of it, and the first
that is. -/
def FirstMisfit (ls : List Text) (line : Text) : Prop :=
  ∃ before after, ls = before ++ line :: after ∧
    ((∃ n, Line.Reads line (.bare n)) ∧ (∃ l ∈ before, ∃ r, Line.Reads l (.field r)) ∧
        (∀ l ∈ before, ∀ n, ¬ Line.Reads l (.bare n)) ∨
      (∃ r, Line.Reads line (.field r)) ∧ (∃ l ∈ before, ∃ n, Line.Reads l (.bare n)) ∧
        ∀ l ∈ before, ∀ r, ¬ Line.Reads l (.field r))

section OneLine

variable {l : Text} (ls : List Text)

theorem bareNames_cons : bareNames (l :: ls) =
    (match Line.ofText l with | .bare n => [n] | _ => []) ++ bareNames ls := by
  unfold bareNames
  cases h : Line.ofText l <;> simp [h]

theorem fieldRows_cons : fieldRows (l :: ls) =
    (match Line.ofText l with | .field r => [r] | _ => []) ++ fieldRows ls := by
  unfold fieldRows
  cases h : Line.ofText l <;> simp [h]

theorem unrecognized_cons : unrecognized (l :: ls) =
    (match Line.ofText l with | .unrecognized => [l] | _ => []) ++ unrecognized ls := by
  unfold unrecognized
  cases h : Line.ofText l <;> simp [h]

end OneLine

theorem toldApart {ls : List Text} (htrim : ∀ l ∈ ls, trim l = l) :
    ToldApart ls (bareNames ls) (fieldRows ls) (unrecognized ls) := by
  induction ls with
  | nil => exact .nil
  | cons l ls ih =>
    have hrest := ih fun m hm => htrim m (List.mem_cons_of_mem l hm)
    have hl := Line.reads_ofText (htrim l List.mem_cons_self)
    rw [bareNames_cons, fieldRows_cons, unrecognized_cons]
    cases hline : Line.ofText l with
    | bare n => exact .bare (hline ▸ hl) hrest
    | field r => exact .field (hline ▸ hl) hrest
    | heading => exact .heading (hline ▸ hl) hrest
    | unrecognized => exact .unrecognized (hline ▸ hl) hrest

/-! ## Misfits -/

section Misfit

variable {ls : List Text} {l line : Text}

theorem isBare?_eq_true_iff (htrim : trim l = l) :
    isBare? l = some true ↔ ∃ n, Line.Reads l (.bare n) := by
  simp only [Line.reads_iff htrim, isBare?]
  cases Line.ofText l <;> simp

theorem isBare?_eq_false_iff (htrim : trim l = l) :
    isBare? l = some false ↔ ∃ r, Line.Reads l (.field r) := by
  simp only [Line.reads_iff htrim, isBare?]
  cases Line.ofText l <;> simp

theorem bareNames_eq_nil_iff : bareNames ls = [] ↔ ∀ l ∈ ls, isBare? l ≠ some true := by
  rw [bareNames, List.filterMap_eq_nil_iff]
  refine forall₂_congr fun l _ => ?_
  unfold isBare?
  cases Line.ofText l <;> simp

theorem fieldRows_eq_nil_iff : fieldRows ls = [] ↔ ∀ l ∈ ls, isBare? l ≠ some false := by
  rw [fieldRows, List.filterMap_eq_nil_iff]
  refine forall₂_congr fun l _ => ?_
  unfold isBare?
  cases Line.ofText l <;> simp

/-- In front of a misfit there are lines of one kind, and the misfit is of the other. -/
theorem exists_of_misfit? (h : misfit? ls = some line) :
    ∃ kind before after, ls = before ++ line :: after ∧ isBare? line = some !kind ∧
      (∃ l ∈ before, isBare? l = some kind) ∧ ∀ l ∈ before, isBare? l ≠ some !kind := by
  obtain ⟨kind, hkind, hline⟩ := Option.bind_eq_some_iff.1 h
  obtain ⟨hmisfit, before, after, rfl, hbefore⟩ := List.find?_eq_some_iff_append.1 hline
  have hmisfit : isBare? line = some !kind := by simpa using hmisfit
  refine ⟨kind, before, after, rfl, hmisfit, ?_, fun l hl => by simpa using hbefore l hl⟩
  rw [List.findSome?_append, List.findSome?_cons, hmisfit, Option.or_eq_some_iff] at hkind
  rcases hkind with hkind | ⟨-, hkind⟩
  · exact List.exists_of_findSome?_eq_some hkind
  · cases kind <;> cases hkind

theorem firstMisfit_of_misfit? (htrim : ∀ l ∈ ls, trim l = l) (h : misfit? ls = some line) :
    FirstMisfit ls line := by
  obtain ⟨kind, before, after, rfl, hline, hfirst, hbefore⟩ := exists_of_misfit? h
  have hmisfit : trim line = line := htrim line (List.mem_append_right _ List.mem_cons_self)
  have htrim : ∀ l ∈ before, trim l = l := fun l hl => htrim l (List.mem_append_left _ hl)
  refine ⟨before, after, rfl, ?_⟩
  cases kind with
  | false =>
    refine Or.inl ⟨(isBare?_eq_true_iff hmisfit).1 hline, ?_, fun l hl n hn => ?_⟩
    · obtain ⟨l, hl, hrow⟩ := hfirst
      exact ⟨l, hl, (isBare?_eq_false_iff (htrim l hl)).1 hrow⟩
    · exact hbefore l hl ((isBare?_eq_true_iff (htrim l hl)).2 ⟨n, hn⟩)
  | true =>
    refine Or.inr ⟨(isBare?_eq_false_iff hmisfit).1 hline, ?_, fun l hl r hr => ?_⟩
    · obtain ⟨l, hl, hbare⟩ := hfirst
      exact ⟨l, hl, (isBare?_eq_true_iff (htrim l hl)).1 hbare⟩
    · exact hbefore l hl ((isBare?_eq_false_iff (htrim l hl)).2 ⟨r, hr⟩)

/-- There is a misfit exactly where bare names and field rows both occur. -/
theorem misfit?_eq_none_iff_nil : misfit? ls = none ↔ bareNames ls = [] ∨ fieldRows ls = [] := by
  rw [bareNames_eq_nil_iff, fieldRows_eq_nil_iff, misfit?, Option.bind_eq_none_iff]
  constructor
  · intro h
    cases hkind : ls.findSome? isBare? with
    | none =>
      rw [List.findSome?_eq_none_iff] at hkind
      exact Or.inl fun l hl => by simp [hkind l hl]
    | some kind =>
      have hnone := h kind hkind
      rw [List.find?_eq_none] at hnone
      cases kind with
      | true => exact Or.inr fun l hl => by simpa using hnone l hl
      | false => exact Or.inl fun l hl => by simpa using hnone l hl
  · intro h kind hkind
    obtain ⟨l, hl, hfirst⟩ := List.exists_of_findSome?_eq_some hkind
    rw [List.find?_eq_none]
    rcases h with h | h
    · cases kind with
      | true => exact absurd hfirst (h l hl)
      | false => exact fun m hm => by simpa using h m hm
    · cases kind with
      | true => exact fun m hm => by simpa using h m hm
      | false => exact absurd hfirst (h l hl)

end Misfit

/-! ## One line after the other -/

/-- What has been read of the lines so far, with the kind of the first bare name or field row. -/
structure Progress where
  kind : Option Bool := none
  names : List Text := []
  rows : List FieldRow := []
  skipped : List Text := []

namespace Progress

/-- Reads on by one line; a line of the other kind is a misfit. -/
def add (p : Progress) (line : Text) : Except Text Progress :=
  match Line.ofText line with
  | .bare n =>
    if p.kind = some false then .error line
    else .ok { p with kind := some true, names := p.names ++ [n] }
  | .field r =>
    if p.kind = some true then .error line
    else .ok { p with kind := some false, rows := p.rows ++ [r] }
  | .heading => .ok p
  | .unrecognized => .ok { p with skipped := p.skipped ++ [line] }

/-- Reads on by lines, up to the first misfit. -/
def run (p : Progress) : List Text → Except Text Progress
  | [] => .ok p
  | l :: ls =>
    match p.add l with
    | .error line => .error line
    | .ok p => p.run ls

/-- The first line of another kind than what has been read, or than the first of the lines. -/
def misfit? (p : Progress) (ls : List Text) : Option Text :=
  (p.kind.or (ls.findSome? isBare?)).bind fun kind => ls.find? fun l => isBare? l == some !kind

/-- What has been read, the lines included. -/
def after (p : Progress) (ls : List Text) : Progress where
  kind := p.kind.or (ls.findSome? isBare?)
  names := p.names ++ bareNames ls
  rows := p.rows ++ fieldRows ls
  skipped := p.skipped ++ unrecognized ls

/-- What one line adds, where it is no misfit. -/
theorem add_eq (p : Progress) (l : Text) :
    p.add l = if (p.misfit? [l]).isSome then .error l else .ok (p.after [l]) := by
  obtain ⟨kind, names, rows, skipped⟩ := p
  unfold add misfit? after
  rw [bareNames_cons, fieldRows_cons, unrecognized_cons]
  cases hl : Line.ofText l <;> rcases kind with _ | _ | _ <;>
    simp [isBare?, hl, bareNames, fieldRows, unrecognized]

theorem misfit?_cons (p : Progress) (l : Text) (ls : List Text) : p.misfit? (l :: ls) =
    if (p.misfit? [l]).isSome then some l else (p.after [l]).misfit? ls := by
  obtain ⟨kind, names, rows, skipped⟩ := p
  unfold misfit? after
  cases hl : isBare? l with
  | none => simp [hl]
  | some b => rcases kind with _ | _ | _ <;> cases b <;> simp [hl]

theorem after_cons (p : Progress) (l : Text) (ls : List Text) :
    p.after (l :: ls) = (p.after [l]).after ls := by
  unfold after
  rw [bareNames_cons ls, fieldRows_cons ls, unrecognized_cons ls, bareNames_cons [],
    fieldRows_cons [], unrecognized_cons []]
  cases hl : isBare? l <;> simp [hl, bareNames, fieldRows, unrecognized]

/-- A run ends at the first misfit, or has read all names, all rows and all lines passed over. -/
theorem run_eq (p : Progress) (ls : List Text) : p.run ls =
    match p.misfit? ls with
    | some line => .error line
    | none => .ok (p.after ls) := by
  induction ls generalizing p with
  | nil =>
    have hnone : p.misfit? [] = none := by
      unfold misfit?
      cases p.kind <;> rfl
    have hafter : p.after [] = p := by
      obtain ⟨kind, names, rows, skipped⟩ := p
      cases kind <;> simp [after, bareNames, fieldRows, unrecognized]
    rw [hnone, hafter, run]
  | cons l ls ih =>
    rw [run, add_eq, misfit?_cons p l ls, after_cons p l ls]
    by_cases hl : (p.misfit? [l]).isSome = true
    · rw [if_pos hl, if_pos hl]
    · rw [if_neg hl, if_neg hl]
      exact ih (p.after [l])

/-- The shape of lines without a misfit. -/
def shape (p : Progress) : Shape :=
  match p.kind with
  | some true => .union p.names
  | _ => .record p.rows

end Progress

/-- The shape of a block, with its content lines read one after the other. -/
def classifyByLine (b : Block) (isOperation : Bool) : Except ShapeError Classification :=
  if occurs noParameters b.text then .ok ⟨.noInput, []⟩
  else
    match ({} : Progress).run (contentLines b isOperation) with
    | .error line => .error ⟨b.name, line⟩
    | .ok p => .ok ⟨p.shape, p.skipped⟩

/-- Without a misfit the kind of the first line is that of all. -/
theorem shape_after {ls : List Text} (h : misfit? ls = none) :
    (Progress.after {} ls).shape =
      if (bareNames ls).isEmpty then .record (fieldRows ls) else .union (bareNames ls) := by
  unfold Progress.shape Progress.after
  rw [Option.none_or, List.nil_append, List.nil_append]
  cases hkind : ls.findSome? isBare? with
  | none =>
    have hnone : bareNames ls = [] := by
      rw [List.findSome?_eq_none_iff] at hkind
      exact bareNames_eq_nil_iff.2 fun l hl => by simp [hkind l hl]
    simp [hnone]
  | some kind =>
    obtain ⟨l, hl, hfirst⟩ := List.exists_of_findSome?_eq_some hkind
    cases kind with
    | true =>
      have hne : bareNames ls ≠ [] := fun hnil => bareNames_eq_nil_iff.1 hnil l hl hfirst
      simp [hne]
    | false =>
      have hnone : bareNames ls = [] := (misfit?_eq_none_iff_nil.1 h).resolve_right
        fun hnil => fieldRows_eq_nil_iff.1 hnil l hl hfirst
      simp [hnone]

theorem classify_eq_classifyByLine (b : Block) (isOperation : Bool) :
    classify b isOperation = classifyByLine b isOperation := by
  unfold classify classifyByLine
  split
  · rfl
  · have hmisfit : Progress.misfit? {} (contentLines b isOperation) =
        misfit? (contentLines b isOperation) := rfl
    dsimp only
    rw [Progress.run_eq, hmisfit]
    cases h : misfit? (contentLines b isOperation) with
    | some line => rfl
    | none =>
      dsimp only
      rw [shape_after h]
      rfl

/-! ## Blocks -/

section Blocks

variable {b : Block} {isOperation : Bool}

theorem trim_of_mem_contentLines {l : Text} (h : l ∈ contentLines b isOperation) : trim l = l := by
  obtain ⟨line, -, rfl⟩ := List.mem_map.1 (List.mem_filter.1 h).1
  exact trim_trim line

theorem classify_of_marker (hmarker : occurs noParameters b.text = true) :
    classify b isOperation = .ok ⟨.noInput, []⟩ := by
  rw [classify, if_pos hmarker]

theorem classify_of_misfit {line : Text} (hmarker : occurs noParameters b.text = false)
    (h : misfit? (contentLines b isOperation) = some line) :
    classify b isOperation = .error ⟨b.name, line⟩ := by
  unfold classify
  rw [if_neg (by simp [hmarker])]
  dsimp only
  rw [h]

theorem classify_of_fit (hmarker : occurs noParameters b.text = false)
    (h : misfit? (contentLines b isOperation) = none) :
    classify b isOperation = .ok
      ⟨if bareNames (contentLines b isOperation) = [] then
          .record (fieldRows (contentLines b isOperation))
        else .union (bareNames (contentLines b isOperation)),
        unrecognized (contentLines b isOperation)⟩ := by
  unfold classify
  rw [if_neg (by simp [hmarker])]
  dsimp only
  rw [h]
  simp only [List.isEmpty_iff]

end Blocks

/-- **Main theorem.** A block with the sentence for it is without input, and nothing is passed
over. Else each content line is exactly one of bare name, field row, heading and neither; the block
is a fault exactly where bare names and field rows both occur, with its own name and the first
misfit for the fault; where it is none, it is the union of all bare names, if there are any, or the
record of all field rows, in order, and exactly the lines that are neither are passed over, in
order. It is the same to read the lines one after the other. -/
theorem classify_exact (b : Block) (isOperation : Bool) :
    (occurs noParameters b.text = true → classify b isOperation = .ok ⟨.noInput, []⟩) ∧
    (occurs noParameters b.text = false →
      (∀ l ∈ contentLines b isOperation, ∃! k, Line.Reads l k) ∧
      ∃ names rows skipped, ToldApart (contentLines b isOperation) names rows skipped ∧
        ((∃ e, classify b isOperation = .error e) ↔ names ≠ [] ∧ rows ≠ []) ∧
        (∀ e, classify b isOperation = .error e →
          e.entity = b.name ∧ FirstMisfit (contentLines b isOperation) e.line) ∧
        ∀ c, classify b isOperation = .ok c →
          c = ⟨if names = [] then .record rows else .union names, skipped⟩) ∧
    classify b isOperation = classifyByLine b isOperation := by
  have htrim : ∀ l ∈ contentLines b isOperation, trim l = l := fun l => trim_of_mem_contentLines
  refine ⟨classify_of_marker, fun hmarker => ⟨fun l hl => ?_, ?_⟩,
    classify_eq_classifyByLine b isOperation⟩
  · refine ⟨Line.ofText l, Line.reads_ofText (htrim l hl), fun k hk => ?_⟩
    exact ((Line.reads_iff (htrim l hl)).1 hk).symm
  · have hnil : misfit? (contentLines b isOperation) = none ↔ _ := misfit?_eq_none_iff_nil
    refine ⟨_, _, _, toldApart htrim, ?_⟩
    cases hmisfit : misfit? (contentLines b isOperation) with
    | some line =>
      rw [classify_of_misfit hmarker hmisfit]
      refine ⟨iff_of_true ⟨_, rfl⟩ ?_, fun e he => ?_, fun c hc => by cases hc⟩
      · simpa [hmisfit] using hnil
      · cases he
        exact ⟨rfl, firstMisfit_of_misfit? htrim hmisfit⟩
    | none =>
      rw [classify_of_fit hmarker hmisfit]
      refine ⟨iff_of_false (by simp) fun h => ?_, fun e he => (by cases he), fun c hc => ?_⟩
      · exact (hnil.1 hmisfit).elim h.1 h.2
      · exact (Except.ok.inj hc).symm

/-- A name behind a heading, a row and a line that is neither. -/
theorem classify_exact_stray :
    let b : Block := ⟨"User".toList, ["A user.".toList],
      ["Field\tType\tDescription".toList, "id\tInteger\tUnique".toList],
      ["two words".toList, " Stray".toList, "Other".toList]⟩
    occurs noParameters b.text = false ∧
      classify b false = .error ⟨"User".toList, "Stray".toList⟩ ∧
      FirstMisfit (contentLines b false) "Stray".toList := by
  intro b
  have hmarker : occurs noParameters b.text = false := by decide
  have hfault : classify b false = .error ⟨"User".toList, "Stray".toList⟩ := rfl
  obtain ⟨-, names, rows, skipped, -, -, hmisfit, -⟩ := (classify_exact b false).2.1 hmarker
  exact ⟨hmarker, hfault, (hmisfit _ hfault).2⟩

end DocTypes.Content
