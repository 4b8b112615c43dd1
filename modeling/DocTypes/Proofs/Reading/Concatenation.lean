/-
  Readings of pages one after the other. The lines, the sections and the blocks of the two pages
  are read apart; what crosses from the first page to the second is the result announced last,
  which the operations of the second page have until one of them announces its own.
-/
import DocTypes.Proofs.Page.Heading
import DocTypes.Proofs.Page.Sections
import DocTypes.Proofs.Reading.Blocks

namespace DocTypes

open Text Markup Page

/-! ## What crosses between pages -/

/-- The entities of the blocks `bs` after a page that announced `last`: the operations in front of
the first block that announces a result have `last` for theirs. -/
def carryOver (last : Option TypeExpr) (bs : List Block) (es : List Entity) : List Entity :=
  match last with
  | none => es
  | some t =>
    let k := bs.findIdx fun b => b.announcement?.isSome
    (es.take k).map (Entity.withResult t) ++ es.drop k

theorem carryOver_of_announces {b : Block} (h : b.announcement?.isSome) (last : Option TypeExpr)
    (bs : List Block) (es : List Entity) : carryOver last (b :: bs) es = es := by
  unfold carryOver
  cases last with
  | none => rfl
  | some t => rw [List.findIdx_cons, h]; rfl

theorem carryOver_cons {b : Block} (h : b.announcement? = none) (t : TypeExpr)
    (bs : List Block) (e : Entity) (es : List Entity) :
    carryOver (some t) (b :: bs) (e :: es) = e.withResult t :: carryOver (some t) bs es := by
  simp only [carryOver, List.findIdx_cons, h, Option.isSome_none, cond_false, List.take_succ_cons,
    List.drop_succ_cons, List.map_cons, List.cons_append]

/-- Reading on from `last` gives the entities of a reading from nothing, with `last` carried over
to them. -/
theorem readBlocks_eq_map (last : Option TypeExpr) (bs : List Block) :
    (readBlocks last bs).2 = (readBlocks none bs).2.map (carryOver last bs) := by
  cases last with
  | none =>
    show _ = (readBlocks none bs).2.map fun es => es
    cases (readBlocks none bs).2 <;> rfl
  | some t =>
    induction bs with
    | nil => rfl
    | cons b bs ih =>
      rw [readBlocks_cons, readBlocks_cons]
      cases hb : b.announcement? with
      | some u =>
        have hcarry := carryOver_of_announces (b := b) (by rw [hb]; rfl) (some t) bs
        simp only [Option.some_or, Option.getD_some]
        cases entityWith u b with
        | error e => rfl
        | ok e => cases (readBlocks (some u) bs).2 <;> simp [Except.bind, Except.map, hcarry]
      | none =>
        simp only [Option.none_or, Option.getD_some, Option.getD_none]
        rw [entityWith_eq_map .unknown t b, ih]
        cases entityWith .unknown b with
        | error e => rfl
        | ok e =>
          cases (readBlocks none bs).2 <;> simp [Except.bind, Except.map, carryOver_cons hb]

/-! ## Sections and blocks -/

/-- The sections of a page without a `<` after its last `>` and of a page that starts with a
heading are those of the two. -/
theorem sections_append {page next : Text} (hclosed : '>' ∈ page → '<' ∉ afterLast '>' page)
    (hhead : (nonblankLines (unifyLineEnds next)).head?.any isHeading = true) :
    sections (page ++ '\n' :: next) = sections page ++ sections next := by
  have hnext := isHeading_head?_lines hhead
  by_cases hgt : '>' ∈ page
  · rw [sections, lines_append (tagsClosed_iff.2 (hclosed hgt)), sectionsOfLines_append _ hnext]
    rfl
  · -- tags may be open where the pages meet, but there is no section before
    obtain ⟨ls, hlines, hls⟩ := exists_lines_append hgt (isHeading_trimStart hhead)
    have hpage : sections page = [] := sectionsOfLines_of_notMem (lines_of_notMem hgt)
    rw [hpage, sections, hlines, sectionsOfLines_append _ hnext, sectionsOfLines_of_notMem hls]
    rfl

theorem blocks_append {page next : Text} (hclosed : '>' ∈ page → '<' ∉ afterLast '>' page)
    (hhead : (nonblankLines (unifyLineEnds next)).head?.any isHeading = true) :
    blocks (page ++ '\n' :: next) = blocks page ++ blocks next := by
  rw [blocks, fragments, sections_append hclosed hhead, List.map_append, List.map_append]
  rfl

/-! ## Readings -/

/-- **Main theorem.** Where the first page has no `<` after its last `>`, and the first nonblank
line of the next (lines end at a newline, a carriage return or both) is a heading, a reading of
the two is a reading of each: the first fault ends it, and else the entities are those of the
first and then those of the next, with the result announced last on the first carried over. -/
theorem Reading.entities_append (page next : Text)
    (hclosed : '>' ∈ page → '<' ∉ afterLast '>' page)
    (hhead : (nonblankLines (unifyLineEnds next)).head?.any isHeading = true) :
    (Reading.ofPage (page ++ '\n' :: next)).entities = do
      let es ← (Reading.ofPage page).entities
      let es' ← (Reading.ofPage next).entities
      return es ++ carryOver (lastResult none (Page.blocks page)) (Page.blocks next) es' := by
  show (readBlocks none (Page.blocks (page ++ '\n' :: next))).2 = _
  rw [blocks_append hclosed hhead, readBlocks_append]
  show _ = (readBlocks none (Page.blocks page)).2.bind fun es =>
    (readBlocks none (Page.blocks next)).2.bind fun es' => .ok (es ++ _)
  cases (readBlocks none (Page.blocks page)).2 with
  | error e => rfl
  | ok es =>
    show (readBlocks (lastResult none (Page.blocks page)) (Page.blocks next)).2.map _ = _
    rw [readBlocks_eq_map]
    cases (readBlocks none (Page.blocks next)).2 <;> rfl

/-- Of two pages with an operation each, the second without a result of its own. -/
theorem entities_append_operations :
    let page := "<h4>getMe</h4><p>Returns User.</p>".toList
    let next := "<h4>close</h4><p>Closes.</p>".toList
    ('>' ∈ page → '<' ∉ afterLast '>' page) ∧
      (nonblankLines (unifyLineEnds next)).head?.any isHeading = true ∧
      (Reading.ofPage (page ++ '\n' :: next)).entities = do
        let es ← (Reading.ofPage page).entities
        let es' ← (Reading.ofPage next).entities
        return es ++ carryOver (lastResult none (Page.blocks page)) (Page.blocks next) es' :=
  ⟨by decide, by decide, Reading.entities_append _ _ (by decide) (by decide)⟩

end DocTypes
