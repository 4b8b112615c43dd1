/-
  Reading block by block. What crosses from one block to the next is the result announced last:
  `readBlocks_cons` gives the entities of one step, `lastResult_cons` what is carried on. A block
  itself depends on what came before in the result of its operation only (`entityWith_eq_map`).
-/
import DocTypes.Reading

namespace DocTypes

open Text Content Page Phrase

/-- The result that a block announces; only operations announce one. -/
def Page.Block.announcement? (b : Block) : Option TypeExpr :=
  if isOperationName b.name then announced? b.text else none

/-- The result announced last, where `last` was announced before the blocks. -/
def lastResult (last : Option TypeExpr) (bs : List Block) : Option TypeExpr :=
  (bs.filterMap Block.announcement?).getLast?.or last

/-- The entity that a block describes, were `returns` the result of its operation. -/
def entityWith (returns : TypeExpr) (b : Block) : Except ShapeError Entity :=
  match classify b (isOperationName b.name) with
  | .error e => .error e
  | .ok c =>
    if isOperationName b.name then
      (Request.ofShape b.name c.shape).map fun request =>
        ⟨String.ofList b.name, (operationDescription b).map String.ofList,
          .operation request returns⟩
    else .ok ⟨String.ofList b.name, b.prose.map String.ofList, Kind.ofShape c.shape⟩

/-- The entity with another result, where it is an operation. -/
def Entity.withResult (returns : TypeExpr) (e : Entity) : Entity :=
  match e.kind with
  | .operation request _ => { e with kind := .operation request returns }
  | _ => e

/-! ## One block -/

theorem isOperation_ofShape (s : Content.Shape) : (Kind.ofShape s).isOperation = false := by
  cases s <;> rfl

theorem withResult_of_dataShape {e : Entity} (h : e.isOperation = false) (t : TypeExpr) :
    e.withResult t = e := by
  unfold Entity.isOperation at h
  unfold Entity.withResult
  cases hk : e.kind with
  | operation request returns => rw [hk] at h; cases h
  | _ => rfl

/-- Where a block is a fault, it is one with any result; else only the result differs. -/
theorem entityWith_eq_map (t t' : TypeExpr) (b : Block) :
    entityWith t' b = (entityWith t b).map (Entity.withResult t') := by
  unfold entityWith
  cases classify b (isOperationName b.name) with
  | error e => rfl
  | ok c =>
    dsimp only
    split
    · cases Request.ofShape b.name c.shape <;> rfl
    · exact congrArg Except.ok (withResult_of_dataShape (e := ⟨_, _, Kind.ofShape c.shape⟩)
        (isOperation_ofShape c.shape) t').symm

theorem type_ofDescription (last : Option TypeExpr) (d : Text) :
    (Resolution.ofDescription last d).type = ((announced? d).or last).getD .unknown := by
  unfold Resolution.ofDescription
  cases announced? d <;> cases last <;> rfl

theorem carry_ofDescription (last : Option TypeExpr) (d : Text) :
    (Resolution.ofDescription last d).carry last = (announced? d).or last := by
  unfold Resolution.ofDescription
  cases announced? d <;> cases last <;> rfl

section Outcomes

variable {b : Block} {c : Classification} {e : ShapeError} (last : Option TypeExpr)

theorem ofBlock_of_misfit (h : classify b (isOperationName b.name) = .error e) :
    BlockReading.ofBlock last b = ⟨{}, .error e, last⟩ := by
  simp only [BlockReading.ofBlock, h]

theorem ofBlock_of_members (h : classify b (isOperationName b.name) = .ok c)
    (hop : isOperationName b.name = true) (hr : Request.ofShape b.name c.shape = .error e) :
    BlockReading.ofBlock last b = ⟨Notes.ofSkipped b.name c.skipped, .error e, last⟩ := by
  simp only [BlockReading.ofBlock, h, if_pos hop, hr]

theorem ofBlock_of_operation {request : Request}
    (h : classify b (isOperationName b.name) = .ok c) (hop : isOperationName b.name = true)
    (hr : Request.ofShape b.name c.shape = .ok request) :
    BlockReading.ofBlock last b =
      { notes := Notes.ofSkipped b.name c.skipped ++
          Notes.ofResolution b.name (Resolution.ofDescription last b.text)
        entity := .ok ⟨String.ofList b.name, (operationDescription b).map String.ofList,
          .operation request (Resolution.ofDescription last b.text).type⟩
        last := (Resolution.ofDescription last b.text).carry last } := by
  simp only [BlockReading.ofBlock, h, if_pos hop, hr]

theorem ofBlock_of_dataShape (h : classify b (isOperationName b.name) = .ok c)
    (hop : isOperationName b.name = false) :
    BlockReading.ofBlock last b =
      { notes := Notes.ofSkipped b.name c.skipped
        entity := .ok ⟨String.ofList b.name, b.prose.map String.ofList, Kind.ofShape c.shape⟩
        last } := by
  rw [hop] at h
  simp [BlockReading.ofBlock, h, hop]

end Outcomes

/-- A block takes its own result, else the one announced last, and hands that on unless it is a
fault. -/
theorem ofBlock_entity (last : Option TypeExpr) (b : Block) :
    (BlockReading.ofBlock last b).entity =
        entityWith ((b.announcement?.or last).getD .unknown) b ∧
      (∀ e, (BlockReading.ofBlock last b).entity = .ok e →
        (BlockReading.ofBlock last b).last = b.announcement?.or last) := by
  unfold entityWith Block.announcement?
  cases hc : classify b (isOperationName b.name) with
  | error e => simp [ofBlock_of_misfit last hc]
  | ok c =>
    cases hop : isOperationName b.name with
    | false => simp [ofBlock_of_dataShape last hc hop]
    | true =>
      cases hr : Request.ofShape b.name c.shape with
      | error e => simp [ofBlock_of_members last hc hop hr, hr, Except.map]
      | ok request =>
        rw [ofBlock_of_operation last hc hop hr, type_ofDescription, carry_ofDescription]
        simp [hr, Except.map]

/-! ## A run over blocks -/

theorem getLast?_filterMap_cons {α β : Type} (f : α → Option β) (a : α) (l : List α)
    (last : Option β) : ((a :: l).filterMap f).getLast?.or last =
      (l.filterMap f).getLast?.or ((f a).or last) := by
  cases ha : f a with
  | none => rw [List.filterMap_cons_none ha]; rfl
  | some t =>
    rw [List.filterMap_cons_some ha, List.getLast?_cons]
    cases (l.filterMap f).getLast? <;> rfl

theorem lastResult_cons (last : Option TypeExpr) (b : Block) (bs : List Block) :
    lastResult last (b :: bs) = lastResult (b.announcement?.or last) bs :=
  getLast?_filterMap_cons Block.announcement? b bs last

section FirstBlock

variable {last : Option TypeExpr} {b : Block} (bs : List Block)

/-- A fault ends the run. -/
theorem readBlocks_of_error {e : ShapeError} (h : (BlockReading.ofBlock last b).entity = .error e) :
    readBlocks last (b :: bs) = ((BlockReading.ofBlock last b).notes, .error e) := by
  rw [readBlocks]
  dsimp only
  rw [h]

/-- An entity stands in front of what the run over the other blocks gives. -/
theorem readBlocks_of_ok {e : Entity} (h : (BlockReading.ofBlock last b).entity = .ok e) :
    readBlocks last (b :: bs) =
      ((BlockReading.ofBlock last b).notes ++ (readBlocks (BlockReading.ofBlock last b).last bs).1,
        (readBlocks (BlockReading.ofBlock last b).last bs).2.map (e :: ·)) := by
  rw [readBlocks]
  dsimp only
  rw [h]

end FirstBlock

/-- The entities of a block and those that follow it. -/
theorem readBlocks_cons (last : Option TypeExpr) (b : Block) (bs : List Block) :
    (readBlocks last (b :: bs)).2 =
      (entityWith ((b.announcement?.or last).getD .unknown) b).bind fun e =>
        (readBlocks (b.announcement?.or last) bs).2.map (e :: ·) := by
  obtain ⟨hentity, hlast⟩ := ofBlock_entity last b
  rw [← hentity]
  cases he : (BlockReading.ofBlock last b).entity with
  | error e => rw [readBlocks_of_error bs he]; rfl
  | ok e => rw [readBlocks_of_ok bs he, hlast e he]; rfl

/-- A run without a fault starts with the reading of its first block. -/
theorem readBlocks_cons_eq_ok {last : Option TypeExpr} {b : Block} {bs : List Block}
    {es : List Entity} (h : (readBlocks last (b :: bs)).2 = .ok es) :
    ∃ e es', es = e :: es' ∧ (BlockReading.ofBlock last b).entity = .ok e ∧
      (readBlocks (BlockReading.ofBlock last b).last bs).2 = .ok es' ∧
      (readBlocks last (b :: bs)).1 = (BlockReading.ofBlock last b).notes ++
        (readBlocks (BlockReading.ofBlock last b).last bs).1 := by
  cases he : (BlockReading.ofBlock last b).entity with
  | error e => rw [readBlocks_of_error bs he] at h; cases h
  | ok e =>
    rw [readBlocks_of_ok bs he] at h ⊢
    cases hrest : (readBlocks (BlockReading.ofBlock last b).last bs).2 with
    | error e' => rw [hrest] at h; cases h
    | ok es' =>
      rw [hrest] at h
      cases h
      exact ⟨e, es', rfl, rfl, rfl, rfl⟩

/-- The entities of blocks one after the other. -/
theorem readBlocks_append (last : Option TypeExpr) (bs cs : List Block) :
    (readBlocks last (bs ++ cs)).2 = (readBlocks last bs).2.bind fun es =>
      (readBlocks (lastResult last bs) cs).2.map (es ++ ·) := by
  induction bs generalizing last with
  | nil =>
    show (readBlocks last cs).2 = (readBlocks last cs).2.map ([] ++ ·)
    cases (readBlocks last cs).2 <;> rfl
  | cons b bs ih =>
    rw [List.cons_append, readBlocks_cons, readBlocks_cons, lastResult_cons, ih]
    cases entityWith ((b.announcement?.or last).getD .unknown) b with
    | error e => rfl
    | ok e =>
      cases (readBlocks (b.announcement?.or last) bs).2 with
      | error e => rfl
      | ok es => cases (readBlocks (lastResult (b.announcement?.or last) bs) cs).2 <;> rfl

end DocTypes
