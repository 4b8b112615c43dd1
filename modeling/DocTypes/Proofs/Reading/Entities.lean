/-
  The entities of a page, block by block. `Describes b returns e` says what the entity of a block
  is, were `returns` the result of its operation: it has the name and the paragraphs of the block,
  and the kind that the content lines give. The blocks of a page describe its entities, one by one
  (`describes_ofPage`), and the results that go from one to the next are those that can be
  announced.
-/
import Mathlib.Data.List.Forall2
import DocTypes.Proofs.Content.Shape
import DocTypes.Proofs.Phrase.Returns
import DocTypes.Proofs.Reading.Blocks

namespace DocTypes

open Text Content Page Phrase

/-! ## One block -/

/-- The fields in the content lines of a block. -/
def Page.Block.fields (b : Block) : List Field :=
  (fieldRows (contentLines b (isOperationName b.name))).map Field.ofRow

/-- The names in the content lines of a block. -/
def Page.Block.members (b : Block) : List Text :=
  bareNames (contentLines b (isOperationName b.name))

/-- The kind of the entity that a block describes, were `returns` the result of its operation. -/
inductive KindOf (b : Block) (returns : TypeExpr) : Kind → Prop
  | union : isOperationName b.name = false → occurs noParameters b.text = false → b.members ≠ [] →
      KindOf b returns (.union (b.members.map String.ofList))
  | record : isOperationName b.name = false → occurs noParameters b.text = false →
      KindOf b returns (.record b.fields)
  | noInput : isOperationName b.name = false → occurs noParameters b.text = true →
      KindOf b returns .noInput
  | operation : isOperationName b.name = true → occurs noParameters b.text = false →
      KindOf b returns (.operation (.record b.fields) returns)
  | operationNoInput : isOperationName b.name = true → occurs noParameters b.text = true →
      KindOf b returns (.operation .noInput returns)

/-- The block describes the entity, with `returns` for the result of an operation. -/
structure Describes (b : Block) (returns : TypeExpr) (e : Entity) : Prop where
  name_eq : e.name = String.ofList b.name
  description_eq : e.description = (if isOperationName b.name then operationDescription b
    else b.prose).map String.ofList
  kind : KindOf b returns e.kind

/-- A block without a fault describes its entity. -/
theorem describes_of_entityWith {b : Block} {returns : TypeExpr} {e : Entity}
    (h : entityWith returns b = .ok e) : Describes b returns e := by
  unfold entityWith at h
  cases hc : classify b (isOperationName b.name) with
  | error e' => rw [hc] at h; cases h
  | ok c =>
    have hclassified := classified hc
    rw [hc] at h
    dsimp only at h
    cases hop : isOperationName b.name with
    | true =>
      rw [hop, if_pos rfl] at h
      cases hclassified with
      | noInput hmarker =>
        cases h
        exact ⟨rfl, by rw [if_pos hop], .operationNoInput hop hmarker⟩
      | record hmarker =>
        cases h
        exact ⟨rfl, by rw [if_pos hop], .operation hop hmarker⟩
      | union => cases h
    | false =>
      rw [hop, if_neg Bool.false_ne_true] at h
      cases hclassified with
      | noInput hmarker =>
        cases h
        exact ⟨rfl, by rw [hop]; rfl, .noInput hop hmarker⟩
      | record hmarker =>
        cases h
        exact ⟨rfl, by rw [hop]; rfl, .record hop hmarker⟩
      | union hmarker hne =>
        cases h
        exact ⟨rfl, by rw [hop]; rfl, .union hop hmarker hne⟩

namespace Describes

variable {b : Block} {returns : TypeExpr} {e : Entity}

theorem isOperation_eq (h : Describes b returns e) : e.isOperation = isOperationName b.name := by
  obtain ⟨name, description, kind⟩ := e
  obtain ⟨-, -, hkind⟩ := h
  cases hkind with
  | union hop => exact hop.symm
  | record hop => exact hop.symm
  | noInput hop => exact hop.symm
  | operation hop => exact hop.symm
  | operationNoInput hop => exact hop.symm

theorem mem_fields (h : Describes b returns e) {f : Field} (hf : f ∈ e.fields) :
    f ∈ b.fields := by
  obtain ⟨name, description, kind⟩ := e
  obtain ⟨-, -, hkind⟩ := h
  cases hkind with
  | record => exact hf
  | operation => exact hf
  | union => cases hf
  | noInput => cases hf
  | operationNoInput => cases hf

end Describes

/-! ## A run -/

theorem isResult_announcement {b : Block} {last : Option TypeExpr}
    (hlast : ∀ t ∈ last, t.IsResult) : ∀ t ∈ b.announcement?.or last, t.IsResult := by
  intro t ht
  rcases Option.or_eq_some_iff.1 ht with ht | ⟨-, ht⟩
  · unfold Block.announcement? at ht
    split at ht
    · exact isResult_of_announced ht
    · cases ht
  · exact hlast t ht

/-- The blocks describe the entities, one by one, for some results that can be announced. -/
abbrev DescribeAll (bs : List Block) (es : List Entity) : Prop :=
  List.Forall₂ (fun b e => ∃ t : TypeExpr, t.IsResult ∧ Describes b t e) bs es

/-- The blocks of a run without a fault describe its entities. -/
theorem describes_readBlocks {last : Option TypeExpr} (hlast : ∀ t ∈ last, t.IsResult)
    {bs : List Block} {es : List Entity} (h : (readBlocks last bs).2 = .ok es) :
    DescribeAll bs es := by
  induction bs generalizing last es with
  | nil =>
    cases h
    exact .nil
  | cons b bs ih =>
    obtain ⟨e, es', rfl, he, hrest, -⟩ := readBlocks_cons_eq_ok h
    obtain ⟨hentity, hcarry⟩ := ofBlock_entity last b
    have hnext := isResult_announcement (b := b) hlast
    have hreturns : ((b.announcement?.or last).getD .unknown).IsResult := by
      cases ht : b.announcement?.or last with
      | none => exact TypeExpr.isResult_unknown
      | some t => exact hnext t ht
    rw [hcarry e he] at hrest
    exact .cons ⟨_, hreturns, describes_of_entityWith (hentity.symm.trans he)⟩ (ih hnext hrest)

section Pages

variable {page : Text} {es : List Entity}

/-- The blocks of a page without a fault describe its entities. -/
theorem describes_ofPage (h : (Reading.ofPage page).entities = .ok es) :
    DescribeAll (blocks page) es :=
  describes_readBlocks (fun _ ht => by cases ht) h

/-- Every entity of a page is that of a block. -/
theorem exists_describes (h : (Reading.ofPage page).entities = .ok es) {e : Entity} (he : e ∈ es) :
    ∃ b ∈ blocks page, ∃ t : TypeExpr, t.IsResult ∧ Describes b t e := by
  have hrun := describes_ofPage h
  obtain ⟨i, hi, rfl⟩ := List.getElem_of_mem he
  have hb : i < (blocks page).length := hrun.length_eq ▸ hi
  exact ⟨(blocks page)[i], List.getElem_mem hb, hrun.get hb hi⟩

end Pages

end DocTypes
