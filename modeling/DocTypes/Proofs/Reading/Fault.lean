/-
  A fault ends the reading of a page. Which blocks are faults depends on their content alone, not on
  what was read before (`Block.Inconsistent`): bare names and field rows both occur, or bare names
  occur in an operation. A run keeps exactly what the blocks in front of the first fault give
  (`readBlocks_fault`). Of the fault itself one thing can be noted: an operation with bare names
  only has a shape before it is found that its members cannot be parameters, so that the lines
  that were passed over in it are on record (`Block.skippedAtFault`).
-/
import DocTypes.Proofs.Content.Classification
import DocTypes.Proofs.Reading.Entities

namespace DocTypes

open Text Content Page Phrase

/-! ## One block -/

/-- The block contradicts itself: it has bare names, and field rows or the name of an operation. -/
structure Page.Block.Inconsistent (b : Block) : Prop where
  takes_input : occurs noParameters b.text = false
  members_ne_nil : b.members ≠ []
  clash : isOperationName b.name = true ∨ b.fields ≠ []

instance (b : Block) : Decidable b.Inconsistent :=
  decidable_of_iff (occurs noParameters b.text = false ∧ b.members ≠ [] ∧
    (isOperationName b.name = true ∨ b.fields ≠ []))
    ⟨fun ⟨h1, h2, h3⟩ => ⟨h1, h2, h3⟩, fun ⟨h1, h2, h3⟩ => ⟨h1, h2, h3⟩⟩

/-- The lines noted of a block that is a fault: where there is no misfit among its content lines,
it is known which of them were passed over. -/
def Page.Block.skippedAtFault (b : Block) : List Text :=
  if b.fields.isEmpty then unrecognized (contentLines b (isOperationName b.name)) else []

section Outcome

variable {b : Block}

/-- Without a misfit there are only bare names in a block, or only field rows. -/
theorem misfit?_contentLines_eq_none_iff :
    misfit? (contentLines b (isOperationName b.name)) = none ↔ b.members = [] ∨ b.fields = [] := by
  rw [misfit?_eq_none_iff_nil, Block.members, Block.fields, List.map_eq_nil_iff]

/-- A block that contradicts itself is a fault, with its own name. -/
theorem ofBlock_of_inconsistent (last : Option TypeExpr) (h : b.Inconsistent) :
    ∃ line, BlockReading.ofBlock last b =
      ⟨Notes.ofSkipped b.name b.skippedAtFault, .error ⟨b.name, line⟩, last⟩ := by
  obtain ⟨hmarker, hmembers, hclash⟩ := h
  unfold Block.skippedAtFault
  cases hmisfit : misfit? (contentLines b (isOperationName b.name)) with
  | some line =>
    have hfields : b.fields ≠ [] := fun hnil => by
      rw [misfit?_contentLines_eq_none_iff.2 (Or.inr hnil)] at hmisfit
      cases hmisfit
    rw [if_neg fun hempty => hfields (List.isEmpty_iff.1 hempty)]
    exact ⟨line, ofBlock_of_misfit last (classify_of_misfit hmarker hmisfit)⟩
  | none =>
    have hfields : b.fields = [] :=
      (misfit?_contentLines_eq_none_iff.1 hmisfit).resolve_left hmembers
    have hclassify := classify_of_fit hmarker hmisfit
    rw [if_neg (show ¬ bareNames _ = [] from hmembers)] at hclassify
    rw [if_pos (List.isEmpty_iff.2 hfields)]
    exact ⟨b.members.headD [],
      ofBlock_of_members last hclassify (hclash.resolve_right fun hne => hne hfields) rfl⟩

/-- Any other block has an entity. -/
theorem ofBlock_of_consistent (last : Option TypeExpr) (h : ¬ b.Inconsistent) :
    ∃ e, (BlockReading.ofBlock last b).entity = .ok e := by
  have hone : ∀ {c : Classification}, classify b (isOperationName b.name) = .ok c →
      (isOperationName b.name = true → ∃ request, Request.ofShape b.name c.shape = .ok request) →
        ∃ e, (BlockReading.ofBlock last b).entity = .ok e := by
    intro c hc hrequest
    cases hop : isOperationName b.name with
    | false => exact ⟨_, congrArg BlockReading.entity (ofBlock_of_dataShape last hc hop)⟩
    | true =>
      obtain ⟨request, hr⟩ := hrequest hop
      exact ⟨_, congrArg BlockReading.entity (ofBlock_of_operation last hc hop hr)⟩
  cases hmarker : occurs noParameters b.text with
  | true => exact hone (classify_of_marker hmarker) fun _ => ⟨.noInput, rfl⟩
  | false =>
    have hmembers : (isOperationName b.name = true ∨ b.fields ≠ []) → b.members = [] :=
      fun hclash => not_not.1 fun hne => h ⟨hmarker, hne, hclash⟩
    have hfit : misfit? (contentLines b (isOperationName b.name)) = none := by
      rw [misfit?_contentLines_eq_none_iff, or_iff_not_imp_right]
      exact fun hne => hmembers (Or.inr hne)
    refine hone (classify_of_fit hmarker hfit) fun hop => ?_
    rw [if_pos (show bareNames _ = [] from hmembers (Or.inl hop))]
    exact ⟨_, rfl⟩

end Outcome

/-! ## A run -/

theorem Notes.append_assoc (m n o : Notes) : m ++ n ++ o = m ++ (n ++ o) := by
  show Notes.mk _ _ _ = Notes.mk _ _ _
  congr 1 <;> exact List.append_assoc _ _ _

section Run

variable {bs : List Block}

/-- Blocks that do not contradict themselves are no faults. -/
theorem readBlocks_of_consistent (last : Option TypeExpr) (h : ∀ b ∈ bs, ¬ b.Inconsistent) :
    ∃ es, (readBlocks last bs).2 = .ok es := by
  induction bs generalizing last with
  | nil => exact ⟨[], rfl⟩
  | cons b bs ih =>
    obtain ⟨e, he⟩ := ofBlock_of_consistent last (h b List.mem_cons_self)
    obtain ⟨es, hes⟩ := ih (BlockReading.ofBlock last b).last fun c hc =>
      h c (List.mem_cons_of_mem b hc)
    rw [readBlocks_of_ok bs he, hes]
    exact ⟨e :: es, rfl⟩

/-- The first block that contradicts itself ends a run: there are the notes of the blocks in front
of it, and then its own. -/
theorem readBlocks_fault (last : Option TypeExpr) {b : Block} (hbs : ∀ c ∈ bs, ¬ c.Inconsistent)
    (hb : b.Inconsistent) (cs : List Block) :
    ∃ line, readBlocks last (bs ++ b :: cs) =
      ((readBlocks last bs).1 ++ Notes.ofSkipped b.name b.skippedAtFault,
        .error ⟨b.name, line⟩) := by
  induction bs generalizing last with
  | nil =>
    obtain ⟨line, hline⟩ := ofBlock_of_inconsistent last hb
    refine ⟨line, ?_⟩
    rw [List.nil_append, readBlocks_of_error cs (congrArg BlockReading.entity hline), hline]
    rfl
  | cons c bs ih =>
    obtain ⟨e, he⟩ := ofBlock_of_consistent last (hbs c List.mem_cons_self)
    obtain ⟨line, hrun⟩ := ih (BlockReading.ofBlock last c).last fun d hd =>
      hbs d (List.mem_cons_of_mem c hd)
    refine ⟨line, ?_⟩
    rw [List.cons_append, readBlocks_of_ok _ he, readBlocks_of_ok _ he, hrun, Notes.append_assoc]
    rfl

end Run

/-- In front of the first block that contradicts itself none does. -/
theorem exists_first_inconsistent {bs : List Block} (h : ∃ b ∈ bs, b.Inconsistent) :
    ∃ before b after, bs = before ++ b :: after ∧
      (∀ c ∈ before, ¬ c.Inconsistent) ∧ b.Inconsistent := by
  have hfind : (bs.find? fun b => decide b.Inconsistent).isSome = true := by
    simpa only [List.find?_isSome, decide_eq_true_eq] using h
  obtain ⟨b, hb⟩ := Option.isSome_iff_exists.1 hfind
  obtain ⟨hb, before, after, hbs, hbefore⟩ := List.find?_eq_some_iff_append.1 hb
  exact ⟨before, b, after, hbs, fun c hc => by simpa using hbefore c hc, of_decide_eq_true hb⟩

/-! ## Pages -/

/-- The fault that ends a reading, if there is one. -/
def Reading.fault? (r : Reading) : Option ShapeError :=
  match r.entities with
  | .error e => some e
  | .ok _ => none

theorem Reading.fault?_eq_some_iff {r : Reading} {e : ShapeError} :
    r.fault? = some e ↔ r.entities = .error e := by
  unfold Reading.fault?
  cases r.entities <;> simp

/-- **Main theorem.** Where the reading of a page ends with a fault, the fault is the first block
that contradicts itself. All blocks are counted, and what is on record are the notes of the blocks
in front of it, with the lines that were passed over in the block itself if it is an operation with
bare names only. The warnings are those of missing results in front of the block. -/
theorem Reading.notes_of_fault {page : Text} {e : ShapeError}
    (h : (Reading.ofPage page).entities = .error e) :
    ∃ before b after, Page.blocks page = before ++ b :: after ∧
      (∀ c ∈ before, ¬ c.Inconsistent) ∧ b.Inconsistent ∧ e.entity = b.name ∧
      (Reading.ofPage page).blocks = (Page.blocks page).length ∧
      ∃ earlier es, readBlocks none before = (earlier, .ok es) ∧
        (Reading.ofPage page).notes.carriedOver = earlier.carriedOver ∧
        (Reading.ofPage page).notes.missing = earlier.missing ∧
        (Reading.ofPage page).notes.skipped =
          earlier.skipped ++ b.skippedAtFault.map (b.name, ·) ∧
        (Reading.ofPage page).warnings =
          earlier.missing.map fun n => "no return type found for " ++ String.ofList n := by
  have hfault : (readBlocks none (Page.blocks page)).2 = .error e := h
  have hsome : ∃ b ∈ Page.blocks page, b.Inconsistent := by
    by_contra hnone
    obtain ⟨es, hes⟩ := readBlocks_of_consistent none fun b hb hb' => hnone ⟨b, hb, hb'⟩
    rw [hfault] at hes
    cases hes
  obtain ⟨before, b, after, hblocks, hbefore, hb⟩ := exists_first_inconsistent hsome
  obtain ⟨es, hes⟩ := readBlocks_of_consistent none hbefore
  obtain ⟨line, hrun⟩ := readBlocks_fault none hbefore hb after
  rw [← hblocks] at hrun
  have hnotes : (Reading.ofPage page).notes =
      (readBlocks none before).1 ++ Notes.ofSkipped b.name b.skippedAtFault :=
    congrArg Prod.fst hrun
  have hmissing : (Reading.ofPage page).notes.missing = (readBlocks none before).1.missing := by
    rw [hnotes]
    exact List.append_nil _
  have hname : e = ⟨b.name, line⟩ :=
    Except.error.inj (hfault.symm.trans (congrArg Prod.snd hrun))
  refine ⟨before, b, after, hblocks, hbefore, hb, by rw [hname], rfl, _, es, Prod.ext rfl hes, ?_,
    hmissing, by rw [hnotes]; rfl, ?_⟩
  · rw [hnotes]
    exact List.append_nil _
  · have hfindings : (Reading.ofPage page).findings = [] := by rw [Reading.findings, h]
    rw [Reading.warnings, hfindings, hmissing]
    exact List.append_nil _

/-- A result is missing in front of an operation with a bare name; the block behind it is only
counted. -/
theorem Reading.notes_of_fault_getMe :
    let page := ("<h4>close</h4><h4>getMe</h4><table><tr><td>User</td></tr></table>" ++
      "<h4>logOut</h4>").toList
    let r := Reading.ofPage page
    r.entities = .error ⟨"getMe".toList, "User".toList⟩ ∧ r.blocks = 3 ∧
      r.notes = { missing := ["close".toList] } ∧
      ∃ b ∈ Page.blocks page, b.Inconsistent ∧ "getMe".toList = b.name := by
  intro page r
  have hfault : r.entities = .error ⟨"getMe".toList, "User".toList⟩ :=
    fault?_eq_some_iff.1 (by decide +kernel)
  obtain ⟨before, b, after, hblocks, -, hb, hname, -⟩ := Reading.notes_of_fault hfault
  have hmem : b ∈ Page.blocks page := hblocks ▸ List.mem_append_right _ List.mem_cons_self
  exact ⟨hfault, by decide +kernel, by decide +kernel, b, hmem, hb, hname⟩

/-- The line that no shape has is on record, though no block stands in front of the fault. -/
theorem Reading.skipped_of_fault :
    let page := "<h4>getMe</h4><table><tr><td>User</td></tr><tr><td>no name</td></tr></table>".toList
    let r := Reading.ofPage page
    r.entities = .error ⟨"getMe".toList, "User".toList⟩ ∧
      (∃ b, Page.blocks page = [] ++ b :: [] ∧ b.Inconsistent) ∧
      r.notes.skipped = [("getMe".toList, "no name".toList)] ∧
      (readBlocks none []).1.skipped = [] := by
  intro page r
  refine ⟨fault?_eq_some_iff.1 (by decide +kernel), ?_, by decide +kernel, rfl⟩
  exact ⟨⟨"getMe".toList, [], ["User".toList, "no name".toList], []⟩, by decide +kernel,
    by decide +kernel⟩

end DocTypes
