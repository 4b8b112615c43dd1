/-
  The results of the operations of a page. One step (`ofBlock_operation`, `ofBlock_dataShape`)
  records how an operation's result came to be known and hands on the result announced last; a run
  (`records_readBlocks`) records this of every operation, in order. How the `i`-th operation comes
  by its result depends on what the operations up to it announce, and on nothing else (`At`).
-/
import DocTypes.Proofs.Reading.Blocks

namespace DocTypes

open Text Page Phrase

/-! ## Resolutions -/

namespace Phrase.Resolution

def isCarriedOver : Resolution → Bool
  | carriedOver _ => true
  | _ => false

def isMissing : Resolution → Bool
  | missing => true
  | _ => false

/-- How the `i`-th of operations that announce `ts` comes by its result: from itself, else from the
nearest operation before it that announces one, else not at all. -/
inductive At (ts : List (Option TypeExpr)) (i : Nat) : Resolution → Prop
  | found {t : TypeExpr} : ts[i]? = some (some t) → At ts i (found t)
  | carriedOver {j : Nat} {t : TypeExpr} :
      ts[i]? = some none → j < i → ts[j]? = some (some t) →
        (∀ k, j < k → k < i → ts[k]? = some none) → At ts i (carriedOver t)
  | missing : ts[i]? = some none → (∀ k, k < i → ts[k]? = some none) → At ts i missing

/-- Each result of a run is resolved with the one announced last before it. -/
theorem getElem?_ofDescriptions (last : Option TypeExpr) (ds : List Text) (i : Nat) :
    (ofDescriptions last ds)[i]? = ds[i]?.map
      (ofDescription (((ds.take i).filterMap announced?).getLast?.or last)) := by
  induction ds generalizing last i with
  | nil => rfl
  | cons d ds ih =>
    cases i with
    | zero => rfl
    | succ i =>
      rw [ofDescriptions, List.getElem?_cons_succ, List.getElem?_cons_succ, List.take_succ_cons,
        ih, carry_ofDescription, getLast?_filterMap_cons]

theorem length_ofDescriptions (last : Option TypeExpr) (ds : List Text) :
    (ofDescriptions last ds).length = ds.length := by
  induction ds generalizing last with
  | nil => rfl
  | cons d ds ih => rw [ofDescriptions, List.length_cons, List.length_cons, ih]

/-- The last value that `f` gives on a list, and where. -/
theorem exists_last {α β : Type} {f : α → Option β} {l : List α} {t : β}
    (h : (l.filterMap f).getLast? = some t) : ∃ j, j < l.length ∧ (l.map f)[j]? = some (some t) ∧
      ∀ k, j < k → k < l.length → (l.map f)[k]? = some none := by
  obtain ⟨ts, hts⟩ := List.getLast?_eq_some_iff.1 h
  obtain ⟨l₁, l₂, rfl, -, hl₂⟩ := List.filterMap_eq_append_iff.1 hts
  obtain ⟨l₃, a, l₄, rfl, -, ha, hl₄⟩ := List.filterMap_eq_cons_iff.1 hl₂
  have hnone := List.filterMap_eq_nil_iff.1 hl₄
  refine ⟨l₁.length + l₃.length, by simp, ?_, fun k hjk hk => ?_⟩
  · rw [List.getElem?_map, List.getElem?_append_right (by omega),
      List.getElem?_append_right (by omega)]
    simp [ha]
  · simp only [List.length_append, List.length_cons] at hk
    have hk' : k - l₁.length - l₃.length - 1 < l₄.length := by omega
    rw [List.getElem?_map, List.getElem?_append_right (by omega),
      List.getElem?_append_right (by omega), List.getElem?_cons,
      if_neg (by omega), List.getElem?_eq_getElem hk']
    exact congrArg some (hnone _ (List.getElem_mem hk'))

/-- The results of consecutive operations are as `At` has them. -/
theorem at_ofDescriptions {ds : List Text} {i : Nat} {r : Resolution}
    (h : (ofDescriptions none ds)[i]? = some r) : At (ds.map announced?) i r := by
  rw [getElem?_ofDescriptions, Option.or_none] at h
  obtain ⟨d, hd, rfl⟩ := Option.map_eq_some_iff.1 h
  have hi : i < ds.length := (List.getElem?_eq_some_iff.1 hd).1
  have hown : (ds.map announced?)[i]? = some (announced? d) := by rw [List.getElem?_map, hd]; rfl
  have hbefore : ∀ k, k < i → (ds.map announced?)[k]? = ((ds.take i).map announced?)[k]? :=
    fun k hk => by rw [List.map_take, List.getElem?_take_of_lt hk]
  unfold ofDescription
  cases ha : announced? d with
  | some t => exact .found (hown.trans (by rw [ha]))
  | none =>
    rw [ha] at hown
    cases hlast : ((ds.take i).filterMap announced?).getLast? with
    | some t =>
      obtain ⟨j, hj, hjt, hnone⟩ := exists_last hlast
      have hlen : (ds.take i).length = i := by rw [List.length_take]; omega
      rw [hlen] at hj hnone
      exact .carriedOver hown hj ((hbefore j hj).trans hjt)
        fun k hjk hk => (hbefore k hk).trans (hnone k hjk hk)
    | none =>
      rw [List.getLast?_eq_none_iff, List.filterMap_eq_nil_iff] at hlast
      refine .missing hown fun k hk => ?_
      have hk' : k < (ds.take i).length := by rw [List.length_take]; omega
      rw [hbefore k hk, List.getElem?_map, List.getElem?_eq_getElem hk']
      exact congrArg some (hlast _ (List.getElem_mem hk'))

end Phrase.Resolution

/-! ## One block -/

/-- The name and the result of an operation. -/
def Entity.result? (e : Entity) : Option (String × TypeExpr) :=
  match e.kind with
  | .operation _ t => some (e.name, t)
  | _ => none

theorem result?_of_dataShape {e : Entity} (h : e.isOperation = false) : e.result? = none := by
  unfold Entity.isOperation at h
  unfold Entity.result?
  cases hk : e.kind with
  | operation request returns => rw [hk] at h; cases h
  | _ => rfl

section Step

variable {last : Option TypeExpr} {b : Block} {e : Entity}

/-- A data shape records nothing and hands on what was announced before it. -/
theorem ofBlock_dataShape (h : (BlockReading.ofBlock last b).entity = .ok e)
    (hop : isOperationName b.name = false) :
    e.result? = none ∧ (BlockReading.ofBlock last b).last = last ∧
      (BlockReading.ofBlock last b).notes.carriedOver = [] ∧
      (BlockReading.ofBlock last b).notes.missing = [] := by
  cases hc : Content.classify b (isOperationName b.name) with
  | error e' => rw [ofBlock_of_misfit last hc] at h; cases h
  | ok c =>
    rw [ofBlock_of_dataShape last hc hop] at h ⊢
    cases h
    exact ⟨result?_of_dataShape (isOperation_ofShape c.shape), rfl, rfl, rfl⟩

/-- An operation records how its result came to be known. -/
theorem ofBlock_operation (h : (BlockReading.ofBlock last b).entity = .ok e)
    (hop : isOperationName b.name = true) :
    let r := Resolution.ofDescription last b.text
    e.result? = some (String.ofList b.name, r.type) ∧
      (BlockReading.ofBlock last b).last = r.carry last ∧
      (BlockReading.ofBlock last b).notes.carriedOver =
        (if r.isCarriedOver then [b.name] else []) ∧
      (BlockReading.ofBlock last b).notes.missing = (if r.isMissing then [b.name] else []) := by
  intro r
  cases hc : Content.classify b (isOperationName b.name) with
  | error e' => rw [ofBlock_of_misfit last hc] at h; cases h
  | ok c =>
    cases hr : Request.ofShape b.name c.shape with
    | error e' => rw [ofBlock_of_members last hc hop hr] at h; cases h
    | ok request =>
      rw [ofBlock_of_operation last hc hop hr] at h ⊢
      cases h
      refine ⟨rfl, rfl, ?_, ?_⟩
      · show (Notes.ofResolution b.name r).carriedOver = _
        cases r <;> rfl
      · show (Notes.ofResolution b.name r).missing = _
        cases r <;> rfl

end Step

/-! ## A run over blocks -/

/-- The operations among blocks. -/
def operations (bs : List Block) : List Block := bs.filter fun b => isOperationName b.name

/-- The resolutions of the operations among blocks; all that counts is their paragraphs. -/
def resolutions (last : Option TypeExpr) (bs : List Block) : List Resolution :=
  Resolution.ofDescriptions last ((operations bs).map Block.text)

/-- What a reading has recorded of the operations `ops`, resolved as `rs`. -/
structure Records (notes : Notes) (es : List Entity) (ops : List Block) (rs : List Resolution) :
    Prop where
  /-- The operations among the entities are `ops` in order, with the results resolved. -/
  results : es.filterMap Entity.result? =
    (ops.zip rs).map fun (b, r) => (String.ofList b.name, r.type)
  carriedOver : notes.carriedOver =
    ((ops.zip rs).filter fun (_, r) => r.isCarriedOver).map fun (b, _) => b.name
  missing : notes.missing =
    ((ops.zip rs).filter fun (_, r) => r.isMissing).map fun (b, _) => b.name

namespace Records

variable {n notes : Notes} {e : Entity} {es : List Entity} {b : Block} {r : Resolution}
  {ops : List Block} {rs : List Resolution}

/-- A data shape in front changes no record. -/
theorem dataShape (h : Records notes es ops rs) (hresult : e.result? = none)
    (hcarried : n.carriedOver = []) (hmissing : n.missing = []) :
    Records (n ++ notes) (e :: es) ops rs where
  results := by rw [List.filterMap_cons_none hresult, h.results]
  carriedOver := by
    show n.carriedOver ++ notes.carriedOver = _
    rw [hcarried, List.nil_append, h.carriedOver]
  missing := by
    show n.missing ++ notes.missing = _
    rw [hmissing, List.nil_append, h.missing]

/-- An operation in front is recorded in front. -/
theorem operation (h : Records notes es ops rs)
    (hresult : e.result? = some (String.ofList b.name, r.type))
    (hcarried : n.carriedOver = if r.isCarriedOver then [b.name] else [])
    (hmissing : n.missing = if r.isMissing then [b.name] else []) :
    Records (n ++ notes) (e :: es) (b :: ops) (r :: rs) where
  results := by
    rw [List.filterMap_cons_some hresult, h.results]
    rfl
  carriedOver := by
    show n.carriedOver ++ notes.carriedOver = _
    rw [hcarried, h.carriedOver, List.zip_cons_cons, List.filter_cons]
    split <;> rfl
  missing := by
    show n.missing ++ notes.missing = _
    rw [hmissing, h.missing, List.zip_cons_cons, List.filter_cons]
    split <;> rfl

end Records

theorem operations_of_dataShape {b : Block} (h : isOperationName b.name = false)
    (bs : List Block) : operations (b :: bs) = operations bs :=
  List.filter_cons_of_neg (by rw [h]; exact Bool.false_ne_true)

theorem operations_of_operation {b : Block} (h : isOperationName b.name = true)
    (bs : List Block) : operations (b :: bs) = b :: operations bs :=
  List.filter_cons_of_pos h

/-- A run records every operation, in order. -/
theorem records_readBlocks {last : Option TypeExpr} {bs : List Block} {es : List Entity}
    (h : (readBlocks last bs).2 = .ok es) :
    Records (readBlocks last bs).1 es (operations bs) (resolutions last bs) := by
  induction bs generalizing last es with
  | nil =>
    cases h
    exact ⟨rfl, rfl, rfl⟩
  | cons b bs ih =>
    obtain ⟨e, es', rfl, he, hrest, hnotes⟩ := readBlocks_cons_eq_ok h
    have hrecords := ih hrest
    rw [hnotes]
    cases hop : isOperationName b.name with
    | false =>
      obtain ⟨hresult, hlast, hcarried, hmissing⟩ := ofBlock_dataShape he hop
      have hresolutions : resolutions last (b :: bs) =
          resolutions (BlockReading.ofBlock last b).last bs := by
        rw [hlast, resolutions, operations_of_dataShape hop]
        rfl
      rw [operations_of_dataShape hop, hresolutions]
      exact hrecords.dataShape hresult hcarried hmissing
    | true =>
      obtain ⟨hresult, hlast, hcarried, hmissing⟩ := ofBlock_operation he hop
      have hresolutions : resolutions last (b :: bs) =
          Resolution.ofDescription last b.text ::
            resolutions (BlockReading.ofBlock last b).last bs := by
        rw [hlast, resolutions, operations_of_operation hop]
        rfl
      rw [operations_of_operation hop, hresolutions]
      exact hrecords.operation hresult hcarried hmissing

/-! ## Warnings -/

/-- Is the warning one of a missing result? -/
def warnsOfMissing (warning : String) : Bool :=
  "no return type found".toList.isPrefixOf warning.toList

theorem warnsOfMissing_append {c : Char} {s : Text} {w : String} (hw : w.toList = c :: s)
    (hc : ('n' == c) = false) (n : String) : warnsOfMissing (w ++ n) = false := by
  rw [warnsOfMissing, String.toList_append, hw]
  show ('n' == c && List.isPrefixOf "o return type found".toList (s ++ n.toList)) = false
  rw [hc, Bool.false_and]

/-- No finding is worded like the warning of a missing result. -/
theorem warnsOfMissing_message (f : Finding) : warnsOfMissing f.message = false := by
  cases f with
  | emptyEntityName => decide
  | duplicateEntity n => exact warnsOfMissing_append (w := "duplicate entity: ") rfl rfl n
  | duplicateField e f =>
    show warnsOfMissing ("duplicate field '" ++ f ++ "' in " ++ e) = false
    rw [String.append_assoc, String.append_assoc]
    exact warnsOfMissing_append rfl rfl _
  | emptyUnion n =>
    show warnsOfMissing ("union " ++ n ++ " has no members") = false
    rw [String.append_assoc]
    exact warnsOfMissing_append rfl rfl _
  | duplicateOperation o =>
    exact warnsOfMissing_append (w := "duplicate registry entry: ") rfl rfl o
  | unregisteredOperation o =>
    show warnsOfMissing ("operation " ++ o ++ " is missing from the registry") = false
    rw [String.append_assoc]
    exact warnsOfMissing_append rfl rfl _

/-- There is one warning for each missing result. -/
theorem warnings_filter (r : Reading) : r.warnings.filter warnsOfMissing =
    r.notes.missing.map fun n => "no return type found for " ++ String.ofList n := by
  have hmissing : ∀ w ∈ r.notes.missing.map fun n => "no return type found for " ++ String.ofList n,
      warnsOfMissing w = true := by
    intro w hw
    obtain ⟨n, -, rfl⟩ := List.mem_map.1 hw
    have hword : "no return type found for ".toList =
        "no return type found".toList ++ " for ".toList := by decide
    rw [warnsOfMissing, String.toList_append, List.isPrefixOf_iff_prefix, hword, List.append_assoc]
    exact List.prefix_append _ _
  have hfindings : (r.findings.map Finding.message).filter warnsOfMissing = [] := by
    rw [List.filter_eq_nil_iff]
    intro w hw
    obtain ⟨f, -, rfl⟩ := List.mem_map.1 hw
    simp [warnsOfMissing_message]
  rw [Reading.warnings, List.filter_append, List.filter_eq_self.2 hmissing, hfindings,
    List.append_nil]

/-! ## Pages -/

theorem Records.map_snd {notes : Notes} {es : List Entity} {ops : List Block}
    {rs : List Resolution} (h : Records notes es ops rs) (hlen : rs.length = ops.length) :
    (es.filterMap Entity.result?).map Prod.snd = rs.map Resolution.type := by
  have hzip : (ops.zip rs).map Prod.snd = rs := List.map_snd_zip (Nat.le_of_eq hlen)
  calc (es.filterMap Entity.result?).map Prod.snd
      = ((ops.zip rs).map Prod.snd).map Resolution.type := by
        rw [h.results, List.map_map, List.map_map]
        rfl
    _ = rs.map Resolution.type := by rw [hzip]

theorem length_resolutions (last : Option TypeExpr) (bs : List Block) :
    (resolutions last bs).length = (operations bs).length := by
  rw [resolutions, Resolution.length_ofDescriptions, List.length_map]

/-- **Main theorem.** Of a page that is read without a fault: every operation has the result it
announces, else that of the nearest operation before it that announces one, else none; which of
these it is, is recorded under its name, and a missing result is warned of once; and the results
are the same on every page whose operations have the same paragraphs. -/
theorem Reading.results_ofPage {page : Text} {es : List Entity}
    (h : (Reading.ofPage page).entities = .ok es) :
    let ops := operations (Page.blocks page)
    let rs := resolutions none (Page.blocks page)
    rs.length = ops.length ∧
      (∀ i r, rs[i]? = some r → Resolution.At (ops.map fun b => announced? b.text) i r) ∧
      Records (Reading.ofPage page).notes es ops rs ∧
      (Reading.ofPage page).warnings.filter warnsOfMissing =
        (Reading.ofPage page).notes.missing.map
          (fun n => "no return type found for " ++ String.ofList n) ∧
      ∀ page' es', (Reading.ofPage page').entities = .ok es' →
        (operations (Page.blocks page')).map Block.text = ops.map Block.text →
          (es'.filterMap Entity.result?).map Prod.snd =
            (es.filterMap Entity.result?).map Prod.snd := by
  intro ops rs
  have hlen := length_resolutions none (Page.blocks page)
  have hrecords : Records (Reading.ofPage page).notes es ops rs := records_readBlocks h
  refine ⟨hlen, fun i r hr => ?_, hrecords, warnings_filter _, fun page' es' h' htexts => ?_⟩
  · have := Resolution.at_ofDescriptions hr
    rwa [List.map_map] at this
  · have hrecords' := records_readBlocks h'
    rw [hrecords.map_snd hlen, hrecords'.map_snd (length_resolutions none _), resolutions, htexts]
    rfl

/-- Of three operations with a data shape between them, the first has no result, the second
announces one, and the third has it carried over. -/
theorem results_ofPage_three :
    let page := "<h4>getMe</h4><h4>close</h4>Returns True.<h4>User</h4><h4>logOut</h4>".toList
    let r := Reading.ofPage page
    ∃ es, r.entities = .ok es ∧
      Records r.notes es (operations (Page.blocks page)) (resolutions none (Page.blocks page)) ∧
      r.notes.missing = ["getMe".toList] ∧ r.notes.carriedOver = ["logOut".toList] := by
  intro page r
  have hok : r.entities.isOk = true := by decide +kernel
  cases h : r.entities with
  | error e => rw [h] at hok; cases hok
  | ok es =>
    obtain ⟨-, -, hrecords, -⟩ := Reading.results_ofPage h
    exact ⟨es, rfl, hrecords, by decide +kernel, by decide +kernel⟩

end DocTypes
