/-
  The report of a run accounts for all of a page (`accounts_of_compile`). What a run passes over is
  what each of its blocks passes over, block by block (`skipped_readBlocks`); a result is missing
  only in front of the first operation that announces one (`missing_ofDescriptions_iff`); and where
  no name is repeated in the entities, none is in their registry.
-/
import DocTypes.Compilation
import DocTypes.Proofs.Reading.Results
import DocTypes.Proofs.Reading.WellFormed

namespace DocTypes

open Text Content Page Phrase

/-! ## Positions -/

section Positions

variable {α β : Type}

/-- The positions of the elements of which `p` holds. -/
def positions (p : α → Bool) (l : List α) : List Nat :=
  (l.zipIdx.filter fun (a, _) => p a).map Prod.snd

theorem mem_positions {p : α → Bool} {l : List α} {i : Nat} :
    i ∈ positions p l ↔ ∃ a, l[i]? = some a ∧ p a = true := by
  simp [positions, List.mem_zipIdx_iff_getElem?]

theorem positions_pairwise (p : α → Bool) (l : List α) :
    (positions p l).Pairwise (· < ·) := by
  have hall : (l.zipIdx.map Prod.snd).Pairwise (· < ·) := by
    rw [List.zipIdx_map_snd]
    exact List.pairwise_lt_range'
  exact hall.sublist (List.filter_sublist.map Prod.snd)

theorem positions_disjoint {p q : α → Bool} (h : ∀ a, p a = true → q a = false) (l : List α) :
    (positions p l).Disjoint (positions q l) := by
  intro i hp hq
  obtain ⟨a, ha, hpa⟩ := mem_positions.1 hp
  obtain ⟨b, hb, hqb⟩ := mem_positions.1 hq
  cases ha.symm.trans hb
  rw [h a hpa] at hqb
  cases hqb

theorem positions_map (f : α → β) (p : β → Bool) (l : List α) :
    positions p (l.map f) = positions (p ∘ f) l := by
  unfold positions
  rw [List.zipIdx_map, List.filter_map, List.map_map]
  rfl

/-- The elements of which `p` holds stand at their positions. -/
theorem getElem?_positions (f : α → β) (p : α → Bool) (l : List α) :
    (positions p l).map ((l.map f)[·]?) = ((l.filter p).map f).map some := by
  have hat : ∀ x ∈ l.zipIdx.filter fun (a, _) => p a,
      ((l.map f)[·]?) x.2 = (some ∘ f) x.1 := by
    intro x hx
    show (l.map f)[x.2]? = some (f x.1)
    rw [List.getElem?_map, List.mem_zipIdx_iff_getElem?.1 (List.mem_filter.1 hx).1, Option.map_some]
  have hfilter : (l.zipIdx.filter fun (a, _) => p a).map Prod.fst = l.filter p := by
    conv_rhs => rw [← List.zipIdx_map_fst 0 l, List.filter_map]
    rfl
  calc (positions p l).map ((l.map f)[·]?)
      = (l.zipIdx.filter fun (a, _) => p a).map fun x => (some ∘ f) x.1 := by
        rw [positions, List.map_map]
        exact List.map_congr_left hat
    _ = ((l.filter p).map f).map some := by
        rw [← hfilter, List.map_map, List.map_map]
        rfl

/-- The names listed are those at the positions, in order. -/
structure ListedAt (names : List String) (is : List Nat) (listed : List String) : Prop where
  increasing : is.Pairwise (· < ·)
  listed_eq : is.map (names[·]?) = listed.map some

theorem listedAt_positions (f : α → String) (p : α → Bool) (l : List α) :
    ListedAt (l.map f) (positions p l) ((l.filter p).map f) :=
  ⟨positions_pairwise p l, getElem?_positions f p l⟩

end Positions

/-! ## Lines that are passed over -/

/-- The lines that are passed over in a block, with its name. -/
def Page.Block.passedOver (b : Block) : List (Text × Text) :=
  if occurs noParameters b.text then []
  else (unrecognized (contentLines b (isOperationName b.name))).map fun l => (b.name, l)

/-- A block notes the lines it passes over. -/
theorem skipped_ofBlock {last : Option TypeExpr} {b : Block} {e : Entity}
    (h : (BlockReading.ofBlock last b).entity = .ok e) :
    (BlockReading.ofBlock last b).notes.skipped = b.passedOver := by
  cases hc : classify b (isOperationName b.name) with
  | error e' => rw [ofBlock_of_misfit last hc] at h; cases h
  | ok c =>
    have hskipped : (Notes.ofSkipped b.name c.skipped).skipped = b.passedOver := by
      unfold Block.passedOver
      cases classified hc with
      | noInput hmarker => rw [hmarker]; rfl
      | record hmarker => rw [hmarker]; rfl
      | union hmarker => rw [hmarker]; rfl
    cases hop : isOperationName b.name with
    | false => rw [ofBlock_of_dataShape last hc hop, hskipped]
    | true =>
      cases hr : Request.ofShape b.name c.shape with
      | error e' => rw [ofBlock_of_members last hc hop hr] at h; cases h
      | ok request =>
        rw [ofBlock_of_operation last hc hop hr]
        show (Notes.ofSkipped b.name c.skipped).skipped ++ (Notes.ofResolution b.name _).skipped = _
        rw [hskipped]
        cases Resolution.ofDescription last b.text <;> exact List.append_nil _

/-- A run notes the lines that its blocks pass over, block by block. -/
theorem skipped_readBlocks {last : Option TypeExpr} {bs : List Block} {es : List Entity}
    (h : (readBlocks last bs).2 = .ok es) :
    (readBlocks last bs).1.skipped = bs.flatMap Block.passedOver := by
  induction bs generalizing last es with
  | nil => rfl
  | cons b bs ih =>
    obtain ⟨e, es', -, he, hrest, hnotes⟩ := readBlocks_cons_eq_ok h
    rw [hnotes]
    show (BlockReading.ofBlock last b).notes.skipped ++ _ = _
    rw [skipped_ofBlock he, ih hrest, List.flatMap_cons]

/-- Does the entity take no input? -/
def Entity.takesNoInput (e : Entity) : Bool :=
  match e.kind with
  | .noInput | .operation .noInput _ => true
  | _ => false

theorem Describes.takesNoInput_eq {b : Block} {t : TypeExpr} {e : Entity} (h : Describes b t e) :
    e.takesNoInput = occurs noParameters b.text := by
  obtain ⟨name, description, kind⟩ := e
  obtain ⟨-, -, hkind⟩ := h
  cases hkind with
  | union _ hmarker => exact hmarker.symm
  | record _ hmarker => exact hmarker.symm
  | noInput _ hmarker => exact hmarker.symm
  | operation _ hmarker => exact hmarker.symm
  | operationNoInput _ hmarker => exact hmarker.symm

/-- The lines passed over in blocks that describe entities, under the names of the entities. -/
theorem passedOver_eq {bs : List Block} {es : List Entity}
    (h : DescribeAll bs es) :
    (bs.flatMap Block.passedOver).map (fun s => (String.ofList s.1, String.ofList s.2)) =
      (bs.zip es).flatMap fun (b, e) =>
        if e.takesNoInput then []
        else (unrecognized (contentLines b e.isOperation)).map
          fun l => (e.name, String.ofList l) := by
  induction h with
  | nil => rfl
  | cons hb _ ih =>
    obtain ⟨t, -, hdescribes⟩ := hb
    rw [List.flatMap_cons, List.map_append, ih, List.zip_cons_cons, List.flatMap_cons]
    congr 1
    dsimp only
    rw [hdescribes.takesNoInput_eq, hdescribes.isOperation_eq, hdescribes.name_eq, Block.passedOver]
    split
    · rfl
    · rw [List.map_map]
      rfl

/-- The operations of a page have the names of their blocks. -/
theorem map_name_operations {bs : List Block} {es : List Entity}
    (h : DescribeAll bs es) :
    (es.filter Entity.isOperation).map Entity.name =
      (operations bs).map fun b => String.ofList b.name := by
  induction h with
  | nil => rfl
  | @cons b e bs es hb _ ih =>
    obtain ⟨t, -, hdescribes⟩ := hb
    cases hop : isOperationName b.name with
    | true =>
      rw [operations_of_operation hop,
        List.filter_cons_of_pos (hdescribes.isOperation_eq.trans hop), List.map_cons,
        List.map_cons, ih, hdescribes.name_eq]
    | false =>
      rw [operations_of_dataShape hop, List.filter_cons_of_neg, ih]
      rw [hdescribes.isOperation_eq, hop]
      exact Bool.false_ne_true

/-! ## Missing results -/

namespace Phrase.Resolution

/-- After an announcement no result is missing. -/
theorem isMissing_of_mem_ofDescriptions {t : TypeExpr} {ds : List Text} {r : Resolution}
    (h : r ∈ ofDescriptions (some t) ds) : r.isMissing = false := by
  induction ds generalizing t with
  | nil => cases h
  | cons d ds ih =>
    rw [ofDescriptions, carry_ofDescription] at h
    rcases List.mem_cons.1 h with rfl | h
    · unfold ofDescription
      cases announced? d <;> rfl
    · cases ha : announced? d with
      | none => rw [ha] at h; exact ih h
      | some u => rw [ha] at h; exact ih h

/-- No result is missing where the first description announces one. -/
theorem missing_ofDescriptions_iff {ds : List Text} :
    (∀ r ∈ ofDescriptions none ds, r.isMissing = false) ↔
      ∀ d ∈ ds.head?, (announced? d).isSome = true := by
  cases ds with
  | nil => simp [ofDescriptions]
  | cons d ds =>
    rw [ofDescriptions, carry_ofDescription, List.forall_mem_cons]
    unfold ofDescription
    cases ha : announced? d with
    | none => simp [ha, isMissing]
    | some t =>
      simp only [isMissing, true_and, List.head?_cons, Option.mem_some_iff, forall_eq', ha,
        Option.isSome_some, iff_true]
      exact fun r hr => isMissing_of_mem_ofDescriptions hr

end Phrase.Resolution

/-- Nothing is missing on a page exactly where its first operation, if it has one, announces its
result. -/
theorem Records.missing_eq_nil_iff {notes : Notes} {es : List Entity} {bs : List Block}
    (h : Records notes es (operations bs) (resolutions none bs)) :
    notes.missing = [] ↔ ∀ b ∈ (operations bs).head?, (announced? b.text).isSome = true := by
  have hsnd : ((operations bs).zip (resolutions none bs)).map Prod.snd = resolutions none bs :=
    List.map_snd_zip (Nat.le_of_eq (length_resolutions none bs))
  have hall : notes.missing = [] ↔ ∀ r ∈ resolutions none bs, r.isMissing = false := by
    rw [h.missing, List.map_eq_nil_iff, List.filter_eq_nil_iff]
    conv_rhs => rw [← hsnd, List.forall_mem_map]
    simp
  rw [hall, resolutions, Resolution.missing_ofDescriptions_iff, List.head?_map]
  cases (operations bs).head? <;> simp

/-! ## Counts -/

theorem Kind.label_beq_operation (k : Kind) : (k.label == "operation") = k.isOperation := by
  cases k <;> rfl

namespace Report

theorem countKind_cons (label : String) (e : Entity) (es : List Entity) :
    countKind label (e :: es) = countKind label es + if e.kind.label == label then 1 else 0 :=
  List.countP_cons

theorem countKind_operation (es : List Entity) :
    countKind "operation" es = (es.filter Entity.isOperation).length := by
  rw [countKind, ← List.countP_eq_length_filter]
  exact congrArg (List.countP · es) (funext fun e => e.kind.label_beq_operation)

/-- Every entity is counted once. -/
theorem countKind_add (es : List Entity) :
    countKind "union" es + countKind "record" es + countKind "no_input" es +
      countKind "operation" es = es.length := by
  induction es with
  | nil => rfl
  | cons e es ih =>
    simp only [countKind_cons, List.length_cons]
    cases e.kind with
    | union members => simp [Kind.label]; omega
    | record fields => simp [Kind.label]; omega
    | noInput => simp [Kind.label]; omega
    | operation request returns => simp [Kind.label]; omega

end Report

theorem Registry.size_ofEntities (es : List Entity) :
    (Registry.ofEntities es).size = (es.filter Entity.isOperation).length := by
  rw [← List.length_map Entity.name, ← Registry.operations_ofEntities, Registry.operations,
    List.length_map, Registry.size]

/-! ## The report -/

/-- What a report says of the blocks of a page and of the entities read from them. -/
structure Report.Accounts (r : Report) (bs : List Block) (es : List Entity) : Prop where
  blocks : r.blocks = es.length
  kinds : r.unions + r.records + r.noInput + r.operations = r.blocks
  operations : r.operations = (es.filter Entity.isOperation).length
  registryEntries : r.registryEntries = r.operations
  /-- All lines that are passed over are listed, unless their entity takes no input. -/
  skipped : r.skipped = (bs.zip es).flatMap fun (b, e) =>
    if e.takesNoInput then []
    else (unrecognized (contentLines b e.isOperation)).map fun l => (e.name, String.ofList l)
  missing : ListedAt ((es.filter Entity.isOperation).map Entity.name)
    (positions Resolution.isMissing (resolutions none bs)) r.missing
  carriedOver : ListedAt ((es.filter Entity.isOperation).map Entity.name)
    (positions Resolution.isCarriedOver (resolutions none bs)) r.carriedOver
  disjoint : (positions Resolution.isMissing (resolutions none bs)).Disjoint
    (positions Resolution.isCarriedOver (resolutions none bs))
  warnings : r.warnings = [] ↔ (es.map Entity.name).Nodup ∧ (∀ e ∈ es, e.HasDistinctFields) ∧
    ∀ b ∈ (DocTypes.operations bs).head?, (announced? b.text).isSome = true

/-- A list of operations is that of their positions. -/
theorem listedAt_operations {bs : List Block} {es : List Entity}
    (hdescribes : DescribeAll bs es)
    (p : Resolution → Bool) :
    ListedAt ((es.filter Entity.isOperation).map Entity.name) (positions p (resolutions none bs))
      ((((operations bs).zip (resolutions none bs)).filter fun (_, r) => p r).map
        fun (b, _) => String.ofList b.name) := by
  let l := (operations bs).zip (resolutions none bs)
  have hlen : (resolutions none bs).length = (operations bs).length := length_resolutions none bs
  have hfst : l.map Prod.fst = operations bs := List.map_fst_zip (Nat.le_of_eq hlen.symm)
  have hsnd : l.map Prod.snd = resolutions none bs := List.map_snd_zip (Nat.le_of_eq hlen)
  have hnames : (es.filter Entity.isOperation).map Entity.name =
      l.map fun (b, _) => String.ofList b.name := by
    rw [map_name_operations hdescribes, ← hfst, List.map_map]
    rfl
  have hpositions : positions p (resolutions none bs) = positions (p ∘ Prod.snd) l := by
    rw [← positions_map, hsnd]
  rw [hnames, hpositions]
  exact listedAt_positions (fun (b, _) => String.ofList b.name) (p ∘ Prod.snd) l

/-- The warnings of a run: none where nothing is missing and nothing is found. -/
theorem warnings_eq_nil_iff {r : Reading} {es : List Entity} (h : r.entities = .ok es)
    (hes : ∀ e ∈ es, e.WellFormed) : (Report.ofReading r es).warnings = [] ↔
      (es.map Entity.name).Nodup ∧ (∀ e ∈ es, e.HasDistinctFields) ∧ r.notes.missing = [] := by
  have hkeys : es.map Entity.key = es.map Entity.name :=
    List.map_congr_left fun e he => (hes e he).key_eq
  have hreading : r.warnings = [] ↔ r.notes.missing = [] ∧
      (es.map Entity.name).Nodup ∧ ∀ e ∈ es, e.HasDistinctFields := by
    rw [Reading.warnings, List.append_eq_nil_iff, List.map_eq_nil_iff, List.map_eq_nil_iff,
      Reading.findings, h, Entity.findings_eq_nil_iff, hkeys]
    exact and_congr_right fun _ => and_congr_right fun _ =>
      forall₂_congr fun e he => and_iff_right (hes e he).isSound
  show r.warnings ++ ((Registry.ofEntities es).findings es).map Finding.message = [] ↔ _
  rw [List.append_eq_nil_iff, hreading, List.map_eq_nil_iff]
  constructor
  · rintro ⟨⟨hmissing, hnames, hfields⟩, -⟩
    exact ⟨hnames, hfields, hmissing⟩
  · rintro ⟨hnames, hfields, hmissing⟩
    exact ⟨⟨hmissing, hnames, hfields⟩, Registry.findings_ofEntities_eq_nil hnames⟩

/-- **Main theorem.** The report on a page that is read without a fault accounts for all of its
blocks. -/
theorem accounts_of_compile {page : Text} {c : Compilation} (h : compile page = .ok c) :
    c.report.Accounts (Page.blocks page) c.entities := by
  obtain ⟨hentities, hreport⟩ := compile_eq_ok h
  have hdescribes := describes_ofPage hentities
  have hrecords : Records (Reading.ofPage page).notes c.entities (operations (Page.blocks page))
      (resolutions none (Page.blocks page)) := records_readBlocks hentities
  have hlisted := listedAt_operations hdescribes
  rw [hreport]
  exact {
    blocks := hdescribes.length_eq
    kinds := (Report.countKind_add c.entities).trans hdescribes.length_eq.symm
    operations := Report.countKind_operation c.entities
    registryEntries :=
      (Registry.size_ofEntities c.entities).trans (Report.countKind_operation c.entities).symm
    skipped := by
      show (Reading.ofPage page).notes.skipped.map _ = _
      rw [show (Reading.ofPage page).notes.skipped = _ from skipped_readBlocks hentities]
      exact passedOver_eq hdescribes
    missing := by
      show ListedAt _ _ ((Reading.ofPage page).notes.missing.map String.ofList)
      rw [hrecords.missing, List.map_map]
      exact hlisted Resolution.isMissing
    carriedOver := by
      show ListedAt _ _ ((Reading.ofPage page).notes.carriedOver.map String.ofList)
      rw [hrecords.carriedOver, List.map_map]
      exact hlisted Resolution.isCarriedOver
    disjoint := positions_disjoint (fun r hr => by cases r <;> first | rfl | cases hr) _
    warnings := by
      rw [warnings_eq_nil_iff hentities (wellFormed_entities hentities),
        hrecords.missing_eq_nil_iff] }

/-- The first operation announces nothing, the last one takes over a result, and a row has too few
cells. -/
theorem accounts_of_compile_four :
    let page := ("<h4>getMe</h4><h4>close</h4>Returns True.<h4>User</h4><table><tr><td>id</td>" ++
      "<td>Integer</td><td>a</td></tr><tr><td>id</td><td>b</td></tr></table><h4>logOut</h4>").toList
    ∃ c, compile page = .ok c ∧ c.report.Accounts (Page.blocks page) c.entities ∧
      c.report.skipped = [("User", "id\tb")] ∧ c.report.missing = ["getMe"] ∧
      c.report.carriedOver = ["logOut"] ∧
      c.report.warnings = ["no return type found for getMe"] := by
  intro page
  have hreport : (compile page).map (fun c => c.report) = .ok
      { blocks := 4, unions := 0, records := 1, noInput := 0, operations := 3, registryEntries := 3
        carriedOver := ["logOut"], missing := ["getMe"], skipped := [("User", "id\tb")]
        warnings := ["no return type found for getMe"] } := by decide +kernel
  cases h : compile page with
  | error e => rw [h] at hreport; cases hreport
  | ok c =>
    rw [h] at hreport
    have hc : c.report = _ := Except.ok.inj hreport
    refine ⟨c, rfl, accounts_of_compile h, ?_, ?_, ?_, ?_⟩ <;> rw [hc]

end DocTypes
