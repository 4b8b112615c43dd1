/-
  The three sections of the declarations of a page. Cut at its two delimiter lines, the output gives
  the data shapes, the requests of the operations and the registry back, each in the order of the
  entities (`exists_sections`). No description, type or name can add a line that looks like a
  delimiter or a declaration, since whatever the page says keeps to its line.
-/
import DocTypes.Proofs.Declaration.Lines
import DocTypes.Proofs.Reading.Description
import DocTypes.Proofs.Reading.Results

namespace DocTypes

open Text Content Page Phrase

/-! ## Names of requests -/

/-- A lower-case letter has an upper case that is a letter and leads back to it. -/
theorem toUpper_of_isLower {c : Char} (h : c.isLower = true) :
    upperCase c = [c.toUpper] ∧ c.toUpper.isAlpha = true ∧ c.toUpper.toLower = c := by
  have hcode : c.toNat < 0x80 := by
    unfold Char.isLower at h
    rw [Bool.and_eq_true, decide_eq_true_eq, decide_eq_true_eq] at h
    have : c.toNat ≤ 'z'.toNat := h.2
    exact Nat.lt_of_le_of_lt this (by decide)
  have hall : ∀ n < 0x80, (Char.ofNat n).isLower = true →
      (Char.ofNat n).toUpper.isAlpha = true ∧ (Char.ofNat n).toUpper.toLower = Char.ofNat n := by
    decide +kernel
  have hc := hall c.toNat hcode
  rw [Char.ofNat_toNat] at hc
  exact ⟨upperCase_of_ascii hcode, hc h⟩

theorem requestName_cons {c : Char} (hc : c.isLower = true) (s : Text) :
    requestName (c :: s) = c.toUpper :: (s ++ "Data".toList) := by
  rw [requestName, capitalize, (toUpper_of_isLower hc).1]
  rfl

theorem isIdentifier_requestName {n : Text} (hn : isIdentifier n = true)
    (hop : isOperationName n = true) : isIdentifier (requestName n) = true := by
  cases n with
  | nil => cases hop
  | cons c s =>
    have hrest : s.all isNameChar = true := (Bool.and_eq_true_iff.1 hn).2
    have hdata : "Data".toList.all isNameChar = true := by decide
    rw [requestName_cons hop, isIdentifier, (toUpper_of_isLower hop).2.1, List.all_append, hrest,
      hdata]
    rfl

/-- Different operations have different requests. -/
theorem requestName_injective {n m : Text} (hn : isOperationName n = true)
    (hm : isOperationName m = true) (h : requestName n = requestName m) : n = m := by
  cases n with
  | nil => cases hn
  | cons c s =>
    cases m with
    | nil => cases hm
    | cons d t =>
      rw [requestName_cons hn, requestName_cons hm] at h
      obtain ⟨hhead, htail⟩ := List.cons.inj h
      rw [← (toUpper_of_isLower hn).2.2, ← (toUpper_of_isLower hm).2.2, hhead,
        List.append_cancel_right htail]

namespace Declaration

/-! ## Entities that keep to their lines -/

/-- A well-formed entity whose texts keep to their lines. -/
structure KeepsToLines (e : Entity) : Prop where
  wellFormed : e.WellFormed
  fields : ∀ f ∈ e.fields, IsFiller (fieldLine f)
  description : ∀ p ∈ e.description.map String.toList, '\n' ∉ p

/-- Whatever a page says keeps to its line. -/
theorem keepsToLines_of_compile {page : Text} {c : Compilation} (h : compile page = .ok c) :
    ∀ e ∈ c.entities, KeepsToLines e := by
  intro e he
  have hentities := (compile_eq_ok h).1
  obtain ⟨b, hb, returns, hreturns, hdescribes⟩ := exists_describes hentities he
  refine ⟨hdescribes.wellFormed (isIdentifier_of_mem_blocks hb) hreturns, fun f hf => ?_, ?_⟩
  · have hfield := hdescribes.mem_fields hf
    exact isFiller_fieldLine (wellFormed_of_mem_fields hfield).isIdentifier_name
      (newline_notMem_fieldTypeText hb hfield) (newline_notMem_fieldDescription hb hfield)
  · intro p hp
    obtain ⟨q, hq, rfl⟩ := List.mem_map.1 hp
    exact hdescribes.newline_notMem_description hb q hq

variable {e : Entity} {d : Text}

theorem writes_dataShape (h : KeepsToLines e) (hd : dataShape? e = some d) :
    Writes [e.name.toList] d := by
  have hname := h.wellFormed.isIdentifier_name
  have hkind := h.wellFormed.kind
  obtain ⟨name, description, kind⟩ := e
  cases kind with
  | union members =>
    cases hd
    cases hkind with
    | union _ hmembers =>
      refine writes_typeAlias hname (notMem_bars (by decide) fun t ht => ?_)
      obtain ⟨m, hm, rfl⟩ := List.mem_map.1 ht
      exact Identifier.notMem ⟨_, hmembers m hm⟩ (by decide)
  | noInput =>
    cases hd
    exact writes_typeAlias hname (by decide)
  | record fields =>
    cases hd
    exact writes_interface hname h.fields
  | operation request returns => cases hd

theorem isOperationName_of_isOperation (h : e.WellFormed) (hop : e.isOperation = true) :
    isOperationName e.name.toList = true := by
  have hhead := h.isOperation_iff.1 hop
  cases hn : e.name.toList with
  | nil => rw [hn] at hhead; cases hhead
  | cons c s => rw [hn] at hhead; exact hhead

theorem toList_requestName (e : Entity) : e.requestName.toList = requestName e.name.toList :=
  String.toList_ofList

theorem isIdentifier_entityRequestName (h : e.WellFormed) (hop : e.isOperation = true) :
    isIdentifier e.requestName.toList = true := by
  rw [toList_requestName]
  exact isIdentifier_requestName h.isIdentifier_name (isOperationName_of_isOperation h hop)

theorem writes_request (h : KeepsToLines e) (hd : request? e = some d) :
    Writes [e.requestName.toList] d := by
  have hname := isIdentifier_entityRequestName h.wellFormed
  obtain ⟨name, description, kind⟩ := e
  cases kind with
  | operation request returns =>
    cases hd
    cases request with
    | noInput => exact writes_typeAlias (hname rfl) (by decide)
    | record fields => exact writes_interface (hname rfl) h.fields
  | union members => cases hd
  | record fields => cases hd
  | noInput => cases hd

/-- The declarations of a section declare the names of its entities, in order. -/
theorem writes_declarations {decl? : Entity → Option Text} {name : Entity → Text}
    {es : List Entity} (hes : ∀ e ∈ es, KeepsToLines e)
    (hdecl : ∀ e, KeepsToLines e → ∀ d, decl? e = some d → Writes [name e] d) (width : Nat) :
    Writes ((es.filter fun e => (decl? e).isSome).map name)
      ((declarations width decl? es).flatMap ('\n' :: ·)) := by
  induction es with
  | nil => exact ⟨[], rfl, .nil⟩
  | cons e es ih =>
    obtain ⟨he, hes⟩ := List.forall_mem_cons.1 hes
    unfold declarations
    cases hd : decl? e with
    | none =>
      rw [List.filter_cons_of_neg (by simp [hd]), List.filterMap_cons_none (by simp [hd])]
      exact ih hes
    | some d =>
      have hblank : Writes [] ['\n'] := ⟨[[]], rfl, .of_fillers (by simpa using isFiller_nil)⟩
      have hown := hblank.append
        ((writes_comment he.description width).append (hdecl e he d hd))
      rw [List.filter_cons_of_pos (by simp [hd]), List.map_cons,
        List.filterMap_cons_some (by rw [hd, Option.map_some]), List.flatMap_cons]
      exact hown.append (ih hes)

theorem isSome_dataShape? (e : Entity) : (dataShape? e).isSome = !e.isOperation := by
  unfold dataShape? Entity.isOperation
  cases e.kind <;> rfl

theorem isSome_request? (e : Entity) : (request? e).isSome = e.isOperation := by
  unfold request? Entity.isOperation
  cases e.kind <;> rfl

/-! ## The registry -/

/-- The lines of the registry type. -/
def registryLines (name : Text) (r : Registry) : List Text :=
  if r.isEmpty then ["export type ".toList ++ name ++ " = \x7b\x7d;".toList]
  else
    ["export type ".toList ++ name ++ " = \x7b".toList] ++
      (r.entries.map entryLine ++ ["\x7d;".toList])

theorem registryType_eq (name : Text) (r : Registry) :
    registryType name r = endLines (registryLines name r) := by
  unfold registryType registryLines
  split <;> simp [endLines]

/-- Is the line set in, as those of the operations are in the registry? -/
def isSetIn (line : Text) : Bool := "  ".toList.isPrefixOf line

theorem isSetIn_entryLine (n : Registry.Entry) : isSetIn (entryLine n) = true := rfl

theorem filter_registryLines (name : Text) (r : Registry) :
    (registryLines name r).filter isSetIn = r.entries.map entryLine := by
  have hentries : (r.entries.map entryLine).filter isSetIn = r.entries.map entryLine := by
    rw [List.filter_eq_self]
    intro l hl
    obtain ⟨n, -, rfl⟩ := List.mem_map.1 hl
    exact isSetIn_entryLine n
  have hkeyword : ∀ rest, isSetIn ("export type ".toList ++ name ++ rest) = false := fun _ => rfl
  unfold registryLines
  split
  · next hempty =>
    rw [List.isEmpty_iff.1 hempty, List.filter_cons_of_neg (by rw [hkeyword]; decide)]
    rfl
  · rw [List.filter_append, List.filter_append, hentries,
      List.filter_cons_of_neg (by rw [hkeyword]; decide)]
    show [] ++ (r.entries.map entryLine ++ []) = _
    rw [List.nil_append, List.append_nil]

theorem declares_registryLines {name : Text} {r : Registry} (hname : isIdentifier name = true)
    (hr : ∀ n ∈ r.entries, IsFiller (entryLine n)) : Declares [name] (registryLines name r) := by
  unfold registryLines
  split
  · exact declares_line (Or.inl rfl) hname (by decide)
  · have hlines : ∀ l ∈ r.entries.map entryLine, IsFiller l := List.forall_mem_map.2 hr
    have hlast : IsFiller "\x7d;".toList := isFiller_cons (by decide) (by decide) (by decide)
    exact (declares_line (Or.inl rfl) hname (by decide)).block hlines hlast

/-- An entry of the registry stands for an operation with its result. -/
theorem entries_ofEntities (es : List Entity) :
    (Registry.ofEntities es).entries = (es.filterMap Entity.result?).map
      fun (n, t) => ⟨n, String.ofList (requestName n.toList), t⟩ := by
  rw [List.map_filterMap]
  refine List.filterMap_congr fun e _ => ?_
  obtain ⟨name, description, kind⟩ := e
  cases kind <;> rfl

theorem map_entryLine (es : List Entity) : (Registry.ofEntities es).entries.map entryLine =
    (es.filterMap Entity.result?).map fun (n, t) => "  ".toList ++ n.toList ++ ": [".toList ++
      requestName n.toList ++ ", ".toList ++ t.text ++ "];".toList := by
  rw [entries_ofEntities, List.map_map]
  refine List.map_congr_left fun (n, t) _ => ?_
  have hrequest : (String.ofList (requestName n.toList)).toList = requestName n.toList :=
    String.toList_ofList
  show entryLine ⟨n, String.ofList (requestName n.toList), t⟩ = _
  unfold entryLine
  rw [hrequest]

theorem isFiller_entryLine {es : List Entity} (hes : ∀ e ∈ es, KeepsToLines e) :
    ∀ n ∈ (Registry.ofEntities es).entries, IsFiller (entryLine n) := by
  intro n hn
  obtain ⟨e, he, hentry⟩ := List.mem_filterMap.1 hn
  have hwf := (hes e he).wellFormed
  have hname := hwf.isIdentifier_name
  have hrequest := isIdentifier_entityRequestName hwf
  have hkind := hwf.kind
  obtain ⟨name, description, kind⟩ := e
  cases kind with
  | operation request returns =>
    cases hentry
    cases hkind with
    | operation _ hresult =>
      have hoperationLine : '\n' ∉ name.toList := Identifier.notMem ⟨_, hname⟩ (by decide)
      have hrequestLine := Identifier.notMem ⟨_, hrequest rfl⟩ (c := '\n') (by decide)
      have hreturnsLine : '\n' ∉ returns.text :=
        notMem_text_result (by decide) (by decide) hresult
      refine isFiller_cons (by decide) (by decide) ?_
      show '\n' ∉ entryLine _
      unfold entryLine
      simp only [List.mem_append, not_or]
      exact ⟨⟨⟨⟨⟨⟨by decide, hoperationLine⟩, by decide⟩, hrequestLine⟩, by decide⟩,
        hreturnsLine⟩, by decide⟩
  | union members => cases hentry
  | record fields => cases hentry
  | noInput => cases hentry

/-! ## The sections -/

/-- The lines of the output are those of three sections with a delimiter between each two. -/
structure Sections (registryName : Text) (es : List Entity)
    (lines shapes requests registry : List Text) : Prop where
  lines_eq : lines = shapes ++ delimiter :: (requests ++ delimiter :: registry)
  /-- There are no other delimiters. -/
  delimiter_notMem : delimiter ∉ shapes ++ (requests ++ registry)
  /-- The first declaration is that of no input. -/
  noInput : (shapes.filter isDeclaration).head? =
    some "export type NoInput = Record<string, never>;".toList
  /-- After it the data shapes are declared, in order. -/
  shapes_names : (shapes.filter isDeclaration).map declaredName? =
    some noInputName :: (es.filter fun e => !e.isOperation).map fun e => some e.name.toList
  /-- The requests of the operations are declared, in order. -/
  requests_names : (requests.filter isDeclaration).map declaredName? =
    (es.filter Entity.isOperation).map fun e => some (requestName e.name.toList)
  /-- The registry type is declared, and nothing else. -/
  registry_name : (registry.filter isDeclaration).map declaredName? = [some registryName]
  /-- There is a line for each operation, in order. -/
  registry_entries : registry.filter isSetIn = (es.filterMap Entity.result?).map fun (n, t) =>
    "  ".toList ++ n.toList ++ ": [".toList ++ requestName n.toList ++ ", ".toList ++ t.text ++
      "];".toList

/-- The first lines of the output. -/
def headerLine (source : Option Text) : Text :=
  "// Generated from ".toList ++ source.getD "bot API documentation".toList ++
    ". Do not edit.".toList

theorem isFiller_headerLine {source : Option Text} (h : ∀ s ∈ source, '\n' ∉ s) :
    IsFiller (headerLine source) where
  newline := by
    have hsource : '\n' ∉ source.getD "bot API documentation".toList := by
      cases source with
      | none => decide
      | some s => exact h s rfl
    unfold headerLine
    simp only [List.mem_append, not_or]
    exact ⟨⟨by decide, hsource⟩, by decide⟩
  ne_delimiter := by
    intro heq
    have hpre : "// Generated from ".toList.isPrefixOf (headerLine source) = true := rfl
    rw [heq] at hpre
    exact absurd hpre (by decide)
  isDeclaration_eq := rfl

/-- The line that declares the type of no input. -/
def noInputLine : Text := "export type NoInput = Record<string, never>;".toList

theorem declares_noInputLine : Declares [noInputName] [noInputLine] :=
  ⟨by decide, by decide, by decide, by decide⟩

section Cut

variable {style : Style} {es : List Entity}

/-- The lines of the output, given those of the declarations. -/
theorem text_eq_endLines {shapes requests : List Text}
    (hshapes : (declarations style.width dataShape? es).flatMap ('\n' :: ·) = endLines shapes)
    (hrequests : (declarations style.width request? es).flatMap ('\n' :: ·) = endLines requests) :
    text style es = endLines (([headerLine style.source, [], noInputLine] ++ shapes ++ [[]]) ++
      delimiter :: ((requests ++ [[]]) ++
        delimiter :: ([] :: registryLines style.registryName (Registry.ofEntities es)))) := by
  have hheader : header style.source = headerLine style.source ++ ['\n'] := by
    unfold header headerLine
    have hdot : ". Do not edit.\n".toList = ". Do not edit.".toList ++ ['\n'] := by decide
    rw [hdot, List.append_assoc, List.append_assoc, List.append_assoc]
  have hnoInput : typeAlias noInputName "Record<string, never>".toList = noInputLine ++ ['\n'] := by
    decide
  have hblank : "\n\n".toList = ['\n', '\n'] := by decide
  unfold text
  dsimp only
  rw [hshapes, hrequests, hheader, hnoInput, hblank, registryType_eq]
  simp only [endLines, List.flatMap_append, List.flatMap_cons, List.append_assoc, List.cons_append,
    List.nil_append]

theorem delimiter_isLine : '\n' ∉ delimiter := by decide

/-- The sections of entities that keep to their lines. -/
theorem exists_sections_of_keepsToLines (hes : ∀ e ∈ es, KeepsToLines e)
    (hname : isIdentifier style.registryName = true) (hsource : ∀ s ∈ style.source, '\n' ∉ s) :
    ∃ shapes requests registry,
      Sections style.registryName es (splitOn '\n' (text style es)) shapes requests registry := by
  obtain ⟨shapes, hshapesText, hshapes⟩ := writes_declarations hes
    (fun e he d => writes_dataShape he) style.width
  obtain ⟨requests, hrequestsText, hrequests⟩ := writes_declarations hes
    (fun e he d => writes_request he) style.width
  simp only [isSome_dataShape?] at hshapes
  simp only [isSome_request?, toList_requestName] at hrequests
  have hblank : Declares [] [([] : Text)] := .of_fillers (by simpa using isFiller_nil)
  have hregistry := declares_registryLines hname (isFiller_entryLine hes)
  have hfirst := ((Declares.cons (isFiller_headerLine hsource) (.cons isFiller_nil
    declares_noInputLine)).append hshapes).append hblank
  have hsecond := hrequests.append hblank
  have hthird := (hblank.append hregistry).append hblank
  refine ⟨[headerLine style.source, [], noInputLine] ++ shapes ++ [[]], requests ++ [[]],
    [[]] ++ registryLines style.registryName (Registry.ofEntities es) ++ [[]], ?_, ?_, ?_, ?_, ?_,
    ?_, ?_⟩
  · rw [text_eq_endLines hshapesText hrequestsText, endLines, splitOn_ended]
    · simp only [List.append_assoc, List.cons_append, List.nil_append]
    · intro l hl
      rcases List.mem_append.1 hl with hl | hl
      · exact hfirst.newline l hl
      · rcases List.mem_cons.1 hl with rfl | hl
        · exact delimiter_isLine
        · rcases List.mem_append.1 hl with hl | hl
          · exact hsecond.newline l hl
          · rcases List.mem_cons.1 hl with rfl | hl
            · exact delimiter_isLine
            · exact hthird.newline l (List.mem_append_left _ hl)
  · exact fun hl => (List.mem_append.1 hl).elim hfirst.delimiter fun hl =>
      (List.mem_append.1 hl).elim hsecond.delimiter hthird.delimiter
  · have hheader : isDeclaration (headerLine style.source) = false := rfl
    rw [List.append_assoc, List.cons_append, List.filter_cons_of_neg (by rw [hheader]; decide)]
    rfl
  · rw [hfirst.names_eq, List.append_nil, List.map_append, List.map_map]
    rfl
  · rw [hsecond.names_eq, List.append_nil, List.map_map]
    rfl
  · rw [hthird.names_eq]
    rfl
  · have hblankLine : ([[]] : List Text).filter isSetIn = [] := rfl
    rw [List.filter_append, List.filter_append, filter_registryLines, hblankLine, List.nil_append,
      List.append_nil, map_entryLine]

end Cut

end Declaration

open Declaration

/-- **Main theorem.** At any width the declarations of a page are three sections, which declare the
data shapes, the requests and the registry of its entities one by one; the registry has the
operations in order, and operations that differ have requests that differ. -/
theorem exists_sections {page : Text} {c : Compilation} (h : compile page = .ok c) (style : Style)
    (hname : isIdentifier style.registryName = true) (hsource : ∀ s ∈ style.source, '\n' ∉ s) :
    (∃ shapes requests registry, Sections style.registryName c.entities
      (splitOn '\n' (render style .typescript c.entities)) shapes requests registry) ∧
    (Registry.ofEntities c.entities).entries = (c.entities.filterMap Entity.result?).map
      (fun (n, t) => ⟨n, String.ofList (requestName n.toList), t⟩) ∧
    ∀ e ∈ c.entities, ∀ e' ∈ c.entities, e.isOperation = true → e'.isOperation = true →
      e.name ≠ e'.name → e.requestName ≠ e'.requestName := by
  have hes := keepsToLines_of_compile h
  refine ⟨exists_sections_of_keepsToLines hes hname hsource, entries_ofEntities c.entities, ?_⟩
  intro e he e' he' hop hop' hne heq
  have hrequest : requestName e.name.toList = requestName e'.name.toList := by
    rw [← toList_requestName, ← toList_requestName, heq]
  exact hne (String.toList_inj.1 (requestName_injective
    (isOperationName_of_isOperation (hes e he).wellFormed hop)
    (isOperationName_of_isOperation (hes e' he').wellFormed hop') hrequest))

/-- A description that looks like declarations and a delimiter. -/
theorem exists_sections_disguised :
    let page := ("<h4>Pet</h4>export type A = B;<br>// ----<table><tr><td>id</td>" ++
      "<td>Integer</td><td>export x</td></tr></table><h4>getPet</h4>Returns the Pet." ++
      "<h4>setPet</h4>").toList
    let style : Style := { width := 4, registryName := "All".toList, source := some "a b".toList }
    ∃ c shapes requests registry, compile page = .ok c ∧ isIdentifier style.registryName = true ∧
      (∀ s ∈ style.source, '\n' ∉ s) ∧ Sections style.registryName c.entities
        (splitOn '\n' (render style .typescript c.entities)) shapes requests registry := by
  intro page style
  have hok : (compile page).isOk = true := by decide +kernel
  cases h : compile page with
  | error e => rw [h] at hok; cases hok
  | ok c =>
    have hname : isIdentifier style.registryName = true := by decide
    have hsource : ∀ s ∈ style.source, '\n' ∉ s := by decide
    obtain ⟨⟨shapes, requests, registry, hsections⟩, -, -⟩ := exists_sections h style hname hsource
    exact ⟨c, shapes, requests, registry, rfl, hname, hsource, hsections⟩

end DocTypes
