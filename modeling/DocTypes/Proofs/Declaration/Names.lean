/-
  The names of the types that the declarations of a page declare. They have four sources: the type
  of no input, the data shapes, the requests and the registry type (`exists_typeNames`). Where a run
  has no warnings, no two names of one source agree (`nodup_shapeNames`, `nodup_requestNames`), so
  the names differ exactly where those of different sources do (`exists_typeNames_iff`). That they
  do is left to the page and the configuration: a data shape may be called `NoInput`
  (`typeNames_noInput_twice`).
-/
import DocTypes.Proofs.Declaration.Sections
import DocTypes.Proofs.Report
import DocTypes.Run
import Mathlib.Data.List.Nodup

namespace DocTypes

open Text

namespace Declaration

/-- The names of the types that an output declares, in order. -/
def typeNames (output : Text) : List Text := (splitOn '\n' output).filterMap typeName?

/-- The names of the data shapes. -/
def shapeNames (es : List Entity) : List Text :=
  (es.filter fun e => !e.isOperation).map fun e => e.name.toList

/-- The names of the requests of the operations. -/
def requestNames (es : List Entity) : List Text :=
  (es.filter Entity.isOperation).map fun e => e.requestName.toList

/-- The names of all types that are declared for the entities. -/
def declaredNames (registryName : Text) (es : List Entity) : List Text :=
  noInputName :: (shapeNames es ++ (requestNames es ++ [registryName]))

/-- No name agrees with one of another source. -/
structure Apart (registryName : Text) (es : List Entity) : Prop where
  shapes_noInput : noInputName ∉ shapeNames es
  shapes_requests : (shapeNames es).Disjoint (requestNames es)
  registry_noInput : registryName ≠ noInputName
  registry_shapes : registryName ∉ shapeNames es
  registry_requests : registryName ∉ requestNames es

/-! ## Names that agree -/

section Agree

variable {es : List Entity}

theorem nodup_shapeNames (hnames : (es.map Entity.name).Nodup) : (shapeNames es).Nodup := by
  have hsub : ((es.filter fun e => !e.isOperation).map Entity.name).Nodup :=
    hnames.sublist (List.filter_sublist.map Entity.name)
  have hmap := List.Nodup.map (fun _ _ h => String.toList_inj.1 h) hsub
  rwa [List.map_map] at hmap

theorem mem_requestNames {n : Text} (hn : n ∈ requestNames es) :
    ∃ e ∈ es, e.isOperation = true ∧ n = requestName e.name.toList := by
  obtain ⟨e, he, rfl⟩ := List.mem_map.1 hn
  exact ⟨e, (List.mem_filter.1 he).1, (List.mem_filter.1 he).2, toList_requestName e⟩

/-- Operations of different names have requests of different names. -/
theorem nodup_requestNames (hes : ∀ e ∈ es, e.WellFormed) (hnames : (es.map Entity.name).Nodup) :
    (requestNames es).Nodup := by
  have hsub : ((es.filter Entity.isOperation).map Entity.name).Nodup :=
    hnames.sublist (List.filter_sublist.map Entity.name)
  refine List.Nodup.map_on ?_ (List.Nodup.of_map _ hsub)
  intro e he o ho heq
  have hop : ∀ e ∈ es.filter Entity.isOperation, isOperationName e.name.toList = true :=
    fun e he => isOperationName_of_isOperation (hes e (List.mem_filter.1 he).1)
      (List.mem_filter.1 he).2
  rw [toList_requestName, toList_requestName] at heq
  have hname : e.name = o.name :=
    String.toList_inj.1 (requestName_injective (hop e he) (hop o ho) heq)
  exact List.inj_on_of_nodup_map hsub he ho hname

/-- The name of a request ends as no other fixed name does. -/
theorem noInputName_notMem_requestNames : noInputName ∉ requestNames es := by
  intro hmem
  obtain ⟨e, -, -, heq⟩ := mem_requestNames hmem
  have hlast := congrArg List.getLast? heq
  rw [requestName, List.getLast?_append] at hlast
  cases hlast

/-- Where the names of the entities differ, those of the types do where the sources are apart. -/
theorem nodup_declaredNames_iff (hes : ∀ e ∈ es, e.WellFormed)
    (hnames : (es.map Entity.name).Nodup) (registryName : Text) :
    (declaredNames registryName es).Nodup ↔ Apart registryName es := by
  have hshapes := nodup_shapeNames hnames
  have hrequests := nodup_requestNames hes hnames
  have hnoInput : noInputName ∉ requestNames es := noInputName_notMem_requestNames
  constructor
  · intro h
    obtain ⟨hfirst, hrest⟩ := List.nodup_cons.1 h
    obtain ⟨-, htail, hapart⟩ := List.nodup_append'.1 hrest
    obtain ⟨-, -, hregistry⟩ := List.nodup_append'.1 htail
    simp only [List.mem_append, List.mem_singleton, not_or] at hfirst
    exact
      { shapes_noInput := hfirst.1
        shapes_requests := fun n hn hn' => hapart hn (List.mem_append_left _ hn')
        registry_noInput := Ne.symm hfirst.2.2
        registry_shapes := fun hn =>
          hapart hn (List.mem_append_right _ (List.mem_singleton_self registryName))
        registry_requests := fun hn => hregistry hn (List.mem_singleton_self registryName) }
  · intro h
    have hlast : (requestNames es ++ [registryName]).Nodup := by
      refine List.nodup_append'.2 ⟨hrequests, List.nodup_singleton _, ?_⟩
      rw [List.disjoint_singleton]
      exact h.registry_requests
    have hbehind : (shapeNames es ++ (requestNames es ++ [registryName])).Nodup := by
      refine List.nodup_append'.2 ⟨hshapes, hlast, ?_⟩
      rw [List.disjoint_append_right, List.disjoint_singleton]
      exact ⟨h.shapes_requests, h.registry_shapes⟩
    refine List.nodup_cons.2 ⟨?_, hbehind⟩
    simp only [List.mem_append, List.mem_singleton, not_or]
    exact ⟨h.shapes_noInput, hnoInput, Ne.symm h.registry_noInput⟩

end Agree

/-! ## Names in the output -/

section Output

variable {es : List Entity}

/-- A name that a type may have keeps to its line, and ends at a space. -/
theorem notMem_isTypeName {name : Text} (h : Config.isTypeName name = true) {d : Char}
    (hd : isNameChar d = false) (hdollar : d ≠ '$') : d ∉ name := by
  intro hmem
  cases name with
  | nil => cases hmem
  | cons c s =>
    obtain ⟨hhead, htail⟩ := Bool.and_eq_true_iff.1 h
    have hchar : (isNameChar d || d == '$') = true := by
      rcases List.mem_cons.1 hmem with rfl | hmem
      · simp only [isNameChar, Char.isAlphanum, Bool.or_eq_true] at hhead ⊢
        tauto
      · exact List.all_eq_true.1 htail d hmem
    rw [hd, Bool.false_or, beq_iff_eq] at hchar
    exact hdollar hchar

theorem typeNames_endLines {ls : List Text} (h : ∀ l ∈ ls, '\n' ∉ l) :
    typeNames (endLines ls) = ls.filterMap typeName? := by
  rw [typeNames, endLines, splitOn_ended h, List.filterMap_append]
  exact List.append_nil _

theorem filterMap_registryLines {name : Text} {r : Registry} (hname : ' ' ∉ name)
    (hr : ∀ n ∈ r.entries, IsFiller (entryLine n)) :
    (registryLines name r).filterMap typeName? = [name] := by
  unfold registryLines
  split
  · have hline : typeName? ("export type ".toList ++ name ++ " = \x7b\x7d;".toList) = some name :=
      typeName?_line (Or.inl rfl) hname _
    rw [List.filterMap_cons_some hline, List.filterMap_nil]
  · have hlines : ∀ l ∈ r.entries.map entryLine, IsFiller l := List.forall_mem_map.2 hr
    have hlast : IsFiller "\x7d;".toList := isFiller_cons (by decide) (by decide) (by decide)
    have hfillers : Declares [] (r.entries.map entryLine ++ ["\x7d;".toList]) :=
      (Declares.of_fillers hlines).append (.of_fillers (by simpa using hlast))
    have hline : typeName? ("export type ".toList ++ name ++ " = \x7b".toList) = some name :=
      typeName?_line (Or.inl rfl) hname _
    rw [List.filterMap_append, hfillers.typeNames_eq, List.append_nil,
      List.filterMap_cons_some hline, List.filterMap_nil]

theorem newline_notMem_registryLines {name : Text} {r : Registry} (hname : '\n' ∉ name)
    (hr : ∀ n ∈ r.entries, IsFiller (entryLine n)) : ∀ l ∈ registryLines name r, '\n' ∉ l := by
  have hfirst : ∀ rest : Text, '\n' ∉ rest → '\n' ∉ "export type ".toList ++ name ++ rest := by
    intro rest hrest
    rw [List.mem_append, List.mem_append, not_or, not_or]
    exact ⟨⟨by decide, hname⟩, hrest⟩
  unfold registryLines
  split
  · simpa using hfirst " = \x7b\x7d;".toList (by decide)
  · intro l hl
    rcases List.mem_append.1 hl with hl | hl
    · rw [List.mem_singleton.1 hl]
      exact hfirst _ (by decide)
    · rcases List.mem_append.1 hl with hl | hl
      · obtain ⟨n, hn, rfl⟩ := List.mem_map.1 hl
        exact (hr n hn).newline
      · rw [List.mem_singleton.1 hl]
        decide

/-- Below its header the output declares the types of the four sources, one after the other. -/
theorem exists_typeNames (hes : ∀ e ∈ es, KeepsToLines e) {style : Style}
    (hname : Config.isTypeName style.registryName = true) :
    ∃ body, text style es = header style.source ++ body ∧
      typeNames body = declaredNames style.registryName es := by
  obtain ⟨shapes, hshapesText, hshapes⟩ := writes_declarations hes
    (fun e he d => writes_dataShape he) style.width
  obtain ⟨requests, hrequestsText, hrequests⟩ := writes_declarations hes
    (fun e he d => writes_request he) style.width
  simp only [isSome_dataShape?] at hshapes
  simp only [isSome_request?] at hrequests
  have hblank : Declares [] [([] : Text)] := .of_fillers (by simpa using isFiller_nil)
  have hentries := isFiller_entryLine hes
  have hspace : ' ' ∉ style.registryName := notMem_isTypeName hname (by decide) (by decide)
  have hnewline : '\n' ∉ style.registryName := notMem_isTypeName hname (by decide) (by decide)
  have hfirst := ((Declares.cons isFiller_nil declares_noInputLine).append hshapes).append hblank
  have hsecond := hrequests.append hblank
  have hdelimiter : typeName? delimiter = none := by decide
  refine ⟨endLines (([[], noInputLine] ++ shapes ++ [[]]) ++ delimiter :: ((requests ++ [[]]) ++
    delimiter :: ([] :: registryLines style.registryName (Registry.ofEntities es)))), ?_, ?_⟩
  · have hheader : header style.source = endLines [headerLine style.source] := by
      unfold header headerLine endLines
      have hdot : ". Do not edit.\n".toList = ". Do not edit.".toList ++ ['\n'] := by decide
      rw [hdot, List.flatMap_cons, List.flatMap_nil, List.append_nil, ← List.append_assoc]
    rw [text_eq_endLines hshapesText hrequestsText, hheader, ← endLines_append]
    rfl
  · rw [typeNames_endLines, List.filterMap_append, hfirst.typeNames_eq,
      List.filterMap_cons_none hdelimiter, List.filterMap_append, hsecond.typeNames_eq,
      List.filterMap_cons_none hdelimiter, List.filterMap_cons_none rfl,
      filterMap_registryLines hspace hentries]
    · simp [declaredNames, shapeNames, requestNames]
    · intro l hl
      rcases List.mem_append.1 hl with hl | hl
      · exact hfirst.newline l hl
      · rcases List.mem_cons.1 hl with rfl | hl
        · exact delimiter_isLine
        · rcases List.mem_append.1 hl with hl | hl
          · exact hsecond.newline l hl
          · rcases List.mem_cons.1 hl with rfl | hl
            · exact delimiter_isLine
            · rcases List.mem_cons.1 hl with rfl | hl
              · exact List.not_mem_nil
              · exact newline_notMem_registryLines hnewline hentries l hl

end Output

end Declaration

open Declaration

/-- **Main theorem.** Where the run on a page has no warnings, and under a configuration that is
valid, the types that the output declares below its header are those of the four sources, and their
names differ exactly where no name agrees with one of another source. -/
theorem exists_typeNames_iff {page : Text} {c : Compilation} (h : compile page = .ok c)
    (hwarnings : c.report.warnings = []) {config : Config} (hconfig : config.invalid? = none) :
    ∃ body, render config.style .typescript c.entities = header config.style.source ++ body ∧
      typeNames body = declaredNames config.registryName.toList c.entities ∧
      ((typeNames body).Nodup ↔ Apart config.registryName.toList c.entities) := by
  have hes := keepsToLines_of_compile h
  have hnames := ((accounts_of_compile h).warnings.1 hwarnings).1
  have hname : Config.isTypeName config.registryName.toList = true := by
    unfold Config.invalid? at hconfig
    split_ifs at hconfig with _ _ _ hvalid
    simpa using hvalid
  have hstyle : Config.isTypeName config.style.registryName = true := hname
  obtain ⟨body, htext, hbody⟩ := exists_typeNames hes hstyle
  refine ⟨body, htext, hbody, ?_⟩
  rw [hbody]
  exact nodup_declaredNames_iff (fun e he => (hes e he).wellFormed) hnames _

/-- A data shape, an operation and a registry type whose name is no identifier. -/
theorem exists_typeNames_pet :
    let page := "<h4>Pet</h4>x<h4>getPet</h4>Returns the Pet.".toList
    let config : Config := { registryName := "$Api", sourceUrl := "a\nb" }
    ∃ c body, compile page = .ok c ∧ c.report.warnings = [] ∧ config.invalid? = none ∧
      render config.style .typescript c.entities = header config.style.source ++ body ∧
      typeNames body = ["NoInput".toList, "Pet".toList, "GetPetData".toList, "$Api".toList] ∧
      ((typeNames body).Nodup ↔ Apart config.registryName.toList c.entities) := by
  intro page config
  have hrun : (compile page).map (fun c => (c.report.warnings,
      declaredNames config.registryName.toList c.entities)) = .ok ([],
        ["NoInput".toList, "Pet".toList, "GetPetData".toList, "$Api".toList]) := by decide +kernel
  cases h : compile page with
  | error e => rw [h] at hrun; cases hrun
  | ok c =>
    rw [h] at hrun
    obtain ⟨hwarnings, hnames⟩ := Prod.mk.inj (Except.ok.inj hrun)
    have hconfig : config.invalid? = none := by decide
    obtain ⟨body, htext, hbody, hiff⟩ := exists_typeNames_iff h hwarnings hconfig
    exact ⟨c, body, rfl, hwarnings, hconfig, htext, hbody.trans hnames, hiff⟩

/-- A data shape of the name `NoInput` is declared a second time, without a warning. -/
theorem typeNames_noInput_twice :
    let page := "<h4>NoInput</h4>".toList
    let config : Config := {}
    ∃ c, compile page = .ok c ∧ c.report.warnings = [] ∧ config.invalid? = none ∧
      ¬ (typeNames (render config.style .typescript c.entities)).Nodup := by
  intro page config
  have hrun : (compile page).map (fun c => (c.report.warnings,
      typeNames (render config.style .typescript c.entities))) = .ok ([],
        ["NoInput".toList, "NoInput".toList, "Methods".toList]) := by decide +kernel
  cases h : compile page with
  | error e => rw [h] at hrun; cases hrun
  | ok c =>
    rw [h] at hrun
    obtain ⟨hwarnings, hnames⟩ := Prod.mk.inj (Except.ok.inj hrun)
    refine ⟨c, rfl, hwarnings, by decide, ?_⟩
    rw [hnames]
    decide

end DocTypes
