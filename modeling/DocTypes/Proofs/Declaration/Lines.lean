/-
  The lines of declarations. A declaration is whole lines, one of which declares its name and none
  of which is the delimiter (`Writes`); comments are lines that declare nothing. Texts that declare
  names one after the other declare all of them, in order, so what a section declares can be read
  off its declarations. That descriptions and types keep to their lines is a condition here.
-/
import DocTypes.Proofs.Declaration.Comment
import DocTypes.Proofs.Reading.WellFormed
import DocTypes.Proofs.Text.Words

namespace DocTypes.Declaration

open Text

/-! ## Lines that declare names -/

/-- Does the line start a declaration? -/
def isDeclaration (line : Text) : Bool := "export ".toList.isPrefixOf line

/-- The name that a line declares: the one behind its keyword. -/
def declaredName? (line : Text) : Option Text :=
  ((after? id "export type ".toList line).or (after? id "export interface ".toList line)).map
    fun rest => rest.takeWhile isNameChar

/-- The name of the type that a line declares: what stands behind its keyword, up to the next
space. -/
def typeName? (line : Text) : Option Text :=
  ((after? id "export type ".toList line).or (after? id "export interface ".toList line)).map
    fun rest => rest.takeWhile (· != ' ')

/-- The line is a line, declares nothing and is no delimiter. -/
structure IsFiller (l : Text) : Prop where
  newline : '\n' ∉ l
  ne_delimiter : l ≠ delimiter
  isDeclaration_eq : isDeclaration l = false

/-- The lines declare the names in order, and none of them is the delimiter. -/
structure Declares (names lines : List Text) : Prop where
  newline : ∀ l ∈ lines, '\n' ∉ l
  delimiter : delimiter ∉ lines
  names_eq : (lines.filter isDeclaration).map declaredName? = names.map some
  typeNames_eq : lines.filterMap typeName? = names

/-- Only a line that starts a declaration has the name of a type. -/
theorem typeName?_of_not_isDeclaration {l : Text} (h : isDeclaration l = false) :
    typeName? l = none := by
  have hnone : ∀ w, isDeclaration w = true → after? id w l = none := by
    intro w hw
    cases hr : after? id w l with
    | none => rfl
    | some r =>
      obtain ⟨t, rfl⟩ := List.isPrefixOf_iff_prefix.1 hw
      rw [eq_append_of_after? hr, isDeclaration, List.append_assoc,
        List.isPrefixOf_iff_prefix.2 (List.prefix_append _ _)] at h
      cases h
  rw [typeName?, hnone _ (by decide), hnone _ (by decide)]
  rfl

theorem isFiller_nil : IsFiller [] := ⟨by decide, by decide, rfl⟩

/-- A line that starts neither as the delimiter does nor as a declaration. -/
theorem isFiller_cons {c : Char} {s : Text} (hslash : c ≠ '/') (hkeyword : c ≠ 'e')
    (hnewline : '\n' ∉ c :: s) : IsFiller (c :: s) where
  newline := hnewline
  ne_delimiter := fun h => hslash (List.cons.inj h).1
  isDeclaration_eq := by
    show ('e' == c && _) = false
    rw [beq_false_of_ne (Ne.symm hkeyword), Bool.false_and]

namespace Declares

variable {names names' lines lines' : List Text}

theorem nil : Declares [] [] := ⟨by simp, by simp, rfl, rfl⟩

theorem append (h : Declares names lines) (h' : Declares names' lines') :
    Declares (names ++ names') (lines ++ lines') where
  newline := fun l hl => (List.mem_append.1 hl).elim (h.newline l) (h'.newline l)
  delimiter := fun hl => (List.mem_append.1 hl).elim h.delimiter h'.delimiter
  names_eq := by
    rw [List.filter_append, List.map_append, h.names_eq, h'.names_eq, List.map_append]
  typeNames_eq := by rw [List.filterMap_append, h.typeNames_eq, h'.typeNames_eq]

theorem cons {l : Text} (hl : IsFiller l) (h : Declares names lines) :
    Declares names (l :: lines) where
  newline := List.forall_mem_cons.2 ⟨hl.newline, h.newline⟩
  delimiter := by
    rw [List.mem_cons, not_or]
    exact ⟨hl.ne_delimiter.symm, h.delimiter⟩
  names_eq := by
    rw [List.filter_cons_of_neg (by rw [hl.isDeclaration_eq]; exact Bool.false_ne_true), h.names_eq]
  typeNames_eq := by
    rw [List.filterMap_cons_none (typeName?_of_not_isDeclaration hl.isDeclaration_eq),
      h.typeNames_eq]

theorem of_fillers (h : ∀ l ∈ lines, IsFiller l) : Declares [] lines := by
  induction lines with
  | nil => exact nil
  | cons l lines ih =>
    obtain ⟨hl, hlines⟩ := List.forall_mem_cons.1 h
    exact .cons hl (ih hlines)

/-- A declaration that goes on below its first line. -/
theorem block {first last : Text} (hfirst : Declares names [first])
    (hlines : ∀ l ∈ lines, IsFiller l) (hlast : IsFiller last) :
    Declares names ([first] ++ (lines ++ [last])) := by
  have hrest : Declares [] (lines ++ [last]) :=
    (of_fillers hlines).append (of_fillers (by simpa using hlast))
  simpa using hfirst.append hrest

end Declares

/-- A keyword and a name without a space give the name of a type. -/
theorem typeName?_line {keyword n : Text}
    (hkeyword : keyword = "export type ".toList ∨ keyword = "export interface ".toList)
    (hn : ' ' ∉ n) (rest : Text) : typeName? (keyword ++ n ++ ' ' :: rest) = some n := by
  have hname : (n ++ ' ' :: rest).takeWhile (· != ' ') = n := takeWhile_ne hn rest
  rw [List.append_assoc]
  unfold typeName?
  rcases hkeyword with rfl | rfl
  · rw [after?_append_self, Option.some_or, Option.map_some, hname]
  · have hother : after? id "export type ".toList
        ("export interface ".toList ++ (n ++ ' ' :: rest)) = none := rfl
    rw [hother, after?_append_self, Option.none_or, Option.map_some, hname]

/-- A keyword, an identifier and something behind it declare the identifier. -/
theorem declares_line {keyword n rest : Text}
    (hkeyword : keyword = "export type ".toList ∨ keyword = "export interface ".toList)
    (hn : isIdentifier n = true) (hrest : '\n' ∉ ' ' :: rest) :
    Declares [n] [keyword ++ n ++ ' ' :: rest] := by
  have hname : (n ++ ' ' :: rest).takeWhile isNameChar = n :=
    takeWhile_run (Identifier.isNameChar_of_mem ⟨n, hn⟩) (by simp; decide)
  have hdeclared : declaredName? (keyword ++ n ++ ' ' :: rest) = some n := by
    rw [List.append_assoc]
    unfold declaredName?
    rcases hkeyword with rfl | rfl
    · rw [after?_append_self, Option.some_or, Option.map_some, hname]
    · have hother : after? id "export type ".toList
          ("export interface ".toList ++ (n ++ ' ' :: rest)) = none := rfl
      rw [hother, after?_append_self, Option.none_or, Option.map_some, hname]
  have hkeywords : '\n' ∉ keyword ∧ isDeclaration (keyword ++ (n ++ ' ' :: rest)) = true ∧
      keyword ++ (n ++ ' ' :: rest) ≠ delimiter := by
    rcases hkeyword with rfl | rfl
    · exact ⟨by decide, rfl, fun h => by cases h⟩
    · exact ⟨by decide, rfl, fun h => by cases h⟩
  obtain ⟨hnewline, hdeclaration, hne⟩ := hkeywords
  rw [← List.append_assoc] at hdeclaration hne
  have hnnewline : '\n' ∉ n := Identifier.notMem ⟨n, hn⟩ (by decide)
  have hspace : ' ' ∉ n := Identifier.notMem ⟨n, hn⟩ (by decide)
  refine ⟨?_, ?_, ?_, ?_⟩
  · intro l hl
    rw [List.mem_singleton.1 hl, List.mem_append, List.mem_append, not_or, not_or]
    exact ⟨⟨hnewline, hnnewline⟩, hrest⟩
  · rw [List.mem_singleton]
    exact hne.symm
  · rw [List.filter_cons_of_pos hdeclaration, List.filter_nil, List.map_singleton, hdeclared]
    rfl
  · rw [List.filterMap_cons_some (typeName?_line hkeyword hspace rest), List.filterMap_nil]

/-! ## Texts that declare names -/

/-- The text is whole lines, which declare the names. -/
def Writes (names : List Text) (t : Text) : Prop := ∃ ls, t = endLines ls ∧ Declares names ls

theorem endLines_append (a b : List Text) : endLines (a ++ b) = endLines a ++ endLines b :=
  List.flatMap_append

theorem Writes.append {names names' : List Text} {t t' : Text} (h : Writes names t)
    (h' : Writes names' t') : Writes (names ++ names') (t ++ t') := by
  obtain ⟨ls, rfl, hls⟩ := h
  obtain ⟨ls', rfl, hls'⟩ := h'
  exact ⟨ls ++ ls', (endLines_append ls ls').symm, hls.append hls'⟩

/-! ## Comments -/

/-- A comment declares nothing, whatever the description is. -/
theorem writes_comment {paragraphs : List Text} (h : ∀ p ∈ paragraphs, '\n' ∉ p) (width : Nat) :
    Writes [] (comment width paragraphs) := by
  by_cases hblank : ∀ p ∈ paragraphs, ∀ c ∈ p, isBlank c = true
  · exact ⟨[], comment_of_blank hblank width, .nil⟩
  · refine ⟨_, comment_of_nonblank hblank width, .of_fillers ?_⟩
    have hfirst : IsFiller "/**".toList := ⟨by decide, by decide, rfl⟩
    have hlast : IsFiller " */".toList := isFiller_cons (by decide) (by decide) (by decide)
    intro l hl
    rcases List.mem_append.1 hl with hl | hl
    · rcases List.mem_cons.1 hl with rfl | hl
      · exact hfirst
      · obtain ⟨p, hp, hl⟩ := List.mem_flatMap.1 hl
        rcases mem_paragraphLines (room_pos width) hl with rfl | ⟨w, rfl, hw, -⟩
        · exact isFiller_cons (by decide) (by decide) (by decide)
        · refine isFiller_cons (by decide) (by decide) ?_
          show '\n' ∉ commentMargin ++ w
          rw [List.mem_append, not_or]
          exact ⟨by decide, fun hc => notMem_escapeEnd (by decide) (h p hp) (hw.mem hc)⟩
    · rw [List.mem_singleton.1 hl]
      exact hlast

/-! ## Declarations -/

theorem writes_typeAlias {n type : Text} (hn : isIdentifier n = true) (htype : '\n' ∉ type) :
    Writes [n] (typeAlias n type) := by
  have hrest : '\n' ∉ ' ' :: ("= ".toList ++ type ++ [';']) := by
    have hequals : '\n' ∉ "= ".toList := by decide
    simp only [List.mem_cons, List.mem_append, not_or]
    exact ⟨by decide, ⟨hequals, htype⟩, by decide⟩
  have hlines : ∀ keyword equals : Text, keyword ++ n ++ ' ' :: equals ++ type ++ [';', '\n'] =
      endLines [keyword ++ n ++ ' ' :: (equals ++ type ++ [';'])] := by
    simp [endLines]
  exact ⟨_, hlines "export type ".toList "= ".toList, declares_line (Or.inl rfl) hn hrest⟩

/-- The line of a field with a description and a type that keep to their lines. -/
theorem isFiller_fieldLine {f : Field} (hname : isIdentifier f.name.toList = true)
    (htype : '\n' ∉ f.type.text) (hdescription : '\n' ∉ f.description.toList) :
    IsFiller (fieldLine f) := by
  have hn : '\n' ∉ f.name.toList := Identifier.notMem ⟨_, hname⟩ (by decide)
  refine isFiller_cons (by decide) (by decide) ?_
  show '\n' ∉ fieldLine f
  unfold fieldLine
  simp only [List.mem_append, not_or]
  refine ⟨⟨⟨⟨⟨⟨by decide, hn⟩, ?_⟩, by decide⟩, htype⟩, by decide⟩, ?_⟩
  · split <;> decide
  · split
    · exact List.not_mem_nil
    · rw [List.mem_append, not_or]
      exact ⟨by decide, hdescription⟩

theorem writes_interface {n : Text} {fields : List Field} (hn : isIdentifier n = true)
    (hfields : ∀ f ∈ fields, IsFiller (fieldLine f)) : Writes [n] (interface n fields) := by
  unfold interface
  split
  · refine ⟨["export interface ".toList ++ n ++ " \x7b\x7d".toList], ?_, ?_⟩
    · simp [endLines]
    · exact declares_line (Or.inr rfl) hn (by decide)
  · have hlines : ∀ l ∈ fields.map fieldLine, IsFiller l := List.forall_mem_map.2 hfields
    have hlast : IsFiller "\x7d".toList := isFiller_cons (by decide) (by decide) (by decide)
    refine ⟨["export interface ".toList ++ n ++ " \x7b".toList] ++
      (fields.map fieldLine ++ ["\x7d".toList]), ?_, ?_⟩
    · simp [endLines]
    · exact (declares_line (Or.inr rfl) hn (by decide)).block hlines hlast

end DocTypes.Declaration
