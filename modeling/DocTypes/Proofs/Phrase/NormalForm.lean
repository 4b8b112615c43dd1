/-
  The normal form of type phrases. The words "array of" are read up to what they are put in front
  of (`read_arrayOf_eq_some_iff`), and at the end of a phrase there are none, as blanks have to
  follow them. So a phrase gives a number of arrays around a primitive, a name, or two or more
  alternatives, each arrays around a primitive or a name; a name is a trimmed piece of the phrase
  that documents no primitive, and empty only for a blank phrase (`exists_arrays_resolve`).
-/
import DocTypes.Proofs.Phrase.TypePhrase
import DocTypes.Proofs.Phrase.ValueList

namespace DocTypes

open Text

namespace Primitive

/-- The documented names of the primitives. -/
def docNames : List (Text × Primitive) :=
  [("Integer".toList, integer), ("Int".toList, integer), ("Float".toList, float),
    ("Float number".toList, float), ("String".toList, string), ("Boolean".toList, boolean),
    ("True".toList, flag)]

theorem ofDocName?_eq (name : Text) : ofDocName? name = docNames.lookup (trim name) := by
  have hname : ∀ {s : String}, String.ofList (trim name) = s → trim name = s.toList :=
    fun h => by rw [← h, String.toList_ofList]
  unfold ofDocName?
  split
  case h_8 =>
    refine (List.lookup_eq_none_iff.2 fun p hp => bne_iff_ne.2 fun heq => ?_).symm
    have hp' : String.ofList (trim name) = String.ofList p.1 := congrArg String.ofList heq
    simp only [docNames, List.mem_cons, List.not_mem_nil, or_false] at hp
    rcases hp with rfl | rfl | rfl | rfl | rfl | rfl | rfl <;> contradiction
  all_goals next h => rw [hname h]; rfl

end Primitive

namespace TypeExpr

/-- The type within `n` arrays. -/
def arrays : Nat → TypeExpr → TypeExpr
  | 0, t => t
  | n + 1, t => array (arrays n t)

end TypeExpr

namespace Phrase

open TypeExpr

/-! ## The words in front of an element type -/

/-- One or more blanks. -/
structure Gap where
  text : Text
  ne_nil : text ≠ []
  isBlank : ∀ c ∈ text, isBlank c = true

/-- The words "array of" in any letter case, with blanks behind each. -/
structure ArrayWords where
  arrayText : Text
  arrayGap : Gap
  ofText : Text
  ofGap : Gap
  array_eq : arrayText.map foldCase = "array".toList
  of_eq : ofText.map foldCase = ofWord

def ArrayWords.text (w : ArrayWords) : Text :=
  w.arrayText ++ (w.arrayGap.text ++ (w.ofText ++ w.ofGap.text))

namespace ArrayWords

/-- The words as they are written most often. -/
def plain : ArrayWords where
  arrayText := "Array".toList
  arrayGap := ⟨[' '], by decide, by decide⟩
  ofText := "of".toList
  ofGap := ⟨[' '], by decide, by decide⟩
  array_eq := by decide
  of_eq := by decide

theorem text_append (w : ArrayWords) (s : Text) :
    w.text ++ s = w.arrayText ++ (w.arrayGap.text ++ (w.ofText ++ (w.ofGap.text ++ s))) := by
  simp [text]

end ArrayWords

/-- The characters of a word without blanks are none in any letter case. -/
theorem isBlank_of_map_foldCase {u w : Text} (h : u.map foldCase = w)
    (hw : ∀ c ∈ w, isBlank c = false) : ∀ c ∈ u, isBlank c = false := by
  intro c hc
  rw [Bool.eq_false_iff]
  intro hblank
  have hfold := hw (foldCase c) (h ▸ List.mem_map_of_mem hc)
  rw [foldCase_of_blank hblank, hblank] at hfold
  cases hfold

theorem ArrayWords.isBlank_ofText (w : ArrayWords) : ∀ c ∈ w.ofText, isBlank c = false :=
  isBlank_of_map_foldCase w.of_eq (by decide)

theorem ArrayWords.exists_blank_last (w : ArrayWords) :
    ∃ c ∈ w.text.getLast?, isBlank c = true := by
  obtain ⟨c, hc⟩ := Option.isSome_iff_exists.1 (List.getLast?_isSome.2 w.ofGap.ne_nil)
  refine ⟨c, ?_, w.ofGap.isBlank c (List.mem_of_mem_getLast? hc)⟩
  simp [text, List.getLast?_append, hc]

theorem read_blanks1_eq_some_iff {s r : Text} :
    blanks1.read s = some r ↔
      ∃ g : Gap, s = g.text ++ r ∧ ∀ c ∈ r.head?, isBlank c = false := by
  rw [read_blanks1]
  constructor
  · intro h
    split at h
    · next hhead =>
      obtain rfl := Option.some.inj h
      refine ⟨⟨s.takeWhile isBlank, ?_, ?_⟩, List.takeWhile_append_dropWhile.symm, ?_⟩
      · cases s with
        | nil => cases hhead
        | cons c s =>
          have hc : isBlank c = true := hhead
          rw [List.takeWhile_cons_of_pos hc]
          exact List.cons_ne_nil _ _
      · exact fun c hc => List.all_eq_true.1 List.all_takeWhile c hc
      · intro c hc
        have hnot := List.head?_dropWhile_not isBlank s
        rw [show s.dropWhile isBlank = trimStart s from rfl, Option.mem_def.1 hc] at hnot
        exact hnot
    · cases h
  · rintro ⟨g, rfl, hr⟩
    obtain ⟨c, t, hg⟩ := List.exists_cons_of_ne_nil g.ne_nil
    have hc : isBlank c = true := g.isBlank c (hg ▸ List.mem_cons_self)
    have hhead : (g.text ++ r).head?.any isBlank = true := by
      rw [hg]
      exact hc
    rw [if_pos hhead, trimStart, dropWhile_run g.isBlank hr]

/-- The words "array" and "of" are read one after the other, with blanks between. -/
theorem read_arrayThen (t : Tail) (s : Text) :
    (arrayWord.followedBy (blanks1.toTail.followedBy
      ((Pattern.anyCase ofWord ofWord_ne_nil).toTail.followedBy t))).read s =
      (after? foldCase "array".toList s).bind fun s =>
        (blanks1.read s).bind fun s => (after? foldCase ofWord s).bind t.read := by
  have hof : ((Pattern.anyCase ofWord ofWord_ne_nil).toTail.followedBy t).read =
      fun s => (after? foldCase ofWord s).bind t.read := by
    funext s
    rw [Tail.read_followedBy, Pattern.anyCase, Pattern.read_like]
  have hgap : (blanks1.toTail.followedBy
      ((Pattern.anyCase ofWord ofWord_ne_nil).toTail.followedBy t)).read =
      fun s => (blanks1.read s).bind fun s => (after? foldCase ofWord s).bind t.read := by
    funext s
    rw [Tail.read_followedBy, hof]
  show (arrayWord.toTail.followedBy (blanks1.toTail.followedBy _)).read s = _
  rw [Tail.read_followedBy, arrayWord, Pattern.anyCase, Pattern.read_like]
  exact congrArg _ hgap

theorem read_arrayOf (s : Text) :
    arrayOf.read s = (after? foldCase "array".toList s).bind fun s =>
      (blanks1.read s).bind fun s => (after? foldCase ofWord s).bind blanks1.read :=
  read_arrayThen blanks1.toTail s

/-- What is read as the words of an array. -/
theorem read_arrayOf_eq_some_iff {s rest : Text} :
    arrayOf.read s = some rest ↔
      ∃ w : ArrayWords, s = w.text ++ rest ∧ ∀ c ∈ rest.head?, isBlank c = false := by
  rw [read_arrayOf]
  constructor
  · intro h
    obtain ⟨s₁, hs₁, h₁⟩ := Option.bind_eq_some_iff.1 h
    obtain ⟨s₂, hs₂, h₂⟩ := Option.bind_eq_some_iff.1 h₁
    obtain ⟨s₃, hs₃, h₃⟩ := Option.bind_eq_some_iff.1 h₂
    obtain ⟨a, rfl, ha⟩ := after?_eq_some_iff.1 hs₁
    obtain ⟨g, rfl, -⟩ := read_blanks1_eq_some_iff.1 hs₂
    obtain ⟨o, rfl, ho⟩ := after?_eq_some_iff.1 hs₃
    obtain ⟨g', rfl, hrest⟩ := read_blanks1_eq_some_iff.1 h₃
    let w : ArrayWords := ⟨a, g, o, g', ha, ho⟩
    exact ⟨w, (w.text_append rest).symm, hrest⟩
  · rintro ⟨w, rfl, hrest⟩
    have hof : ∀ c ∈ (w.ofText ++ (w.ofGap.text ++ rest)).head?, isBlank c = false := by
      intro c hc
      cases hw : w.ofText with
      | nil => exact absurd w.of_eq (by rw [hw]; decide)
      | cons d t =>
        rw [hw, List.cons_append, List.head?_cons, Option.mem_some_iff] at hc
        exact hc ▸ w.isBlank_ofText d (hw ▸ List.mem_cons_self)
    rw [w.text_append, after?_eq_some_iff.2 ⟨_, rfl, w.array_eq⟩, Option.bind_some,
      read_blanks1_eq_some_iff.2 ⟨_, rfl, hof⟩, Option.bind_some,
      after?_eq_some_iff.2 ⟨_, rfl, w.of_eq⟩, Option.bind_some]
    exact read_blanks1_eq_some_iff.2 ⟨_, rfl, hrest⟩

/-! ## The normal form -/

/-- A name that a phrase gives: a trimmed piece of it that documents no primitive. -/
structure IsNameIn (phrase : Text) (n : String) : Prop where
  trim_eq : trim n.toList = n.toList
  notMem_docNames : n.toList ∉ Primitive.docNames.map Prod.fst
  part : n.toList <:+: phrase

/-- An alternative without its arrays. -/
inductive IsMemberIn (phrase : Text) : TypeExpr → Prop
  | primitive (p : Primitive) : IsMemberIn phrase (primitive p)
  | named {n : String} : IsNameIn phrase n → n.toList ≠ [] → IsMemberIn phrase (named n)

/-- The type of a phrase without its arrays. -/
inductive IsBaseIn (phrase : Text) : TypeExpr → Prop
  | primitive (p : Primitive) : IsBaseIn phrase (primitive p)
  | named {n : String} : IsNameIn phrase n →
      (n.toList = [] ↔ ∀ c ∈ phrase, isBlank c = true) → IsBaseIn phrase (named n)
  | union {ts : List TypeExpr} : 2 ≤ ts.length →
      (∀ t ∈ ts, ∃ n u, t = arrays n u ∧ IsMemberIn phrase u) → IsBaseIn phrase (union ts)

theorem IsNameIn.of_part {t phrase : Text} {n : String} (h : IsNameIn t n) (ht : t <:+: phrase) :
    IsNameIn phrase n :=
  ⟨h.trim_eq, h.notMem_docNames, h.part.trans ht⟩

theorem IsMemberIn.of_part {t phrase : Text} {u : TypeExpr} (h : IsMemberIn t u)
    (ht : t <:+: phrase) : IsMemberIn phrase u := by
  cases h with
  | primitive p => exact .primitive p
  | named h hne => exact .named (h.of_part ht) hne

/-- A piece that is not blank has the base of the phrase around it. -/
theorem IsBaseIn.of_part {t phrase : Text} {u : TypeExpr} (h : IsBaseIn t u) (ht : t <:+: phrase)
    (hblank : ¬ ∀ c ∈ t, isBlank c = true) : IsBaseIn phrase u := by
  have hphrase : ¬ ∀ c ∈ phrase, isBlank c = true := fun h => hblank fun c hc => h c (ht.subset hc)
  cases h with
  | primitive p => exact .primitive p
  | named h hiff => exact .named (h.of_part ht) (iff_of_false (fun h => hblank (hiff.1 h)) hphrase)
  | union hmany hmembers =>
    refine .union hmany fun t' ht' => ?_
    obtain ⟨n, v, heq, hv⟩ := hmembers t' ht'
    exact ⟨n, v, heq, hv.of_part ht⟩

theorem notBlank_of_mem_operands {phrase t : Text} (h : t ∈ operands phrase) :
    ¬ ∀ c ∈ t, isBlank c = true := by
  obtain ⟨hmem, hne⟩ := List.mem_filter.1 h
  obtain ⟨u, -, rfl⟩ := List.mem_map.1 hmem
  intro hall
  rw [← trim_trim, trim_eq_nil_iff.2 hall] at hne
  cases hne

/-- The base of an alternative is no union. -/
theorem IsBaseIn.isMemberIn {phrase : Text} {n : Nat} {u : TypeExpr} (h : IsBaseIn phrase u)
    (hoperand : (arrays n u).IsOperand) (hblank : ¬ ∀ c ∈ phrase, isBlank c = true) :
    IsMemberIn phrase u := by
  have hu : u.IsOperand := by
    induction n with
    | zero => exact hoperand
    | succ n ih =>
      cases hoperand with
      | array h => exact ih h
  cases h with
  | primitive p => exact .primitive p
  | named h hiff => exact .named h fun hnil => hblank (hiff.1 hnil)
  | union => cases hu

/-- Every phrase gives a number of arrays around a base. -/
theorem exists_arrays_resolve (phrase : Text) :
    ∃ n t, resolve phrase = arrays n t ∧ IsBaseIn phrase t := by
  refine resolve_induction (motive := fun phrase t => ∃ n u, t = arrays n u ∧ IsBaseIn phrase u)
    ?_ ?_ (fun _ p _ => ⟨0, _, rfl, .primitive p⟩) ?_ phrase
  · rintro phrase rest hread ⟨n, t, heq, ht⟩
    obtain ⟨w, hw, hrest⟩ := read_arrayOf_eq_some_iff.1 hread
    refine ⟨n + 1, t, by rw [heq]; rfl, ht.of_part ?_ ?_⟩
    · exact (List.IsSuffix.isInfix ⟨w.text, hw.symm⟩).trans (trim_isInfix phrase)
    · -- a trimmed phrase does not end with the blanks behind the words
      intro hall
      cases rest with
      | nil =>
        obtain ⟨c, hc, hblank⟩ := w.exists_blank_last
        rw [List.append_nil] at hw
        rw [isBlank_last_of_trim (trim_trim phrase) c (hw ▸ hc)] at hblank
        cases hblank
      | cons c rest =>
        have hc := hall c List.mem_cons_self
        rw [hrest c rfl] at hc
        cases hc
  · intro phrase hmany ih
    refine ⟨0, _, rfl, .union (by rw [List.length_map]; exact hmany) fun t ht => ?_⟩
    obtain ⟨u, hu, rfl⟩ := List.mem_map.1 ht
    obtain ⟨n, v, heq, hv⟩ := ih u hu
    have hoperand := isOperand_resolve (free_of_mem_operands hu)
    have hpart := (infix_of_mem_operands hu).trans (trim_isInfix phrase)
    exact ⟨n, v, heq, (hv.isMemberIn (heq ▸ hoperand) (notBlank_of_mem_operands hu)).of_part hpart⟩
  · intro phrase hnone
    rw [Primitive.ofDocName?_eq, trim_trim] at hnone
    have htext : (String.ofList (trim phrase)).toList = trim phrase := String.toList_ofList
    refine ⟨0, _, rfl, .named ⟨?_, ?_, ?_⟩ ?_⟩
    · rw [htext, trim_trim]
    · rw [htext]
      intro hmem
      obtain ⟨p, hp, heq⟩ := List.mem_map.1 hmem
      exact bne_iff_ne.1 (List.lookup_eq_none_iff.1 hnone p hp) heq.symm
    · rw [htext]
      exact trim_isInfix phrase
    · rw [htext]
      exact trim_eq_nil_iff

end Phrase

end DocTypes
