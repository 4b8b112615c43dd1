/-
  The types of phrases. A type phrase gives arrays around an operand or around two or more
  alternatives, each an operand, where an operand is a primitive or a name within arrays
  (`isNormal_resolve`): a separator fits nowhere in an alternative, so alternatives do not nest.
  An identifier gives a primitive or a name (`isAtom_resolve`). All characters of a type's text
  are those of the phrase, or belong to the declaration language (`notMem_text_resolve`).
-/
import DocTypes.Phrase.TypePhrase
import DocTypes.Proofs.Text.Plain
import DocTypes.Proofs.Text.Search

namespace DocTypes

open Text

namespace TypeExpr

/-- Arrays around a primitive or a name. -/
inductive IsOperand : TypeExpr → Prop
  | primitive (p : Primitive) : IsOperand (primitive p)
  | named (n : String) : IsOperand (named n)
  | array {t : TypeExpr} : IsOperand t → IsOperand (array t)

/-- Arrays around an operand or two or more alternatives, each an operand. -/
inductive IsNormal : TypeExpr → Prop
  | operand {t : TypeExpr} : IsOperand t → IsNormal t
  | union {ts : List TypeExpr} : 2 ≤ ts.length → (∀ t ∈ ts, IsOperand t) → IsNormal (union ts)
  | array {t : TypeExpr} : IsNormal t → IsNormal (array t)

/-- A primitive, or a name that is an identifier. -/
inductive IsAtom : TypeExpr → Prop
  | primitive (p : Primitive) : IsAtom (primitive p)
  | named {n : String} : isIdentifier n.toList = true → IsAtom (named n)

end TypeExpr

namespace Phrase

open TypeExpr Tail

/-! ## Alternatives -/

theorem settled_blanks1 : blanks1.Settled := (settled_one isBlank).followedBy (settled_many isBlank)

theorem settled_conjunction : conjunction.Settled :=
  Settled.or (settled_like _) (settled_like _)
    (Pattern.startsWith_like (c := 'o') (w := "r".toList) _ fun _ h => h)
    (Pattern.startsWith_like (c := 'a') (w := "nd".toList) _ fun _ h => h) (by decide)

/-- What separates alternatives does so in longer phrases too. -/
theorem extends_alternativeSeparator : alternativeSeparator.Extends := by
  have hcomma : ((Pattern.char ',').after blanks).Extends :=
    Extends.followedBy (settled_many isBlank) (extends_one _)
  have hblanks1 : blanks1.Extends := (extends_one isBlank).followedBy_always fun _ => rfl
  have hconjunction : (conjunction.followedBy blanks1.toTail).Extends :=
    Extends.followedBy settled_conjunction hblanks1
  exact (hcomma.followedBy_always fun _ => rfl).or
    (Extends.followedBy settled_blanks1 hconjunction)

/-- A phrase in which nothing separates alternatives has at most one. -/
theorem length_operands_of_free {t : Text} (h : alternativeSeparator.Free t) :
    (operands t).length ≤ 1 := by
  rw [operands, Pattern.split_of_free h]
  exact List.length_filter_le _ _

theorem free_of_mem_operands {phrase t : Text} (h : t ∈ operands phrase) :
    alternativeSeparator.Free t := by
  obtain ⟨u, hu, rfl⟩ := List.mem_map.1 (List.mem_filter.1 h).1
  exact (Pattern.free_of_mem_split extends_alternativeSeparator hu).of_part
    extends_alternativeSeparator (trim_isInfix u)

theorem infix_of_mem_operands {phrase t : Text} (h : t ∈ operands phrase) : t <:+: phrase := by
  obtain ⟨u, hu, rfl⟩ := List.mem_map.1 (List.mem_filter.1 h).1
  exact (trim_isInfix u).trans (Pattern.infix_of_mem_split hu)

/-! ## The forms of types -/

/-- The induction that follows a phrase into its element type and its alternatives. -/
theorem resolve_induction {motive : Text → TypeExpr → Prop}
    (array : ∀ phrase rest, arrayOf.read (trim phrase) = some rest → motive rest (resolve rest) →
      motive phrase (.array (resolve rest)))
    (union : ∀ phrase, 2 ≤ (operands (trim phrase)).length →
      (∀ t ∈ operands (trim phrase), motive t (resolve t)) →
      motive phrase (.union ((operands (trim phrase)).map resolve)))
    (primitive : ∀ phrase p, Primitive.ofDocName? (trim phrase) = some p →
      motive phrase (.primitive p))
    (named : ∀ phrase, Primitive.ofDocName? (trim phrase) = none →
      motive phrase (.named (String.ofList (trim phrase))))
    (phrase : Text) : motive phrase (resolve phrase) := by
  induction hn : phrase.length using Nat.strongRecOn generalizing phrase with
  | ind n ih =>
    subst hn
    rw [resolve_eq]
    split
    · next rest hrest =>
      have hlt := Nat.lt_of_lt_of_le (arrayOf.shorter hrest) (trim_length_le phrase)
      exact array phrase rest hrest (ih _ hlt rest rfl)
    · split
      · next hmany =>
        refine union phrase hmany fun t ht => ih _ ?_ t rfl
        exact Nat.lt_of_lt_of_le (length_of_mem_operands hmany ht) (trim_length_le phrase)
      · split
        · next p hp => exact primitive phrase p hp
        · next hp => exact named phrase hp

/-- Without a separator the type of a phrase is an operand. -/
theorem isOperand_resolve {phrase : Text} (h : alternativeSeparator.Free phrase) :
    (resolve phrase).IsOperand := by
  refine resolve_induction (motive := fun phrase t => alternativeSeparator.Free phrase →
    t.IsOperand) ?_ ?_ (fun _ p _ _ => .primitive p) (fun _ _ _ => .named _) phrase h
  · intro phrase rest hrest ih hfree
    have hpart : rest <:+: phrase := (arrayOf.suffix hrest).isInfix.trans (trim_isInfix phrase)
    exact .array (ih (hfree.of_part extends_alternativeSeparator hpart))
  · intro phrase hmany _ hfree
    have hone := length_operands_of_free
      (hfree.of_part extends_alternativeSeparator (trim_isInfix phrase))
    omega

/-- Every phrase gives a type in normal form. -/
theorem isNormal_resolve (phrase : Text) : (resolve phrase).IsNormal := by
  refine resolve_induction (motive := fun _ t => t.IsNormal) ?_ ?_
    (fun _ p _ => .operand (.primitive p)) (fun _ _ => .operand (.named _)) phrase
  · exact fun _ _ _ ih => .array ih
  · intro phrase hmany _
    refine .union (by rw [List.length_map]; exact hmany) fun t ht => ?_
    obtain ⟨u, hu, rfl⟩ := List.mem_map.1 ht
    exact isOperand_resolve (free_of_mem_operands hu)

/-! ## Names -/

theorem exists_blank_of_blanks1 {s : Text} {n : Nat} (h : blanks1.span? s = some n) :
    ∃ c ∈ s, isBlank c = true := by
  obtain ⟨k, hk, -⟩ := Option.bind_eq_some_iff.1 h
  cases s with
  | nil => cases hk
  | cons c s =>
    by_cases hc : isBlank c = true
    · exact ⟨c, List.mem_cons_self, hc⟩
    · simp [Pattern.one, hc] at hk

theorem exists_blank_of_arrayOf {s rest : Text} (h : arrayOf.read s = some rest) :
    ∃ c ∈ s, isBlank c = true := by
  obtain ⟨n, hn, -⟩ := Option.map_eq_some_iff.1 h
  obtain ⟨k, -, hn⟩ := Option.bind_eq_some_iff.1 hn
  obtain ⟨m, hm, -⟩ := Option.map_eq_some_iff.1 hn
  obtain ⟨j, hj, -⟩ := Option.bind_eq_some_iff.1 hm
  obtain ⟨c, hc, hblank⟩ := exists_blank_of_blanks1 hj
  exact ⟨c, List.mem_of_mem_drop hc, hblank⟩

/-- A separator is a comma or has blanks in it. -/
theorem exists_mark_of_alternativeSeparator {s : Text} {n : Nat}
    (h : alternativeSeparator.span? s = some n) : ∃ c ∈ s, c = ',' ∨ isBlank c = true := by
  rcases Option.or_eq_some_iff.1 h with h | ⟨-, h⟩
  · obtain ⟨k, hk, -⟩ := Option.bind_eq_some_iff.1 h
    obtain ⟨m, hm, -⟩ := Option.map_eq_some_iff.1 hk
    have hcomma := List.mem_of_mem_head? (Pattern.startsWith_char ',' hm)
    exact ⟨',', List.mem_of_mem_drop hcomma, Or.inl rfl⟩
  · obtain ⟨k, hk, -⟩ := Option.bind_eq_some_iff.1 h
    obtain ⟨c, hc, hblank⟩ := exists_blank_of_blanks1 hk
    exact ⟨c, hc, Or.inr hblank⟩

/-- An identifier names a primitive or stands for itself. -/
theorem isAtom_resolve {word : Text} (h : isIdentifier word = true) : (resolve word).IsAtom := by
  let n : Identifier := ⟨word, h⟩
  have htrim : trim word = word := n.toPlain.plain.trim_eq
  have hblank : ∀ c ∈ word, isBlank c = false := fun c hc =>
    isBlank_of_isNameChar (n.isNameChar_of_mem c hc)
  have harray : arrayOf.read word = none := by
    cases hread : arrayOf.read word with
    | none => rfl
    | some rest =>
      obtain ⟨c, hc, hb⟩ := exists_blank_of_arrayOf hread
      rw [hblank c hc] at hb
      cases hb
  have hfree : alternativeSeparator.Free word := by
    intro s hs
    cases hspan : alternativeSeparator.span? s with
    | none => rfl
    | some k =>
      obtain ⟨c, hc, rfl | hb⟩ := exists_mark_of_alternativeSeparator hspan
      · exact absurd (hs.subset hc) (n.notMem rfl)
      · rw [hblank c (hs.subset hc)] at hb
        cases hb
  rw [resolve_eq, htrim, harray]
  dsimp only
  rw [if_neg (Nat.not_lt.2 (length_operands_of_free hfree))]
  cases Primitive.ofDocName? word with
  | some p => exact .primitive p
  | none => exact .named (by rw [String.toList_ofList]; exact h)

/-! ## Characters -/

theorem notMem_bars {c : Char} (hc : c ∉ " | ".toList) {ts : List Text} (h : ∀ t ∈ ts, c ∉ t) :
    c ∉ bars ts := by
  intro hmem
  rcases mem_joinWith hmem with hsep | ⟨t, ht, hct⟩
  · exact hc hsep
  · exact h t ht hct

/-- The characters of the declaration language around the names of types. -/
def typeMarks : Text := "()[] |numberstringbooleantrue".toList

theorem notMem_typeName {c : Char} (hc : c ∉ typeMarks) (p : Primitive) :
    c ∉ p.typeName.toList := by
  have hsub : p.typeName.toList ⊆ typeMarks := by cases p <;> decide
  exact fun h => hc (hsub h)

theorem notMem_text_array {c : Char} (hc : c ∉ typeMarks) {t : TypeExpr} (h : c ∉ t.text) :
    c ∉ (array t).text := by
  have hopen : c ≠ '(' := by rintro rfl; exact hc (by decide)
  have hclose : c ≠ ')' := by rintro rfl; exact hc (by decide)
  have hmarks : c ∉ "[]".toList := fun hmem => hc ((by decide : "[]".toList ⊆ typeMarks) hmem)
  rw [TypeExpr.text, List.mem_append, not_or]
  refine ⟨?_, hmarks⟩
  split
  · simp [hopen, hclose, h]
  · exact h

theorem notMem_text_union {c : Char} (hc : c ∉ typeMarks) {ts : List TypeExpr}
    (h : ∀ t ∈ ts, c ∉ t.text) : c ∉ (union ts).text := by
  rw [TypeExpr.text, texts_eq_map]
  refine notMem_bars (fun hmem => hc ((by decide : " | ".toList ⊆ typeMarks) hmem)) ?_
  intro u hu
  obtain ⟨t, ht, rfl⟩ := List.mem_map.1 hu
  exact h t ht

/-- The text of a phrase's type has no characters but those of the phrase and those of the
declaration language. -/
theorem notMem_text_resolve {c : Char} (hc : c ∉ typeMarks) {phrase : Text} (h : c ∉ phrase) :
    c ∉ (resolve phrase).text := by
  refine resolve_induction (motive := fun phrase t => c ∉ phrase → c ∉ t.text) ?_ ?_
    (fun _ p _ _ => notMem_typeName hc p) ?_ phrase h
  · intro phrase rest hrest ih hphrase
    have hpart : rest <:+: phrase := (arrayOf.suffix hrest).isInfix.trans (trim_isInfix phrase)
    exact notMem_text_array hc (ih fun hmem => hphrase (hpart.subset hmem))
  · intro phrase _ ih hphrase
    refine notMem_text_union hc fun t ht => ?_
    obtain ⟨u, hu, rfl⟩ := List.mem_map.1 ht
    have hpart : u <:+: phrase := (infix_of_mem_operands hu).trans (trim_isInfix phrase)
    exact ih u hu fun hmem => hphrase (hpart.subset hmem)
  · intro phrase _ hphrase hmem
    rw [TypeExpr.text, String.toList_ofList] at hmem
    exact hphrase ((trim_isInfix phrase).subset hmem)

end Phrase

end DocTypes
