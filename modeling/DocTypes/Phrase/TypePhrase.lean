/-
  Type phrases such as "Array of Array of PhotoSize" or "Integer or String". A leading "array of"
  comes first, then alternatives, then a primitive; any other phrase is taken as a name.
-/
import DocTypes.Text.Pattern
import DocTypes.Type.Basic

namespace DocTypes.Phrase

open Text

/-- One or more blanks. -/
def blanks1 : Pattern := Pattern.many1 isBlank

/-- Any number of blanks. -/
def blanks : Tail := Tail.many isBlank

/-- A conjunction of a list of alternatives. -/
def conjunction : Pattern := (Pattern.exactly "or".toList).or (Pattern.exactly "and".toList)

def arrayWord : Pattern := Pattern.anyCase "array".toList

def ofWord : Text := "of".toList

theorem ofWord_ne_nil : ofWord ≠ [] := by decide

/-- The words that make the rest of a phrase the element type of an array. -/
def arrayOf : Pattern :=
  arrayWord.followedBy <| blanks1.toTail.followedBy <|
    (Pattern.anyCase ofWord ofWord_ne_nil).toTail.followedBy blanks1.toTail

/-- What separates alternatives: a comma, with a conjunction or without, or a conjunction between
blanks. -/
def alternativeSeparator : Pattern :=
  let comma := (Pattern.char ',').after blanks
  let conjunctionWord := conjunction.followedBy blanks1.toTail
  (comma.followedBy (blanks.followedBy conjunctionWord.toTail.optional)).or
    (blanks1.followedBy conjunctionWord.toTail)

/-- The nonempty pieces of a phrase between its separators. -/
def operands (phrase : Text) : List Text :=
  ((alternativeSeparator.split phrase).map trim).filter fun t => !t.isEmpty

/-- Where there are several operands, each is shorter than the phrase. -/
theorem length_of_mem_operands {phrase t : Text} (h : 1 < (operands phrase).length)
    (ht : t ∈ operands phrase) : t.length < phrase.length := by
  simp only [operands, List.mem_filter, List.mem_map] at ht
  obtain ⟨⟨u, hu, rfl⟩, _⟩ := ht
  have hl : (operands phrase).length ≤ (alternativeSeparator.split phrase).length := by
    rw [operands]
    exact Nat.le_trans (List.length_filter_le _ _) (by simp)
  have := alternativeSeparator.length_of_mem_split phrase u hu
  have := trim_length_le u
  omega

/-- The type that a phrase describes. -/
def resolve (phrase : Text) : TypeExpr :=
  match _h : arrayOf.read (trim phrase) with
  | some rest => .array (resolve rest)
  | none =>
    if _hs : 1 < (operands (trim phrase)).length then
      .union ((operands (trim phrase)).attach.map fun t => resolve t.1)
    else
      match Primitive.ofDocName? (trim phrase) with
      | some p => .primitive p
      | none => .named (String.ofList (trim phrase))
termination_by phrase.length
decreasing_by
  · exact Nat.lt_of_lt_of_le (arrayOf.shorter _h) (trim_length_le phrase)
  · exact Nat.lt_of_lt_of_le (length_of_mem_operands _hs t.2) (trim_length_le phrase)

/-- The equation of `resolve`, alternative by alternative. -/
theorem resolve_eq (phrase : Text) :
    resolve phrase =
      match arrayOf.read (trim phrase) with
      | some rest => .array (resolve rest)
      | none =>
        if 1 < (operands (trim phrase)).length then .union ((operands (trim phrase)).map resolve)
        else
          match Primitive.ofDocName? (trim phrase) with
          | some p => .primitive p
          | none => .named (String.ofList (trim phrase)) := by
  rw [resolve]
  cases h : arrayOf.read (trim phrase) with
  | some rest => rfl
  | none => simp

end DocTypes.Phrase
