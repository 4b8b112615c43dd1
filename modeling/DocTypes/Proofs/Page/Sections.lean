/-
  Lines as groups: a heading with the lines up to the next heading. The sections of a page are the
  groups whose heading gives a name, so sections of pages that follow one another can be taken
  page by page.
-/
import DocTypes.Page.Section
import DocTypes.Proofs.Markup.Tag

namespace DocTypes.Page

open Text Markup

/-- Lines before a heading do not matter for the sections from there on. -/
theorem sectionsOfLines_body {body : List Text} (h : ∀ l ∈ body, isHeading l = false)
    (rest : List Text) : sectionsOfLines (body ++ rest) = sectionsOfLines rest := by
  induction body with
  | nil => rfl
  | cons l body ih =>
    have hl : sectionName? l = none := by
      cases hs : sectionName? l with
      | none => rfl
      | some n =>
        have := isHeading_of_sectionName? hs
        rw [h l List.mem_cons_self] at this
        cases this
    rw [List.cons_append, sectionsOfLines, hl]
    exact ih fun m hm => h m (List.mem_cons_of_mem l hm)

theorem takeWhile_of_head {rest : List Text} (hrest : ∀ l ∈ rest.head?, isHeading l = true) :
    rest.takeWhile (fun l => !isHeading l) = [] := by
  cases rest with
  | nil => rfl
  | cons l rest => rw [List.takeWhile_cons_of_neg (by simp [hrest l rfl])]

theorem takeWhile_body {body rest : List Text} (h : ∀ l ∈ body, isHeading l = false)
    (hrest : ∀ l ∈ rest.head?, isHeading l = true) :
    (body ++ rest).takeWhile (fun l => !isHeading l) = body := by
  rw [List.takeWhile_append_of_pos fun l hl => by simp [h l hl], takeWhile_of_head hrest,
    List.append_nil]

/-- A heading with its lines gives a section where it gives a name. -/
theorem sectionsOfLines_group (heading : Text) {body rest : List Text}
    (h : ∀ l ∈ body, isHeading l = false) (hrest : ∀ l ∈ rest.head?, isHeading l = true) :
    sectionsOfLines (heading :: (body ++ rest)) =
      ((sectionName? heading).map fun name => ⟨name, body⟩).toList ++ sectionsOfLines rest := by
  rw [sectionsOfLines, takeWhile_body h hrest, sectionsOfLines_body h]
  cases sectionName? heading <;> rfl

/-- A heading whose tag has no `>` gives no name. -/
theorem sectionName?_of_notMem {l : Text} (h : '>' ∉ l) : sectionName? l = none := by
  unfold sectionName?
  cases hopens : opensWith "h4".toList l with
  | false => rfl
  | true =>
    obtain ⟨s, rfl⟩ := List.head?_eq_some_iff.1 (head?_of_opensWith hopens)
    have htitle : isIdentifier (trim (plainText ('<' :: s))) = false := by
      rw [plainText, stripTags_of_notMem h, decodeReferences,
        Pattern.substitute_cons_of_none _ _ (startsWith_reference.span?_cons (by decide) s), trim,
        trimStart_of_head rfl, trimEnd]
      cases trimEnd (reference.substitute decodeReference s) <;> rfl
    dsimp only
    rw [htitle, Bool.and_false]
    rfl

theorem sectionsOfLines_of_notMem {ls : List Text} (h : ∀ l ∈ ls, '>' ∉ l) :
    sectionsOfLines ls = [] := by
  induction ls with
  | nil => rfl
  | cons l ls ih =>
    rw [sectionsOfLines, sectionName?_of_notMem (h l List.mem_cons_self)]
    exact ih fun m hm => h m (List.mem_cons_of_mem l hm)

/-- Before a heading the sections end. -/
theorem sectionsOfLines_append (a : List Text) {b : List Text}
    (hb : ∀ l ∈ b.head?, isHeading l = true) :
    sectionsOfLines (a ++ b) = sectionsOfLines a ++ sectionsOfLines b := by
  induction a with
  | nil => rfl
  | cons l a ih =>
    have htake : (a ++ b).takeWhile (fun l => !isHeading l) =
        a.takeWhile fun l => !isHeading l := by
      rw [List.takeWhile_append, takeWhile_of_head hb, List.append_nil]
      split
      · next hlen => exact ((List.takeWhile_prefix _).eq_of_length hlen).symm
      · rfl
    rw [List.cons_append, sectionsOfLines, sectionsOfLines, htake, ih]
    cases sectionName? l <;> rfl

end DocTypes.Page
