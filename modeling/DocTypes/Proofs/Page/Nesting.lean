/-
  List tags in the lines of a page. Regrouping ends a line after every closing tag, so a line has
  at most one (`countClose_le_one`), and the depth of nested lists falls by at most one a line.
-/
import DocTypes.Page.Parts
import DocTypes.Proofs.Page.Regroup

namespace DocTypes.Page

open Text Markup

/-! ## Counting -/

/-- The closing tag of a list. -/
def listClose : Text := "</ul>".toList

theorem countOpen_pos {name l : Text} (h : opensWith name l = true) : 0 < countOpen name l := by
  cases l with
  | nil => cases head?_of_opensWith h
  | cons c l => rw [countOpen, if_pos h]; omega

theorem countClose_eq_zero {l : Text} (h : l.length < listClose.length) :
    countClose "ul".toList l = 0 := by
  induction l with
  | nil => rfl
  | cons c l ih =>
    have hnone : after? Char.toLower listClose (c :: l) = none := by
      cases hr : after? Char.toLower listClose (c :: l) with
      | none => rfl
      | some r =>
        have := (after?_suffix hr).2
        omega
    rw [countClose]
    show (if (after? Char.toLower listClose (c :: l)).isSome then 1 else 0) + _ = 0
    rw [hnone, ih (by rw [List.length_cons] at h; omega)]
    rfl

theorem countClose_le_append (s t : Text) :
    countClose "ul".toList s ≤ countClose "ul".toList (s ++ t) := by
  induction s with
  | nil => exact Nat.zero_le _
  | cons c s ih =>
    rw [List.cons_append, countClose, countClose]
    cases hr : after? Char.toLower ('<' :: '/' :: "ul".toList ++ ['>']) (c :: s) with
    | none => simpa using Nat.le_trans ih (Nat.le_add_left _ _)
    | some r =>
      have happ : after? Char.toLower _ (c :: (s ++ t)) = some (r ++ t) := after?_append hr t
      rw [happ]
      exact Nat.add_le_add_left ih 1

theorem countClose_mono {s t : Text} (h : s <:+: t) :
    countClose "ul".toList s ≤ countClose "ul".toList t := by
  obtain ⟨a, b, rfl⟩ := h
  refine Nat.le_trans (countClose_le_append s b) ?_
  rw [List.append_assoc]
  induction a with
  | nil => exact Nat.le_refl _
  | cons c a ih => exact Nat.le_trans ih (Nat.le_add_left _ _)

/-! ## Closing tags end their lines -/

/-- Is every closing list tag of the text followed by a newline? -/
def ClosesEndLines : Text → Prop
  | [] => True
  | c :: s => (∀ r, after? Char.toLower listClose (c :: s) = some r → r.head? = some '\n') ∧
      ClosesEndLines s

theorem closesEndLines_of_append {a b : Text} (h : ClosesEndLines (a ++ b)) :
    ClosesEndLines b := by
  induction a with
  | nil => exact h
  | cons c a ih => exact ih h.2

/-- A word that ends with its only `c` is read through the first `c`. -/
theorem after?_through {key : Char → Char} {c : Char} {v p rest r : Text}
    (hkey : ∀ d, key d = c → d = c) (hv : key c ∉ v) (hp : c ∉ p)
    (h : after? key (v ++ [c]) (p ++ c :: rest) = some r) : r = rest := by
  induction v generalizing p with
  | nil =>
    cases p with
    | nil =>
      rw [List.nil_append, List.nil_append, after?] at h
      split at h
      · exact (Option.some.inj h).symm
      · cases h
    | cons d p =>
      rw [List.nil_append, List.cons_append, after?] at h
      split at h
      · next hd => exact absurd (hkey d hd ▸ List.mem_cons_self) hp
      · cases h
  | cons a v ih =>
    rw [List.mem_cons, not_or] at hv
    cases p with
    | nil =>
      rw [List.nil_append, List.cons_append, after?, if_neg hv.1] at h
      cases h
    | cons d p =>
      rw [List.cons_append, List.cons_append, after?] at h
      split at h
      · exact ih hv.2 (fun hc => hp (List.mem_cons_of_mem d hc)) h
      · cases h

/-- Where a line ends after a `>`, so does a closing tag that starts in front of it. -/
theorem closesEndLines_piece {q rest : Text} (hq : '>' ∉ q) (h : ClosesEndLines rest) :
    ClosesEndLines (q ++ '>' :: '\n' :: rest) := by
  induction q with
  | nil =>
    have hne : ∀ {d : Char} {s r : Text}, d ≠ '<' →
        after? Char.toLower listClose (d :: s) = some r → False := by
      intro d s r hd hr
      rw [listClose, show "</ul>".toList = '<' :: "/ul>".toList from rfl, after?] at hr
      split at hr
      · next hd' => exact hd (eq_of_toLower_eq rfl hd')
      · cases hr
    exact ⟨fun r hr => (hne (by decide) hr).elim, fun r hr => (hne (by decide) hr).elim, h⟩
  | cons c q ih =>
    refine ⟨fun r hr => ?_, ih fun hc => hq (List.mem_cons_of_mem c hc)⟩
    rw [after?_through (v := "</ul".toList) (p := c :: q) (fun _ => eq_of_toLower_eq rfl)
      (by decide) hq hr]
    rfl

theorem span?_structuralClose_isSome {s : Text}
    (h : (after? Char.toLower listClose s).isSome) : (structuralClose.span? s).isSome := by
  obtain ⟨r, hr⟩ := Option.isSome_iff_exists.1 h
  have hread : ((closeTag "ul".toList).read s).isSome := by
    show ((Pattern.like foldCase listClose (by decide)).read s).isSome
    rw [Pattern.read_like, after?_foldCase rfl hr]
    rfl
  rw [Tail.read, Option.isSome_map] at hread
  show (((closeTag "h3".toList).span? s).or (((closeTag "h4".toList).span? s).or
    (((closeTag "table".toList).span? s).or ((closeTag "ul".toList).span? s)))).isSome
  simp only [Option.isSome_or, hread, Bool.or_true]

theorem closesEndLines_breakClose (s : Text) : ClosesEndLines (breakClose s) := by
  induction s using structuralClose.pieces_induction with
  | nil =>
    rw [breakClose, Pattern.substitute_nil]
    trivial
  | piece s n hs ih =>
    obtain ⟨q, hq, hgt⟩ := endsAt_structuralClose hs
    have hbreak : breakClose s = q ++ '>' :: '\n' :: breakClose (s.drop n) := by
      unfold breakClose
      rw [Pattern.substitute_of_span _ _ hs, hq]
      simp
    rw [hbreak]
    exact closesEndLines_piece hgt ih
  | keep c s hs ih =>
    have hbreak : breakClose (c :: s) = c :: breakClose s :=
      Pattern.substitute_cons_of_none _ _ hs
    rw [hbreak]
    refine ⟨fun r hr => ?_, ih⟩
    -- a tag that is there after lines were ended was there before, and so has been matched
    have hsome : (after? Char.toLower listClose (c :: s)).isSome := by
      rw [listClose, show "</ul>".toList = '<' :: "/ul>".toList from rfl, after?] at hr ⊢
      split at hr
      · next hc =>
        have hrest : (after? Char.toLower "/ul>".toList (breakClose s)).isSome := by
          rw [hr]
          rfl
        rw [if_pos hc]
        exact Pattern.after?_substitute startsWith_structuralClose
          (fun x => List.prefix_append x _) (by decide) hrest
      · cases hr
    have := span?_structuralClose_isSome hsome
    rw [hs] at this
    cases this

/-! ## Lines -/

theorem countClose_le_one_of_line {l rest : Text} (hnl : '\n' ∉ l)
    (h : ClosesEndLines (l ++ rest)) : countClose "ul".toList l ≤ 1 := by
  induction l with
  | nil => exact Nat.zero_le 1
  | cons c l ih =>
    rw [countClose]
    show (if (after? Char.toLower listClose (c :: l)).isSome then 1 else 0) + _ ≤ 1
    cases hr : after? Char.toLower listClose (c :: l) with
    | none =>
      have := ih (fun hc => hnl (List.mem_cons_of_mem c hc)) h.2
      simpa using this
    | some r =>
      have hhead := h.1 _ (after?_append hr rest)
      have hsuffix := after?_suffix hr
      have hend : r = [] := by
        cases r with
        | nil => rfl
        | cons d r =>
          cases hhead
          exact absurd (hsuffix.1.mem List.mem_cons_self) hnl
      have hlen := hsuffix.2
      rw [hend, List.length_nil, List.length_cons] at hlen
      rw [countClose_eq_zero (by omega)]
      exact Nat.le_refl 1

/-- A line of a page closes at most one list. -/
theorem countClose_le_one {page l : Text} (h : l ∈ lines page) :
    countClose "ul".toList l ≤ 1 := by
  obtain ⟨m, hm, rfl⟩ := List.mem_map.1 (List.mem_filter.1 h).1
  refine Nat.le_trans (countClose_mono (trim_isInfix m)) ?_
  obtain ⟨a, b, hab⟩ := infix_of_mem_splitOn hm
  have hends := closesEndLines_breakClose (breakOpen (unifyLineEnds page))
  rw [← regroup_eq, ← hab, List.append_assoc] at hends
  exact countClose_le_one_of_line (notMem_of_mem_splitOn hm) (closesEndLines_of_append hends)

end DocTypes.Page
