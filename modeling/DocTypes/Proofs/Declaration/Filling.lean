/-
  Wrapped prose. Words that can be broken nowhere are put on lines: the break of a text of such
  words stands behind the last of them that fits (`breakAt_lineOf`), so each line holds as many
  words as it can (`IsFull`). Such a division of the words has no more lines than any other, as line
  by line no other gets ahead of it (`suffix_of_isFull`): what is left behind full lines is at the
  end of what is left behind as many others.
-/
import DocTypes.Proofs.Declaration.Wrap
import Mathlib.Data.List.Chain

namespace DocTypes.Declaration

open Text

/-! ## Words and lines -/

/-- A word that is not broken: it has neither blanks nor hyphens. -/
structure IsPlainWord (w : Text) : Prop where
  ne_nil : w ≠ []
  nonblank : ∀ c ∈ w, isBlank c = false
  hyphen_notMem : '-' ∉ w

theorem isPlainWord_iff {w : Text} :
    IsPlainWord w ↔ (!w.isEmpty && w.all fun c => !isBlank c && c != '-') = true := by
  rw [Bool.and_eq_true, Bool.not_eq_true', List.isEmpty_eq_false_iff, List.all_eq_true]
  constructor
  · rintro ⟨hne, hblank, hhyphen⟩
    refine ⟨hne, fun c hc => ?_⟩
    rw [hblank c hc, Bool.not_false, Bool.true_and, bne_iff_ne]
    exact ne_of_mem_of_not_mem hc hhyphen
  · rintro ⟨hne, hall⟩
    refine ⟨hne, fun c hc => ?_, fun hc => ?_⟩
    · simpa using (Bool.and_eq_true_iff.1 (hall c hc)).1
    · simpa using (Bool.and_eq_true_iff.1 (hall '-' hc)).2

instance : DecidablePred IsPlainWord := fun _ => decidable_of_iff' _ isPlainWord_iff

/-- The words with one space between each two neighbours. -/
def lineOf (ws : List Text) : Text := joinWith [' '] ws

/-- A division of the words, in order, into lines within the width. -/
structure IsDivision (width : Nat) (ws : List Text) (groups : List (List Text)) : Prop where
  flatten_eq : groups.flatten = ws
  fits : ∀ g ∈ groups, (lineOf g).length ≤ width

/-- The first word of the next line does not fit on this one. -/
def IsFull (width : Nat) (g next : List Text) : Prop :=
  ∀ w ∈ next.head?, width < (lineOf (g ++ [w])).length

theorem lineOf_singleton (w : Text) : lineOf [w] = w := joinWith_singleton [' '] w

theorem lineOf_append {ws vs : List Text} (hws : ws ≠ []) (hvs : vs ≠ []) :
    lineOf (ws ++ vs) = lineOf ws ++ ' ' :: lineOf vs :=
  joinWith_append [' '] hws hvs

theorem length_lineOf_le_append (ws vs : List Text) :
    (lineOf ws).length ≤ (lineOf (ws ++ vs)).length ∧
      (lineOf vs).length ≤ (lineOf (ws ++ vs)).length := by
  by_cases hws : ws = []
  · subst hws
    exact ⟨Nat.zero_le _, Nat.le_refl _⟩
  · by_cases hvs : vs = []
    · rw [hvs, List.append_nil]
      exact ⟨Nat.le_refl _, Nat.zero_le _⟩
    · rw [lineOf_append hws hvs, List.length_append, List.length_cons]
      omega

theorem length_lineOf_le_of_infix {ws vs : List Text} (h : ws <:+: vs) :
    (lineOf ws).length ≤ (lineOf vs).length := by
  obtain ⟨front, back, rfl⟩ := h
  exact Nat.le_trans (length_lineOf_le_append front ws).2
    (length_lineOf_le_append (front ++ ws) back).1

/-! ## Full lines are fewest -/

section Fewest

variable {width : Nat}

/-- What does not fit on a line is the first of the words that are left behind it. -/
theorem isChain_cons_isFull {g : List Text} {groups : List (List Text)} (hne : [] ∉ groups) :
    (g :: groups).IsChain (IsFull width) ↔
      IsFull width g groups.flatten ∧ groups.IsChain (IsFull width) := by
  rw [List.isChain_cons]
  cases groups with
  | nil => simp [IsFull]
  | cons next groups =>
    have hnext : next ≠ [] := fun h => hne (h ▸ List.mem_cons_self)
    unfold IsFull
    rw [List.flatten_cons, List.head?_append_of_ne_nil _ hnext]
    simp

/-- Other lines do not get ahead: they have as many words left behind their first line as behind a
full one. -/
theorem suffix_of_isFull {g o left rest : List Text} (hfull : IsFull width g left)
    (ho : (lineOf o).length ≤ width) (h : g ++ left <:+ o ++ rest) : left <:+ rest := by
  rcases List.suffix_or_suffix_of_suffix ((List.suffix_append g left).trans h)
    (List.suffix_append o rest) with hleft | ⟨more, rfl⟩
  · exact hleft
  · cases more with
    | nil => exact List.suffix_refl rest
    | cons w more =>
      obtain ⟨front, hfront⟩ := h
      -- the other line would have the words of the full one and the next word
      have ho' : o = front ++ (g ++ [w]) ++ more :=
        (List.append_left_inj rest).1 (hfront.symm.trans (by simp))
      have hlong := hfull w rfl
      have hle := length_lineOf_le_of_infix ⟨front, more, ho'.symm⟩
      omega

/-- Full lines have never more words left than other lines, so they come to the end first. -/
theorem length_le_of_suffix {groups others : List (List Text)} (hne : [] ∉ groups)
    (hfull : groups.IsChain (IsFull width)) (hfits : ∀ g ∈ others, (lineOf g).length ≤ width)
    (hleft : groups.flatten <:+ others.flatten) : groups.length ≤ others.length := by
  induction groups generalizing others with
  | nil => exact Nat.zero_le _
  | cons g groups ih =>
    obtain ⟨hg, hne⟩ := List.ne_and_not_mem_of_not_mem_cons hne
    cases others with
    | nil =>
      obtain ⟨hnil, -⟩ := List.append_eq_nil_iff.1 (List.suffix_nil.1 hleft)
      exact absurd hnil.symm hg
    | cons o others =>
      obtain ⟨ho, hfits⟩ := List.forall_mem_cons.1 hfits
      obtain ⟨hfull, hrest⟩ := (isChain_cons_isFull hne).1 hfull
      rw [List.flatten_cons, List.flatten_cons] at hleft
      exact Nat.succ_le_succ (ih hne hrest hfits (suffix_of_isFull hfull ho hleft))

end Fewest

/-! ## The lines of a text of words -/

section Words

variable {width : Nat} {ws : List Text}

/-- Behind words that more words follow there is a space. -/
theorem getElem?_lineOf {vs : List Text} (hws : ws ≠ []) (hvs : vs ≠ []) :
    (lineOf (ws ++ vs))[(lineOf ws).length]? = some ' ' := by
  rw [lineOf_append hws hvs, List.getElem?_append_right (Nat.le_refl _), Nat.sub_self]
  rfl

theorem IsPlainWord.trim_eq {w : Text} (h : IsPlainWord w) : trim w = w :=
  trim_of_ends (fun c hc => h.nonblank c (List.mem_of_mem_head? hc))
    fun c hc => h.nonblank c (List.mem_of_mem_getLast? hc)

theorem trim_lineOf (hword : ∀ w ∈ ws, IsPlainWord w) : trim (lineOf ws) = lineOf ws :=
  trim_joinWith (fun w hw => (hword w hw).ne_nil) fun w hw => (hword w hw).trim_eq

theorem splitOn_lineOf (hne : ws ≠ []) (hword : ∀ w ∈ ws, IsPlainWord w) :
    splitOn ' ' (lineOf ws) = ws :=
  splitOn_joinWith hne fun w hw hc => by
    have := (hword w hw).nonblank ' ' hc
    cases this

theorem hyphen_notMem_lineOf (hword : ∀ w ∈ ws, IsPlainWord w) : '-' ∉ lineOf ws := by
  intro hc
  rcases mem_joinWith hc with hc | ⟨w, hw, hc⟩
  · exact absurd hc (by decide)
  · exact (hword w hw).hyphen_notMem hc

theorem lineOf_ne_nil (hne : ws ≠ []) (hword : ∀ w ∈ ws, IsPlainWord w) : lineOf ws ≠ [] := by
  obtain ⟨w, ws, rfl⟩ := List.exists_cons_of_ne_nil hne
  rw [lineOf, joinWith_cons]
  exact List.append_ne_nil_of_left_ne_nil (hword w List.mem_cons_self).ne_nil _

theorem trimEnd_lineOf (hne : ws ≠ []) (hword : ∀ w ∈ ws, IsPlainWord w) :
    trimEnd (lineOf ws) = lineOf ws := by
  have hlast := isBlank_last_of_trim (trim_lineOf hword)
  have h := trimEnd_append (lineOf_ne_nil hne hword) hlast []
  rwa [List.append_nil, trimEnd, List.append_nil] at h

theorem dropSpaces_lineOf (hword : ∀ w ∈ ws, IsPlainWord w) :
    (lineOf ws).dropWhile (· == ' ') = lineOf ws := by
  have hhead := isBlank_head_of_trim (trim_lineOf hword)
  cases h : lineOf ws with
  | nil => rfl
  | cons c s =>
    rw [List.dropWhile_cons_of_neg]
    intro hc
    rw [h, beq_iff_eq.1 hc] at hhead
    cases hhead ' ' rfl

/-- A text that goes on behind the words of a line can be broken there. -/
theorem break_lineOf {g left : List Text} (hg : g ≠ []) (hle : (lineOf g).length ≤ width)
    (hlong : width < (lineOf (g ++ left)).length) :
    ((lineOf (g ++ left))[(lineOf g).length]?).bind (breakPlace? width (lineOf g).length) =
      some ((lineOf g).length, (lineOf g).length + 1) := by
  have hleft : left ≠ [] := by
    rintro rfl
    rw [List.append_nil] at hlong
    omega
  rw [getElem?_lineOf hg hleft]
  rfl

/-- In front of a space, and behind it, the text has whole words. -/
theorem exists_words_of_space {place : Nat} (hne : ws ≠ []) (hword : ∀ w ∈ ws, IsPlainWord w)
    (h : (lineOf ws)[place]? = some ' ') :
    ∃ g left, ws = g ++ left ∧ g ≠ [] ∧ left ≠ [] ∧ (lineOf g).length = place := by
  obtain ⟨hlt, hget⟩ := List.getElem?_eq_some_iff.1 h
  have hcut : (lineOf ws).take place ++ ' ' :: (lineOf ws).drop (place + 1) = lineOf ws := by
    rw [← hget, ← List.drop_eq_getElem_cons hlt, List.take_append_drop]
  refine ⟨splitOn ' ' ((lineOf ws).take place), splitOn ' ' ((lineOf ws).drop (place + 1)), ?_,
    splitOn_ne_nil ' ' _, splitOn_ne_nil ' ' _, ?_⟩
  · rw [← splitOn_append, hcut, splitOn_lineOf hne hword]
  · rw [lineOf, joinWith_splitOn, List.length_take_of_le (Nat.le_of_lt hlt)]

/-- A text of words is broken behind the last of them that fits. -/
theorem breakAt_lineOf (hword : ∀ w ∈ ws, IsPlainWord w) (hfit : ∀ w ∈ ws, w.length ≤ width)
    (hlong : width < (lineOf ws).length) : ∃ g left, ws = g ++ left ∧ g ≠ [] ∧ left ≠ [] ∧
      (lineOf g).length ≤ width ∧ IsFull width g left ∧
      breakAt width (lineOf ws) = ((lineOf g).length, (lineOf g).length + 1) := by
  have hne : ws ≠ [] := by
    rintro rfl
    exact absurd hlong (Nat.not_lt_zero _)
  rcases breakAt_cases width (lineOf ws) with ⟨place, c, -, hle, hc, hbreak, hnone⟩ | ⟨-, hnone⟩
  · have hspace : c = ' ' := by
      by_contra h
      have hhyphen : c ≠ '-' := by
        rintro rfl
        exact hyphen_notMem_lineOf hword (List.mem_of_getElem? hc)
      rw [breakPlace?, if_neg h, if_neg fun hc => hhyphen hc.1] at hbreak
      cases hbreak
    subst hspace
    obtain ⟨g, left, rfl, hg, hleft, rfl⟩ := exists_words_of_space hne hword hc
    refine ⟨g, left, rfl, hg, hleft, hle, ?_, (Option.some.inj hbreak).symm⟩
    -- one word more would end at a later break within the width
    intro w hw
    obtain ⟨more, rfl⟩ := List.head?_eq_some_iff.1 hw
    by_contra hfits
    have hlater : (lineOf g).length < (lineOf (g ++ [w])).length := by
      rw [lineOf_append hg (List.cons_ne_nil w []), List.length_append, List.length_cons]
      omega
    have hsplit : g ++ w :: more = g ++ [w] ++ more := by simp
    have hnone := hnone _ hlater (Nat.not_lt.1 hfits)
    rw [hsplit] at hnone hlong
    rw [break_lineOf (by simp) (Nat.not_lt.1 hfits) hlong] at hnone
    cases hnone
  · -- the first word fits, and behind it there is a space
    obtain ⟨w, more, rfl⟩ := List.exists_cons_of_ne_nil hne
    have hpos := List.length_pos_iff.2 (hword w List.mem_cons_self).ne_nil
    have hle := hfit w List.mem_cons_self
    rw [← lineOf_singleton w] at hpos hle
    have hnone := hnone _ hpos hle
    rw [← List.singleton_append] at hnone hlong
    rw [break_lineOf (List.cons_ne_nil w []) hle hlong] at hnone
    cases hnone

/-- The first line has as many words as fit, and the others are left. -/
theorem exists_first_fill (hword : ∀ w ∈ ws, IsPlainWord w) (hfit : ∀ w ∈ ws, w.length ≤ width)
    (hlong : width < (lineOf ws).length) : ∃ g left, ws = g ++ left ∧ g ≠ [] ∧ left ≠ [] ∧
      (lineOf g).length ≤ width ∧ IsFull width g left ∧
      firstLine width (lineOf ws) = lineOf g ∧ remainder width (lineOf ws) = lineOf left := by
  obtain ⟨g, left, rfl, hg, hleft, hle, hfull, hbreak⟩ := breakAt_lineOf hword hfit hlong
  obtain ⟨hwg, hwl⟩ := List.forall_mem_append.1 hword
  refine ⟨g, left, rfl, hg, hleft, hle, hfull, ?_, ?_⟩
  · rw [firstLine, hbreak, lineOf_append hg hleft, List.take_left, trimEnd_lineOf hg hwg]
  · have hdrop : (lineOf g ++ ' ' :: lineOf left).drop ((lineOf g).length + 1) = lineOf left := by
      rw [← List.drop_drop, List.drop_left, List.drop_one, List.tail_cons]
    rw [remainder, hbreak, lineOf_append hg hleft, hdrop, dropSpaces_lineOf hwl]

/-- The lines hold the words, in order, and each is full. -/
theorem exists_wrapLines_lineOf (hw : 0 < width) (hne : ws ≠ [])
    (hword : ∀ w ∈ ws, IsPlainWord w) (hfit : ∀ w ∈ ws, w.length ≤ width) :
    ∃ groups, wrapLines width hw (lineOf ws) = groups.map lineOf ∧ IsDivision width ws groups ∧
      [] ∉ groups ∧ groups.IsChain (IsFull width) := by
  induction hs : lineOf ws using wrapLines_induction hw generalizing ws with
  | nil => exact absurd hs (lineOf_ne_nil hne hword)
  | fits s hsne hle =>
    subst hs
    refine ⟨[ws], by rw [wrapLines_of_le hw hsne hle]; rfl, ⟨List.flatten_singleton, ?_⟩, ?_, ?_⟩
    · rwa [List.forall_mem_singleton]
    · rw [List.mem_singleton]
      exact Ne.symm hne
    · exact List.isChain_singleton ws
  | breaks s hlong ih =>
    subst hs
    obtain ⟨g, left, rfl, hg, hleft, hle, hfull, hfirst, hrest⟩ :=
      exists_first_fill hword hfit hlong
    obtain ⟨groups, hlines, ⟨rfl, hfits⟩, hgroups, hchain⟩ := ih hleft
      (List.forall_mem_append.1 hword).2 (List.forall_mem_append.1 hfit).2 hrest.symm
    refine ⟨g :: groups, ?_, ⟨List.flatten_cons, List.forall_mem_cons.2 ⟨hle, hfits⟩⟩, ?_, ?_⟩
    · rw [wrapLines_of_lt hw hlong, hfirst, hlines, List.map_cons]
    · rw [List.mem_cons, not_or]
      exact ⟨Ne.symm hg, hgroups⟩
    · exact (isChain_cons_isFull hgroups).2 ⟨hfull, hchain⟩

end Words

/-- Wrapped words stand on lines, in order; each line is full, and no division of the words into
lines has fewer. -/
theorem wrap_words {width : Nat} {ws : List Text} (hw : 0 < width) (hne : ws ≠ [])
    (hword : ∀ w ∈ ws, IsPlainWord w) (hfit : ∀ w ∈ ws, w.length ≤ width) :
    ∃ groups, wrap width (lineOf ws) = groups.map lineOf ∧ IsDivision width ws groups ∧
      [] ∉ groups ∧ groups.IsChain (IsFull width) ∧
      ∀ others, IsDivision width ws others → groups.length ≤ others.length := by
  obtain ⟨groups, hlines, hgroups, hfilled, hfull⟩ := exists_wrapLines_lineOf hw hne hword hfit
  have htrim := trim_lineOf hword
  refine ⟨groups, ?_, hgroups, hfilled, hfull, fun others hothers => ?_⟩
  · have htext : trim (lineOf ws) ≠ [] := htrim.symm ▸ lineOf_ne_nil hne hword
    rw [wrap_of_ne_nil hw htext, htrim, hlines]
  · have hsame : groups.flatten = others.flatten :=
      hgroups.flatten_eq.trans hothers.flatten_eq.symm
    exact length_le_of_suffix hfilled hfull hothers.fits (hsame ▸ List.suffix_refl _)

/-- Four words on two lines of at most eleven characters. -/
theorem wrap_words_two : ∃ groups : List (List Text),
    wrap 11 "aaa bbb ccc ddd".toList = groups.map lineOf ∧
      groups.flatten.map String.ofList = ["aaa", "bbb", "ccc", "ddd"] ∧ groups.length ≤ 2 := by
  obtain ⟨groups, hlines, hgroups, -, -, hfewest⟩ :=
    @wrap_words 11 (["aaa", "bbb", "ccc", "ddd"].map String.toList) (by decide) (by decide)
      (by decide) (by decide)
  exact ⟨groups, hlines, by rw [hgroups.flatten_eq]; rfl,
    hfewest [["aaa".toList, "bbb".toList, "ccc".toList], ["ddd".toList]]
      ⟨by decide, by decide⟩⟩

end DocTypes.Declaration
