/-
  The trimmed lines of a text, blank ones left out, and texts that trimming leaves as they are.
  A newline between two texts divides their lines (`nonblankLines_append`), so the lines of a text
  can be taken piece by piece.
-/
import DocTypes.Text.Basic

namespace DocTypes.Text

/-- The trimmed lines of a text, blank ones left out. -/
def nonblankLines (s : Text) : List Text :=
  ((splitOn '\n' s).map trim).filter fun line => !line.isEmpty

/-! ## Joining and replacing -/

@[simp] theorem joinWith_nil (sep : Text) : joinWith sep [] = [] := rfl

@[simp] theorem joinWith_singleton (sep t : Text) : joinWith sep [t] = t := by
  simp [joinWith, List.intercalate]

@[simp] theorem joinWith_cons_cons (sep t u : Text) (ts : List Text) :
    joinWith sep (t :: u :: ts) = t ++ (sep ++ joinWith sep (u :: ts)) := by
  simp [joinWith, List.intercalate]

theorem joinWith_cons (sep t : Text) (ts : List Text) :
    joinWith sep (t :: ts) = t ++ ts.flatMap (sep ++ ·) := by
  induction ts generalizing t with
  | nil => simp
  | cons u us ih => rw [joinWith_cons_cons, ih, List.flatMap_cons, List.append_assoc]

theorem joinWith_append (sep : Text) {ts us : List Text} (hts : ts ≠ []) (hus : us ≠ []) :
    joinWith sep (ts ++ us) = joinWith sep ts ++ (sep ++ joinWith sep us) := by
  induction ts with
  | nil => exact absurd rfl hts
  | cons t ts ih =>
    cases ts with
    | nil =>
      obtain ⟨u, us, rfl⟩ := List.exists_cons_of_ne_nil hus
      simp
    | cons v ts =>
      have hrest := ih (List.cons_ne_nil v ts)
      rw [List.cons_append] at hrest
      rw [List.cons_append, List.cons_append, joinWith_cons_cons, joinWith_cons_cons, hrest]
      simp

theorem joinWith_concat (sep t : Text) {ts : List Text} (hne : ts ≠ []) :
    joinWith sep (ts ++ [t]) = joinWith sep ts ++ (sep ++ t) := by
  rw [joinWith_append sep hne (List.cons_ne_nil t []), joinWith_singleton]

theorem mem_joinWith {c : Char} {sep : Text} {ts : List Text} (h : c ∈ joinWith sep ts) :
    c ∈ sep ∨ ∃ t ∈ ts, c ∈ t := by
  induction ts with
  | nil => cases h
  | cons t ts ih =>
    cases ts with
    | nil => exact Or.inr ⟨t, by simp, by simpa using h⟩
    | cons u us =>
      rw [joinWith_cons_cons, List.mem_append, List.mem_append] at h
      rcases h with h | h | h
      · exact Or.inr ⟨t, List.mem_cons_self, h⟩
      · exact Or.inl h
      · rcases ih h with h | ⟨v, hv, h⟩
        · exact Or.inl h
        · exact Or.inr ⟨v, List.mem_cons_of_mem t hv, h⟩

theorem mem_joinWith_of_mem {c : Char} {t : Text} {ts : List Text} (sep : Text) (ht : t ∈ ts)
    (hc : c ∈ t) : c ∈ joinWith sep ts := by
  cases ts with
  | nil => cases ht
  | cons u us =>
    rw [joinWith_cons, List.mem_append, List.mem_flatMap]
    rcases List.mem_cons.1 ht with rfl | ht
    · exact Or.inl hc
    · exact Or.inr ⟨t, ht, List.mem_append_right sep hc⟩

/-- A join ends as its last text does. -/
theorem getLast?_joinWith {c : Char} {sep : Text} {ts : List Text} (hne : ∀ t ∈ ts, t ≠ [])
    (h : c ∈ (joinWith sep ts).getLast?) : ∃ t ∈ ts, c ∈ t.getLast? := by
  induction ts with
  | nil => cases h
  | cons t ts ih =>
    cases ts with
    | nil => exact ⟨t, List.mem_cons_self, by simpa using h⟩
    | cons u us =>
      have hrest : joinWith sep (u :: us) ≠ [] := by
        have hu := hne u (by simp)
        cases us <;> simp [hu]
      rw [joinWith_cons_cons, ← List.append_assoc, List.getLast?_append,
        List.getLast?_eq_some_getLast hrest, Option.some_or,
        ← List.getLast?_eq_some_getLast hrest] at h
      obtain ⟨v, hv, hc⟩ := ih (fun v hv => hne v (List.mem_cons_of_mem t hv)) h
      exact ⟨v, List.mem_cons_of_mem t hv, hc⟩

theorem replaceChar_cons (old new c : Char) (s : Text) :
    replaceChar old new (c :: s) = (if c = old then new else c) :: replaceChar old new s := rfl

theorem replaceChar_append (old new : Char) (s t : Text) :
    replaceChar old new (s ++ t) = replaceChar old new s ++ replaceChar old new t :=
  List.map_append

theorem mem_replaceChar {old new c : Char} {s : Text} (h : c ∈ replaceChar old new s) :
    c = new ∨ c ∈ s ∧ c ≠ old := by
  obtain ⟨d, hd, rfl⟩ := List.mem_map.1 h
  split
  · exact Or.inl rfl
  · next hne => exact Or.inr ⟨hd, hne⟩

theorem replaceChar_of_notMem {old new : Char} {s : Text} (h : old ∉ s) :
    replaceChar old new s = s := by
  unfold replaceChar
  rw [List.map_congr_left (g := id), List.map_id]
  intro c hc
  rw [if_neg]
  · rfl
  · rintro rfl
    exact h hc

/-! ## Cutting at a separator -/

theorem takeWhile_ne {c : Char} {a : Text} (h : c ∉ a) (b : Text) :
    (a ++ c :: b).takeWhile (· != c) = a := by
  rw [List.takeWhile_append_of_pos, List.takeWhile_cons_of_neg (by simp), List.append_nil]
  intro d hd
  rw [bne_iff_ne]
  rintro rfl
  exact h hd

theorem splitOn_append (sep : Char) (a b : Text) :
    splitOn sep (a ++ sep :: b) = splitOn sep a ++ splitOn sep b := by
  induction a with
  | nil => simp [splitOn]
  | cons c a ih =>
    rw [List.cons_append, splitOn, splitOn, ih]
    split
    · rfl
    · cases h : splitOn sep a with
      | nil => exact absurd h (splitOn_ne_nil sep a)
      | cons t ts => rfl

theorem splitOn_of_notMem {sep : Char} {s : Text} (h : sep ∉ s) : splitOn sep s = [s] := by
  induction s with
  | nil => rfl
  | cons c s ih =>
    rw [List.mem_cons, not_or] at h
    rw [splitOn, if_neg (Ne.symm h.1), ih h.2]
    rfl

/-- A text without the separator belongs to the first piece of what follows it. -/
theorem splitOn_append_of_notMem {sep : Char} {a b t : Text} {ts : List Text} (ha : sep ∉ a)
    (hb : splitOn sep b = t :: ts) : splitOn sep (a ++ b) = (a ++ t) :: ts := by
  induction a with
  | nil => exact hb
  | cons c a ih =>
    rw [List.mem_cons, not_or] at ha
    rw [List.cons_append, splitOn, if_neg (Ne.symm ha.1), ih ha.2]
    rfl

/-- Texts without the separator are what cutting their join gives back. -/
theorem splitOn_joinWith {sep : Char} {ts : List Text} (hne : ts ≠ [])
    (h : ∀ t ∈ ts, sep ∉ t) : splitOn sep (joinWith [sep] ts) = ts := by
  induction ts with
  | nil => exact absurd rfl hne
  | cons t ts ih =>
    have ht := splitOn_of_notMem (h t List.mem_cons_self)
    cases ts with
    | nil => rw [joinWith_singleton, ht]
    | cons u us =>
      have hrest := ih (by simp) fun v hv => h v (List.mem_cons_of_mem t hv)
      rw [joinWith_cons_cons, List.singleton_append, splitOn_append, ht, hrest]
      rfl

/-- Ended lines and the empty rest after the last of them. -/
theorem splitOn_ended {sep : Char} {ls : List Text} (h : ∀ l ∈ ls, sep ∉ l) :
    splitOn sep (ls.flatMap (· ++ [sep])) = ls ++ [[]] := by
  induction ls with
  | nil => rfl
  | cons l ls ih =>
    have hl := splitOn_of_notMem (h l List.mem_cons_self)
    have hrest := ih fun m hm => h m (List.mem_cons_of_mem l hm)
    rw [List.flatMap_cons, List.append_assoc, List.singleton_append, splitOn_append, hl, hrest]
    rfl

/-- A character at the front of a text is at the front of the first piece. -/
theorem map_splitOn_cons {α : Type} {g : Text → α} {sep c : Char} (hc : c ≠ sep)
    (hg : ∀ t, g (c :: t) = g t) (s : Text) :
    (splitOn sep (c :: s)).map g = (splitOn sep s).map g := by
  rw [splitOn, if_neg hc]
  cases h : splitOn sep s with
  | nil => exact absurd h (splitOn_ne_nil sep s)
  | cons t ts => rw [consHead, List.map_cons, List.map_cons, hg]

/-- A character at the end of a text is at the end of the last piece. -/
theorem exists_splitOn_concat {sep c : Char} (hc : c ≠ sep) (s : Text) :
    ∃ ts t, splitOn sep s = ts ++ [t] ∧ splitOn sep (s ++ [c]) = ts ++ [t ++ [c]] := by
  induction s with
  | nil => exact ⟨[], [], rfl, by rw [List.nil_append, splitOn, if_neg hc]; rfl⟩
  | cons d s ih =>
    obtain ⟨ts, t, hs, hsc⟩ := ih
    rw [List.cons_append, splitOn, splitOn, hs, hsc]
    split
    · exact ⟨[] :: ts, t, rfl, rfl⟩
    · cases ts with
      | nil => exact ⟨[], d :: t, rfl, rfl⟩
      | cons u us => exact ⟨(d :: u) :: us, t, rfl, rfl⟩

theorem map_splitOn_concat {α : Type} {g : Text → α} {sep c : Char} (hc : c ≠ sep)
    (hg : ∀ t, g (t ++ [c]) = g t) (s : Text) :
    (splitOn sep (s ++ [c])).map g = (splitOn sep s).map g := by
  obtain ⟨ts, t, hs, hsc⟩ := exists_splitOn_concat hc s
  rw [hs, hsc, List.map_append, List.map_append, List.map_singleton, List.map_singleton, hg]

/-- The first piece goes up to the first separator. -/
theorem exists_splitOn_eq_cons (sep : Char) (s : Text) :
    ∃ ts, splitOn sep s = s.takeWhile (· != sep) :: ts := by
  induction s with
  | nil => exact ⟨[], rfl⟩
  | cons c s ih =>
    obtain ⟨ts, hts⟩ := ih
    rw [splitOn]
    split
    · next hc => exact ⟨splitOn sep s, by rw [List.takeWhile_cons_of_neg (by simp [hc])]⟩
    · next hc => exact ⟨ts, by rw [hts, List.takeWhile_cons_of_pos (by simp [hc])]; rfl⟩

theorem notMem_of_mem_splitOn {sep : Char} {s t : Text} (h : t ∈ splitOn sep s) : sep ∉ t := by
  induction s generalizing t with
  | nil => rw [List.mem_singleton.1 h]; simp
  | cons c s ih =>
    rw [splitOn] at h
    split at h
    · rcases List.mem_cons.1 h with rfl | h
      · simp
      · exact ih h
    · next hc =>
      obtain ⟨ts, hts⟩ := exists_splitOn_eq_cons sep s
      rw [hts] at h ih
      rcases List.mem_cons.1 h with rfl | h
      · rw [List.mem_cons, not_or]
        exact ⟨Ne.symm hc, ih List.mem_cons_self⟩
      · exact ih (List.mem_cons_of_mem _ h)

theorem infix_of_mem_splitOn {sep : Char} {s t : Text} (h : t ∈ splitOn sep s) : t <:+: s := by
  rw [← joinWith_splitOn sep s]
  obtain ⟨as, bs, hab⟩ := List.append_of_mem h
  rw [hab]
  clear hab h
  induction as with
  | nil =>
    cases bs with
    | nil => simp
    | cons b bs => exact ⟨[], [sep] ++ joinWith [sep] (b :: bs), by simp⟩
  | cons a as ih =>
    refine ih.trans (List.IsSuffix.isInfix ?_)
    cases as <;> exact ⟨a ++ [sep], by simp⟩

/-! ## Trimming -/

theorem trimStart_of_head {c : Char} {s : Text} (h : isBlank c = false) :
    trimStart (c :: s) = c :: s := by
  rw [trimStart, List.dropWhile_cons_of_neg (by simp [h])]

theorem trimEnd_concat_of_nonblank {c : Char} (s : Text) (h : isBlank c = false) :
    trimEnd (s ++ [c]) = s ++ [c] := by
  induction s with
  | nil => simp [trimEnd, h]
  | cons d s ih =>
    rw [List.cons_append, trimEnd, ih]
    cases s <;> rfl

theorem trimEnd_isPrefix (s : Text) : trimEnd s <+: s := by
  induction s with
  | nil => exact List.nil_prefix
  | cons c s ih =>
    rw [trimEnd]
    split
    · split
      · exact List.nil_prefix
      · exact (List.prefix_cons_inj c).2 List.nil_prefix
    · exact (List.prefix_cons_inj c).2 ih

theorem getLast?_trimEnd {c : Char} {s : Text} (h : c ∈ (trimEnd s).getLast?) :
    isBlank c = false := by
  induction s with
  | nil => cases h
  | cons d s ih =>
    rw [trimEnd] at h
    cases hs : trimEnd s with
    | nil =>
      simp only [hs] at h
      split at h
      · cases h
      · next hd =>
        cases h
        simpa using hd
    | cons e t =>
      rw [hs] at ih h
      exact ih (by simpa using h)

/-- Blanks are trimmed away only behind the last character that is none. -/
theorem trimEnd_append {w : Text} (hne : w ≠ []) (hlast : ∀ c ∈ w.getLast?, isBlank c = false)
    (s : Text) : trimEnd (w ++ s) = w ++ trimEnd s := by
  induction w with
  | nil => exact absurd rfl hne
  | cons c w ih =>
    rw [List.cons_append, trimEnd]
    cases w with
    | nil =>
      have hc : isBlank c = false := hlast c rfl
      rw [List.nil_append, List.singleton_append]
      split
      · next h => rw [h, if_neg (by simp [hc])]
      · rfl
    | cons d w =>
      rw [ih (by simp) fun e he => hlast e (by simpa using he)]
      rfl

/-- A text with no blank at either end is left as it is. -/
theorem trim_of_ends {s : Text} (hhead : ∀ c ∈ s.head?, isBlank c = false)
    (hlast : ∀ c ∈ s.getLast?, isBlank c = false) : trim s = s := by
  cases s with
  | nil => rfl
  | cons c s =>
    have hc : isBlank c = false := hhead c rfl
    have hl : isBlank ((c :: s).getLast (by simp)) = false :=
      hlast _ (List.getLast?_eq_some_getLast (by simp))
    rw [trim, trimStart_of_head hc, ← List.dropLast_concat_getLast (l := c :: s) (by simp),
      trimEnd_concat_of_nonblank _ hl]

theorem trimEnd_eq_nil_iff {s : Text} : trimEnd s = [] ↔ ∀ c ∈ s, isBlank c = true := by
  induction s with
  | nil => simp [trimEnd]
  | cons c s ih =>
    rw [trimEnd]
    cases h : trimEnd s with
    | nil =>
      have hs := ih.1 h
      by_cases hc : isBlank c = true <;> simp [hc]
      exact hs
    | cons d t =>
      have hs : ¬ ∀ c ∈ s, isBlank c = true := fun hall => by simp [ih.2 hall] at h
      simp only [reduceCtorEq, List.mem_cons, forall_eq_or_imp, false_iff]
      exact fun hall => hs hall.2

theorem trimEnd_concat_of_blank {c : Char} (hc : isBlank c = true) (s : Text) :
    trimEnd (s ++ [c]) = trimEnd s := by
  induction s with
  | nil => simp [trimEnd, hc]
  | cons d s ih => rw [List.cons_append, trimEnd, trimEnd, ih]

theorem trim_concat_of_blank {c : Char} (hc : isBlank c = true) (s : Text) :
    trim (s ++ [c]) = trim s := by
  unfold trim trimStart
  rw [List.dropWhile_append]
  split
  · next h =>
    rw [List.isEmpty_iff.1 h, List.dropWhile_cons_of_pos hc]
    rfl
  · exact trimEnd_concat_of_blank hc _

theorem trim_cons_of_blank {c : Char} (hc : isBlank c = true) (s : Text) :
    trim (c :: s) = trim s := by
  rw [trim, trimStart, List.dropWhile_cons_of_pos hc]
  rfl

/-- A trimmed text does not start with a blank. -/
theorem isBlank_head_of_trim {s : Text} (h : trim s = s) : ∀ c ∈ s.head?, isBlank c = false := by
  intro c hc
  obtain ⟨t, rfl⟩ := List.head?_eq_some_iff.1 hc
  cases hb : isBlank c with
  | false => rfl
  | true =>
    have hlen := trimEnd_length_le (trimStart t)
    have hstart := (trimStart_suffix t).length_le
    rw [trim_cons_of_blank hb] at h
    have := congrArg List.length h
    rw [trim, List.length_cons] at this
    omega

/-- A trimmed text does not end with a blank. -/
theorem isBlank_last_of_trim {s : Text} (h : trim s = s) :
    ∀ c ∈ s.getLast?, isBlank c = false := by
  intro c hc
  obtain ⟨t, rfl⟩ := List.getLast?_eq_some_iff.1 hc
  cases hb : isBlank c with
  | false => rfl
  | true =>
    have hlen := trim_length_le t
    rw [trim_concat_of_blank hb] at h
    have := congrArg List.length h
    rw [List.length_append, List.length_singleton] at this
    omega

/-- Trimmed texts that are not empty make a trimmed text. -/
theorem trim_joinWith {sep : Text} {ts : List Text} (hne : ∀ t ∈ ts, t ≠ [])
    (htrim : ∀ t ∈ ts, trim t = t) : trim (joinWith sep ts) = joinWith sep ts := by
  apply trim_of_ends
  · intro c hc
    cases ts with
    | nil => cases hc
    | cons t ts =>
      obtain ⟨d, s, rfl⟩ := List.exists_cons_of_ne_nil (hne t List.mem_cons_self)
      have hd : c = d := by cases ts <;> simpa using hc.symm
      exact isBlank_head_of_trim (htrim (d :: s) List.mem_cons_self) c (by rw [hd]; rfl)
  · intro c hc
    obtain ⟨t, ht, hc⟩ := getLast?_joinWith hne hc
    exact isBlank_last_of_trim (htrim t ht) c hc

/-- What is trimmed off at the end is blank. -/
theorem trimEnd_append_blanks (s : Text) :
    ∃ back, s = trimEnd s ++ back ∧ ∀ c ∈ back, isBlank c = true := by
  induction s with
  | nil => exact ⟨[], rfl, by simp⟩
  | cons c s ih =>
    obtain ⟨back, hs, hback⟩ := ih
    rw [trimEnd]
    cases h : trimEnd s with
    | nil =>
      rw [h, List.nil_append] at hs
      by_cases hc : isBlank c = true
      · exact ⟨c :: s, by simp [hc], by rw [hs]; simpa [hc] using hback⟩
      · exact ⟨back, by simp [hc, hs], hback⟩
    | cons d t => exact ⟨back, by rw [hs, h]; simp, hback⟩

/-- A text is its trimmed form with blanks around it. -/
theorem trim_append_blanks (s : Text) : ∃ front back, s = front ++ trim s ++ back ∧
    (∀ c ∈ front, isBlank c = true) ∧ ∀ c ∈ back, isBlank c = true := by
  obtain ⟨back, hs, hback⟩ := trimEnd_append_blanks (trimStart s)
  refine ⟨s.takeWhile isBlank, back, ?_, ?_, hback⟩
  · rw [trim, List.append_assoc, ← hs, trimStart, List.takeWhile_append_dropWhile]
  · exact fun c hc => List.all_eq_true.1 List.all_takeWhile c hc

theorem trim_isInfix (s : Text) : trim s <:+: s := by
  obtain ⟨front, back, hs, -, -⟩ := trim_append_blanks s
  exact ⟨front, back, hs.symm⟩

theorem trim_trim (s : Text) : trim (trim s) = trim s := by
  refine trim_of_ends (fun c hc => ?_) fun c hc => getLast?_trimEnd hc
  obtain ⟨t, ht⟩ := List.head?_eq_some_iff.1 hc
  have hhead : (trimStart s).head? = some c := by
    rw [List.head?_eq_some_iff]
    obtain ⟨back, hback⟩ := trimEnd_isPrefix (trimStart s)
    exact ⟨t ++ back, by rw [← hback]; exact congrArg (· ++ back) ht⟩
  have hnot := List.head?_dropWhile_not isBlank s
  rw [show s.dropWhile isBlank = trimStart s from rfl, hhead] at hnot
  exact hnot

/-- Trimming leaves nothing of a blank text only. -/
theorem trim_eq_nil_iff {s : Text} : trim s = [] ↔ ∀ c ∈ s, isBlank c = true := by
  constructor
  · intro h
    obtain ⟨front, back, hs, hfront, hback⟩ := trim_append_blanks s
    rw [h, List.append_nil] at hs
    rw [hs]
    exact fun c hc => (List.mem_append.1 hc).elim (hfront c) (hback c)
  · exact fun h => trimEnd_eq_nil_iff.2 fun c hc => h c ((trimStart_suffix s).subset hc)

section Pieces

variable {sep c : Char} (hc : isBlank c = true)

include hc

theorem map_trim_splitOn_subset_cons (s : Text) :
    (splitOn sep s).map trim ⊆ (splitOn sep (c :: s)).map trim := by
  by_cases h : c = sep
  · rw [splitOn, if_pos h, List.map_cons]
    exact List.subset_cons_self _ _
  · rw [map_splitOn_cons h (trim_cons_of_blank hc)]
    exact List.Subset.refl _

theorem map_trim_splitOn_subset_concat (s : Text) :
    (splitOn sep s).map trim ⊆ (splitOn sep (s ++ [c])).map trim := by
  by_cases h : c = sep
  · rw [h, splitOn_append, List.map_append]
    exact List.subset_append_left _ _
  · rw [map_splitOn_concat h (trim_concat_of_blank hc)]
    exact List.Subset.refl _

end Pieces

/-- The trimmed pieces of a trimmed text are pieces of the text. -/
theorem map_trim_splitOn_trim_subset (sep : Char) (s : Text) :
    (splitOn sep (trim s)).map trim ⊆ (splitOn sep s).map trim := by
  obtain ⟨front, back, hs, hfront, hback⟩ := trim_append_blanks s
  have hbehind : ∀ t, (splitOn sep t).map trim ⊆ (splitOn sep (t ++ back)).map trim := by
    clear hs
    induction back with
    | nil =>
      intro t
      rw [List.append_nil]
      exact List.Subset.refl _
    | cons c back ih =>
      intro t
      rw [← List.singleton_append, ← List.append_assoc]
      exact List.Subset.trans (map_trim_splitOn_subset_concat (hback c List.mem_cons_self) t)
        (ih (fun d hd => hback d (List.mem_cons_of_mem c hd)) _)
  have hbefore : ∀ t, (splitOn sep t).map trim ⊆ (splitOn sep (front ++ t)).map trim := by
    clear hs hbehind
    intro t
    induction front with
    | nil => exact List.Subset.refl _
    | cons c front ih =>
      exact List.Subset.trans (ih fun d hd => hfront d (List.mem_cons_of_mem c hd))
        (map_trim_splitOn_subset_cons (hfront c List.mem_cons_self) _)
  conv => rhs; rw [hs]
  exact List.Subset.trans (hbefore _) (hbehind _)

/-! ## Nonblank lines -/

@[simp] theorem nonblankLines_nil : nonblankLines [] = [] := rfl

theorem infix_of_mem_nonblankLines {s l : Text} (h : l ∈ nonblankLines s) : l <:+: s := by
  obtain ⟨t, ht, rfl⟩ := List.mem_map.1 (List.mem_filter.1 h).1
  exact (trim_isInfix t).trans (infix_of_mem_splitOn ht)

/-- A newline divides the lines before it from those after it. -/
@[simp] theorem nonblankLines_append (a b : Text) :
    nonblankLines (a ++ '\n' :: b) = nonblankLines a ++ nonblankLines b := by
  unfold nonblankLines
  rw [splitOn_append, List.map_append, List.filter_append]

@[simp] theorem nonblankLines_newline (b : Text) :
    nonblankLines ('\n' :: b) = nonblankLines b :=
  nonblankLines_append [] b

theorem nonblankLines_of_blank {c : Char} (hc : isBlank c = true) (s : Text) :
    nonblankLines (c :: s) = nonblankLines s := by
  by_cases hn : c = '\n'
  · rw [hn, nonblankLines_newline]
  · obtain ⟨ts, hts⟩ := exists_splitOn_eq_cons '\n' s
    have htrim : ∀ t, trim (c :: t) = trim t := fun t => by
      rw [trim, trimStart, List.dropWhile_cons_of_pos hc]
      rfl
    unfold nonblankLines
    rw [splitOn, if_neg hn, hts, consHead, List.map_cons, List.map_cons, htrim]

theorem nonblankLines_blanks {front : Text} (h : ∀ c ∈ front, isBlank c = true) (s : Text) :
    nonblankLines (front ++ s) = nonblankLines s := by
  induction front with
  | nil => rfl
  | cons c front ih =>
    rw [List.cons_append, nonblankLines_of_blank (h c List.mem_cons_self)]
    exact ih fun d hd => h d (List.mem_cons_of_mem c hd)

theorem nonblankLines_trimStart (s : Text) : nonblankLines (trimStart s) = nonblankLines s := by
  conv => rhs; rw [← List.takeWhile_append_dropWhile (p := isBlank) (l := s)]
  exact (nonblankLines_blanks (fun c hc => List.all_eq_true.1 List.all_takeWhile c hc) _).symm

/-- The first nonblank line starts at the first character that is no blank. -/
theorem head?_nonblankLines (s : Text) : (nonblankLines s).head? =
    if trimStart s = [] then none
    else some (trimEnd ((trimStart s).takeWhile (· != '\n'))) := by
  rw [← nonblankLines_trimStart]
  cases hs : trimStart s with
  | nil => rfl
  | cons c t =>
    have hc : isBlank c = false := by
      have := List.head?_dropWhile_not isBlank s
      rw [← trimStart, hs] at this
      simpa using this
    have hn : c ≠ '\n' := by
      rintro rfl
      cases hc
    have htrim : trim ((c :: t).takeWhile (· != '\n')) =
        trimEnd ((c :: t).takeWhile (· != '\n')) := by
      rw [trim, List.takeWhile_cons_of_pos (by simp [hn]), trimStart_of_head hc]
    have hne : trimEnd ((c :: t).takeWhile (· != '\n')) ≠ [] := by
      rw [Ne, trimEnd_eq_nil_iff, List.takeWhile_cons_of_pos (by simp [hn])]
      intro h
      rw [h c List.mem_cons_self] at hc
      cases hc
    obtain ⟨ts, hts⟩ := exists_splitOn_eq_cons '\n' (c :: t)
    unfold nonblankLines
    rw [hts, List.map_cons, htrim, List.filter_cons_of_pos (by simpa using hne), if_neg (by simp)]
    rfl

/-- A text that ends with no blank and has no newline stays at the start of the first line. -/
theorem head?_nonblankLines_append {w : Text} (hne : w ≠ [])
    (hhead : ∀ c ∈ w.head?, isBlank c = false) (hlast : ∀ c ∈ w.getLast?, isBlank c = false)
    (hnl : '\n' ∉ w) (rest : Text) :
    ∃ more, (nonblankLines (w ++ rest)).head? = some (w ++ more) := by
  refine ⟨trimEnd (rest.takeWhile (· != '\n')), ?_⟩
  have hstart : trimStart (w ++ rest) = w ++ rest := by
    cases w with
    | nil => exact absurd rfl hne
    | cons c w => exact trimStart_of_head (hhead c rfl)
  have htake : (w ++ rest).takeWhile (· != '\n') = w ++ rest.takeWhile (· != '\n') :=
    List.takeWhile_append_of_pos fun c hc => by
      rw [bne_iff_ne]
      rintro rfl
      exact hnl hc
  rw [head?_nonblankLines, hstart, if_neg (by simp [hne]), htake, trimEnd_append hne hlast]

/-- A line that is trimmed already stands for itself. -/
theorem nonblankLines_of_line {s : Text} (hne : s ≠ []) (hnl : '\n' ∉ s) (htrim : trim s = s) :
    nonblankLines s = [s] := by
  unfold nonblankLines
  rw [splitOn_of_notMem hnl, List.map_singleton, htrim]
  cases s with
  | nil => exact absurd rfl hne
  | cons c s => rfl

end DocTypes.Text
