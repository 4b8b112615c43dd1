/-
  Which lists stay lists. A list that a section opens in its prose, with no table before it, is the
  section's list if no line follows it up to the next heading, and prose if some line does
  (`fragment_of_openedList`). What the line says does not matter: a closing tag that shows nothing
  demotes the list too (`list_demoted_by_markup`).
-/
import DocTypes.Proofs.Page.Division

namespace DocTypes.Page

open Text Markup

/-- In the lines `ls`, a list is opened in the prose: `before` are the prose in front of it, `run`
the lines of the list and `after` the lines behind it. -/
structure OpenedList (ls before run after : List Text) : Prop where
  lines_eq : ls = before ++ (run ++ after)
  before_skipped : Skipped before (run ++ after)
  list_run : ListRun run after

/-- Prose in which a line opens a list has a list that was demoted. -/
theorem Skipped.exists_openedList {before after : List Text} (h : Skipped before after)
    (hopens : ∃ l ∈ before, opensList l = true) :
    ∃ front run rest, OpenedList (before ++ after) front run rest := by
  induction h with
  | nil =>
    obtain ⟨l, hl, -⟩ := hopens
    cases hl
  | @line m ls after ht hm _ ih =>
    obtain ⟨l, hl, hopen⟩ := hopens
    rcases List.mem_cons.1 hl with rfl | hl
    · rw [hm] at hopen
      cases hopen
    · obtain ⟨front, run, rest, hlist⟩ := ih ⟨l, hl, hopen⟩
      exact ⟨m :: front, run, rest, by rw [List.cons_append, hlist.lines_eq]; rfl,
        .line ht hm hlist.before_skipped, hlist.list_run⟩
  | @list run ls after hrun hne _ _ =>
    exact ⟨[], run, ls ++ after, by rw [List.append_assoc]; rfl, .nil _, hrun⟩

/-- Without a table, a line that opens a list shows that a list is opened in the prose. -/
theorem exists_openedList {ls : List Text} (hclose : ∀ l ∈ ls, countClose "ul".toList l ≤ 1)
    (htable : (Parts.ofLines ls).table = none) (hopens : ∃ l ∈ ls, opensList l = true) :
    ∃ before run after, OpenedList ls before run after := by
  obtain ⟨d⟩ := nonempty_division hclose
  rw [d.ofLines_eq] at htable
  have hnil : d.table = [] := by
    simpa [Division.parts, part?] using htable
  have hlines := d.lines_eq
  have hskipped := d.before_skipped
  rw [hnil, d.between_nil hnil, d.after_nil (Or.inl hnil), List.nil_append, List.nil_append]
    at hlines hskipped
  by_cases hlist : d.list = []
  · rw [hlist, List.append_nil, List.append_nil] at hlines
    rw [hlist, List.append_nil] at hskipped
    have := hskipped.exists_openedList (hlines ▸ hopens)
    rwa [List.append_nil, ← hlines] at this
  · have hrun := d.list_run hlist
    rw [d.after_nil (Or.inl hnil)] at hrun
    exact ⟨d.before, d.list, [], hlines, hskipped, hrun⟩

/-- A list behind which no line stands is the section's list. -/
theorem ofLines_of_openedList {ls before run : List Text} (h : OpenedList ls before run []) :
    Parts.ofLines ls = ⟨before, none, some run⟩ := by
  have hsplit := h.list_run.splitList_eq
  obtain ⟨l, run', rfl, ht, hl⟩ := h.list_run.exists_cons
  rw [h.lines_eq, h.before_skipped.ofLines_append, List.append_nil]
  rw [List.append_nil] at hsplit
  rw [ofLines_list ht hl hsplit]
  simp

/-- A list behind which a line stands is prose, in front of what the lines behind it are. -/
theorem ofLines_of_openedList_demoted {ls before run after : List Text}
    (h : OpenedList ls before run after) (hafter : after ≠ []) :
    Parts.ofLines ls =
      { Parts.ofLines after with prose := before ++ (run ++ (Parts.ofLines after).prose) } := by
  have hskipped : Skipped (run ++ []) after := .list h.list_run (by simpa) (.nil _)
  rw [List.append_nil] at hskipped
  rw [h.lines_eq, h.before_skipped.ofLines_append, hskipped.ofLines_append]

/-- Lines that open nothing are prose. -/
theorem ofLines_of_prose {ls : List Text}
    (h : ∀ l ∈ ls, opensTable l = false ∧ opensList l = false) :
    Parts.ofLines ls = ⟨ls, none, none⟩ := by
  induction ls with
  | nil => exact ofLines_nil
  | cons l ls ih =>
    obtain ⟨ht, hl⟩ := h l List.mem_cons_self
    rw [ofLines_prose ht hl, ih fun m hm => h m (List.mem_cons_of_mem l hm)]

/-! ## Sections of a page -/

theorem mem_of_mem_sectionsOfLines {ls : List Text} {s : Section} (h : s ∈ sectionsOfLines ls) :
    ∀ l ∈ s.lines, l ∈ ls := by
  induction ls with
  | nil => cases h
  | cons m ls ih =>
    rw [sectionsOfLines] at h
    split at h
    · rcases List.mem_cons.1 h with rfl | h
      · exact fun l hl => List.mem_cons_of_mem m ((List.takeWhile_prefix _).mem hl)
      · exact fun l hl => List.mem_cons_of_mem m (ih h l hl)
    · exact fun l hl => List.mem_cons_of_mem m (ih h l hl)

/-- Further lines, the first of them not empty, make another text. -/
theorem ofPart_append_ne {a b : List Text} (hne : b ≠ []) (hhead : b.head? ≠ some []) :
    ofPart (a ++ b) ≠ ofPart a := by
  unfold ofPart
  by_cases ha : a = []
  · obtain ⟨l, ls, rfl⟩ := List.exists_cons_of_ne_nil hne
    have hl : l ≠ [] := by simpa using hhead
    rw [ha, List.nil_append, joinWith_nil]
    cases ls <;> simp [hl]
  · rw [joinWith_append _ ha hne]
    simp

/-- **Main theorem.** A section without a table in which some line opens a list has a list that it
opens in its prose. Such a list is the section's list, with the lines of its run, and the lines in
front of it are the prose, exactly if no line stands behind it. If one does, whatever it says, the
lines of the list are prose; if the lines behind it open nothing, so are all lines. -/
theorem fragment_of_openedList {page : Text} {s : Section} (hs : s ∈ sections page) :
    ((Fragment.ofSection s).table = none → (∃ l ∈ s.lines, opensList l = true) →
      ∃ before run after, OpenedList s.lines before run after) ∧
    ∀ before run after, OpenedList s.lines before run after →
      (Fragment.ofSection s = ⟨s.name, ofPart before, none, some (ofPart run)⟩ ↔ after = []) ∧
      (after ≠ [] → (Fragment.ofSection s).prose =
        ofPart (before ++ (run ++ (Parts.ofLines after).prose))) ∧
      (after ≠ [] → (∀ l ∈ after, opensTable l = false ∧ opensList l = false) →
        Fragment.ofSection s = ⟨s.name, ofPart s.lines, none, none⟩) := by
  have hclose : ∀ l ∈ s.lines, countClose "ul".toList l ≤ 1 := fun l hl =>
    countClose_le_one (mem_of_mem_sectionsOfLines hs l hl)
  refine ⟨fun htable hopens => ?_, fun before run after h => ?_⟩
  · exact exists_openedList hclose (by simpa [Fragment.ofSection] using htable) hopens
  have hdemoted : after ≠ [] → (Fragment.ofSection s).prose =
      ofPart (before ++ (run ++ (Parts.ofLines after).prose)) := by
    intro hafter
    simp only [Fragment.ofSection, ofLines_of_openedList_demoted h hafter]
  refine ⟨⟨fun hkept => ?_, ?_⟩, hdemoted, fun hafter hplain => ?_⟩
  · refine Decidable.byContradiction fun hafter => ?_
    have hprose := hdemoted hafter
    rw [hkept] at hprose
    obtain ⟨l, run', rfl, -, hl⟩ := h.list_run.exists_cons
    refine ofPart_append_ne (by simp) ?_ hprose.symm
    obtain ⟨t, rfl⟩ := List.head?_eq_some_iff.1 (head?_of_opensWith hl)
    simp
  · rintro rfl
    simp only [Fragment.ofSection, ofLines_of_openedList h, Option.map_none, Option.map_some]
  · have hparts := ofLines_of_openedList_demoted h hafter
    rw [ofLines_of_prose hplain, ← h.lines_eq] at hparts
    simp only [Fragment.ofSection, hparts, Option.map_none]

/-- A list behind prose and at the end of its section. -/
theorem fragment_of_openedList_kind :
    let page := "<h4>Kind</h4><p>One of</p><ul><li>Cat</li>\n<li>Dog</li></ul><h3>End</h3>".toList
    let run := ["<ul><li>Cat</li>".toList, "<li>Dog</li></ul>".toList]
    let s : Section := ⟨"Kind".toList, "<p>One of</p>".toList :: run⟩
    s ∈ sections page ∧ OpenedList s.lines ["<p>One of</p>".toList] run [] ∧
      Fragment.ofSection s =
        ⟨"Kind".toList, "<p>One of</p>".toList, none,
          some "<ul><li>Cat</li>\n<li>Dog</li></ul>".toList⟩ := by
  intro page run s
  have hs : s ∈ sections page := by decide +kernel
  have hsplit : splitList 0 run = (run, []) := by decide
  have hrun : ListRun (splitList 0 run).1 (splitList 0 run).2 :=
    splitList_run (by decide) (by decide)
  rw [hsplit] at hrun
  have hopened : OpenedList s.lines ["<p>One of</p>".toList] run [] :=
    ⟨rfl, .line (by decide) (by decide) (.nil _), hrun⟩
  exact ⟨hs, hopened, ((fragment_of_openedList hs).2 _ _ _ hopened).1.2 rfl⟩

/-- A closing tag behind the list, which shows nothing, makes the list prose. -/
theorem list_demoted_by_markup :
    fragments "<div><h4>Kind</h4><ul><li>Cat</li></ul></div>".toList =
        [⟨"Kind".toList, "<ul><li>Cat</li></ul>\n</div>".toList, none, none⟩] ∧
      trim (plainText "</div>".toList) = [] := by
  decide +kernel

end DocTypes.Page
