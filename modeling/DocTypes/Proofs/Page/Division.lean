/-
  How the lines of a page are divided. A page is some lines and then groups, each a heading with
  the lines up to the next heading; a group whose heading gives a name is a fragment. The lines of
  a group are divided into prose, a table's run, prose, a list's run and prose, in this order, so
  that no line is lost, used twice or moved (`Division`); there is a division of the lines of every
  group, and it is the one that is made (`Division.ofLines_eq`). That a list's run ends where as
  many lists are closed as opened rests on `countClose_le_one`: the depth of nested lists is never
  cut off at none.
-/
import DocTypes.Proofs.Page.Nesting
import DocTypes.Proofs.Page.Parts
import DocTypes.Proofs.Page.Sections

namespace DocTypes.Page

open Text Markup

/-! ## Runs -/

/-- How many lists the lines open. -/
def listOpens : List Text → Nat
  | [] => 0
  | l :: ls => countOpen "ul".toList l + listOpens ls

/-- How many lists the lines close. -/
def listCloses : List Text → Nat
  | [] => 0
  | l :: ls => countClose "ul".toList l + listCloses ls

theorem listOpens_cons (l : Text) (ls : List Text) :
    listOpens (l :: ls) = countOpen "ul".toList l + listOpens ls := rfl

theorem listCloses_cons (l : Text) (ls : List Text) :
    listCloses (l :: ls) = countClose "ul".toList l + listCloses ls := rfl

/-- The lines of a table, which `after` follow: from a line that opens one through the first line
that closes one, or else to the end. -/
structure TableRun (run after : List Text) : Prop where
  head : run.head?.any opensTable = true
  inner : ∀ l ∈ run.dropLast, closesTable l = false
  ended : run.getLast?.any closesTable = true ∨ after = []

/-- The lines of a list, which `after` follow: the shortest run from a line that opens one in which
as many lists are closed as opened, or else all lines to the end. -/
structure ListRun (run after : List Text) : Prop where
  head : run.head?.any opensList = true
  inner : ∀ p, p <+: run → p ≠ [] → p ≠ run → listCloses p < listOpens p
  ended : listCloses run = listOpens run ∨ listCloses run < listOpens run ∧ after = []

theorem splitTable_spec (ls : List Text) :
    (∀ l ∈ (splitTable ls).1.dropLast, closesTable l = false) ∧
      ((splitTable ls).1.getLast?.any closesTable = true ∨ (splitTable ls).2 = []) := by
  induction ls with
  | nil => exact ⟨by simp [splitTable], Or.inr rfl⟩
  | cons l ls ih =>
    rw [splitTable]
    split
    · next hl => exact ⟨by simp, Or.inl hl⟩
    · next hl =>
      obtain ⟨hinner, hended⟩ := ih
      dsimp only
      cases hrun : (splitTable ls).1 with
      | nil =>
        rw [hrun] at hended
        exact ⟨by simp, Or.inr (hended.resolve_left (by simp))⟩
      | cons m ms =>
        rw [hrun] at hinner hended
        refine ⟨fun k hk => ?_, by rwa [List.getLast?_cons_cons]⟩
        rcases List.mem_cons.1 hk with rfl | hk
        · simpa using hl
        · exact hinner k hk

theorem splitTable_run {l : Text} (hl : opensTable l = true) (ls : List Text) :
    TableRun (splitTable (l :: ls)).1 (splitTable (l :: ls)).2 := by
  obtain ⟨hinner, hended⟩ := splitTable_spec (l :: ls)
  refine ⟨?_, hinner, hended⟩
  rw [splitTable]
  split <;> exact hl

/-- From a depth `d`, the lines keep a list open up to the last of them, which closes all lists
unless the lines end. -/
structure OpenFrom (d : Nat) (run after : List Text) : Prop where
  inner : ∀ p, p <+: run → p ≠ [] → p ≠ run → listCloses p < d + listOpens p
  ended : listCloses run = d + listOpens run ∨ listCloses run < d + listOpens run ∧ after = []

namespace OpenFrom

variable {d : Nat} {l m : Text} {ms after : List Text}

theorem line (h : countClose "ul".toList l = d + countOpen "ul".toList l ∨
    countClose "ul".toList l < d + countOpen "ul".toList l ∧ after = []) :
    OpenFrom d [l] after := by
  refine ⟨fun p hp hne hrun => ?_, h⟩
  rcases List.prefix_cons_iff.1 hp with rfl | ⟨q, rfl, hq⟩
  · exact absurd rfl hne
  · rw [List.prefix_nil.1 hq] at hrun
    exact absurd rfl hrun

/-- A line that leaves a list open goes on as from the depth it leaves. -/
theorem cons (hl : countClose "ul".toList l < d + countOpen "ul".toList l)
    (h : OpenFrom (d + countOpen "ul".toList l - countClose "ul".toList l) (m :: ms) after) :
    OpenFrom d (l :: m :: ms) after := by
  refine ⟨fun p hp hne hrun => ?_, ?_⟩
  · rcases List.prefix_cons_iff.1 hp with rfl | ⟨q, rfl, hq⟩
    · exact absurd rfl hne
    · rw [listCloses_cons, listOpens_cons]
      by_cases hq0 : q = []
      · rw [hq0]
        exact hl
      · have := h.inner q hq hq0 fun hqm => hrun (by rw [hqm])
        omega
  · have hended := h.ended
    rw [listCloses_cons l, listOpens_cons l]
    exact hended.imp (fun h => by omega) fun h => ⟨by omega, h.2⟩

theorem tail (h : OpenFrom d (l :: m :: ms) after) :
    countClose "ul".toList l < d + countOpen "ul".toList l ∧
      OpenFrom (d + countOpen "ul".toList l - countClose "ul".toList l) (m :: ms) after := by
  have hl : countClose "ul".toList l < d + countOpen "ul".toList l :=
    h.inner [l] (by simp) (by simp) (by simp)
  refine ⟨hl, fun p hp hne hrun => ?_, ?_⟩
  · have := h.inner (l :: p) ((List.prefix_cons_inj l).2 hp) (by simp) (by simpa using hrun)
    rw [listCloses_cons, listOpens_cons] at this
    omega
  · have hended := h.ended
    rw [listCloses_cons l, listOpens_cons l] at hended
    exact hended.imp (fun h => by omega) fun h => ⟨by omega, h.2⟩

end OpenFrom

/-- Where no line closes two lists, the lines that are split off keep a list open. -/
theorem openFrom_splitList (d : Nat) (l : Text) (ls : List Text)
    (hclose : ∀ m ∈ l :: ls, countClose "ul".toList m ≤ 1)
    (hopen : 0 < d + countOpen "ul".toList l) :
    OpenFrom d (splitList d (l :: ls)).1 (splitList d (l :: ls)).2 := by
  induction ls generalizing d l with
  | nil =>
    have hl := hclose l List.mem_cons_self
    have hone : splitList d [l] = ([l], []) := by
      rw [splitList]
      dsimp only
      split <;> rfl
    rw [hone]
    exact .line (by simp only [and_true]; omega)
  | cons m ms ih =>
    have hl := hclose l List.mem_cons_self
    rw [splitList]
    dsimp only
    split
    · exact .line (Or.inl (by omega))
    · have hrest := ih (d + countOpen "ul".toList l - countClose "ul".toList l) m
        (fun k hk => hclose k (List.mem_cons_of_mem l hk)) (by omega)
      cases hrun : (splitList (d + countOpen "ul".toList l - countClose "ul".toList l)
          (m :: ms)).1 with
      | nil =>
        rw [splitList] at hrun
        dsimp only at hrun
        split at hrun <;> cases hrun
      | cons k ks =>
        rw [hrun] at hrest
        exact .cons (by omega) hrest

theorem splitList_run {l : Text} (hl : opensList l = true) {ls : List Text}
    (hclose : ∀ m ∈ l :: ls, countClose "ul".toList m ≤ 1) :
    ListRun (splitList 0 (l :: ls)).1 (splitList 0 (l :: ls)).2 := by
  obtain ⟨hinner, hended⟩ := openFrom_splitList 0 l ls hclose (by
    rw [Nat.zero_add]
    exact countOpen_pos hl)
  simp only [Nat.zero_add] at hinner hended
  refine ⟨?_, hinner, hended⟩
  rw [splitList]
  dsimp only
  split <;> exact hl

/-! ## The lines of a section -/

/-- Lines that are prose because of what `after` follow them: lines that open nothing, and lists
that some line follows. -/
inductive Skipped : List Text → List Text → Prop
  | nil (after : List Text) : Skipped [] after
  | line {l : Text} {ls after : List Text} :
      opensTable l = false → opensList l = false → Skipped ls after → Skipped (l :: ls) after
  | list {run ls after : List Text} :
      ListRun run (ls ++ after) → ls ++ after ≠ [] → Skipped ls after → Skipped (run ++ ls) after

theorem Skipped.append {front before after : List Text} (h : Skipped front (before ++ after))
    (h' : Skipped before after) : Skipped (front ++ before) after := by
  generalize hrest : before ++ after = rest at h
  induction h with
  | nil => exact h'
  | line ht hl _ ih => exact .line ht hl (ih hrest)
  | @list run ls _ hrun hne _ ih =>
    subst hrest
    rw [List.append_assoc]
    rw [← List.append_assoc] at hrun hne
    exact .list hrun hne (ih rfl)

/-- The lines `ls` of a section divided into prose, a table and a list. Every line has exactly one
place, the table comes before the list, and without a table no line comes after the list. -/
structure Division (ls : List Text) where
  /-- Prose in front of the table and the list. -/
  before : List Text
  /-- The table's run, empty where there is no table. -/
  table : List Text
  /-- Prose between the table and the list. -/
  between : List Text
  /-- The list's run, empty where there is no list. -/
  list : List Text
  /-- Prose behind the table and the list. -/
  after : List Text
  lines_eq : ls = before ++ (table ++ (between ++ (list ++ after)))
  before_skipped : Skipped before (table ++ (between ++ (list ++ after)))
  table_run : table ≠ [] → TableRun table (between ++ (list ++ after))
  between_nil : table = [] → between = []
  between_opens : ∀ l ∈ between, opensList l = false
  list_run : list ≠ [] → ListRun list after
  after_nil : table = [] ∨ list = [] → after = []

/-- A part that may be missing; one without lines is. -/
def part? (ls : List Text) : Option (List Text) := if ls.isEmpty then none else some ls

namespace Division

variable {ls : List Text}

/-- The lines of each part, in the order of the page. -/
def parts (d : Division ls) : Parts where
  prose := d.before ++ (d.between ++ d.after)
  table := part? d.table
  list := part? d.list

/-- The divided lines as a fragment. -/
def fragment (d : Division ls) (name : Text) : Fragment where
  name := name
  prose := ofPart (d.before ++ (d.between ++ d.after))
  table := (part? d.table).map ofPart
  list := (part? d.list).map ofPart

/-- Lines that a table or a list starts, if any do. -/
def ofRuns (table between list after : List Text)
    (lines_eq : ls = table ++ (between ++ (list ++ after)))
    (table_run : table ≠ [] → TableRun table (between ++ (list ++ after)))
    (between_nil : table = [] → between = [])
    (between_opens : ∀ l ∈ between, opensList l = false)
    (list_run : list ≠ [] → ListRun list after)
    (after_nil : table = [] ∨ list = [] → after = []) : Division ls where
  before := []
  table := table
  between := between
  list := list
  after := after
  lines_eq := lines_eq
  before_skipped := .nil _
  table_run := table_run
  between_nil := between_nil
  between_opens := between_opens
  list_run := list_run
  after_nil := after_nil

/-- Skipped lines in front of divided ones. -/
def prepend {front rest : List Text} (h : Skipped front rest) (lines_eq : ls = front ++ rest)
    (d : Division rest) : Division ls where
  before := front ++ d.before
  table := d.table
  between := d.between
  list := d.list
  after := d.after
  lines_eq := by rw [List.append_assoc, ← d.lines_eq, lines_eq]
  before_skipped := (d.lines_eq ▸ h).append d.before_skipped
  table_run := d.table_run
  between_nil := d.between_nil
  between_opens := d.between_opens
  list_run := d.list_run
  after_nil := d.after_nil

end Division

theorem ne_nil_of_head {p : Text → Bool} {run : List Text} (h : run.head?.any p = true) :
    run ≠ [] := by
  rintro rfl
  cases h

/-! ## Lines can be divided -/

/-- After a table's run, the lines up to one that opens a list are prose. -/
theorem nonempty_division_afterTable {ls table rest : List Text} (hls : ls = table ++ rest)
    (hrun : TableRun table rest) (hclose : ∀ l ∈ rest, countClose "ul".toList l ≤ 1) :
    Nonempty (Division ls) := by
  subst hls
  have hne := ne_nil_of_head hrun.head
  have hopens : ∀ l ∈ rest.takeWhile fun l => !opensList l, opensList l = false := fun l hl => by
    simpa using List.all_eq_true.1 List.all_takeWhile l hl
  have hrest := List.takeWhile_append_dropWhile (p := fun l => !opensList l) (l := rest)
  cases hdrop : rest.dropWhile fun l => !opensList l with
  | nil =>
    rw [hdrop, List.append_nil] at hrest
    rw [hrest] at hopens
    exact ⟨.ofRuns table rest [] [] (by simp) (fun _ => by simpa using hrun) (absurd · hne) hopens
      (absurd rfl) (fun _ => rfl)⟩
  | cons m ms =>
    have hm : opensList m = true := by
      have := List.head?_dropWhile_not (fun l => !opensList l) rest
      rw [hdrop] at this
      simpa using this
    rw [hdrop] at hrest
    have hlist : ListRun (splitList 0 (m :: ms)).1 (splitList 0 (m :: ms)).2 :=
      splitList_run hm fun l hl => hclose l (hrest ▸ List.mem_append_right _ hl)
    have happ := splitList_append 0 (m :: ms)
    exact ⟨.ofRuns table (rest.takeWhile fun l => !opensList l) (splitList 0 (m :: ms)).1
      (splitList 0 (m :: ms)).2 (by rw [happ, hrest]) (fun _ => by rwa [happ, hrest])
      (absurd · hne) hopens (fun _ => hlist)
      (fun h => (h.elim hne (ne_nil_of_head hlist.head)).elim)⟩

/-- Lines of which none closes two lists can be divided. -/
theorem nonempty_division {ls : List Text} (hclose : ∀ l ∈ ls, countClose "ul".toList l ≤ 1) :
    Nonempty (Division ls) := by
  induction hn : ls.length using Nat.strongRecOn generalizing ls with
  | ind n ih =>
    subst hn
    cases ls with
    | nil =>
      exact ⟨.ofRuns [] [] [] [] rfl (absurd rfl) (fun _ => rfl) (by simp) (absurd rfl)
        (fun _ => rfl)⟩
    | cons l ls =>
      have htail : ∀ m ∈ ls, countClose "ul".toList m ≤ 1 := fun m hm =>
        hclose m (List.mem_cons_of_mem l hm)
      cases ht : opensTable l with
      | true =>
        have happ := (splitTable_append (l :: ls)).symm
        exact nonempty_division_afterTable happ (splitTable_run ht ls) fun m hm =>
          hclose m (happ ▸ List.mem_append_right _ hm)
      | false =>
        cases hl : opensList l with
        | false =>
          obtain ⟨d⟩ := ih ls.length (by simp) htail rfl
          exact ⟨d.prepend (.line ht hl (.nil _)) rfl⟩
        | true =>
          have happ := (splitList_append 0 (l :: ls)).symm
          have hrun := splitList_run hl hclose
          have hle := splitList_cons_snd_le 0 l ls
          cases hafter : (splitList 0 (l :: ls)).2 with
          | nil =>
            rw [hafter, List.append_nil] at happ
            rw [hafter, ← happ] at hrun
            exact ⟨.ofRuns [] [] (l :: ls) [] (by simp) (absurd rfl) (fun _ => rfl) (by simp)
              (fun _ => hrun) (fun _ => rfl)⟩
          | cons next after =>
            rw [hafter] at happ hrun hle
            obtain ⟨d⟩ := ih (next :: after).length (Nat.lt_succ_of_le hle) (fun m hm =>
              hclose m (happ ▸ List.mem_append_right _ hm)) rfl
            have hskip : Skipped ((splitList 0 (l :: ls)).1 ++ []) (next :: after) :=
              .list hrun (by simp) (.nil _)
            rw [List.append_nil] at hskip
            exact ⟨d.prepend hskip happ⟩

/-! ## Divisions are exact -/

theorem splitTable_of_run {run after : List Text} (hne : run ≠ [])
    (hinner : ∀ l ∈ run.dropLast, closesTable l = false)
    (hended : run.getLast?.any closesTable = true ∨ after = []) :
    splitTable (run ++ after) = (run, after) := by
  induction run with
  | nil => exact absurd rfl hne
  | cons l run ih =>
    rw [List.cons_append, splitTable]
    cases run with
    | nil =>
      rcases hended with hl | rfl
      · exact if_pos hl
      · split <;> rfl
    | cons m ms =>
      have hl : closesTable l = false := hinner l List.mem_cons_self
      rw [List.getLast?_cons_cons] at hended
      have hrest := ih (by simp) (fun k hk => hinner k (List.mem_cons_of_mem l hk)) hended
      rw [if_neg (by simp [hl]), hrest]

/-- Lines that keep a list open are split off from what follows them. -/
theorem OpenFrom.splitList_eq {d : Nat} {run after : List Text} (hne : run ≠ [])
    (h : OpenFrom d run after) : splitList d (run ++ after) = (run, after) := by
  induction run generalizing d with
  | nil => exact absurd rfl hne
  | cons l run ih =>
    rw [List.cons_append, splitList]
    dsimp only
    cases run with
    | nil =>
      have hended : countClose "ul".toList l = d + countOpen "ul".toList l ∨ _ := h.ended
      rcases hended with hl | ⟨-, rfl⟩
      · exact if_pos (by omega)
      · split <;> rfl
    | cons m ms =>
      obtain ⟨hl, hrest⟩ := h.tail
      rw [if_neg (by omega), ih (by simp) hrest]

theorem ListRun.splitList_eq {run after : List Text} (h : ListRun run after) :
    splitList 0 (run ++ after) = (run, after) :=
  OpenFrom.splitList_eq (ne_nil_of_head h.head)
    ⟨by simpa only [Nat.zero_add] using h.inner, by simpa only [Nat.zero_add] using h.ended⟩

/-- A line that opens a list opens no table. -/
theorem opensTable_of_opensList {l : Text} (h : opensList l = true) : opensTable l = false := by
  cases ht : opensTable l with
  | false => rfl
  | true =>
    have hu : l[1]?.map Char.toLower = some 'u' := getElem?_of_opensWith h
    have hb : l[1]?.map Char.toLower = some 't' := getElem?_of_opensWith ht
    rw [hu] at hb
    cases hb

theorem ListRun.exists_cons {run after : List Text} (h : ListRun run after) :
    ∃ l ls, run = l :: ls ∧ opensTable l = false ∧ opensList l = true := by
  cases run with
  | nil => cases h.head
  | cons l ls => exact ⟨l, ls, rfl, opensTable_of_opensList h.head, h.head⟩

/-- Skipped lines are prose in front of what the lines after them are. -/
theorem Skipped.ofLines_append {before rest : List Text} (h : Skipped before rest) :
    Parts.ofLines (before ++ rest) =
      { Parts.ofLines rest with prose := before ++ (Parts.ofLines rest).prose } := by
  induction h with
  | nil => rfl
  | line ht hl _ ih => rw [List.cons_append, ofLines_prose ht hl, ih]; rfl
  | @list run ls after hrun hne _ ih =>
    obtain ⟨l, run', rfl, ht, hl⟩ := hrun.exists_cons
    cases hrest : ls ++ after with
    | nil => exact absurd hrest hne
    | cons next rest =>
      have hsplit : splitList 0 (l :: (run' ++ next :: rest)) = (l :: run', next :: rest) := by
        rw [← hrest]
        exact hrun.splitList_eq
      rw [hrest] at ih
      rw [List.append_assoc, hrest, List.cons_append, ofLines_demoted ht hl hsplit, ih]
      simp

/-- After a table, the next line that opens a list starts the list. -/
theorem afterTable_eq (table : List Text) {between list after : List Text}
    (hbetween : ∀ l ∈ between, opensList l = false) (hlist : list ≠ [] → ListRun list after)
    (hafter : list = [] → after = []) :
    Parts.afterTable table (between ++ (list ++ after)) =
      ⟨between ++ after, some table, part? list⟩ := by
  have hpos : ∀ l ∈ between, (!opensList l) = true := fun l hl => by simp [hbetween l hl]
  unfold Parts.afterTable
  rw [List.takeWhile_append_of_pos hpos, List.dropWhile_append_of_pos hpos]
  by_cases hnil : list = []
  · rw [hnil, hafter hnil]
    rfl
  · have hrun := hlist hnil
    have hsplit := hrun.splitList_eq
    obtain ⟨l, ls, rfl, -, hl⟩ := hrun.exists_cons
    rw [List.cons_append, List.takeWhile_cons_of_neg (by simp [hl]),
      List.dropWhile_cons_of_neg (by simp [hl])]
    rw [List.cons_append] at hsplit
    dsimp only
    rw [hsplit, List.append_nil]
    rfl

/-- A division of the lines is the one that is made. -/
theorem Division.ofLines_eq {ls : List Text} (d : Division ls) : Parts.ofLines ls = d.parts := by
  have hruns : Parts.ofLines (d.table ++ (d.between ++ (d.list ++ d.after))) =
      ⟨d.between ++ d.after, part? d.table, part? d.list⟩ := by
    by_cases ht : d.table = []
    · have hafter := d.after_nil (Or.inl ht)
      rw [ht, d.between_nil ht, hafter]
      by_cases hl : d.list = []
      · rw [hl]
        exact ofLines_nil
      · have hrun := d.list_run hl
        rw [hafter] at hrun
        have hsplit := hrun.splitList_eq
        obtain ⟨l, run, hlist, hlt, hll⟩ := hrun.exists_cons
        rw [hlist] at hsplit ⊢
        exact ofLines_list hlt hll hsplit
    · have hrun := d.table_run ht
      have hsplit := splitTable_of_run ht hrun.inner hrun.ended
      have hafter := afterTable_eq d.table d.between_opens d.list_run
        fun hl => d.after_nil (Or.inr hl)
      cases htable : d.table with
      | nil => exact absurd htable ht
      | cons l run =>
        have hl : opensTable l = true := by
          have := hrun.head
          rwa [htable] at this
        rw [htable] at hsplit hafter
        rw [List.cons_append, ofLines_table hl, ← List.cons_append, hsplit, hafter]
        rfl
  have h := d.before_skipped.ofLines_append
  rw [← d.lines_eq, hruns] at h
  exact h

/-! ## The lines of a page -/

/-- A heading with the lines up to the next heading, divided. -/
structure HeadedGroup where
  heading : Text
  body : List Text
  heading_isHeading : isHeading heading = true
  body_plain : ∀ l ∈ body, isHeading l = false
  division : Division body

/-- The lines of the group. -/
def HeadedGroup.lines (g : HeadedGroup) : List Text := g.heading :: g.body

theorem isHeading_head?_groups (gs : List HeadedGroup) :
    ∀ l ∈ (gs.flatMap HeadedGroup.lines).head?, isHeading l = true := by
  intro l hl
  cases gs with
  | nil => cases hl
  | cons g gs =>
    cases hl
    exact g.heading_isHeading

/-- Lines are some without headings and then groups, and the groups whose headings give a name are
the sections. -/
theorem exists_groups {ls : List Text} (hclose : ∀ l ∈ ls, countClose "ul".toList l ≤ 1) :
    ∃ (front : List Text) (gs : List HeadedGroup),
      ls = front ++ gs.flatMap HeadedGroup.lines ∧ (∀ l ∈ front, isHeading l = false) ∧
        (sectionsOfLines ls).map Fragment.ofSection =
          gs.filterMap fun g => (sectionName? g.heading).map g.division.fragment := by
  induction ls with
  | nil => exact ⟨[], [], rfl, by simp, rfl⟩
  | cons l ls ih =>
    obtain ⟨front, gs, hls, hfront, hsections⟩ := ih fun m hm =>
      hclose m (List.mem_cons_of_mem l hm)
    cases hl : isHeading l with
    | false =>
      have hplain : ∀ m ∈ [l], isHeading m = false := by simpa using hl
      refine ⟨l :: front, gs, by rw [hls]; rfl, ?_, ?_⟩
      · exact List.forall_mem_cons.2 ⟨hl, hfront⟩
      · rw [← hsections, ← List.singleton_append, sectionsOfLines_body hplain]
    | true =>
      obtain ⟨d⟩ : Nonempty (Division front) := nonempty_division fun m hm =>
        hclose m (List.mem_cons_of_mem l (hls ▸ List.mem_append_left _ hm))
      refine ⟨[], ⟨l, front, hl, hfront, d⟩ :: gs, by rw [hls]; rfl, by simp, ?_⟩
      have hhead := isHeading_head?_groups gs
      rw [hls, sectionsOfLines_body hfront] at hsections
      rw [hls, sectionsOfLines_group l hfront hhead, List.map_append, hsections]
      cases hname : sectionName? l with
      | none => rw [List.filterMap_cons_none (by simp [hname])]; rfl
      | some name =>
        have hfragment : Fragment.ofSection ⟨name, front⟩ = d.fragment name := by
          simp only [Fragment.ofSection, d.ofLines_eq]
          rfl
        rw [List.filterMap_cons_some (b := d.fragment name) (by simp [hname])]
        show Fragment.ofSection ⟨name, front⟩ :: _ = _
        rw [hfragment]
        rfl

/-- **Main theorem.** The lines of a page are some lines without headings and then groups, each a
heading with the lines up to the next; the fragments are the groups whose headings give a name, in
order and under that name, with their lines divided into prose, table and list. -/
theorem exists_fragments_eq (page : Text) : ∃ (front : List Text) (gs : List HeadedGroup),
    lines page = front ++ gs.flatMap HeadedGroup.lines ∧ (∀ l ∈ front, isHeading l = false) ∧
      fragments page = gs.filterMap fun g => (sectionName? g.heading).map g.division.fragment :=
  exists_groups fun _ => countClose_le_one

/-- A list that more lines follow is prose; one at the end is the section's list. -/
example : fragments "<h4>A</h4><ul>x</ul>y<ul>z</ul>".toList =
    [⟨"A".toList, "<ul>x</ul>\ny".toList, none, some "<ul>z</ul>".toList⟩] := by
  decide +kernel

end DocTypes.Page
