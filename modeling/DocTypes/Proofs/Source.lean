/-
  The cache file of a page is written once. A load that finds the file gives its content and
  changes nothing; one that does not fetches the page, makes the missing directories and writes
  the file, where no file stood (`file_of_load`). The exception is a path that leads out of a
  directory that does not exist (`LeadsBack`): the directory is made, and only then the path means
  a file, which may have been there before (`load_replaces_file`). After a load that gave a page,
  loads of the path give that page from the file as long as nothing is written over it or removed
  (`load_after_load`).
-/
import DocTypes.Proofs.Storage.Tree
import DocTypes.Source

namespace DocTypes

open DocTypes.Tree

namespace Source

/-! ## Loads in a tree -/

/-- The result of a load, and the tree after it. -/
def loadIn (t : Tree) (url path : String) (seconds : Nat) (page : Option String) :
    Except LoadError Source × Tree :=
  let (r, w) := (load url path seconds : StateM World _).run { tree := t, page := page }
  (r, w.tree)

/-- The result of writing a file with the directories above it, and the tree after that. -/
def installIn (t : Tree) (path : Text) (content : ByteArray) : Except Fault Unit × Tree :=
  let (r, w) := (install path content : StateM World _).run { tree := t }
  (r, w.tree)

theorem run_makeDirs (w : World) (path : Text) :
    (Storage.makeDirs path : StateM World _).run w =
      ((w.tree.makeDirs path).1, { w with tree := (w.tree.makeDirs path).2 }) := rfl

theorem run_install (w : World) (path : Text) (content : ByteArray) :
    (install path content : StateM World _).run w =
      ((installIn w.tree path content).1,
        { w with tree := (installIn w.tree path content).2 }) := by
  unfold installIn install
  cases Path.parent? path with
  | none => rfl
  | some parent =>
    simp only [StateT.run_bind, run_makeDirs]
    rcases w.tree.makeDirs parent with ⟨_ | _, u⟩ <;> rfl

theorem installIn_eq (t : Tree) (path : Text) (content : ByteArray) : installIn t path content =
    match Path.parent? path with
    | none => t.write path content
    | some parent =>
      match t.makeDirs parent with
      | (.ok (), u) => u.write path content
      | (.error f, u) => (.error f, u) := by
  unfold installIn install
  cases Path.parent? path with
  | none => rfl
  | some parent =>
    simp only [StateT.run_bind, run_makeDirs]
    rcases t.makeDirs parent with ⟨_ | _, u⟩ <;> rfl

/-- A load gives the content of the file, or fetches the page and writes the file. The page that a
fetch receives stays. -/
theorem run_load_eq (t : Tree) (url path : String) (seconds : Nat) (page : Option String) :
    (load url path seconds : StateM World _).run ⟨t, page⟩ =
      pure ((fun r : Except LoadError Source × Tree => (r.1, ⟨r.2, page⟩))
        (if t.isFile path.toList then
          (match t.read path.toList with
            | .error f => .error (.storage f)
            | .ok bytes =>
              match String.fromUTF8? bytes with
              | some page => .ok ⟨page, .cache, path⟩
              | none => .error (.storage .notUtf8), t)
        else
          match page with
          | none => (.error (.fetch url), t)
          | some page =>
            match installIn t path.toList page.toUTF8 with
            | (.ok (), u) => (.ok ⟨page, .network, path⟩, u)
            | (.error f, u) => (.error (.storage f), u))) := by
  have hfile : (Storage.isFile path.toList : StateM World _).run ⟨t, page⟩ =
    pure (t.isFile path.toList, ⟨t, page⟩) := rfl
  have hread : (Storage.read path.toList : StateM World _).run ⟨t, page⟩ =
    pure (t.read path.toList, ⟨t, page⟩) := rfl
  have hfetch : (Storage.fetch url seconds : StateM World _).run ⟨t, page⟩ =
    pure (page, ⟨t, page⟩) := rfl
  unfold load
  rw [StateT.run_bind, hfile, pure_bind]
  cases t.isFile path.toList with
  | true =>
    simp only [↓reduceIte, StateT.run_bind, hread, pure_bind]
    cases t.read path.toList with
    | error f => rfl
    | ok bytes =>
      dsimp only
      cases String.fromUTF8? bytes <;> rfl
  | false =>
    simp only [Bool.false_eq_true, ↓reduceIte, StateT.run_bind, hfetch, pure_bind]
    cases page with
    | none => rfl
    | some page =>
      simp only [StateT.run_bind, run_install]
      rcases installIn t path.toList page.toUTF8 with ⟨_ | _, u⟩ <;> rfl

@[inherit_doc run_load_eq]
theorem loadIn_eq (t : Tree) (url path : String) (seconds : Nat) (page : Option String) :
    loadIn t url path seconds page =
      if t.isFile path.toList then
        (match t.read path.toList with
          | .error f => .error (.storage f)
          | .ok bytes =>
            match String.fromUTF8? bytes with
            | some page => .ok ⟨page, .cache, path⟩
            | none => .error (.storage .notUtf8), t)
      else
        match page with
        | none => (.error (.fetch url), t)
        | some page =>
          match installIn t path.toList page.toUTF8 with
          | (.ok (), u) => (.ok ⟨page, .network, path⟩, u)
          | (.error f, u) => (.error (.storage f), u) := by
  unfold loadIn
  rw [run_load_eq]
  rfl

theorem run_load (w : World) (url path : String) (seconds : Nat) :
    (load url path seconds : StateM World _).run w =
      pure ((loadIn w.tree url path seconds w.page).1,
        { w with tree := (loadIn w.tree url path seconds w.page).2 }) := by
  obtain ⟨t, page⟩ := w
  rw [run_load_eq, loadIn_eq]

/-- Writing a file makes the missing directories, and then fails or puts the file where the path
leads. -/
theorem installIn_cases (t : Tree) (path : Text) (content : ByteArray) :
    ∃ v, AddsDirectories t v ∧ (t.WellFormed → v.WellFormed) ∧
      ((∃ f, installIn t path content = (.error f, v)) ∨
        ∃ p, v.writePlace path = .ok p ∧
          installIn t path content = (.ok (), v.put p (.file content))) := by
  rw [installIn_eq]
  cases Path.parent? path with
  | none =>
    refine ⟨t, .refl t, id, ?_⟩
    exact write_cases t path content
  | some parent =>
    refine ⟨(t.makeDirs parent).2, addsDirectories_makeDirs t parent,
      fun ht => ht.makeDirs parent, ?_⟩
    rcases hmake : t.makeDirs parent with ⟨f | _, v⟩
    · exact Or.inl ⟨f, by simp only [hmake]⟩
    · simpa only [hmake] using write_cases v path content

/-- With the missing directories made, a path that can be written leads to the file that is put
there, and no other file differs. -/
theorem installed_put {t v : Tree} {path : Text} {p : Place} (hv : AddsDirectories t v)
    (hplace : v.writePlace path = .ok p) (content : ByteArray) :
    (v.put p (.file content)).resolve path = .ok p ∧
      (v.put p (.file content)).get? p = some (.file content) ∧
      ∀ q ≠ p, ∀ c, (v.put p (.file content)).get? q = some (.file c) ↔
        t.get? q = some (.file c) := by
  obtain ⟨-, -, d, name, rfl, -⟩ := writePlace_eq_ok hplace
  refine ⟨resolve_put hplace _, get?_put_self (by simp), fun q hq c => ?_⟩
  rw [get?_put_of_ne hq]
  exact hv.file_iff

/-- What a load may come to: the page of the file, a file that holds none, a failed fetch, a
fetched page that cannot be written, or one that was. -/
inductive Outcome (t : Tree) (url path : String) :
    Option String → Except LoadError Source × Tree → Prop where
  | hit {page : Option String} {document : String} :
      t.Holds path.toList document.toUTF8 →
        Outcome t url path page (.ok ⟨document, .cache, path⟩, t)
  | unreadable {page : Option String} (f : Fault) :
      Outcome t url path page (.error (.storage f), t)
  | unfetched : Outcome t url path none (.error (.fetch url), t)
  | unwritten {document : String} {v : Tree} (f : Fault) : AddsDirectories t v →
      (t.WellFormed → v.WellFormed) → Outcome t url path (some document) (.error (.storage f), v)
  | written {document : String} {v : Tree} {p : Place} : t.isFile path.toList = false →
      AddsDirectories t v → (t.WellFormed → v.WellFormed) → v.writePlace path.toList = .ok p →
      Outcome t url path (some document)
        (.ok ⟨document, .network, path⟩, v.put p (.file document.toUTF8))

theorem fromUTF8?_toUTF8 (s : String) : String.fromUTF8? s.toUTF8 = some s := by
  have hvalid : s.toUTF8.IsValidUTF8 := s.isValidUTF8
  rw [String.fromUTF8?, dif_pos hvalid]
  rfl

theorem eq_toUTF8_of_fromUTF8? {bytes : ByteArray} {s : String}
    (h : String.fromUTF8? bytes = some s) : bytes = s.toUTF8 := by
  unfold String.fromUTF8? at h
  split at h
  · cases h
    rfl
  · cases h

theorem outcome_loadIn (t : Tree) (url path : String) (seconds : Nat) (page : Option String) :
    Outcome t url path page (loadIn t url path seconds page) := by
  rw [loadIn_eq]
  split
  · cases hread : t.read path.toList with
    | error f => exact .unreadable f
    | ok bytes =>
      dsimp only
      cases hpage : String.fromUTF8? bytes with
      | none => exact .unreadable .notUtf8
      | some document =>
        rw [eq_toUTF8_of_fromUTF8? hpage] at hread
        exact .hit (read_eq_ok_iff.1 hread)
  · next hfile =>
    cases page with
    | none => exact .unfetched
    | some document =>
      obtain ⟨v, hv, hwell, ⟨f, h⟩ | ⟨p, hplace, h⟩⟩ :=
        installIn_cases t path.toList document.toUTF8
      · simp only [h]
        exact .unwritten f hv hwell
      · simp only [h]
        exact .written (Bool.eq_false_iff.2 hfile) hv hwell hplace

/-- What holds of every outcome holds of a load. -/
@[elab_as_elim]
theorem loadIn_induction {t : Tree} {url path : String} {seconds : Nat} {page : Option String}
    {motive : Except LoadError Source × Tree → Prop}
    (h : ∀ r, Outcome t url path page r → motive r) : motive (loadIn t url path seconds page) :=
  h _ (outcome_loadIn t url path seconds page)

/-- From a file that holds a page, that page is loaded, and nothing changes. -/
theorem loadIn_of_holds {t : Tree} {path document : String}
    (h : t.Holds path.toList document.toUTF8) (url : String) (seconds : Nat)
    (page : Option String) :
    loadIn t url path seconds page = (.ok ⟨document, .cache, path⟩, t) := by
  rw [loadIn_eq, if_pos (isFile_iff.2 ⟨_, h⟩), read_eq_ok_iff.2 h]
  simp only [fromUTF8?_toUTF8]

/-! ## What a load keeps -/

/-- The path leads through a place where nothing stands, and back from there. -/
def LeadsBack (t : Tree) (path : Text) : Prop :=
  ∃ front back p, Path.names path = front ++ back ∧ t.walk (t.start path) front = .ok p ∧
    t.get? p = none ∧ ['.', '.'] ∈ back

variable {t : Tree} {url path : String} {seconds : Nat} {page : Option String}

/-- With the missing directories made, a path that does not lead back comes to something that
stood there before only where it came to it without them. -/
theorem walk_or_leadsBack (ht : t.WellFormed) {v : Tree} (hv : Grows t v) {path : Text}
    {p : Place} (hwalk : v.walk (v.start path) (Path.names path) = .ok p)
    (hp : t.get? p ≠ none) :
    t.walk (t.start path) (Path.names path) = .ok p ∨ LeadsBack t path := by
  have hstart : v.start path = t.start path := by rw [start, start, hv.working]
  rw [hstart] at hwalk
  rcases exists_missing_of_walk hv hwalk with hsame | ⟨front, back, m, hnames, hfront, hm, hback⟩
  · exact Or.inl hsame
  · by_cases hup : ['.', '.'] ∈ back
    · exact Or.inr ⟨front, back, m, hnames, hfront, hm, hup⟩
    · exact absurd hm (ht.occupied_of_prefix hp (prefix_of_walk hup hback))

/-- With the missing directories made, a path that meant no file leads to a place where nothing
stood before, unless it leads back. -/
theorem missing_or_leadsBack (ht : t.WellFormed) {v : Tree} {path : Text} {p : Place}
    (hmiss : t.isFile path = false) (hv : AddsDirectories t v)
    (hplace : v.writePlace path = .ok p) : t.get? p = none ∨ LeadsBack t path := by
  cases hp : t.get? p with
  | none => exact Or.inl rfl
  | some e =>
    obtain ⟨hwalk, hfree, -⟩ := writePlace_eq_ok hplace
    rcases walk_or_leadsBack ht hv.toGrows hwalk (by simp [hp]) with hsame | hback
    · cases e with
      | file c =>
        have hfile : t.isFile path = true :=
          isFile_iff.2 ⟨c, p, (resolve_of_writePlace hplace t).trans hsame, hp⟩
        rw [hmiss] at hfile
        cases hfile
      | directory => exact absurd (hv.get? hp) hfree
    · exact Or.inr hback

/-- A load keeps every file, unless it fetches its page, and its path leads back and then to that
file. -/
theorem file_of_load (ht : t.WellFormed) {p : Place} {c : ByteArray}
    (hp : t.get? p = some (.file c)) :
    (loadIn t url path seconds page).2.get? p = some (.file c) ∨
      LeadsBack t path.toList ∧ (loadIn t url path seconds page).2.resolve path.toList = .ok p ∧
        ∃ s, (loadIn t url path seconds page).1 = .ok s ∧ s.origin = .network := by
  refine loadIn_induction fun r houtcome => ?_
  cases houtcome with
  | hit | unreadable | unfetched => exact Or.inl hp
  | unwritten f hv hwell => exact Or.inl (hv.get? hp)
  | @written document v q hmiss hv hwell hplace =>
    by_cases hpq : p = q
    · subst hpq
      have hback := (missing_or_leadsBack ht hmiss hv hplace).resolve_left (by simp [hp])
      exact Or.inr ⟨hback, resolve_put hplace _, _, rfl, rfl⟩
    · left
      rw [get?_put_of_ne hpq]
      exact hv.get? hp

/-- The path named no file in the first tree; in the second it leads to the place, where a file
holds the page that was fetched. -/
structure Filled (t u : Tree) (path : String) (page : Option String) (p : Place) : Prop where
  missed : t.isFile path.toList = false
  place : u.resolve path.toList = .ok p
  content : ∃ document, page = some document ∧ u.get? p = some (.file document.toUTF8)
  before : t.get? p = none ∨ LeadsBack t path.toList

theorem Filled.trans (h : Filled t u path page p) (h' : AddsDirectories u v) :
    Filled t v path page p where
  missed := h.missed
  place := h'.resolve h.place
  content := by
    obtain ⟨document, hpage, hp⟩ := h.content
    exact ⟨document, hpage, h'.get? hp⟩
  before := h.before

/-- A load changes no place but that of the file that it fills. -/
theorem change_of_load (ht : t.WellFormed) (p : Place) :
    KeptAt t (loadIn t url path seconds page).2 p ∨
      Filled t (loadIn t url path seconds page).2 path page p := by
  refine loadIn_induction fun r houtcome => ?_
  cases houtcome with
  | hit | unreadable | unfetched => exact Or.inl (Or.inl rfl)
  | unwritten f hv hwell => exact Or.inl (keptAt_of_addsDirectories hv p)
  | @written document v q hmiss hv hwell hplace =>
    by_cases hpq : p = q
    · subst hpq
      have hbefore := missing_or_leadsBack ht hmiss hv hplace
      obtain ⟨-, -, d, name, rfl, -⟩ := writePlace_eq_ok hplace
      exact Or.inr
        ⟨hmiss, resolve_put hplace _, ⟨document, rfl, get?_put_self (by simp)⟩, hbefore⟩
    · refine Or.inl ?_
      rw [KeptAt, get?_put_of_ne hpq]
      exact keptAt_of_addsDirectories hv p

theorem directory_of_load {p : Place} (hp : t.get? p = some .directory) :
    (loadIn t url path seconds page).2.get? p = some .directory := by
  refine loadIn_induction fun r houtcome => ?_
  cases houtcome with
  | hit | unreadable | unfetched => exact hp
  | unwritten f hv hwell => exact hv.get? hp
  | written hmiss hv hwell hplace =>
    exact directory_put (writePlace_eq_ok hplace).2.1 (hv.get? hp) _

theorem working_of_load : (loadIn t url path seconds page).2.working = t.working := by
  refine loadIn_induction fun r houtcome => ?_
  cases houtcome with
  | hit | unreadable | unfetched => rfl
  | unwritten f hv hwell => exact hv.working
  | written hmiss hv hwell hplace => exact hv.working

theorem wellFormed_of_load (ht : t.WellFormed) :
    (loadIn t url path seconds page).2.WellFormed := by
  refine loadIn_induction fun r houtcome => ?_
  cases houtcome with
  | hit | unreadable | unfetched => exact ht
  | unwritten f hv hwell => exact hwell ht
  | written hmiss hv hwell hplace => exact (hwell ht).put_writePlace hplace _

/-- A load of a path that does not lead back keeps whatever stands in the tree. -/
theorem grows_of_load (ht : t.WellFormed) (hpath : ¬ LeadsBack t path.toList) :
    Grows t (loadIn t url path seconds page).2 where
  working := working_of_load
  get? {p e} hp := by
    cases e with
    | file c => exact (file_of_load ht hp).resolve_right fun h => hpath h.1
    | directory => exact directory_of_load hp

/-- A page that was fetched is what the file of the path holds, and no other file differs. -/
theorem network_of_load {s : Source} (h : (loadIn t url path seconds page).1 = .ok s)
    (horigin : s.origin = .network) :
    ∃ p, (loadIn t url path seconds page).2.resolve path.toList = .ok p ∧
      (loadIn t url path seconds page).2.get? p = some (.file s.page.toUTF8) ∧
      ∀ q ≠ p, ∀ c, (loadIn t url path seconds page).2.get? q = some (.file c) ↔
        t.get? q = some (.file c) := by
  revert h
  refine loadIn_induction fun r houtcome h => ?_
  cases houtcome with
  | hit =>
    cases h
    cases horigin
  | unreadable | unfetched | unwritten => cases h
  | @written document v p hmiss hv hwell hplace =>
    cases h
    exact ⟨p, installed_put hv hplace _⟩

/-- The page that a load gave is what the file of the path holds after it. -/
theorem holds_of_load {s : Source} (h : (loadIn t url path seconds page).1 = .ok s) :
    (loadIn t url path seconds page).2.Holds path.toList s.page.toUTF8 := by
  revert h
  refine loadIn_induction fun r houtcome h => ?_
  cases houtcome with
  | hit hholds =>
    cases h
    exact hholds
  | unreadable | unfetched | unwritten => cases h
  | written hmiss hv hwell hplace =>
    cases h
    exact holds_put hplace _

theorem eq_of_fetch_failed {url' : String}
    (h : (loadIn t url path seconds page).1 = .error (.fetch url')) :
    (loadIn t url path seconds page).2 = t := by
  revert h
  refine loadIn_induction fun r houtcome h => ?_
  cases houtcome with
  | unfetched => rfl
  | hit | unreadable | unwritten | written => cases h

/-! ## Sequences of steps -/

/-- What happens to the files. Each load has the page that it would receive. -/
inductive Step where
  | write (path : Text) (content : ByteArray)
  | makeDirs (path : Text)
  | remove (path : Text)
  | read (path : Text)
  | load (url path : String) (seconds : Nat) (page : Option String)

/-- The tree after a step. -/
def Step.after (t : Tree) : Step → Tree
  | write path content => (installIn t path content).2
  | makeDirs path => (t.makeDirs path).2
  | remove path => (t.remove path).2
  | read _ => t
  | load url path seconds page => (loadIn t url path seconds page).2

/-- The tree after steps. -/
def after (t : Tree) (steps : List Step) : Tree := steps.foldl Step.after t

/-- The step neither writes nor removes a file, and is no load of a path that leads back. -/
def Step.IsQuiet (t : Tree) : Step → Prop
  | write .. | remove .. => False
  | makeDirs .. | read .. => True
  | load _ path .. => ¬ LeadsBack t path.toList

/-- Each step is quiet in the tree it comes to. -/
def Quiet (t : Tree) : List Step → Prop
  | [] => True
  | step :: steps => step.IsQuiet t ∧ Quiet (step.after t) steps

theorem wellFormed_step (ht : t.WellFormed) (step : Step) : (step.after t).WellFormed := by
  cases step with
  | write path content =>
    obtain ⟨v, -, hwell, ⟨f, h⟩ | ⟨p, hplace, h⟩⟩ := installIn_cases t path content
    · rw [Step.after, h]
      exact hwell ht
    · rw [Step.after, h]
      exact (hwell ht).put_writePlace hplace _
  | makeDirs path => exact ht.makeDirs path
  | remove path => exact ht.remove path
  | read path => exact ht
  | load url path seconds page => exact wellFormed_of_load ht

theorem wellFormed_after (ht : t.WellFormed) (steps : List Step) : (after t steps).WellFormed := by
  induction steps generalizing t with
  | nil => exact ht
  | cons step steps ih => exact ih (wellFormed_step ht step)

theorem grows_of_quiet (ht : t.WellFormed) {step : Step} (h : step.IsQuiet t) :
    Grows t (step.after t) := by
  cases step with
  | write | remove => exact h.elim
  | makeDirs path => exact (addsDirectories_makeDirs t path).toGrows
  | read path => exact .refl t
  | load url path seconds page => exact grows_of_load ht h

/-- Quiet steps keep the file that a path means. -/
theorem holds_after_quiet (ht : t.WellFormed) {path : Text} {content : ByteArray}
    (hpath : t.Holds path content) {steps : List Step} (hquiet : Quiet t steps) :
    (after t steps).Holds path content := by
  induction steps generalizing t with
  | nil => exact hpath
  | cons step steps ih =>
    obtain ⟨hstep, hsteps⟩ := hquiet
    exact ih (wellFormed_step ht step) ((grows_of_quiet ht hstep).holds hpath) hsteps

end Source

open Source

/-- **Main theorem.** In every tree that steps lead to, a load keeps all files, but for the file
that its path means then where the page is fetched and the path leads back; a failed fetch leaves
the tree; a fetched page is what the file of the path holds, and no other file differs; and after a
load that gave a page and quiet steps, a load of the path gives that page from its file, whatever
would be fetched. -/
theorem source_written_once {t : Tree} (ht : t.WellFormed) (steps : List Source.Step)
    (url path : String) (seconds : Nat) (page : Option String) :
    let u := after t steps
    let result := (loadIn u url path seconds page).1
    let v := (loadIn u url path seconds page).2
    (∀ p c, u.get? p = some (.file c) → v.get? p = some (.file c) ∨
      LeadsBack u path.toList ∧ v.resolve path.toList = .ok p ∧
        ∃ s, result = .ok s ∧ s.origin = .network) ∧
    (∀ url', result = .error (.fetch url') → v = u) ∧
    (∀ s, result = .ok s → s.origin = .network → ∃ p, v.resolve path.toList = .ok p ∧
      v.get? p = some (.file s.page.toUTF8) ∧
      ∀ q ≠ p, ∀ c, v.get? q = some (.file c) ↔ u.get? q = some (.file c)) ∧
    ∀ s, result = .ok s → ∀ later, Quiet v later → ∀ url' seconds' page',
      (loadIn (after v later) url' path seconds' page').1 = .ok ⟨s.page, .cache, path⟩ := by
  intro u result v
  have hu : u.WellFormed := wellFormed_after ht steps
  have hv : v.WellFormed := wellFormed_of_load hu
  refine ⟨fun p c hp => file_of_load hu hp, fun url' h => eq_of_fetch_failed h,
    fun s h horigin => network_of_load h horigin, ?_⟩
  intro s h later hlater url' seconds' page'
  have hholds := holds_after_quiet hv (holds_of_load h) hlater
  rw [loadIn_of_holds hholds]

/-- A page is fetched into a directory that is missing, and then found there. -/
theorem source_written_once_fetched :
    let page := "<h4>Pet</h4>"
    let u := after {} [.write "notes".toList "x".toUTF8, .remove "notes".toList]
    let v := (loadIn u "http://api" "cache/api.html" 30 (some page)).2
    ({} : Tree).WellFormed ∧
      (loadIn u "http://api" "cache/api.html" 30 (some page)).1 =
        .ok ⟨page, .network, "cache/api.html"⟩ ∧
      (loadIn (after v [.read "cache".toList, .makeDirs "cache/old".toList]) "http://api"
        "cache/api.html" 30 (some "other")).1 = .ok ⟨page, .cache, "cache/api.html"⟩ := by
  intro page u v
  have hload : (loadIn u "http://api" "cache/api.html" 30 (some page)).1 =
      .ok ⟨page, .network, "cache/api.html"⟩ := by decide +kernel
  obtain ⟨-, -, -, hlater⟩ := source_written_once wellFormed_empty
    [.write "notes".toList "x".toUTF8, .remove "notes".toList] "http://api" "cache/api.html" 30
    (some page)
  have hquiet : Quiet v [.read "cache".toList, .makeDirs "cache/old".toList] :=
    ⟨trivial, trivial, trivial⟩
  exact ⟨wellFormed_empty, hload, hlater _ hload _ hquiet "http://api" 30 (some "other")⟩

/-- The path leads through a directory that is missing and back to a file, which is replaced. -/
theorem load_replaces_file :
    let t := ({} : Tree).put ["a".toList] (.file "old".toUTF8)
    t.WellFormed ∧ t.read "a".toList = .ok "old".toUTF8 ∧
      (loadIn t "http://api" "x/../a" 30 (some "new")).2.read "a".toList = .ok "new".toUTF8 := by
  intro t
  have hfree : ({} : Tree).get? ([] ++ ["a".toList]) ≠ some .directory := by simp [get?]
  exact ⟨wellFormed_empty.put rfl hfree _, by decide +kernel, by decide +kernel⟩

end DocTypes
