/-
  What the operations on a tree keep. A walk reads only directories, so it leads to the same place
  in every tree that has them too (`walk_of_directories`). Making directories puts them where
  nothing stood (`addsDirectories_makeDirs`); a write puts one file where no directory stood
  (`write_cases`). Every tree that arises has a directory above whatever stands in it
  (`WellFormed`).
-/
import DocTypes.Storage.Tree
import Mathlib.Data.List.Infix
import Mathlib.Tactic.SplitIfs

namespace DocTypes.Tree

variable {t u v : Tree} {p q here : Place} {names : List Text} {path : Text}

/-- Every place above an occupied one is a directory, and so is the working directory. -/
structure WellFormed (t : Tree) : Prop where
  above : ∀ {p q : Place}, t.get? q ≠ none → p <+: q → p ≠ q → t.get? p = some .directory
  working : t.get? t.working = some .directory

/-- Whatever stands in the first tree stands in the second. -/
structure Grows (t u : Tree) : Prop where
  working : u.working = t.working
  get? : ∀ {p : Place} {e : Entry}, t.get? p = some e → u.get? p = some e

/-- The second tree is the first with further directories. -/
structure AddsDirectories (t u : Tree) : Prop extends Grows t u where
  new : ∀ {p : Place} {e : Entry}, u.get? p = some e → t.get? p = some e ∨ e = .directory

theorem Grows.refl (t : Tree) : Grows t t := ⟨rfl, id⟩

theorem AddsDirectories.refl (t : Tree) : AddsDirectories t t := ⟨.refl t, Or.inl⟩

theorem AddsDirectories.trans (h : AddsDirectories t u) (h' : AddsDirectories u v) :
    AddsDirectories t v where
  working := h'.working.trans h.working
  get? hp := h'.get? (h.get? hp)
  new hp := (h'.new hp).elim h.new Or.inr

/-- The files are those of the first tree. -/
theorem AddsDirectories.file_iff (h : AddsDirectories t u) {c : ByteArray} :
    u.get? p = some (.file c) ↔ t.get? p = some (.file c) :=
  ⟨fun hp => (h.new hp).resolve_right Entry.noConfusion, h.get?⟩

theorem get?_erase_self (hp : p ≠ []) : (t.erase p).get? p = none := by
  rw [get?, if_neg hp, erase]
  refine List.lookup_eq_none_iff.2 fun x hx => ?_
  have hne := (List.mem_filter.1 hx).2
  rwa [bne_comm] at hne

/-- Directories stay where something is put in place of none of them. -/
theorem directory_put (hfree : t.get? p ≠ some .directory) (hq : t.get? q = some .directory)
    (e : Entry) : (t.put p e).get? q = some .directory := by
  have hne : q ≠ p := by
    rintro rfl
    exact hfree hq
  rw [get?_put_of_ne hne, hq]

/-! ## Walks -/

/-- A step starts at a directory. -/
theorem step_eq_ok {name : Text} (h : t.step here name = .ok p) :
    t.get? here = some .directory ∧
      (name = ['.'] ∧ p = here ∨ name = ['.', '.'] ∧ p = here.dropLast ∨ p = here ++ [name]) := by
  unfold step at h
  split at h
  · cases h
  · cases h
  · next hdirectory =>
    refine ⟨hdirectory, ?_⟩
    split_ifs at h with hdot hup
    · exact Or.inl ⟨eq_of_beq hdot, (Except.ok.inj h).symm⟩
    · exact Or.inr (Or.inl ⟨eq_of_beq hup, (Except.ok.inj h).symm⟩)
    · exact Or.inr (Or.inr (Except.ok.inj h).symm)

/-- A step depends on what stands at its start alone. -/
theorem step_congr (h : t.get? here = u.get? here) (name : Text) :
    t.step here name = u.step here name := by
  rw [step, h, step]

theorem walk_cons (t : Tree) (here : Place) (name : Text) (names : List Text) :
    t.walk here (name :: names) = (t.step here name).bind fun p => t.walk p names :=
  List.foldlM_cons ..

theorem walk_append (t : Tree) (here : Place) (front back : List Text) :
    t.walk here (front ++ back) = (t.walk here front).bind fun p => t.walk p back :=
  List.foldlM_append ..

theorem exists_of_bind_eq_ok {α β : Type} {x : Except Fault α} {f : α → Except Fault β} {b : β}
    (h : x.bind f = .ok b) : ∃ a, x = .ok a ∧ f a = .ok b := by
  cases x with
  | error e => cases h
  | ok a => exact ⟨a, rfl, h⟩

theorem walk_append_eq_ok {front back : List Text} (h : t.walk here (front ++ back) = .ok q) :
    ∃ p, t.walk here front = .ok p ∧ t.walk p back = .ok q := by
  rw [walk_append] at h
  exact exists_of_bind_eq_ok h

theorem walk_cons_eq_ok {name : Text} (h : t.walk here (name :: names) = .ok q) :
    ∃ p, t.step here name = .ok p ∧ t.walk p names = .ok q := by
  rw [walk_cons] at h
  exact exists_of_bind_eq_ok h

/-- A walk leads to the same place in every tree that has the directories. -/
theorem walk_of_directories
    (h : ∀ p, t.get? p = some .directory → u.get? p = some .directory)
    (hwalk : t.walk here names = .ok q) : u.walk here names = .ok q := by
  induction names generalizing here with
  | nil => exact hwalk
  | cons name names ih =>
    obtain ⟨p, hstep, hrest⟩ := walk_cons_eq_ok hwalk
    have hhere := (step_eq_ok hstep).1
    rw [walk_cons, ← step_congr (hhere.trans (h here hhere).symm), hstep]
    exact ih hrest

/-- Where no name leads back, a walk stays below its start. -/
theorem prefix_of_walk (hback : ['.', '.'] ∉ names) (h : t.walk here names = .ok q) :
    here <+: q := by
  induction names generalizing here with
  | nil =>
    cases h
    exact List.prefix_refl _
  | cons name names ih =>
    obtain ⟨p, hstep, hrest⟩ := walk_cons_eq_ok h
    have hp : p <+: q := ih (fun hmem => hback (List.mem_cons_of_mem name hmem)) hrest
    rcases (step_eq_ok hstep).2 with ⟨-, rfl⟩ | ⟨rfl, -⟩ | rfl
    · exact hp
    · exact absurd (List.mem_cons_self ..) hback
    · exact (List.prefix_append here [name]).trans hp

/-- A walk that a larger tree allows is one of the tree too, or comes to a place where nothing
stands in it, with names left to go. -/
theorem exists_missing_of_walk (h : Grows t u) (hwalk : u.walk here names = .ok q) :
    t.walk here names = .ok q ∨ ∃ front back p, names = front ++ back ∧
      t.walk here front = .ok p ∧ t.get? p = none ∧ u.walk p back = .ok q := by
  induction names generalizing here with
  | nil => exact Or.inl hwalk
  | cons name names ih =>
    obtain ⟨p, hstep, hrest⟩ := walk_cons_eq_ok hwalk
    cases hhere : t.get? here with
    | none => exact Or.inr ⟨[], name :: names, here, rfl, rfl, hhere, hwalk⟩
    | some e =>
      have hstep' : t.step here name = .ok p := by
        rw [step_congr (hhere.trans (h.get? hhere).symm), hstep]
      rcases ih hrest with hsame | ⟨front, back, m, rfl, hfront, hm, hback⟩
      · exact Or.inl (by rw [walk_cons, hstep']; exact hsame)
      · refine Or.inr ⟨name :: front, back, m, rfl, ?_, hm, hback⟩
        rw [walk_cons, hstep']
        exact hfront

/-! ## Well-formed trees -/

theorem WellFormed.start (ht : t.WellFormed) (path : Text) :
    t.get? (t.start path) = some .directory := by
  unfold Tree.start
  split
  · rfl
  · exact ht.working

/-- Above whatever stands in the tree is a directory, up to the thing itself. -/
theorem WellFormed.occupied_of_prefix (ht : t.WellFormed) (hq : t.get? q ≠ none) (h : p <+: q) :
    t.get? p ≠ none := by
  by_cases hpq : p = q
  · rwa [hpq]
  · simp [ht.above hq h hpq]

/-- A walk comes to a missing place from the directory above it. -/
theorem WellFormed.exists_above (ht : t.WellFormed) (hhere : t.get? here = some .directory)
    (hwalk : t.walk here names = .ok q) (hq : t.get? q = none) :
    ∃ d name, q = d ++ [name] ∧ t.get? d = some .directory := by
  rcases List.eq_nil_or_concat names with rfl | ⟨front, name, rfl⟩
  · cases hwalk
    rw [hq] at hhere
    cases hhere
  · rw [List.concat_eq_append] at hwalk
    obtain ⟨d, -, hlast⟩ := walk_append_eq_ok hwalk
    obtain ⟨p, hstep, hp⟩ := walk_cons_eq_ok hlast
    cases hp
    obtain ⟨hd, hplace⟩ := step_eq_ok hstep
    have hoccupied : ∀ r, r <+: d → t.get? r ≠ none :=
      fun r hr => ht.occupied_of_prefix (by simp [hd]) hr
    rcases hplace with ⟨-, rfl⟩ | ⟨-, rfl⟩ | rfl
    · exact absurd hq (hoccupied q (List.prefix_refl q))
    · exact absurd hq (hoccupied _ (List.dropLast_prefix d))
    · exact ⟨d, name, rfl, hd⟩

/-- The tree with nothing below its root. -/
theorem wellFormed_empty : ({} : Tree).WellFormed where
  above {p q} hq hprefix hne := by
    have hroot : q = [] := by
      by_contra hq'
      simp [get?, hq'] at hq
    subst hroot
    exact absurd (List.prefix_nil.1 hprefix) hne
  working := rfl

/-- Below a directory a file or directory may be put wherever no directory stands. -/
theorem WellFormed.put (ht : t.WellFormed) {d : Place} {name : Text}
    (hd : t.get? d = some .directory) (hfree : t.get? (d ++ [name]) ≠ some .directory)
    (e : Entry) : (t.put (d ++ [name]) e).WellFormed := by
  refine ⟨fun {p q} hq hprefix hne => directory_put hfree ?_ e, directory_put hfree ht.working e⟩
  by_cases hput : q = d ++ [name]
  · subst hput
    have hbelow : p <+: d := by
      rcases List.prefix_concat_iff.1 hprefix with heq | h
      · exact absurd heq hne
      · exact h
    by_cases hpd : p = d
    · rwa [hpd]
    · exact ht.above (by simp [hd]) hbelow hpd
  · rw [get?_put_of_ne hput] at hq
    exact ht.above hq hprefix hne

theorem WellFormed.erase (ht : t.WellFormed) {c : ByteArray} (hp : t.get? p = some (.file c)) :
    (t.erase p).WellFormed := by
  have hkeep : ∀ {q}, t.get? q = some .directory → (t.erase p).get? q = some .directory := by
    intro q hq
    have hne : q ≠ p := by
      rintro rfl
      rw [hp] at hq
      cases hq
    rw [get?_erase_of_ne hne, hq]
  refine ⟨fun {r q} hq hprefix hne => hkeep ?_, hkeep ht.working⟩
  by_cases hqp : q = p
  · have hroot : p ≠ [] := by rintro rfl; cases hp
    rw [hqp] at hq
    exact absurd (get?_erase_self hroot) hq
  · rw [get?_erase_of_ne hqp] at hq
    exact ht.above hq hprefix hne

/-! ## Making directories -/

theorem makeDir_eq (t : Tree) (path : Text) : t.makeDir path =
    if path.isEmpty then .error .notFound
    else if Path.isTooLong path then .error .nameTooLong
    else (t.walk (t.start path) (Path.names path)).bind fun p =>
      match t.get? p with
      | some _ => .error .exists_
      | none => .ok (t.put p .directory) := by
  unfold makeDir
  cases path.isEmpty <;> cases Path.isTooLong path <;> rfl

theorem makeDir_eq_ok (h : t.makeDir path = .ok u) :
    ∃ p, t.walk (t.start path) (Path.names path) = .ok p ∧ t.get? p = none ∧
      u = t.put p .directory := by
  rw [makeDir_eq] at h
  split_ifs at h
  obtain ⟨p, hwalk, hput⟩ := exists_of_bind_eq_ok h
  split at hput
  · cases hput
  · next hp => exact ⟨p, hwalk, hp, (Except.ok.inj hput).symm⟩

/-- What the making of each directory keeps, the making of several keeps. -/
theorem makeDirs_induction {P : Tree → Prop}
    (hmake : ∀ {t u path}, P t → t.makeDir path = .ok u → P u) (h : P t) (path : Text) :
    P (t.makeDirs path).2 := by
  fun_induction makeDirs t path with
  | case1 => exact h
  | case2 => exact h
  | case3 path _ again _ _ _ v hv ih =>
    rw [hv] at ih
    simp only [again]
    split
    · next hu => exact hmake ih hu
    · exact ih
  | case4 path _ _ _ _ f v hv ih =>
    rw [hv] at ih
    exact ih
  | case5 path _ again _ =>
    simp only [again]
    split
    · next hu => exact hmake h hu
    · exact h

/-- At the place stands what stood there, or a new directory. -/
def KeptAt (t u : Tree) (p : Place) : Prop :=
  u.get? p = t.get? p ∨ t.get? p = none ∧ u.get? p = some .directory

theorem keptAt_of_addsDirectories (h : AddsDirectories t u) (p : Place) : KeptAt t u p := by
  cases hp : t.get? p with
  | some e => exact Or.inl ((h.get? hp).trans hp.symm)
  | none =>
    cases hu : u.get? p with
    | none => exact Or.inl (hu.trans hp.symm)
    | some e =>
      rcases h.new hu with hold | rfl
      · rw [hp] at hold
        cases hold
      · exact Or.inr ⟨hp, hu⟩

theorem KeptAt.trans (h : KeptAt t u p) (h' : AddsDirectories u v) : KeptAt t v p := by
  rcases keptAt_of_addsDirectories h' p with hsame | ⟨hnone, hnew⟩
  · rw [KeptAt, hsame]
    exact h
  · rcases h with hkept | ⟨-, hdir⟩
    · exact Or.inr ⟨hkept.symm.trans hnone, hnew⟩
    · rw [hnone] at hdir
      cases hdir

theorem addsDirectories_put (hp : t.get? p = none) : AddsDirectories t (t.put p .directory) where
  working := rfl
  get? {q e} hq := by
    have hne : q ≠ p := by
      rintro rfl
      rw [hp] at hq
      cases hq
    rw [get?_put_of_ne hne, hq]
  new {q e} hq := by
    by_cases hqp : q = p
    · subst hqp
      have hroot : q ≠ [] := by rintro rfl; cases hp
      rw [get?_put_self hroot] at hq
      exact Or.inr (Option.some.inj hq).symm
    · rw [get?_put_of_ne hqp] at hq
      exact Or.inl hq

theorem addsDirectories_makeDirs (t : Tree) (path : Text) :
    AddsDirectories t (t.makeDirs path).2 := by
  refine makeDirs_induction (fun {u v path} hu hmake => ?_) (.refl t) path
  obtain ⟨p, -, hp, rfl⟩ := makeDir_eq_ok hmake
  exact hu.trans (addsDirectories_put hp)

theorem WellFormed.makeDirs (ht : t.WellFormed) (path : Text) : (t.makeDirs path).2.WellFormed := by
  refine makeDirs_induction (fun {u v path} hu hmake => ?_) ht path
  obtain ⟨p, hwalk, hp, rfl⟩ := makeDir_eq_ok hmake
  obtain ⟨d, name, rfl, hd⟩ := hu.exists_above (hu.start path) hwalk hp
  exact hu.put hd (by simp [hp]) .directory

/-! ## Writing and removing files -/

/-- The last name of the path, under which a write puts its file. -/
def fileName (path : Text) : Text :=
  if Path.endsInSlash path then ['.'] else (Path.names path).getLastD ['.']

/-- The place of the file that is written. -/
def writePlace (t : Tree) (path : Text) : Except Fault Place :=
  if path.isEmpty then .error .notFound
  else if Path.isTooLong path then .error .nameTooLong
  else (t.walk (t.start path) (Path.names path).dropLast).bind fun d =>
    (t.step d (fileName path)).bind fun p =>
      if fileName path == ['.'] || fileName path == ['.', '.'] then .error .isADirectory
      else match t.get? p with
        | some .directory => .error .isADirectory
        | _ => .ok p

theorem write_eq (t : Tree) (path : Text) (content : ByteArray) :
    t.write path content = match t.writePlace path with
      | .ok p => (.ok (), t.put p (.file content))
      | .error f => (.error f, t) := by
  unfold write writePlace
  cases path.isEmpty <;> cases Path.isTooLong path <;> rfl

/-- A path whose last name is no dot leads through the others to it. -/
theorem names_eq_append (hdot : fileName path ≠ ['.']) :
    Path.endsInSlash path = false ∧
      Path.names path = (Path.names path).dropLast ++ [fileName path] := by
  unfold fileName at hdot ⊢
  split_ifs at hdot ⊢ with hslash
  · exact absurd rfl hdot
  · rcases List.eq_nil_or_concat (Path.names path) with hnil | ⟨front, name, hconcat⟩
    · rw [hnil] at hdot
      exact absurd rfl hdot
    · refine ⟨Bool.eq_false_iff.2 hslash, ?_⟩
      rw [hconcat]
      simp

theorem exists_of_writePlace (h : t.writePlace path = .ok p) :
    path.isEmpty = false ∧ Path.isTooLong path = false ∧ fileName path ≠ ['.'] ∧
      fileName path ≠ ['.', '.'] ∧ t.get? p ≠ some .directory ∧
      ∃ d, t.walk (t.start path) (Path.names path).dropLast = .ok d ∧
        t.step d (fileName path) = .ok p := by
  unfold writePlace at h
  split_ifs at h with hempty hlong hdots
  · obtain ⟨d, -, hrest⟩ := exists_of_bind_eq_ok h
    obtain ⟨q, -, herror⟩ := exists_of_bind_eq_ok hrest
    cases herror
  · obtain ⟨d, hwalk, hrest⟩ := exists_of_bind_eq_ok h
    obtain ⟨q, hstep, hplace⟩ := exists_of_bind_eq_ok hrest
    simp only [Bool.or_eq_true, beq_iff_eq, not_or] at hdots
    split at hplace
    · cases hplace
    · next hfree =>
      cases hplace
      exact ⟨Bool.eq_false_iff.2 hempty, Bool.eq_false_iff.2 hlong, hdots.1, hdots.2, hfree, d,
        hwalk, hstep⟩

/-- A path at which a file is written leads where its names lead, in every tree. -/
theorem resolve_of_writePlace (h : t.writePlace path = .ok p) (u : Tree) :
    u.resolve path = u.walk (u.start path) (Path.names path) := by
  obtain ⟨hempty, hlong, hdot, -⟩ := exists_of_writePlace h
  rw [resolve, hempty, hlong, (names_eq_append hdot).1]
  simp

/-- A file is written where the path leads, below a directory and where no directory stands. -/
theorem writePlace_eq_ok (h : t.writePlace path = .ok p) :
    t.walk (t.start path) (Path.names path) = .ok p ∧ t.get? p ≠ some .directory ∧
      ∃ d name, p = d ++ [name] ∧ t.get? d = some .directory := by
  obtain ⟨-, -, hdot, hup, hfree, d, hwalk, hstep⟩ := exists_of_writePlace h
  obtain ⟨hd, hplace⟩ := step_eq_ok hstep
  refine ⟨?_, hfree, ?_⟩
  · rw [(names_eq_append hdot).2, walk_append, hwalk, Except.bind, walk_cons, hstep]
    rfl
  · rcases hplace with ⟨hname, -⟩ | ⟨hname, -⟩ | rfl
    · exact absurd hname hdot
    · exact absurd hname hup
    · exact ⟨d, fileName path, rfl, hd⟩

/-- A write fails and leaves the tree, or puts its file at the place that the path means. -/
theorem write_cases (t : Tree) (path : Text) (content : ByteArray) :
    (∃ f, t.write path content = (.error f, t)) ∨
      ∃ p, t.writePlace path = .ok p ∧
        t.write path content = (.ok (), t.put p (.file content)) := by
  rw [write_eq]
  cases h : t.writePlace path with
  | error f => exact Or.inl ⟨f, rfl⟩
  | ok p => exact Or.inr ⟨p, rfl, rfl⟩

/-- A file is put where a write puts it. -/
theorem WellFormed.put_writePlace (ht : t.WellFormed) (hplace : t.writePlace path = .ok p)
    (content : ByteArray) : (t.put p (.file content)).WellFormed := by
  obtain ⟨-, hfree, d, name, rfl, hd⟩ := writePlace_eq_ok hplace
  exact ht.put hd hfree _

/-- Removing a file erases it, and nothing else happens. -/
theorem remove_cases (t : Tree) (path : Text) :
    (t.remove path).2 = t ∨ ∃ p c, t.get? p = some (.file c) ∧ (t.remove path).2 = t.erase p := by
  unfold remove
  split
  · split
    · next c hc => exact Or.inr ⟨_, c, hc, rfl⟩
    · exact Or.inl rfl
  · exact Or.inl rfl

theorem WellFormed.remove (ht : t.WellFormed) (path : Text) : (t.remove path).2.WellFormed := by
  rcases remove_cases t path with h | ⟨p, c, hp, h⟩
  · rwa [h]
  · rw [h]
    exact ht.erase hp

/-! ## Reading files -/

/-- A path leads to the same place in every tree that has the directories. -/
theorem resolve_of_directories (hworking : u.working = t.working)
    (h : ∀ p, t.get? p = some .directory → u.get? p = some .directory)
    (hresolve : t.resolve path = .ok p) : u.resolve path = .ok p := by
  unfold resolve at hresolve ⊢
  split_ifs at hresolve ⊢ <;>
    exact walk_of_directories h (by simpa [start, hworking] using hresolve)

theorem Grows.resolve (h : Grows t u) (hresolve : t.resolve path = .ok p) :
    u.resolve path = .ok p :=
  resolve_of_directories h.working (fun _ hp => h.get? hp) hresolve

/-- The path means a file with this content. -/
def Holds (t : Tree) (path : Text) (content : ByteArray) : Prop :=
  ∃ p, t.resolve path = .ok p ∧ t.get? p = some (.file content)

theorem Grows.holds (h : Grows t u) {content : ByteArray} (hpath : t.Holds path content) :
    u.Holds path content := by
  obtain ⟨p, hresolve, hp⟩ := hpath
  exact ⟨p, h.resolve hresolve, h.get? hp⟩

theorem read_eq_ok_iff {content : ByteArray} :
    t.read path = .ok content ↔ t.Holds path content := by
  constructor
  · intro h
    obtain ⟨p, hresolve, hp⟩ := exists_of_bind_eq_ok h
    split at hp
    · next c hc =>
      cases hp
      exact ⟨p, hresolve, hc⟩
    · cases hp
    · cases hp
  · rintro ⟨p, hresolve, hp⟩
    simp only [read, hresolve, bind, Except.bind, hp]
    rfl

theorem isFile_iff : t.isFile path = true ↔ ∃ content, t.Holds path content := by
  unfold isFile entry?
  constructor
  · intro h
    split at h
    · next c hc =>
      split at hc
      · next p hresolve => exact ⟨c, p, hresolve, hc⟩
      · cases hc
    · cases h
  · rintro ⟨content, p, hresolve, hp⟩
    rw [hresolve]
    simp only [hp]

/-- Where a file is put at which the path leads, the path leads there still. -/
theorem resolve_put (hplace : t.writePlace path = .ok p) (content : ByteArray) :
    (t.put p (.file content)).resolve path = .ok p := by
  obtain ⟨hwalk, hfree, -⟩ := writePlace_eq_ok hplace
  rw [resolve_of_writePlace hplace]
  exact walk_of_directories (fun _ hq => directory_put hfree hq _) hwalk

theorem holds_put (hplace : t.writePlace path = .ok p) (content : ByteArray) :
    (t.put p (.file content)).Holds path content := by
  obtain ⟨-, -, d, name, rfl, -⟩ := writePlace_eq_ok hplace
  exact ⟨d ++ [name], resolve_put hplace content, get?_put_self (by simp)⟩

end DocTypes.Tree
