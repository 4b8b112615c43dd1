/-
  Two trees that differ in the content of one file. A walk sees of a file only that it is no
  directory, so a path leads to the same place in both (`AgreeOff.resolve`), and an operation has
  the same result in both and leaves two such trees (`AgreeOff.makeDirs`, `AgreeOff.write`). The
  content shows only where that file itself is read (`AgreeOff.read`).
-/
import DocTypes.Proofs.Storage.Tree

namespace DocTypes.Tree

variable {t u : Tree} {p q : Place} {path : Text}

/-- Both trees have a file at the place, and elsewhere the same stands in both. -/
structure AgreeOff (p : Place) (t u : Tree) : Prop where
  working : u.working = t.working
  file : ∃ c, t.get? p = some (.file c)
  file' : ∃ c, u.get? p = some (.file c)
  get? : ∀ q ≠ p, u.get? q = t.get? q

/-- The operation has the same result in both cases, and the trees after it agree. -/
def SameStep {α : Type} (p : Place) (r s : α × Tree) : Prop := s.1 = r.1 ∧ AgreeOff p r.2 s.2

/-- What holds wherever the result is the same and the trees agree holds of both cases. -/
@[elab_as_elim]
theorem SameStep.elim {α : Type} {motive : α × Tree → α × Tree → Prop} {r s : α × Tree}
    (h : SameStep p r s) (hsame : ∀ x v w, AgreeOff p v w → motive (x, v) (x, w)) :
    motive r s := by
  obtain ⟨x, v⟩ := r
  obtain ⟨y, w⟩ := s
  obtain ⟨rfl, hvw⟩ := h
  exact hsame y v w hvw

theorem SameStep.map {α β : Type} {r s : α × Tree} (h : SameStep p r s) (f : α → β) :
    SameStep p (f r.1, r.2) (f s.1, s.2) :=
  ⟨congrArg f h.1, h.2⟩

/-- At each place stands the same in both trees, or a file each. -/
theorem AgreeOff.cases (h : AgreeOff p t u) (q : Place) :
    u.get? q = t.get? q ∨ ∃ c d, t.get? q = some (.file c) ∧ u.get? q = some (.file d) := by
  by_cases hq : q = p
  · subst hq
    obtain ⟨c, hc⟩ := h.file
    obtain ⟨d, hd⟩ := h.file'
    exact Or.inr ⟨c, d, hc, hd⟩
  · exact Or.inl (h.get? q hq)

/-- Whatever the content of a file is, the rest of the tree is the same. -/
theorem agreeOff_put (t : Tree) (hp : p ≠ []) (c d : ByteArray) :
    AgreeOff p (t.put p (.file c)) (t.put p (.file d)) where
  working := rfl
  file := ⟨c, get?_put_self hp⟩
  file' := ⟨d, get?_put_self hp⟩
  get? q hq := by rw [get?_put_of_ne hq, get?_put_of_ne hq]

/-! ## Where paths lead -/

theorem AgreeOff.step (h : AgreeOff p t u) : u.step = t.step := by
  funext here name
  rcases h.cases here with hsame | ⟨c, d, hc, hd⟩
  · exact step_congr hsame name
  · rw [Tree.step, Tree.step, hc, hd]

theorem AgreeOff.walk (h : AgreeOff p t u) (here : Place) (names : List Text) :
    u.walk here names = t.walk here names := by
  rw [Tree.walk, Tree.walk, h.step]

theorem AgreeOff.start (h : AgreeOff p t u) (path : Text) : u.start path = t.start path := by
  rw [Tree.start, Tree.start, h.working]

theorem AgreeOff.resolve (h : AgreeOff p t u) (path : Text) :
    u.resolve path = t.resolve path := by
  rw [Tree.resolve, Tree.resolve, h.start, h.walk]

/-- Where a path leads stands the same in both trees, or a file each. -/
theorem AgreeOff.entry? (h : AgreeOff p t u) (path : Text) : u.entry? path = t.entry? path ∨
    ∃ c d, t.entry? path = some (.file c) ∧ u.entry? path = some (.file d) := by
  unfold Tree.entry?
  rw [h.resolve]
  cases t.resolve path with
  | error f => exact Or.inl rfl
  | ok q => exact h.cases q

theorem AgreeOff.isFile (h : AgreeOff p t u) (path : Text) : u.isFile path = t.isFile path := by
  unfold Tree.isFile
  rcases h.entry? path with hsame | ⟨c, d, hc, hd⟩
  · rw [hsame]
  · rw [hc, hd]

theorem AgreeOff.isDirectory (h : AgreeOff p t u) (path : Text) :
    u.isDirectory path = t.isDirectory path := by
  unfold Tree.isDirectory
  rcases h.entry? path with hsame | ⟨c, d, hc, hd⟩
  · rw [hsame]
  · rw [hc, hd]

/-- What is read is the same, unless the path leads to the place itself. -/
theorem AgreeOff.read (h : AgreeOff p t u) (hpath : t.resolve path ≠ .ok p) :
    u.read path = t.read path := by
  unfold Tree.read
  rw [h.resolve]
  cases hq : t.resolve path with
  | error f => rfl
  | ok q =>
    have hne : q ≠ p := fun hqp => hpath (hqp ▸ hq)
    simp only [bind, Except.bind, h.get? q hne]

/-! ## What operations do -/

theorem get?_put_congr {r : Place} (h : u.get? r = t.get? r) (q : Place) (e : Entry) :
    (u.put q e).get? r = (t.put q e).get? r := by
  by_cases hr : r = q
  · subst hr
    by_cases hroot : r = []
    · subst hroot
      rfl
    · rw [get?_put_self hroot, get?_put_self hroot]
  · rw [get?_put_of_ne hr, get?_put_of_ne hr, h]

/-- The same is put into both trees; at the place itself that has to be a file again. -/
theorem AgreeOff.put (h : AgreeOff p t u) {e : Entry} (hq : q = p → ∃ c, e = .file c) :
    AgreeOff p (t.put q e) (u.put q e) := by
  have hfile : ∀ {v : Tree}, (∃ c, v.get? p = some (.file c)) →
      ∃ c, (v.put q e).get? p = some (.file c) := by
    rintro v ⟨c, hc⟩
    by_cases hp : p = q
    · subst hp
      obtain ⟨d, rfl⟩ := hq rfl
      have hroot : p ≠ [] := by rintro rfl; cases hc
      exact ⟨d, get?_put_self hroot⟩
    · exact ⟨c, by rw [get?_put_of_ne hp, hc]⟩
  exact ⟨h.working, hfile h.file, hfile h.file', fun r hr => get?_put_congr (h.get? r hr) q e⟩

/-- Making a directory fails alike, or puts the same directory. -/
theorem AgreeOff.makeDir (h : AgreeOff p t u) (path : Text) :
    (∃ f, t.makeDir path = .error f ∧ u.makeDir path = .error f) ∨
      ∃ v w, t.makeDir path = .ok v ∧ u.makeDir path = .ok w ∧ AgreeOff p v w := by
  rw [makeDir_eq, makeDir_eq, h.start, h.walk]
  split_ifs
  · exact Or.inl ⟨_, rfl, rfl⟩
  · exact Or.inl ⟨_, rfl, rfl⟩
  · cases t.walk (t.start path) (Path.names path) with
    | error f => exact Or.inl ⟨f, rfl, rfl⟩
    | ok q =>
      dsimp only [Except.bind]
      rcases h.cases q with hsame | ⟨c, d, hc, hd⟩
      · rw [hsame]
        cases hq : t.get? q with
        | some e => exact Or.inl ⟨_, rfl, rfl⟩
        | none =>
          -- the new directory is not at the place, where a file stands
          have hne : q = p → ∃ c, Entry.directory = .file c := by
            rintro rfl
            obtain ⟨c, hc⟩ := h.file
            rw [hq] at hc
            cases hc
          exact Or.inr ⟨_, _, rfl, rfl, h.put hne⟩
      · rw [hc, hd]
        exact Or.inl ⟨_, rfl, rfl⟩

/-- Makes the directory, when the directories above it have been made. -/
def makeLast (t : Tree) (path : Text) : Step Unit :=
  match t.makeDir path with
  | .ok u => (.ok (), u)
  | .error f => (if t.isDirectory path then .ok () else .error f, t)

theorem makeDirs_eq (t : Tree) (path : Text) : t.makeDirs path =
    if path.isEmpty then (.ok (), t)
    else match t.makeDir path with
      | .error .notFound =>
        match Path.parent? path with
        | none => (.error (.other "failed to create whole tree"), t)
        | some parent =>
          match t.makeDirs parent with
          | (.ok (), u) => u.makeLast path
          | (.error f, u) => (.error f, u)
      | _ => t.makeLast path := by
  rw [makeDirs]
  split_ifs
  · rfl
  · cases hmake : t.makeDir path with
    | ok u => simp only [makeLast, hmake]
    | error f =>
      cases f with
      | notFound => cases hparent : Path.parent? path <;> rfl
      | _ => simp only [makeLast, hmake]

theorem AgreeOff.makeLast (h : AgreeOff p t u) (path : Text) :
    SameStep p (t.makeLast path) (u.makeLast path) := by
  unfold Tree.makeLast
  rcases h.makeDir path with ⟨f, ht, hu⟩ | ⟨v, w, ht, hu, hvw⟩
  · rw [ht, hu, h.isDirectory]
    exact ⟨rfl, h⟩
  · rw [ht, hu]
    exact ⟨rfl, hvw⟩

theorem AgreeOff.makeDirs (h : AgreeOff p t u) (path : Text) :
    SameStep p (t.makeDirs path) (u.makeDirs path) := by
  rw [makeDirs_eq t, makeDirs_eq u]
  split_ifs
  · exact ⟨rfl, h⟩
  · have hlast := h.makeLast path
    rcases h.makeDir path with ⟨f, ht, hu⟩ | ⟨v, w, ht, hu, -⟩
    · rw [ht, hu]
      cases f with
      | notFound =>
        dsimp only
        cases hparent : Path.parent? path with
        | none => exact ⟨rfl, h⟩
        | some parent =>
          have := Path.parent?_length_lt hparent
          dsimp only
          refine (h.makeDirs parent).elim fun r v w hvw => ?_
          cases r with
          | error f => exact ⟨rfl, hvw⟩
          | ok _ => exact hvw.makeLast path
      | _ => exact hlast
    · rw [ht, hu]
      exact hlast
termination_by path.length

theorem AgreeOff.writePlace (h : AgreeOff p t u) (path : Text) :
    u.writePlace path = t.writePlace path := by
  unfold Tree.writePlace
  rw [h.start, h.walk, h.step]
  split_ifs
  · rfl
  · rfl
  · rfl
  · congr 1
    funext d
    congr 1
    funext q
    rcases h.cases q with hsame | ⟨c, e, hc, he⟩
    · rw [hsame]
    · rw [hc, he]

theorem AgreeOff.write (h : AgreeOff p t u) (path : Text) (content : ByteArray) :
    SameStep p (t.write path content) (u.write path content) := by
  rw [write_eq, write_eq, h.writePlace]
  cases t.writePlace path with
  | error f => exact ⟨rfl, h⟩
  | ok q => exact ⟨rfl, h.put fun _ => ⟨content, rfl⟩⟩

end DocTypes.Tree
