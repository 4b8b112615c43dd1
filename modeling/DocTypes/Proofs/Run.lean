/-
  What a run that fails leaves. The run goes through stages: arguments, configuration, page,
  compilation, output. Each of them may end it (`exitCode_ne_zero_iff`), and only two of them write:
  the load of the page fills the cache file where there was none, and the output is delivered last.
  A delivery that fails has made directories at most, so a run that fails prints nothing on the
  standard output and changes no file but the cache file that it filled (`files_of_failed_run`).
  That file may have been there before, where the path of the cache leads back out of a directory
  that does not exist (`failed_run_replaces_file`).
-/
import DocTypes.Proofs.Source
import DocTypes.Run

namespace DocTypes

namespace Run

open DocTypes.Tree DocTypes.Source

/-! ## Runs in a tree -/

/-- What a command line leaves besides files, and the tree after it, where a fetch receives the
page, if there is one. -/
def commandIn (t : Tree) (page : Option String) (args : List String) : Outcome × Tree :=
  let (outcome, w) := (commandLine args : StateM World _).run { tree := t, page := page }
  (outcome, w.tree)

/-- The result of a run, and the tree after it. -/
def performIn (t : Tree) (page : Option String) (a : Arguments) :
    Except Failure (Text × Text) × Tree :=
  let (r, w) := (perform a : StateM World _).run { tree := t, page := page }
  (r, w.tree)

/-- The configuration of a run in the tree. -/
def configIn (t : Tree) (a : Arguments) : Except Failure Config :=
  ((config a : StateM World _).run { tree := t }).1

/-- The result of writing the output, and the tree after that. -/
def deliverIn (t : Tree) (path text : Text) : Except Failure Unit × Tree :=
  let (r, w) := (deliver path text : StateM World _).run { tree := t }
  (r, w.tree)

/-- The configuration is read from the files, and nothing changes. -/
theorem run_config (w : World) (a : Arguments) :
    (config a : StateM World _).run w = pure (configIn w.tree a, w) := by
  have hread : ∀ (w : World) (path : Text), (Storage.read path : StateM World _).run w =
    pure (w.tree.read path, w) := fun _ _ => rfl
  unfold configIn config
  cases a.config with
  | none => rfl
  | some path =>
    simp only [StateT.run_bind, hread, pure_bind]
    cases Config.ofRead (w.tree.read path.toList) <;> rfl

/-- The output is written at its path, when the directories above it have been made. -/
theorem deliverIn_eq (t : Tree) (path text : Text) : deliverIn t path text =
    match Path.parent? path with
    | none =>
      let r := t.write path (String.ofList text).toUTF8
      (r.1.mapError (.write path), r.2)
    | some parent =>
      match t.makeDirs parent with
      | (.ok (), u) =>
        let r := u.write path (String.ofList text).toUTF8
        (r.1.mapError (.write path), r.2)
      | (.error f, u) => (.error (.create parent f), u) := by
  unfold deliverIn deliver
  cases Path.parent? path with
  | none => rfl
  | some parent =>
    simp only [StateT.run_bind, run_makeDirs]
    rcases t.makeDirs parent with ⟨_ | _, u⟩ <;> rfl

/-- The output is installed at its path. -/
theorem exists_deliverIn_eq (t : Tree) (path text : Text) : ∃ g : Fault → Failure,
    deliverIn t path text = ((installIn t path (String.ofList text).toUTF8).1.mapError g,
      (installIn t path (String.ofList text).toUTF8).2) := by
  rw [installIn_eq, deliverIn_eq]
  cases Path.parent? path with
  | none => exact ⟨.write path, rfl⟩
  | some parent =>
    dsimp only
    rcases t.makeDirs parent with ⟨f | _, u⟩
    · exact ⟨.create parent, rfl⟩
    · exact ⟨.write path, rfl⟩

theorem run_deliver (w : World) (path text : Text) :
    (deliver path text : StateM World _).run w =
      pure ((deliverIn w.tree path text).1, { w with tree := (deliverIn w.tree path text).2 }) := by
  unfold deliverIn deliver
  cases Path.parent? path with
  | none => rfl
  | some parent =>
    simp only [StateT.run_bind, run_makeDirs]
    rcases w.tree.makeDirs parent with ⟨_ | _, u⟩ <;> rfl

/-- A run takes its stages one after the other, up to one that fails. -/
theorem performIn_eq (t : Tree) (page : Option String) (a : Arguments) :
    performIn t page a =
      match configIn t a with
      | .error e => (.error e, t)
      | .ok c =>
        match loadIn t c.sourceUrl c.cachePath c.timeout page with
        | (.error e, u) => (.error (.source e), u)
        | (.ok source, u) =>
          match produce a c source with
          | .error e => (.error e, u)
          | .ok (text, report) =>
            match a.output with
            | none => (.ok (text, report), u)
            | some path =>
              ((deliverIn u path.toList text).1.map fun _ => ([], report),
                (deliverIn u path.toList text).2) := by
  unfold performIn perform
  simp only [StateT.run_bind, run_config, pure_bind]
  cases configIn t a with
  | error e => rfl
  | ok c =>
    simp only [StateT.run_bind, run_load, pure_bind]
    rcases loadIn t c.sourceUrl c.cachePath c.timeout page with ⟨e | source, u⟩
    · rfl
    · dsimp only
      cases produce a c source with
      | error e => rfl
      | ok out =>
        dsimp only
        cases a.output with
        | none => rfl
        | some path =>
          simp only [StateT.run_bind, run_deliver, pure_bind]
          rfl

theorem commandIn_eq (t : Tree) (page : Option String) (args : List String) :
    commandIn t page args =
      match Command.ofArguments args with
      | .error e => ({ exitCode := 2, stderr := "error: ".toList ++ e.message ++ ['\n'] }, t)
      | .ok .help => ({ exitCode := 0, stdout := helpText }, t)
      | .ok .version => ({ exitCode := 0, stdout := versionText }, t)
      | .ok (.run a) =>
        match performIn t page a with
        | (.ok (stdout, stderr), u) => ({ exitCode := 0, stdout, stderr }, u)
        | (.error e, u) =>
          ({ exitCode := 1, stderr := "error: ".toList ++ e.message ++ ['\n'] }, u) := by
  unfold commandIn commandLine performIn
  cases Command.ofArguments args with
  | error e => rfl
  | ok command =>
    cases command with
    | help | version => rfl
    | run a =>
      simp only [StateT.run_bind]
      rcases (perform a : StateM World _).run ⟨t, page⟩ with ⟨e | out, w⟩ <;> rfl

/-! ## Runs that fail -/

/-- How a run fails, and the tree that it leaves: at its configuration, at the load of its page, at
the page itself, or at the delivery of its output. -/
inductive Fails (t : Tree) (page : Option String) (a : Arguments) : Failure → Tree → Prop where
  | config {e : Failure} : configIn t a = .error e → Fails t page a e t
  | source {c : Config} {e : LoadError} {u : Tree} : configIn t a = .ok c →
      loadIn t c.sourceUrl c.cachePath c.timeout page = (.error e, u) →
        Fails t page a (.source e) u
  | shape {c : Config} {s : Source} {e : Failure} {u : Tree} : configIn t a = .ok c →
      loadIn t c.sourceUrl c.cachePath c.timeout page = (.ok s, u) →
        produce a c s = .error e → Fails t page a e u
  | output {c : Config} {s : Source} {text report : Text} {path : String} {e : Failure}
      {u v : Tree} : configIn t a = .ok c →
      loadIn t c.sourceUrl c.cachePath c.timeout page = (.ok s, u) →
        produce a c s = .ok (text, report) → a.output = some path →
          deliverIn u path.toList text = (.error e, v) → Fails t page a e v

theorem fails_iff {t u : Tree} {page : Option String} {a : Arguments} {e : Failure} :
    Fails t page a e u ↔ performIn t page a = (.error e, u) := by
  constructor
  · intro h
    rw [performIn_eq]
    cases h with
    | config hconfig => rw [hconfig]
    | source hconfig hload => rw [hconfig]; dsimp only; rw [hload]
    | shape hconfig hload hproduce =>
      rw [hconfig]; dsimp only; rw [hload]; dsimp only; rw [hproduce]
    | output hconfig hload hproduce houtput hdeliver =>
      rw [hconfig]; dsimp only; rw [hload]; dsimp only; rw [hproduce, houtput]; dsimp only
      rw [hdeliver]
      rfl
  · intro h
    rw [performIn_eq] at h
    split at h
    · next hconfig =>
      cases h
      exact .config hconfig
    · next c hconfig =>
      split at h
      · next hload =>
        cases h
        exact .source hconfig hload
      · next s v hload =>
        split at h
        · next hproduce =>
          cases h
          exact .shape hconfig hload hproduce
        · next text report hproduce =>
          split at h
          · cases h
          · next path houtput =>
            obtain ⟨hresult, rfl⟩ := Prod.mk.inj h
            rcases hdeliver : deliverIn v path.toList text with ⟨f | _, w⟩
            · rw [hdeliver] at hresult
              cases hresult
              exact .output hconfig hload hproduce houtput hdeliver
            · rw [hdeliver] at hresult
              cases hresult

/-- What a command may come to: arguments that cannot be used, a run that fails, or success. -/
theorem commandIn_cases (t : Tree) (page : Option String) (args : List String) :
    let r := commandIn t page args
    (∃ e, Command.ofArguments args = .error e ∧ r.1.exitCode = 2 ∧ r.1.stdout = [] ∧ r.2 = t) ∨
    (∃ a e, Command.ofArguments args = .ok (.run a) ∧ r.1.exitCode = 1 ∧ r.1.stdout = [] ∧
      Fails t page a e r.2) ∨
    r.1.exitCode = 0 ∧ ∃ command, Command.ofArguments args = .ok command ∧
      ∀ a e u, command = .run a → ¬ Fails t page a e u := by
  intro r
  have hr : r = commandIn t page args := rfl
  rw [commandIn_eq] at hr
  cases hargs : Command.ofArguments args with
  | error e =>
    rw [hargs] at hr
    exact Or.inl ⟨e, rfl, by rw [hr], by rw [hr], by rw [hr]⟩
  | ok command =>
    rw [hargs] at hr
    cases command with
    | help | version => exact Or.inr (Or.inr ⟨by rw [hr], _, rfl, by simp⟩)
    | run a =>
      dsimp only at hr
      rcases hrun : performIn t page a with ⟨e | out, u⟩
      · rw [hrun] at hr
        refine Or.inr (Or.inl ⟨a, e, rfl, by rw [hr], by rw [hr], ?_⟩)
        rw [hr]
        exact fails_iff.2 hrun
      · rw [hrun] at hr
        refine Or.inr (Or.inr ⟨by rw [hr], _, rfl, fun a' e u' h hfails => ?_⟩)
        cases h
        rw [fails_iff, hrun] at hfails
        cases hfails

/-- A command fails exactly if its arguments cannot be used or its run fails. -/
theorem exitCode_ne_zero_iff {t : Tree} {page : Option String} {args : List String} :
    (commandIn t page args).1.exitCode ≠ 0 ↔
      (∃ e, Command.ofArguments args = .error e) ∨
        ∃ a e u, Command.ofArguments args = .ok (.run a) ∧ Fails t page a e u := by
  rcases commandIn_cases t page args with
    ⟨e, hargs, hexit, -⟩ | ⟨a, e, hargs, hexit, -, hfails⟩ | ⟨hexit, command, hargs, hsuccess⟩
  · simp [hexit, hargs]
  · rw [hexit]
    exact ⟨fun _ => Or.inr ⟨a, e, _, hargs, hfails⟩, fun _ => Nat.one_ne_zero⟩
  · refine ⟨fun h => absurd hexit h, ?_⟩
    rintro (⟨e, herror⟩ | ⟨a, e, u, hrun, hfails⟩)
    · rw [hargs] at herror
      cases herror
    · rw [hargs] at hrun
      exact absurd hfails (hsuccess a e u (Except.ok.inj hrun))

/-- A delivery that fails has made directories at most. -/
theorem addsDirectories_of_deliverIn {t u : Tree} {path text : Text} {e : Failure}
    (h : deliverIn t path text = (.error e, u)) : AddsDirectories t u := by
  obtain ⟨g, hinstall⟩ := exists_deliverIn_eq t path text
  obtain ⟨v, hv, -, ⟨f, herror⟩ | ⟨p, -, hok⟩⟩ :=
    installIn_cases t path (String.ofList text).toUTF8
  · rw [hinstall, herror] at h
    cases h
    exact hv
  · rw [hinstall, hok] at h
    cases h

/-- A run that fails keeps every place but that of the cache file that it filled. -/
theorem Fails.change {t u : Tree} {page : Option String} {a : Arguments} {e : Failure}
    (h : Fails t page a e u) (ht : t.WellFormed) (p : Place) :
    KeptAt t u p ∨ ∃ c, configIn t a = .ok c ∧ Filled t u c.cachePath page p := by
  have hload : ∀ {c : Config} {r : Except LoadError Source} {v : Tree}, configIn t a = .ok c →
      loadIn t c.sourceUrl c.cachePath c.timeout page = (r, v) →
        KeptAt t v p ∨ Filled t v c.cachePath page p := by
    intro c r v _ hv
    have hchange : ∀ w, loadIn t c.sourceUrl c.cachePath c.timeout page = w →
        KeptAt t w.2 p ∨ Filled t w.2 c.cachePath page p := by
      rintro w rfl
      exact change_of_load ht p
    exact hchange _ hv
  cases h with
  | config => exact Or.inl (Or.inl rfl)
  | source hconfig hv => exact (hload hconfig hv).imp_right fun hfill => ⟨_, hconfig, hfill⟩
  | shape hconfig hv => exact (hload hconfig hv).imp_right fun hfill => ⟨_, hconfig, hfill⟩
  | output hconfig hv _ _ hdeliver =>
    have hdirs := addsDirectories_of_deliverIn hdeliver
    exact (hload hconfig hv).imp (fun hkept => hkept.trans hdirs)
      fun hfill => ⟨_, hconfig, hfill.trans hdirs⟩

/-- **Main theorem.** A command that fails prints nothing on the standard output. At every place
stands what stood there before, or a new directory, or the cache file of the configuration, filled
with the page that was fetched since the path named no file; and where something stood there before
all the same, the path leads back out of a directory that did not exist. -/
theorem files_of_failed_run {t : Tree} (ht : t.WellFormed) {page : Option String}
    {args : List String} (h : (commandIn t page args).1.exitCode ≠ 0) :
    (commandIn t page args).1.stdout = [] ∧ ∀ p, KeptAt t (commandIn t page args).2 p ∨
      ∃ a c, Command.ofArguments args = .ok (.run a) ∧ configIn t a = .ok c ∧
        Filled t (commandIn t page args).2 c.cachePath page p := by
  rcases commandIn_cases t page args with
    ⟨e, -, -, hstdout, hsame⟩ | ⟨a, e, hargs, -, hstdout, hfails⟩ | ⟨hexit, -⟩
  · exact ⟨hstdout, fun p => Or.inl (Or.inl (by rw [hsame]))⟩
  · refine ⟨hstdout, fun p => (hfails.change ht p).imp_right ?_⟩
    rintro ⟨c, hconfig, hfill⟩
    exact ⟨a, c, hargs, hconfig, hfill⟩
  · exact absurd hexit h

/-- A page with an entity of two shapes: a name and a field. -/
def twoShapes : String :=
  "<h4>Pet</h4><table><tr><td>Cat</td></tr><tr><td>id</td><td>T</td><td>a</td></tr></table>"

/-- The page in the cache is not consistent, so the output file is not written. -/
theorem files_of_failed_run_shape :
    let t := ({} : Tree).put ["page".toList] (.file twoShapes.toUTF8)
    let args := ["page", "--output", "types.ts"]
    t.WellFormed ∧ (commandIn t none args).1.exitCode = 1 ∧ (commandIn t none args).1.stdout = [] ∧
      ∀ p, KeptAt t (commandIn t none args).2 p := by
  intro t args
  have hfree : ({} : Tree).get? ([] ++ ["page".toList]) ≠ some .directory := by simp [get?]
  have ht : t.WellFormed := wellFormed_empty.put rfl hfree _
  have hexit : (commandIn t none args).1.exitCode = 1 := by decide +kernel
  obtain ⟨hstdout, hplaces⟩ := files_of_failed_run ht (by rw [hexit]; decide)
  refine ⟨ht, hexit, hstdout, fun p => (hplaces p).resolve_right ?_⟩
  rintro ⟨a, c, -, -, hfill⟩
  obtain ⟨document, hpage, -⟩ := hfill.content
  cases hpage

/-- The path of the cache leads through a directory that is missing and back to a file, which the
fetched page replaces before the run fails at that page. -/
theorem failed_run_replaces_file :
    let t := ({} : Tree).put ["a".toList] (.file "old".toUTF8)
    let r := commandIn t (some twoShapes) ["x/../a"]
    t.WellFormed ∧ t.read "a".toList = .ok "old".toUTF8 ∧
      r.1.exitCode = 1 ∧ r.2.read "a".toList = .ok twoShapes.toUTF8 := by
  intro t r
  have hfree : ({} : Tree).get? ([] ++ ["a".toList]) ≠ some .directory := by simp [get?]
  have hrun : r.1.exitCode = 1 ∧ r.2.read "a".toList = .ok twoShapes.toUTF8 := by decide +kernel
  exact ⟨wellFormed_empty.put rfl hfree _, by decide +kernel, hrun⟩

end Run

end DocTypes
