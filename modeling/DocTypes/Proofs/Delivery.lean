/-
  Where the output goes. A run that finds its page in the cache leaves the files alone and shows
  what the page compiles to (`performIn_of_holds`). With an output file the same run delivers the
  same text there as its last step (`exists_installed_of_deliverIn`), when the cache and the
  configuration have been read, so the output file may be either of them. What the run shows
  besides does not depend on where the output goes (`output_of_run`).
-/
import DocTypes.Proofs.Arguments
import DocTypes.Proofs.Run

namespace DocTypes

namespace Run

open DocTypes.Tree DocTypes.Source

/-- Output that is delivered is what the path leads to, and no other file differs. -/
theorem exists_installed_of_deliverIn {t u : Tree} {path text : Text}
    (h : deliverIn t path text = (.ok (), u)) : ∃ p, u.resolve path = .ok p ∧
      u.get? p = some (.file (String.ofList text).toUTF8) ∧
      ∀ q ≠ p, ∀ c, u.get? q = some (.file c) ↔ t.get? q = some (.file c) := by
  obtain ⟨g, hinstall⟩ := exists_deliverIn_eq t path text
  obtain ⟨v, hv, -, ⟨f, herror⟩ | ⟨p, hplace, hok⟩⟩ :=
    installIn_cases t path (String.ofList text).toUTF8
  · rw [hinstall, herror] at h
    cases h
  · rw [hinstall, hok] at h
    cases h
    exact ⟨p, installed_put hv hplace _⟩

/-- A run on a page in the cache. -/
theorem performIn_of_holds {t : Tree} {a : Arguments} {c : Config} {document : String}
    (hconfig : configIn t a = .ok c) (h : t.Holds c.cachePath.toList document.toUTF8)
    (page : Option String) : performIn t page a =
      match produce a c ⟨document, .cache, c.cachePath⟩ with
      | .error e => (.error e, t)
      | .ok (text, report) =>
        match a.output with
        | none => (.ok (text, report), t)
        | some path =>
          ((deliverIn t path.toList text).1.map fun _ => ([], report),
            (deliverIn t path.toList text).2) := by
  rw [performIn_eq, hconfig]
  dsimp only
  rewrite [loadIn_of_holds h]
  rfl

/-- A command succeeds if its arguments can be used, and then its run, if it is one. -/
theorem commandIn_of_exitCode {t : Tree} {page : Option String} {args : List String}
    (hexit : (commandIn t page args).1.exitCode = 0) :
    ∃ command, Command.ofArguments args = .ok command ∧ ∀ a, command = .run a →
      ∃ stdout stderr u, performIn t page a = (.ok (stdout, stderr), u) ∧
        commandIn t page args = ({ exitCode := 0, stdout, stderr }, u) := by
  rw [commandIn_eq] at hexit ⊢
  cases hargs : Command.ofArguments args with
  | error e =>
    rw [hargs] at hexit
    cases hexit
  | ok command =>
    refine ⟨command, rfl, ?_⟩
    rintro a rfl
    rw [hargs] at hexit
    dsimp only at hexit ⊢
    rcases hrun : performIn t page a with ⟨e | ⟨stdout, stderr⟩, u⟩
    · rw [hrun] at hexit
      cases hexit
    · exact ⟨stdout, stderr, u, rfl, rfl⟩

theorem produce_eq_ok {a : Arguments} {c : Config} {s : Source} {text report : Text}
    (h : produce a c s = .ok (text, report)) : ∃ compilation,
      compile s.page.toList = .ok compilation ∧
        text = endLine (render c.style (a.format.getD .typescript) compilation.entities) := by
  unfold produce at h
  split at h
  · cases h
  · next compilation hcompile =>
    cases h
    exact ⟨compilation, hcompile, rfl⟩

/-- A run that succeeds while the path of its cache means a file has found its page there. -/
theorem holds_of_performIn {t u : Tree} {page : Option String} {a : Arguments} {c : Config}
    {out : Text × Text} (hconfig : configIn t a = .ok c)
    (hcache : t.isFile c.cachePath.toList = true) (h : performIn t page a = (.ok out, u)) :
    ∃ document : String, t.Holds c.cachePath.toList document.toUTF8 := by
  rw [performIn_eq, hconfig] at h
  have houtcome := outcome_loadIn t c.sourceUrl c.cachePath c.timeout page
  dsimp only at h
  cases hload : loadIn t c.sourceUrl c.cachePath c.timeout page with
  | mk r v =>
    rw [hload] at h houtcome
    cases houtcome with
    | hit hholds => exact ⟨_, hholds⟩
    | unreadable | unfetched | unwritten => cases h
    | written hmissed =>
      rw [hcache] at hmissed
      cases hmissed

/-- Without an output file a run that succeeds changes nothing, and shows what it produced. -/
theorem produce_of_performIn {t u : Tree} {page : Option String} {a : Arguments} {c : Config}
    {document : String} {out : Text × Text} (hnone : a.output = none)
    (hconfig : configIn t a = .ok c) (hholds : t.Holds c.cachePath.toList document.toUTF8)
    (h : performIn t page a = (.ok out, u)) :
    u = t ∧ produce a c ⟨document, .cache, c.cachePath⟩ = .ok out := by
  rw [performIn_of_holds hconfig hholds, hnone] at h
  cases hproduce : produce a c ⟨document, .cache, c.cachePath⟩ with
  | error e =>
    rw [hproduce] at h
    cases h
  | ok out' =>
    rw [hproduce] at h
    cases h
    exact ⟨rfl, rfl⟩

/-- With an output file a run that succeeds delivers there what it would show otherwise. -/
theorem deliverIn_of_performIn {t u : Tree} {page : Option String} {a : Arguments} {c : Config}
    {document path : String} {text report stdout stderr : Text} (hconfig : configIn t a = .ok c)
    (hholds : t.Holds c.cachePath.toList document.toUTF8)
    (hproduce : produce a c ⟨document, .cache, c.cachePath⟩ = .ok (text, report))
    (h : performIn t page (a.directed path) = (.ok (stdout, stderr), u)) :
    stdout = [] ∧ stderr = report ∧ deliverIn t path.toList text = (.ok (), u) := by
  have hconfig' : configIn t (a.directed path) = .ok c := hconfig
  have hproduce' : produce (a.directed path) c ⟨document, .cache, c.cachePath⟩ =
      .ok (text, report) := hproduce
  rw [performIn_of_holds hconfig' hholds, hproduce'] at h
  change ((deliverIn t path.toList text).1.map fun _ => ([], report),
    (deliverIn t path.toList text).2) = _ at h
  rcases hdeliver : deliverIn t path.toList text with ⟨e | _, v⟩
  · rw [hdeliver] at h
    cases h
  · rw [hdeliver] at h
    cases h
    exact ⟨rfl, rfl, rfl⟩

/-- **Main theorem.** A run without output file that finds its page in the cache and succeeds
changes no file, and shows what the page compiles to under its configuration. With an option for
an output file more, if that succeeds too, nothing is shown on the standard output, the same on the
standard error, and the path leads to a file with what was shown before; no other file differs. -/
theorem output_of_run {t : Tree} {page : Option String} {args : List String} {a : Arguments}
    {c : Config} (hargs : Command.ofArguments args = .ok (.run a)) (hnone : a.output = none)
    (hconfig : configIn t a = .ok c) (hcache : t.isFile c.cachePath.toList = true)
    (hexit : (commandIn t page args).1.exitCode = 0) :
    let shown := (commandIn t page args).1
    (∃ (document : String) (compilation : Compilation),
      t.Holds c.cachePath.toList document.toUTF8 ∧ compile document.toList = .ok compilation ∧
        shown.stdout =
          endLine (render c.style (a.format.getD .typescript) compilation.entities)) ∧
    (commandIn t page args).2 = t ∧
    ∀ front back option path page', args = front ++ back → "--" ∉ front →
      Arguments.DirectsTo path option →
      let r := commandIn t page' (front ++ option ++ back)
      r.1.exitCode = 0 → r.1.stdout = [] ∧ r.1.stderr = shown.stderr ∧
        ∃ p, r.2.resolve path.toList = .ok p ∧
          r.2.get? p = some (.file (String.ofList shown.stdout).toUTF8) ∧
          ∀ q ≠ p, ∀ content, r.2.get? q = some (.file content) ↔
            t.get? q = some (.file content) := by
  intro shown
  obtain ⟨command, hcommand, hrun⟩ := commandIn_of_exitCode hexit
  obtain ⟨text, report, u, hperform, hr⟩ := hrun a (Except.ok.inj (hcommand.symm.trans hargs))
  have hshown : shown = { exitCode := 0, stdout := text, stderr := report } :=
    congrArg Prod.fst hr
  obtain ⟨document, hholds⟩ := holds_of_performIn hconfig hcache hperform
  obtain ⟨rfl, hproduce⟩ := produce_of_performIn hnone hconfig hholds hperform
  obtain ⟨compilation, hcompile, htext⟩ := produce_eq_ok hproduce
  rw [hshown]
  refine ⟨⟨document, compilation, hholds, hcompile, htext⟩, congrArg Prod.snd hr, ?_⟩
  rintro front back option path page' rfl hfront hoption r hexit'
  obtain ⟨command', hcommand', hrun'⟩ := commandIn_of_exitCode hexit'
  have hdirected := Command.ofArguments_insert hargs hnone hfront hoption hcommand'
  obtain ⟨stdout, stderr, v, hperform', hr'⟩ := hrun' _ hdirected
  obtain ⟨rfl, rfl, hdeliver⟩ := deliverIn_of_performIn hconfig hholds hproduce hperform'
  have hv : r = ({ exitCode := 0, stdout := [], stderr }, v) := hr'
  rw [hv]
  exact ⟨rfl, rfl, exists_installed_of_deliverIn hdeliver⟩

/-- The output replaces the page that it was compiled from. -/
theorem output_of_run_onto_cache :
    let t := ({} : Tree).put ["page".toList] (.file "<h4>Pet</h4>".toUTF8)
    (commandIn t none (["page"] ++ ["--report"])).1.exitCode = 0 ∧
      (commandIn t none (["page"] ++ ["--output", "page"] ++ ["--report"])).1.stdout = [] ∧
      (commandIn t none (["page"] ++ ["--output", "page"] ++ ["--report"])).2.Holds "page".toList
        (String.ofList (commandIn t none (["page"] ++ ["--report"])).1.stdout).toUTF8 := by
  intro t
  have hexit : (commandIn t none (["page"] ++ ["--report"])).1.exitCode = 0 := by decide +kernel
  have hexit' : (commandIn t none
      (["page"] ++ ["--output", "page"] ++ ["--report"])).1.exitCode = 0 := by decide +kernel
  let a : Arguments := { cache := some "page", report := true }
  have hargs : Command.ofArguments (["page"] ++ ["--report"]) = .ok (.run a) := by decide +kernel
  have hconfig : configIn t a = .ok { cachePath := "page" } := by decide +kernel
  have hcache : t.isFile "page".toList = true := by decide +kernel
  obtain ⟨hstdout, -, p, hresolve, hp, -⟩ :=
    (output_of_run hargs rfl hconfig hcache hexit).2.2
      ["page"] ["--report"] _ "page" none rfl (by decide) .apart hexit'
  exact ⟨hexit, hstdout, p, hresolve, hp⟩

end Run

end DocTypes
