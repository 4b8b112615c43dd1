/-
  Configuration values that the arguments replace. Each value of the configuration of a run is the
  one of the arguments, or else the one of the file (`get_override`), and only that configuration
  is checked (`invalid?_eq_none_iff`) and used. So two files that differ only in replaced values
  give the same configuration (`override_congr`); the rest of the run reads neither of them and goes
  the same way (`AgreeOff.performIn`), with the same fetch if there is one (`outcome_of_override`).
-/
import DocTypes.Proofs.Network
import DocTypes.Proofs.Storage.Agreement
import DocTypes.Proofs.Text.Lines

namespace DocTypes

open Text

/-! ## The values of a configuration -/

namespace Config

/-- What a value of the key is. -/
abbrev Key.Value : Key → Type
  | sourceUrl | cachePath | registryName => String
  | timeout | width => Nat

/-- The value of a key. -/
def get (c : Config) : (k : Key) → k.Value
  | .sourceUrl => c.sourceUrl
  | .cachePath => c.cachePath
  | .timeout => c.timeout
  | .width => c.width
  | .registryName => c.registryName

/-- A run can work with the value: limits are positive, the address is not blank, and the registry
has the name of a type. Any path will do. -/
def Key.Allows : (k : Key) → k.Value → Prop
  | sourceUrl, url => ∃ c ∈ url.toList, isBlank c = false
  | cachePath, _ => True
  | timeout, seconds => 0 < seconds
  | width, columns => 0 < columns
  | registryName, name => isTypeName name.toList = true

theorem ext_get {c d : Config} (h : ∀ k, d.get k = c.get k) : d = c := by
  obtain ⟨url, path, seconds, columns, name⟩ := c
  obtain rfl := h .sourceUrl
  obtain rfl := h .cachePath
  obtain rfl := h .timeout
  obtain rfl := h .width
  obtain rfl := h .registryName
  rfl

/-- A configuration is valid if each of its values is allowed. -/
theorem invalid?_eq_none_iff {c : Config} : c.invalid? = none ↔ ∀ k : Key, k.Allows (c.get k) := by
  have hkeys : (∀ k : Key, k.Allows (c.get k)) ↔ 0 < c.width ∧ 0 < c.timeout ∧
      (∃ d ∈ c.sourceUrl.toList, isBlank d = false) ∧ isTypeName c.registryName.toList = true := by
    constructor
    · exact fun h => ⟨h .width, h .timeout, h .sourceUrl, h .registryName⟩
    · rintro ⟨hwidth, htimeout, hurl, hname⟩ k
      cases k with
      | sourceUrl => exact hurl
      | cachePath => trivial
      | timeout => exact htimeout
      | width => exact hwidth
      | registryName => exact hname
  have hblank : (trim c.sourceUrl.toList).isEmpty = true ↔
      ¬ ∃ d ∈ c.sourceUrl.toList, isBlank d = false := by
    rw [List.isEmpty_iff, trim_eq_nil_iff]
    simp
  rw [hkeys, Nat.pos_iff_ne_zero, Nat.pos_iff_ne_zero]
  unfold invalid?
  split_ifs <;> simp_all

end Config

namespace Arguments

/-- The value that the arguments give for the key, if they give one. -/
def value? (a : Arguments) : (k : Config.Key) → Option k.Value
  | .sourceUrl => a.url
  | .cachePath => a.cache
  | .timeout => a.timeout
  | .width => a.width
  | .registryName => a.registryName

/-- The arguments come before the file. -/
theorem get_override (a : Arguments) (c : Config) (k : Config.Key) :
    (a.override c).get k = (a.value? k).getD (c.get k) := by
  cases k <;> rfl

/-- Only the values that the arguments leave open count. -/
theorem override_congr {a : Arguments} {c d : Config}
    (h : ∀ k, a.value? k = none → d.get k = c.get k) : a.override d = a.override c := by
  refine Config.ext_get fun k => ?_
  rw [get_override, get_override]
  cases hk : a.value? k with
  | some v => rfl
  | none => rw [h k hk]

end Arguments

/-! ## Runs in trees that agree -/

namespace Tree

open Source Run

variable {p : Place} {t u : Tree}

theorem AgreeOff.installIn (h : AgreeOff p t u) (path : Text) (content : ByteArray) :
    SameStep p (installIn t path content) (installIn u path content) := by
  rw [installIn_eq, installIn_eq]
  cases Path.parent? path with
  | none => exact h.write path content
  | some parent =>
    dsimp only
    refine (h.makeDirs parent).elim fun r v w hvw => ?_
    cases r with
    | ok _ => exact hvw.write path content
    | error f => exact ⟨rfl, hvw⟩

/-- The same page is loaded, unless the path leads to the place itself. -/
theorem AgreeOff.loadIn (h : AgreeOff p t u) {path : String}
    (hpath : t.resolve path.toList ≠ .ok p) (url : String) (seconds : Nat)
    (page : Option String) :
    SameStep p (loadIn t url path seconds page) (loadIn u url path seconds page) := by
  rw [loadIn_eq, loadIn_eq, h.isFile, h.read hpath]
  split_ifs
  · exact ⟨rfl, h⟩
  · cases page with
    | none => exact ⟨rfl, h⟩
    | some page =>
      dsimp only
      refine (h.installIn path.toList page.toUTF8).elim fun r v w hvw => ?_
      cases r <;> exact ⟨rfl, hvw⟩

theorem AgreeOff.deliverIn (h : AgreeOff p t u) (path text : Text) :
    SameStep p (deliverIn t path text) (deliverIn u path text) := by
  rw [deliverIn_eq, deliverIn_eq]
  cases Path.parent? path with
  | none => exact (h.write path _).map _
  | some parent =>
    dsimp only
    refine (h.makeDirs parent).elim fun r v w hvw => ?_
    cases r with
    | ok _ => exact (hvw.write path _).map _
    | error f => exact ⟨rfl, hvw⟩

/-- Under the same configuration two runs go the same way, unless they find their page at the
place. -/
theorem AgreeOff.performIn (h : AgreeOff p t u) {a : Arguments} {c : Config}
    (ht : configIn t a = .ok c) (hu : configIn u a = .ok c)
    (hpath : t.resolve c.cachePath.toList ≠ .ok p) (page : Option String) :
    SameStep p (performIn t page a) (performIn u page a) := by
  rw [performIn_eq, performIn_eq, ht, hu]
  dsimp only
  refine (h.loadIn hpath c.sourceUrl c.timeout page).elim fun r v w hvw => ?_
  cases r with
  | error e => exact ⟨rfl, hvw⟩
  | ok source =>
    dsimp only
    cases produce a c source with
    | error e => exact ⟨rfl, hvw⟩
    | ok out =>
      dsimp only
      cases a.output with
      | none => exact ⟨rfl, hvw⟩
      | some path => exact (hvw.deliverIn path.toList out.1).map _

end Tree

namespace Run

open DocTypes.Tree

variable {t u : Tree} {p : Place} {a : Arguments} {c d : Config}

/-- At the place stands a file that gives the configuration. -/
def GivesAt (t : Tree) (p : Place) (c : Config) : Prop :=
  ∃ bytes, t.get? p = some (.file bytes) ∧ Config.ofBytes bytes = .ok c

/-- The arguments name the file at the place as their configuration file. -/
def ConfiguresFrom (a : Arguments) (t : Tree) (p : Place) : Prop :=
  ∃ path, a.config = some path ∧ t.resolve path.toList = .ok p

/-- The configuration of a run is that of its file with the values of the arguments, if that is
valid. -/
theorem configIn_of_givesAt (ha : ConfiguresFrom a t p) (hc : GivesAt t p c) :
    configIn t a = match (a.override c).invalid? with
      | some e => .error (.invalid e)
      | none => .ok (a.override c) := by
  obtain ⟨path, hpath, hresolve⟩ := ha
  obtain ⟨bytes, hfile, hgives⟩ := hc
  have hread : ∀ w : World, (Storage.read path.toList : StateM World _).run w =
    pure (w.tree.read path.toList, w) := fun _ => rfl
  have hbytes : t.read path.toList = .ok bytes := read_eq_ok_iff.2 ⟨p, hresolve, hfile⟩
  have hofRead : Config.ofRead (.ok bytes) = .ok c := hgives
  unfold configIn config
  rw [hpath]
  simp only [StateT.run_bind, hread, pure_bind, hbytes, hofRead]
  rfl

/-! ## The check of the configuration -/

theorem deliverIn_ne_invalid {v : Tree} {path text : Text} {e : Config.Invalid} :
    deliverIn t path text ≠ (.error (.invalid e), v) := by
  have hwrite : ∀ r : Except Fault Unit,
      r.mapError (Failure.write path) ≠ .error (Failure.invalid e) := by
    intro r
    cases r <;> simp [Except.mapError]
  rw [deliverIn_eq]
  split
  · exact fun h => hwrite _ (congrArg Prod.fst h)
  · split
    · exact fun h => hwrite _ (congrArg Prod.fst h)
    · simp

/-- Only the check of its configuration fails a run for its configuration not being valid. -/
theorem Fails.configIn_eq {page : Option String} {e : Config.Invalid} {v : Tree}
    (h : Fails t page a (.invalid e) v) : configIn t a = .error (.invalid e) := by
  cases h with
  | config hconfig => exact hconfig
  | shape _ _ hproduce =>
    unfold produce at hproduce
    split at hproduce <;> cases hproduce
  | output _ _ _ _ hdeliver => exact absurd hdeliver deliverIn_ne_invalid

/-- The wording tells a failed check from every other failure, by its first three letters. -/
theorem exists_invalid_of_message {f : Failure} {e : Config.Invalid}
    (h : f.message = e.message.toList) : ∃ e', f = .invalid e' := by
  have hstart : f.message.take 3 = "inv".toList := by
    unfold Config.Invalid.message at h
    rw [h, String.toList_append]
    rfl
  have hother : ∀ start : Text, f.message.take 3 = start → start ≠ "inv".toList →
      ∃ e', f = .invalid e' := fun start htake hne => absurd (htake.symm.trans hstart) hne
  cases f with
  | invalid e' => exact ⟨e', rfl⟩
  | config path e' =>
    refine hother "Fai".toList ?_ (by decide)
    unfold Failure.message
    dsimp only
    rw [String.toList_append, String.toList_append, String.toList_append]
    rfl
  | source e' =>
    cases e' with
    | storage f' =>
      refine hother "I/O".toList ?_ (by decide)
      unfold Failure.message Source.LoadError.message
      dsimp only
      rw [String.toList_append]
      rfl
    | fetch url =>
      refine hother "fai".toList ?_ (by decide)
      unfold Failure.message Source.LoadError.message
      dsimp only
      rw [String.toList_append, String.toList_append]
      rfl
  -- "inconsistent" shares two letters with "invalid"
  | shape e' => exact hother "inc".toList rfl (by decide)
  | create path f' | write path f' => exact hother "Fai".toList rfl (by decide)

/-- A command that shows a message and leaves with the exit code of a failure has failed in its run,
with that message. -/
theorem exists_failure_of_commandOn {network : Network} {args : List String} {message : Text}
    (hargs : Command.ofArguments args = .ok (.run a))
    (h : commandOn network t args =
      ({ exitCode := 1, stderr := "error: ".toList ++ message ++ ['\n'] }, u)) :
    ∃ f, performOn network t a = (.error f, u) ∧ f.message = message := by
  rw [commandOn_eq, hargs] at h
  dsimp only at h
  rcases hrun : performOn network t a with ⟨f | out, v⟩
  · rw [hrun] at h
    obtain ⟨houtcome, rfl⟩ := Prod.mk.inj h
    have hstderr := congrArg Outcome.stderr houtcome
    exact ⟨f, rfl, List.append_cancel_left (List.append_cancel_right hstderr)⟩
  · rw [hrun] at h
    have hexit := congrArg (fun r : Outcome × Tree => r.1.exitCode) h
    cases hexit

/-- The message of a failed check is shown exactly if the configuration with the values of the
arguments has a value that is not allowed. -/
theorem fails_check_iff (ha : ConfiguresFrom a t p) (hc : GivesAt t p c) {args : List String}
    (hargs : Command.ofArguments args = .ok (.run a)) (network : Network) :
    (∃ e : Config.Invalid, commandOn network t args =
      ({ exitCode := 1, stderr := "error: ".toList ++ e.message.toList ++ ['\n'] }, t)) ↔
      ∃ k : Config.Key, ¬ k.Allows ((a.value? k).getD (c.get k)) := by
  have hconfig := configIn_of_givesAt ha hc
  have hvalid : (a.override c).invalid? = none ↔
      ∀ k : Config.Key, k.Allows ((a.value? k).getD (c.get k)) := by
    simp only [Config.invalid?_eq_none_iff, Arguments.get_override]
  rw [← not_forall, ← hvalid]
  cases hinvalid : (a.override c).invalid? with
  | some e =>
    refine ⟨fun _ => by simp, fun _ => ⟨e, ?_⟩⟩
    rw [hinvalid] at hconfig
    rw [commandOn_eq, hargs]
    dsimp only
    rw [performOn_eq, hconfig]
    rfl
  | none =>
    refine ⟨?_, fun h => absurd rfl h⟩
    rintro ⟨e, he⟩
    -- whatever failed then has another wording
    obtain ⟨f, hrun, hmessage⟩ := exists_failure_of_commandOn hargs he
    obtain ⟨e', rfl⟩ := exists_invalid_of_message hmessage
    rw [hinvalid] at hconfig
    rw [performOn_eq, hconfig] at hrun
    have hfails := (fails_iff.2 hrun).configIn_eq
    rw [hconfig] at hfails
    cases hfails

/-! ## Two configuration files -/

/-- Two files that differ in values of the arguments alone give runs that go the same way, unless
they find their page at the place of the file. -/
theorem performOn_of_override (htrees : AgreeOff p t u) (ha : ConfiguresFrom a t p)
    (hc : GivesAt t p c) (hd : GivesAt u p d) (hopen : ∀ k, a.value? k = none → d.get k = c.get k)
    (hpath : t.resolve (a.override c).cachePath.toList ≠ .ok p) (network : Network) :
    SameStep p (performOn network t a) (performOn network u a) := by
  have ha' : ConfiguresFrom a u p := by
    obtain ⟨path, hpath', hresolve⟩ := ha
    exact ⟨path, hpath', (htrees.resolve _).trans hresolve⟩
  have ht := configIn_of_givesAt ha hc
  have hu := configIn_of_givesAt ha' hd
  rw [Arguments.override_congr hopen] at hu
  rw [performOn_eq, performOn_eq, ht, hu]
  cases hinvalid : (a.override c).invalid? with
  | some e => exact ⟨rfl, htrees⟩
  | none =>
    rw [hinvalid] at ht hu
    exact htrees.performIn ht hu hpath _

/-- **Main theorem.** Two trees are the same but for the configuration file, and the two files give
the same for every key whose value the arguments leave open. Then the command comes to the same exit
code, standard output and standard error in both, and all other files are the same after it, unless
the path of the cache leads to the configuration file. The command fails the check of its
configuration exactly if one of the values of the arguments, or of the file where those leave it
open, is not allowed. -/
theorem outcome_of_override (htrees : AgreeOff p t u) (hc : GivesAt t p c) (hd : GivesAt u p d)
    {args : List String} (hargs : ∀ a, Command.ofArguments args = .ok (.run a) →
      ConfiguresFrom a t p ∧ (∀ k, a.value? k = none → d.get k = c.get k) ∧
        t.resolve (a.override c).cachePath.toList ≠ .ok p) (network : Network) :
    let r := commandOn network t args
    let s := commandOn network u args
    s.1 = r.1 ∧ (∀ q ≠ p, s.2.get? q = r.2.get? q) ∧
      ∀ a, Command.ofArguments args = .ok (.run a) →
        ((∃ e : Config.Invalid,
          r = ({ exitCode := 1, stderr := "error: ".toList ++ e.message.toList ++ ['\n'] }, t)) ↔
            ∃ k : Config.Key, ¬ k.Allows ((a.value? k).getD (c.get k))) := by
  intro r s
  have hsame : SameStep p r s := by
    show SameStep p (commandOn network t args) (commandOn network u args)
    rw [commandOn_eq, commandOn_eq]
    cases hcommand : Command.ofArguments args with
    | error e => exact ⟨rfl, htrees⟩
    | ok command =>
      cases command with
      | help | version => exact ⟨rfl, htrees⟩
      | run a =>
        obtain ⟨ha, hopen, hpath⟩ := hargs a hcommand
        dsimp only
        refine (performOn_of_override htrees ha hc hd hopen hpath network).elim
          fun x v w hvw => ?_
        cases x <;> exact ⟨rfl, hvw⟩
  exact ⟨hsame.1, hsame.2.get?, fun a ha => fails_check_iff (hargs a ha).1 hc ha network⟩

/-- A file with a blank address and no time for a fetch, whose values the arguments replace, and a
file with another path for the cache: the page is fetched and compiled the same under both. -/
theorem outcome_of_override_blankUrl :
    let invalid : Config := { sourceUrl := " ", timeout := 0, registryName := "Api" }
    let t := ({} : Tree).put ["conf".toList]
      (.file "source_url: ' '\ntimeout_secs: 0\nregistry_name: Api\n".toUTF8)
    let u := ({} : Tree).put ["conf".toList]
      (.file "cache_path: old\nregistry_name: Api\n".toUTF8)
    let args := ["page", "--config", "conf", "--url", "http://api", "--timeout", "5"]
    let a : Arguments :=
      { cache := some "page", config := some "conf", url := some "http://api", timeout := some 5 }
    let network : Network := fun url seconds =>
      if url = "http://api" ∧ seconds = 5 then some "<h4>Pet</h4>" else none
    GivesAt t ["conf".toList] invalid ∧ invalid.invalid? = some .zeroTimeout ∧
      Command.ofArguments args = .ok (.run a) ∧ (commandOn network t args).1.exitCode = 0 ∧
      (commandOn network u args).1 = (commandOn network t args).1 ∧
      (commandOn network u args).2.get? ["page".toList] =
        (commandOn network t args).2.get? ["page".toList] ∧
      ∀ k : Config.Key, k.Allows ((a.value? k).getD (invalid.get k)) := by
  intro invalid t u args a network
  have hargs : Command.ofArguments args = .ok (.run a) := by decide +kernel
  have hplace : ["conf".toList] ≠ ([] : Place) := by simp
  have ht : GivesAt t ["conf".toList] invalid :=
    ⟨_, get?_put_self hplace, by decide +kernel⟩
  have hu : GivesAt u ["conf".toList] { cachePath := "old", registryName := "Api" } :=
    ⟨_, get?_put_self hplace, by decide +kernel⟩
  have hnames : ∀ b, Command.ofArguments args = .ok (.run b) →
      ConfiguresFrom b t ["conf".toList] ∧
        (∀ k, b.value? k = none → Config.get { cachePath := "old", registryName := "Api" } k =
          invalid.get k) ∧
        t.resolve (b.override invalid).cachePath.toList ≠ .ok ["conf".toList] := by
    intro b hb
    obtain rfl : a = b := by simpa [hargs] using hb
    refine ⟨⟨"conf", rfl, by decide +kernel⟩, fun k hk => ?_, by decide +kernel⟩
    cases k with
    | sourceUrl | cachePath | timeout => cases hk
    | width | registryName => rfl
  have hexit : (commandOn network t args).1.exitCode = 0 := by decide +kernel
  obtain ⟨hsame, hfiles, hcheck⟩ :=
    outcome_of_override (agreeOff_put {} hplace _ _) ht hu hnames network
  refine ⟨ht, by decide +kernel, hargs, hexit, hsame, hfiles _ (by decide), fun k => ?_⟩
  by_contra hk
  obtain ⟨e, he⟩ := (hcheck a hargs).2 ⟨k, hk⟩
  have hone : (commandOn network t args).1.exitCode = 1 := by rw [he]
  exact Nat.zero_ne_one (hexit.symm.trans hone)

end Run

end DocTypes
