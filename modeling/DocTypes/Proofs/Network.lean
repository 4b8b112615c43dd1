/-
  Runs with a network. A world holds the one page that a fetch receives; a network gives a page for
  each address and each limit of time. What a run asks the network for is the page at the address of
  its configuration, within the time of that configuration, and nothing else, so a run with a
  network is a run in the world with that page (`performOn_eq`, `commandOn_eq`).
-/
import DocTypes.Proofs.Run

namespace DocTypes

/-- The page that a network gives at an address, if it does so within so many seconds. -/
abbrev Network := String → Nat → Option String

/-- A tree of files with a network. -/
structure Online where
  tree : Tree
  network : Network

namespace Online

/-- Runs an operation on the tree. -/
def onTree {α : Type} (f : Tree → α × Tree) : StateM Online α := fun o =>
  let (a, t) := f o.tree
  (a, { o with tree := t })

instance : Storage (StateM Online) where
  isFile path := onTree fun t => (t.isFile path, t)
  read path := onTree fun t => (t.read path, t)
  makeDirs path := onTree fun t => t.makeDirs path
  write path content := onTree fun t => t.write path content
  fetch url seconds := fun o => (o.network url seconds, o)

/-- The world in which every fetch receives the page at the address. -/
def world (url : String) (seconds : Nat) (o : Online) : World := ⟨o.tree, o.network url seconds⟩

/-! ## Programs in the world of one page -/

variable {α β : Type} {url : String} {seconds : Nat}

/-- With the network the first program does what the second does in the world of the page. -/
def Follows (url : String) (seconds : Nat) (x : StateM Online α) (y : StateM World α) : Prop :=
  ∀ o, y.run (o.world url seconds) = pure ((x.run o).1, (x.run o).2.world url seconds)

theorem Follows.pure (a : α) :
    Follows url seconds (pure a : StateM Online α) (pure a : StateM World α) := fun _ => rfl

/-- The second steps count where the first ones lead to. -/
theorem Follows.run_bind {x : StateM Online α} {y : StateM World α} {f : α → StateM Online β}
    {g : α → StateM World β} (h : Follows url seconds x y) {o : Online}
    (hnext : Follows url seconds (f (x.run o).1) (g (x.run o).1)) :
    (y >>= g).run (o.world url seconds) =
      Pure.pure (((x >>= f).run o).1, ((x >>= f).run o).2.world url seconds) := by
  rw [StateT.run_bind, StateT.run_bind, h o, pure_bind]
  exact hnext _

theorem Follows.bind {x : StateM Online α} {y : StateM World α} {f : α → StateM Online β}
    {g : α → StateM World β} (h : Follows url seconds x y)
    (hnext : ∀ a, Follows url seconds (f a) (g a)) : Follows url seconds (x >>= f) (y >>= g) :=
  fun _ => h.run_bind (hnext _)

/-- Whatever is done to the tree alone is the same. -/
theorem follows_onTree (f : Tree → α × Tree) :
    Follows url seconds (onTree f) (World.onTree f) := fun _ => rfl

theorem follows_fetch : Follows url seconds
    (Storage.fetch url seconds : StateM Online _) (Storage.fetch url seconds : StateM World _) :=
  fun _ => rfl

theorem follows_install (path : Text) (content : ByteArray) : Follows url seconds
    (Source.install path content : StateM Online _)
    (Source.install path content : StateM World _) := by
  unfold Source.install
  cases Path.parent? path with
  | none => exact follows_onTree _
  | some parent =>
    refine (follows_onTree _).bind fun r => ?_
    cases r with
    | ok _ => exact follows_onTree _
    | error f => exact .pure _

/-- A load asks for the page of its own address and time. -/
theorem follows_load (path : String) : Follows url seconds
    (Source.load url path seconds : StateM Online _)
    (Source.load url path seconds : StateM World _) := by
  unfold Source.load
  refine (follows_onTree _).bind fun isFile => ?_
  cases isFile with
  | true =>
    refine (follows_onTree _).bind fun r => ?_
    cases r with
    | error f => exact .pure _
    | ok bytes =>
      dsimp only
      cases String.fromUTF8? bytes <;> exact .pure _
  | false =>
    refine follows_fetch.bind fun page => ?_
    cases page with
    | none => exact .pure _
    | some page =>
      refine (follows_install _ _).bind fun r => ?_
      cases r <;> exact .pure _

theorem follows_deliver (path text : Text) : Follows url seconds
    (Run.deliver path text : StateM Online _) (Run.deliver path text : StateM World _) := by
  unfold Run.deliver
  cases Path.parent? path with
  | none => exact (follows_onTree _).bind fun _ => .pure _
  | some parent =>
    refine (follows_onTree _).bind fun r => ?_
    cases r with
    | ok _ => exact (follows_onTree _).bind fun _ => .pure _
    | error f => exact .pure _

theorem follows_config (a : Arguments) : Follows url seconds
    (Run.config a : StateM Online _) (Run.config a : StateM World _) := by
  unfold Run.config
  cases a.config with
  | none => exact (Follows.pure _).bind fun _ => .pure _
  | some path =>
    refine (follows_onTree _).bind fun r => ?_
    cases Config.ofRead r <;> exact (Follows.pure _).bind fun _ => .pure _

end Online

namespace Run

open Online

/-- What a command line leaves besides files, and the tree after it, with the network. -/
def commandOn (network : Network) (t : Tree) (args : List String) : Outcome × Tree :=
  let (outcome, o) := (commandLine args : StateM Online _).run ⟨t, network⟩
  (outcome, o.tree)

/-- The result of a run, and the tree after it, with the network. -/
def performOn (network : Network) (t : Tree) (a : Arguments) :
    Except Failure (Text × Text) × Tree :=
  let (r, o) := (perform a : StateM Online _).run ⟨t, network⟩
  (r, o.tree)

/-- A run does what it does in the world of a page, if that is the page of its configuration
wherever it has one. -/
theorem performOn_eq_performIn {network : Network} {t : Tree} {a : Arguments} {url : String}
    {seconds : Nat} (h : ∀ c, configIn t a = .ok c → c.sourceUrl = url ∧ c.timeout = seconds) :
    performOn network t a = performIn t (network url seconds) a := by
  let o : Online := ⟨t, network⟩
  have hconfig : ((config a : StateM Online _).run o).1 = configIn t a := by
    have hfollows := (follows_config a o).symm.trans (run_config (o.world url seconds) a)
    exact congrArg Prod.fst hfollows
  have hrun : (perform a : StateM World _).run (o.world url seconds) =
      pure (((perform a : StateM Online _).run o).1,
        ((perform a : StateM Online _).run o).2.world url seconds) := by
    unfold perform
    refine (follows_config a).run_bind ?_
    -- only now the configuration is known, and with it the page that may be asked for
    rw [hconfig]
    cases hc : configIn t a with
    | error e => exact .pure _
    | ok c =>
      obtain ⟨rfl, rfl⟩ := h c hc
      refine (follows_load _).bind fun r => ?_
      cases r with
      | error e => exact .pure _
      | ok source =>
        dsimp only
        cases produce a c source with
        | error e => exact .pure _
        | ok out =>
          dsimp only
          cases a.output with
          | none => exact .pure _
          | some path => exact (follows_deliver _ _).bind fun _ => .pure _
  exact (congrArg (fun r : Except Failure (Text × Text) × World => (r.1, r.2.tree)) hrun).symm

/-- A run asks the network for the page at the address of its configuration, within the time of
that configuration. -/
theorem performOn_eq (network : Network) (t : Tree) (a : Arguments) : performOn network t a =
    match configIn t a with
    | .error e => (.error e, t)
    | .ok c => performIn t (network c.sourceUrl c.timeout) a := by
  cases hconfig : configIn t a with
  | error e =>
    have hnone : ∀ c, configIn t a = .ok c → c.sourceUrl = "" ∧ c.timeout = 0 := by
      intro c hc
      rw [hconfig] at hc
      cases hc
    rw [performOn_eq_performIn hnone, performIn_eq, hconfig]
  | ok c =>
    refine performOn_eq_performIn fun d hd => ?_
    rw [hconfig] at hd
    cases hd
    exact ⟨rfl, rfl⟩

theorem commandOn_eq (network : Network) (t : Tree) (args : List String) :
    commandOn network t args =
      match Command.ofArguments args with
      | .error e => ({ exitCode := 2, stderr := "error: ".toList ++ e.message ++ ['\n'] }, t)
      | .ok .help => ({ exitCode := 0, stdout := helpText }, t)
      | .ok .version => ({ exitCode := 0, stdout := versionText }, t)
      | .ok (.run a) =>
        match performOn network t a with
        | (.ok (stdout, stderr), u) => ({ exitCode := 0, stdout, stderr }, u)
        | (.error e, u) =>
          ({ exitCode := 1, stderr := "error: ".toList ++ e.message ++ ['\n'] }, u) := by
  unfold commandOn commandLine performOn
  cases Command.ofArguments args with
  | error e => rfl
  | ok command =>
    cases command with
    | help | version => rfl
    | run a =>
      simp only [StateT.run_bind]
      rcases (perform a : StateM Online _).run ⟨t, network⟩ with ⟨e | out, o⟩ <;> rfl

end Run

end DocTypes
