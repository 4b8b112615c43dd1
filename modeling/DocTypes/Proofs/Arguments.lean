/-
  A command line with an output file more. What an argument asks for does not depend on what was
  read before it (`readFrom_cons`). Where no output file is given, naming one beforehand changes
  nothing else (`readFrom_directed`), so an option for the output file may stand anywhere in front
  of the end of the options: either the line cannot be used, since the option came between another
  one and its value, or it says what it said before, with that output file (`readFrom_insert`).
-/
import DocTypes.Arguments

namespace DocTypes

open Text

namespace Arguments

/-! ## Steps -/

/-- What an argument does, with its value. -/
inductive Action where
  | raise (f : Flag)
  | raiseLetters (s : Text)
  | set (s : Setting) (v : Text)
  | setCache (v : Text)

/-- What the arguments say after an action. -/
def Action.apply (a : Arguments) : Action → Except ArgumentError (Arguments ⊕ Command)
  | raise f => a.raise f
  | raiseLetters s => a.raiseLetters s
  | set s v => (a.set s v).map .inl
  | setCache v => (a.setCache v).map .inl

/-- What an argument asks for: an action, a value for a setting, or nothing that is known. -/
inductive Form where
  | action (x : Action)
  | awaiting (s : Setting) (name : Text)
  | fault (e : ArgumentError)

/-- The name of an option, up to the equals sign. -/
def optionName (option : Text) : Text := option.takeWhile (· != '=')

/-- The value behind the equals sign. -/
def optionValue? (option : Text) : Option Text :=
  if (optionName option).length < option.length then
    some (option.drop ((optionName option).length + 1))
  else none

/-- The form of an argument. -/
def form (arg : Text) : Form :=
  match arg with
  | '-' :: '-' :: option =>
    match Flag.ofName? (optionName option), Setting.ofName? (optionName option),
      optionValue? option with
    | some f, _, none => .action (.raise f)
    | some _, _, some _ => .fault (.needlessValue (optionName option))
    | none, none, _ => .fault (.unknown arg)
    | none, some s, some v => .action (.set s v)
    | none, some s, none => .awaiting s (optionName option)
  | '-' :: c :: letters => .action (.raiseLetters (c :: letters))
  | v => .action (.setCache v)

/-- What the first argument does, and the arguments behind it and its value. -/
def taken (arg : Text) (rest : List Text) : Except ArgumentError (Action × List Text) :=
  match form arg with
  | .fault e => .error e
  | .action x => .ok (x, rest)
  | .awaiting s name =>
    match rest with
    | [] => .error (.noValue name)
    | v :: rest => if looksLikeOption v then .error (.noValue name) else .ok (.set s v, rest)

theorem readFrom_option (a : Arguments) {option : Text} (h : option ≠ []) (rest : List Text) :
    readFrom a (('-' :: '-' :: option) :: rest) =
      match Flag.ofName? (optionName option), Setting.ofName? (optionName option) with
      | some f, _ =>
        if (optionValue? option).isSome then .error (.needlessValue (optionName option))
        else goOn (a.raise f) fun a => readFrom a rest
      | none, none => .error (.unknown ('-' :: '-' :: option))
      | none, some s =>
        match optionValue? option, rest with
        | some v, rest => do readFrom (← a.set s v) rest
        | none, [] => .error (.noValue (optionName option))
        | none, v :: rest =>
          if looksLikeOption v then .error (.noValue (optionName option))
          else (do readFrom (← a.set s v) rest) := by
  rw [readFrom]
  · rfl
  · exact fun hnil => h hnil

/-- The first argument is taken with its value, whatever was read before. -/
theorem readFrom_cons (a : Arguments) {arg : Text} (harg : arg ≠ ['-', '-']) (rest : List Text) :
    readFrom a (arg :: rest) =
      match taken arg rest with
      | .error e => .error e
      | .ok (x, rest) => goOn (x.apply a) fun a => readFrom a rest := by
  have hset : ∀ (r : Except ArgumentError Arguments) (f : Arguments → Except ArgumentError Command),
      (do f (← r)) = goOn (r.map Sum.inl) f := fun r f => by cases r <;> rfl
  unfold taken
  fun_cases form arg with
  | case1 option f hvalue hflag =>
    rw [readFrom_option a (fun h => harg (h ▸ rfl)), hflag, hvalue]
    rfl
  | case2 option f v hvalue hflag =>
    rw [readFrom_option a (fun h => harg (h ▸ rfl)), hflag, hvalue]
    rfl
  | case3 option hsetting hflag =>
    rw [readFrom_option a (fun h => harg (h ▸ rfl)), hflag, hsetting]
  | case4 option s v hvalue hsetting hflag =>
    rw [readFrom_option a (fun h => harg (h ▸ rfl)), hflag, hsetting, hvalue]
    exact hset _ _
  | case5 option s hvalue hsetting hflag =>
    rw [readFrom_option a (fun h => harg (h ▸ rfl)), hflag, hsetting, hvalue]
    cases rest with
    | nil => rfl
    | cons v rest =>
      dsimp only
      split
      · rfl
      · exact hset _ _
  | case6 c letters hc =>
    rw [readFrom]
    · rfl
    · exact fun h _ => hc h
    · exact hc
  | case7 _ hoption hletters =>
    rw [readFrom]
    · exact hset _ _
    · exact harg
    · exact hoption
    · exact hletters

theorem suffix_of_taken {arg : Text} {rest rest' : List Text} {x : Action}
    (h : taken arg rest = .ok (x, rest')) : rest' <:+ rest := by
  unfold taken at h
  split at h
  · cases h
  · cases h
    exact List.suffix_refl _
  · split at h
    · cases h
    · split at h
      · cases h
      · cases h
        exact List.suffix_cons _ _

/-- What is taken does not depend on the arguments behind it. -/
theorem taken_append {arg : Text} {rest rest' : List Text} {x : Action}
    (h : taken arg rest = .ok (x, rest')) (more : List Text) :
    taken arg (rest ++ more) = .ok (x, rest' ++ more) := by
  revert h
  unfold taken
  cases form arg with
  | fault e => intro h; cases h
  | action y =>
    intro h
    cases h
    rfl
  | awaiting s name =>
    cases rest with
    | nil => intro h; cases h
    | cons v rest =>
      dsimp only [List.cons_append]
      split
      · intro h; cases h
      · intro h
        cases h
        rfl

/-- An argument that lacks its value does not take an option for it. -/
theorem taken_append_option {arg : Text} {rest : List Text} {e : ArgumentError}
    (h : taken arg rest = .error e) {option : Text} (hoption : looksLikeOption option = true)
    (more : List Text) : ∃ e', taken arg (rest ++ option :: more) = .error e' := by
  revert h
  unfold taken
  cases form arg with
  | fault e => exact fun _ => ⟨e, rfl⟩
  | action x => intro h; cases h
  | awaiting s name =>
    cases rest with
    | nil => exact fun _ => ⟨_, if_pos hoption⟩
    | cons v rest =>
      dsimp only [List.cons_append]
      split
      · exact fun _ => ⟨_, rfl⟩
      · intro h; cases h

/-- Help and the version aside, no flag ends the reading. -/
theorem raise_ne_run (a : Arguments) (f : Flag) (b : Arguments) :
    a.raise f ≠ .ok (.inr (.run b)) := by
  unfold raise
  split
  · simp
  · simp
  · split <;> simp
  · split <;> simp

theorem raiseLetters_ne_run (a : Arguments) (s : Text) (b : Arguments) :
    a.raiseLetters s ≠ .ok (.inr (.run b)) := by
  induction s generalizing a with
  | nil => simp [raiseLetters]
  | cons c s ih =>
    rw [raiseLetters]
    split
    · simp
    · next f _ =>
      split
      · exact ih _
      · exact raise_ne_run a f b

theorem map_inl_eq_ok {r : Except ArgumentError Arguments} {y : Arguments ⊕ Command} :
    r.map Sum.inl = .ok y ↔ ∃ a, r = .ok a ∧ y = .inl a := by
  cases r <;> simp [Except.map, eq_comm]

theorem Action.apply_ne_run (x : Action) (a b : Arguments) :
    x.apply a ≠ .ok (.inr (.run b)) := by
  cases x with
  | raise f => exact raise_ne_run a f b
  | raiseLetters s => exact raiseLetters_ne_run a s b
  | set s v | setCache v =>
    intro h
    obtain ⟨a', -, h⟩ := map_inl_eq_ok.1 h
    cases h

/-- A reading that comes to a run goes on with the arguments that an action leaves. -/
theorem goOn_apply_eq_run {x : Action} {a b : Arguments}
    {f : Arguments → Except ArgumentError Command} :
    goOn (x.apply a) f = .ok (.run b) ↔
      ∃ a', x.apply a = .ok (.inl a') ∧ f a' = .ok (.run b) := by
  rcases hx : x.apply a with e | a' | c
  · simp [goOn]
  · simp [goOn]
  · have hc : c ≠ .run b := by
      rintro rfl
      exact x.apply_ne_run a b hx
    simp [goOn, hc]

/-! ## Naming the output file beforehand

An output file is named once at most. So what was read before matters only to a later option for
the output file, and there is none where none is named in the end. -/

/-- The arguments with the path for their output. -/
def directed (a : Arguments) (path : String) : Arguments := { a with output := some path }

theorem once_eq_ok {α : Type} {old new : Option α} {s : Setting} {v : Text}
    {update : α → Arguments} {a : Arguments} :
    once old new s v update = .ok a ↔ old = none ∧ ∃ x, new = some x ∧ a = update x := by
  cases old <;> cases new <;> simp [once, eq_comm]

variable (path : String)

theorem set_directed {a a' : Arguments} {s : Setting} {v : Text} (h : a.set s v = .ok a')
    (ha' : a'.output = none) :
    a.output = none ∧ (a.directed path).set s v = .ok (a'.directed path) := by
  cases s with
  | output =>
    obtain ⟨-, x, -, rfl⟩ := once_eq_ok.1 h
    cases ha'
  | _ =>
    obtain ⟨hold, x, hnew, rfl⟩ := once_eq_ok.1 h
    exact ⟨ha', once_eq_ok.2 ⟨hold, x, hnew, rfl⟩⟩

theorem setCache_directed {a a' : Arguments} {v : Text} (h : a.setCache v = .ok a')
    (ha' : a'.output = none) :
    a.output = none ∧ (a.directed path).setCache v = .ok (a'.directed path) := by
  unfold setCache at h
  split at h
  · next p hcache hpath =>
    cases h
    refine ⟨ha', ?_⟩
    unfold setCache directed
    simp only [hcache, hpath]
  · cases h
  · cases h

theorem raise_directed {a a' : Arguments} {f : Flag} (h : a.raise f = .ok (.inl a'))
    (ha' : a'.output = none) :
    a.output = none ∧ (a.directed path).raise f = .ok (.inl (a'.directed path)) := by
  cases f with
  | help | version => cases h
  | report | verbose =>
    unfold raise at h ⊢
    dsimp only at h
    split at h
    · cases h
    · next hfree =>
      cases h
      exact ⟨ha', if_neg hfree⟩

theorem raiseLetters_directed {a a' : Arguments} {s : Text}
    (h : a.raiseLetters s = .ok (.inl a')) (ha' : a'.output = none) :
    a.output = none ∧ (a.directed path).raiseLetters s = .ok (.inl (a'.directed path)) := by
  induction s generalizing a with
  | nil =>
    cases h
    exact ⟨ha', rfl⟩
  | cons c s ih =>
    rw [raiseLetters] at h ⊢
    split at h
    · cases h
    · next f hf =>
      split at h
      · next a₁ hraise =>
        obtain ⟨hnone, hletters⟩ := ih h
        obtain ⟨hnone', hraise'⟩ := raise_directed path hraise hnone
        refine ⟨hnone', ?_⟩
        rw [hraise']
        exact hletters
      · next hother => exact absurd h (hother a')

/-- An action that names no output file does the same where one was named before. -/
theorem Action.apply_directed {x : Action} {a a' : Arguments} (h : x.apply a = .ok (.inl a'))
    (ha' : a'.output = none) :
    a.output = none ∧ x.apply (a.directed path) = .ok (.inl (a'.directed path)) := by
  cases x with
  | raise f => exact raise_directed path h ha'
  | raiseLetters s => exact raiseLetters_directed path h ha'
  | set s v =>
    obtain ⟨_, hset, ⟨⟩⟩ := map_inl_eq_ok.1 h
    obtain ⟨hnone, hset'⟩ := set_directed path hset ha'
    exact ⟨hnone, map_inl_eq_ok.2 ⟨_, hset', rfl⟩⟩
  | setCache v =>
    obtain ⟨_, hset, ⟨⟩⟩ := map_inl_eq_ok.1 h
    obtain ⟨hnone, hset'⟩ := setCache_directed path hset ha'
    exact ⟨hnone, map_inl_eq_ok.2 ⟨_, hset', rfl⟩⟩

theorem readPlain_directed {a b : Arguments} {args : List Text}
    (h : readPlain a args = .ok (.run b)) (hb : b.output = none) :
    a.output = none ∧ readPlain (a.directed path) args = .ok (.run (b.directed path)) := by
  induction args generalizing a with
  | nil =>
    cases h
    exact ⟨hb, rfl⟩
  | cons v args ih =>
    rw [readPlain] at h ⊢
    cases hset : a.setCache v with
    | error e =>
      rw [hset] at h
      cases h
    | ok a' =>
      rw [hset] at h
      obtain ⟨hnone, hrest⟩ := ih h
      obtain ⟨hnone', hset'⟩ := setCache_directed path hset hnone
      refine ⟨hnone', ?_⟩
      rw [hset']
      exact hrest

/-- Arguments that name no output file say the same where one was named before. -/
theorem readFrom_directed {a b : Arguments} {args : List Text}
    (h : readFrom a args = .ok (.run b)) (hb : b.output = none) :
    a.output = none ∧ readFrom (a.directed path) args = .ok (.run (b.directed path)) := by
  match args with
  | [] =>
    cases h
    exact ⟨hb, rfl⟩
  | arg :: args =>
    by_cases hend : arg = ['-', '-']
    · subst hend
      exact readPlain_directed path h hb
    · rw [readFrom_cons _ hend] at h ⊢
      split at h
      · cases h
      · next x rest htaken =>
        obtain ⟨a', hx, hrest⟩ := goOn_apply_eq_run.1 h
        have := (suffix_of_taken htaken).length_le
        obtain ⟨hnone, hrest'⟩ := readFrom_directed hrest hb
        obtain ⟨hnone', hx'⟩ := Action.apply_directed path hx hnone
        exact ⟨hnone', goOn_apply_eq_run.2 ⟨_, hx', hrest'⟩⟩
termination_by args.length

/-! ## An option for the output file -/

variable {path : String}

/-- The option gives the path for the output, in one argument or two. -/
inductive DirectsTo (path : String) : List String → Prop
  | apart : DirectsTo path ["--output", path]
  | joined : DirectsTo path ["--output=" ++ path]

/-- Where the option is read, it sets the output file, unless the path is not taken for a value. -/
theorem DirectsTo.exists_cons {option : List String} (h : DirectsTo path option)
    (back : List Text) : ∃ head rest, option.map String.toList ++ back = head :: rest ∧
      looksLikeOption head = true ∧ head ≠ ['-', '-'] ∧
      ((∃ e, taken head rest = .error e) ∨
        taken head rest = .ok (.set .output path.toList, back)) := by
  cases h with
  | apart =>
    have hform : form "--output".toList = .awaiting .output "output".toList := rfl
    refine ⟨"--output".toList, path.toList :: back, rfl, rfl, by decide, ?_⟩
    unfold taken
    rw [hform]
    dsimp only
    split
    · exact Or.inl ⟨_, rfl⟩
    · exact Or.inr rfl
  | joined =>
    have hform : form ("--output=".toList ++ path.toList) = .action (.set .output path.toList) := by
      have hname : optionName ("output=".toList ++ path.toList) = "output".toList := rfl
      have hvalue : optionValue? ("output=".toList ++ path.toList) = some path.toList := by
        unfold optionValue?
        rw [hname, if_pos (by simp)]
        rfl
      show form ('-' :: '-' :: ("output=".toList ++ path.toList)) = _
      rw [form, hname, hvalue]
      rfl
    refine ⟨"--output=".toList ++ path.toList, back, by simp, rfl, by simp, Or.inr ?_⟩
    rw [taken, hform]

/-- The option is read if there is no output file yet, and then there is that one. -/
theorem readFrom_directsTo {a : Arguments} {option : List String} (hoption : DirectsTo path option)
    {back : List Text} {command : Command}
    (h : readFrom a (option.map String.toList ++ back) = .ok command) :
    readFrom (a.directed path) back = .ok command := by
  obtain ⟨head, rest, heq, -, hend, ⟨e, herror⟩ | htaken⟩ := hoption.exists_cons back
  · rw [heq, readFrom_cons _ hend, herror] at h
    cases h
  · rw [heq, readFrom_cons _ hend, htaken] at h
    change goOn ((a.set .output path.toList).map Sum.inl) (fun a => readFrom a back) = _ at h
    cases hset : a.set .output path.toList with
    | error e =>
      rw [hset] at h
      cases h
    | ok a' =>
      obtain ⟨-, x, hpath, rfl⟩ := once_eq_ok.1 hset
      have hx : x = path := by
        unfold path? at hpath
        split at hpath
        · cases hpath
        · rw [← Option.some.inj hpath, String.ofList_toList]
      rw [hset, hx] at h
      exact h

/-- With an option for the output file more, arguments that give none cannot be used, or say what
they said before, with that file. -/
theorem readFrom_insert {a b : Arguments} {front back : List Text}
    (h : readFrom a (front ++ back) = .ok (.run b)) (hb : b.output = none)
    (hfront : ['-', '-'] ∉ front) {option : List String} (hoption : DirectsTo path option)
    {command : Command}
    (hcommand : readFrom a (front ++ (option.map String.toList ++ back)) = .ok command) :
    command = .run (b.directed path) := by
  match front with
  | [] =>
    have hdirected := (readFrom_directed path h hb).2
    rw [List.nil_append] at hdirected hcommand
    exact Except.ok.inj ((readFrom_directsTo hoption hcommand).symm.trans hdirected)
  | arg :: front =>
    have harg : arg ≠ ['-', '-'] := fun heq => hfront (heq ▸ List.mem_cons_self)
    rw [List.cons_append, readFrom_cons _ harg] at h hcommand
    cases htaken : taken arg front with
    | error e =>
      -- an option that lacks its value here would have taken the first argument of `back`
      obtain ⟨head, rest, heq, hlooks, -⟩ := hoption.exists_cons back
      obtain ⟨e', herror⟩ := taken_append_option htaken hlooks rest
      rw [heq, herror] at hcommand
      cases hcommand
    | ok t =>
      obtain ⟨x, front'⟩ := t
      rw [taken_append htaken] at h hcommand
      obtain ⟨a', hx, hrest⟩ := goOn_apply_eq_run.1 h
      dsimp only at hcommand
      rw [hx] at hcommand
      have hsuffix := suffix_of_taken htaken
      have := hsuffix.length_le
      exact readFrom_insert hrest hb
        (fun hmem => hfront (List.mem_cons_of_mem _ (hsuffix.subset hmem))) hoption hcommand
termination_by front.length

end Arguments

@[inherit_doc Arguments.readFrom_insert]
theorem Command.ofArguments_insert {front back option : List String} {a : Arguments}
    {path : String} (h : Command.ofArguments (front ++ back) = .ok (.run a))
    (ha : a.output = none) (hfront : "--" ∉ front) (hoption : Arguments.DirectsTo path option)
    {command : Command} (hcommand : Command.ofArguments (front ++ option ++ back) = .ok command) :
    command = .run (a.directed path) := by
  have hend : ['-', '-'] ∉ front.map String.toList := fun hmem => by
    obtain ⟨arg, harg, heq⟩ := List.mem_map.1 hmem
    obtain rfl : arg = "--" := String.toList_inj.1 heq
    exact hfront harg
  rw [Command.ofArguments, List.map_append] at h
  rw [Command.ofArguments, List.append_assoc, List.map_append, List.map_append] at hcommand
  exact Arguments.readFrom_insert h ha hend hoption hcommand

end DocTypes
