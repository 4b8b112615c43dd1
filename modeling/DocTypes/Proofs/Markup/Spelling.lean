/-
  Tags in the ways in which they are written: a name in any letter case, attributes in an opening
  tag, and spaces and newlines between tags. A pattern that asks for a word fits at a tag only if
  the tag can open with it (`Pattern.Asks`), and the word in question is compared with the name of
  the element, however it is spelt. On one line a tag is again a tag (`OpenTag.flat`), and it shows
  nothing (`OpenTag.shows`, `CloseTag.shows`).
-/
import DocTypes.Proofs.Markup.Escape
import DocTypes.Proofs.Text.Places

/-! ## Words that patterns ask for -/

namespace DocTypes.Pattern

open Text

/-- What the pattern reads opens with one of the words, in any letter case. -/
def Asks (p : Pattern) (ws : List Text) : Prop :=
  ∀ ⦃s⦄, (∀ w ∈ ws, after? foldCase w s = none) → p.span? s = none

theorem asks_anyCase {w : Text} (hw : w ≠ []) : (anyCase w hw).Asks [w] := by
  intro s h
  show (after? foldCase w s).map _ = none
  rw [h w List.mem_cons_self]
  rfl

theorem Asks.followedBy {p : Pattern} {ws : List Text} (hp : p.Asks ws) (t : Tail) :
    (p.followedBy t).Asks ws := by
  intro s h
  show (p.span? s).bind _ = none
  rw [hp h]
  rfl

/-- A pattern does not fit where a text opens with something else than it asks for. -/
theorem Asks.span?_eq_none {p : Pattern} {ws : List Text} (hp : p.Asks ws) {v s : Text}
    (hv : v <+: s.map foldCase) (h : ∀ w ∈ ws, comparable w v = false) : p.span? s = none :=
  hp fun w hw => after?_eq_none hv (h w hw)

end DocTypes.Pattern

/-! ## Tags as they are written -/

namespace DocTypes.Markup

open Text

/-- The elements that tables and lists are made of. -/
inductive ElementName
  | table
  | head
  | row
  | cell (isHeader : Bool)
  | list
  | item
  deriving DecidableEq

/-- The name as it stands in tags, in lower case. -/
def ElementName.text : ElementName → Text
  | table => "table".toList
  | head => "thead".toList
  | row => "tr".toList
  | cell false => "td".toList
  | cell true => "th".toList
  | list => "ul".toList
  | item => "li".toList

/-- The name of an element in some letter case. -/
structure Spelling (n : ElementName) where
  text : Text
  lower_eq : text.map Char.toLower = n.text

/-- The name in lower case. -/
def Spelling.lower (n : ElementName) : Spelling n where
  text := n.text
  lower_eq := by rcases n with _ | _ | _ | (_ | _) | _ | _ <;> rfl

/-- An opening tag. Behind the name there may be attributes, after a blank. -/
structure OpenTag (n : ElementName) where
  name : Spelling n
  attributes : Text
  blank_head : ∀ c ∈ attributes.head?, isBlank c = true
  lt_notMem : '<' ∉ attributes
  gt_notMem : '>' ∉ attributes

/-- A closing tag. -/
structure CloseTag (n : ElementName) where
  name : Spelling n

/-- Spaces and newlines between tags. -/
structure Gap where
  text : Text
  space_or_newline : ∀ c ∈ text, c = ' ' ∨ c = '\n'

variable {n : ElementName} {p : Pattern} {f : Text → Text} {ws : List Text}

def OpenTag.text (t : OpenTag n) : Text := openMark (t.name.text ++ t.attributes)

def CloseTag.text (t : CloseTag n) : Text := closeMark t.name.text

/-! Tags in lower case without attributes, and no gap. -/

def OpenTag.bare (n : ElementName) : OpenTag n where
  name := .lower n
  attributes := []
  blank_head := nofun
  lt_notMem := nofun
  gt_notMem := nofun

def CloseTag.bare (n : ElementName) : CloseTag n := ⟨.lower n⟩

def Gap.empty : Gap := ⟨[], nofun⟩

@[simp]
theorem OpenTag.text_bare : (OpenTag.bare n).text = openMark n.text := by
  simp [bare, text, Spelling.lower]

@[simp]
theorem CloseTag.text_bare : (CloseTag.bare n).text = closeMark n.text := rfl

@[simp]
theorem Gap.text_empty : Gap.empty.text = [] := rfl

/-! ## Names -/

theorem ElementName.isLower_of_mem {c : Char} (h : c ∈ n.text) : c.isLower = true := by
  have hall : ∀ c ∈ n.text, c.isLower = true := by
    rcases n with _ | _ | _ | (_ | _) | _ | _ <;> decide
  exact hall c h

namespace Spelling

variable (w : Spelling n) {c : Char}

theorem isLower_of_mem (h : c ∈ w.text) : c.toLower.isLower = true := by
  refine ElementName.isLower_of_mem (n := n) ?_
  rw [← w.lower_eq]
  exact List.mem_map_of_mem h

/-- A character that is no letter is not in the name. -/
theorem notMem (h : c.toLower.isLower = false) : c ∉ w.text := by
  intro hmem
  rw [w.isLower_of_mem hmem] at h
  cases h

theorem fold_eq : w.text.map foldCase = n.text := by
  rw [← w.lower_eq]
  refine List.map_congr_left fun c hc => foldCase_of_toLower ?_ rfl
  have hlower := isLower_iff.1 (w.isLower_of_mem hc)
  omega

end Spelling

/-! ## Where patterns do not fit -/

theorem asks_lineBreak : lineBreak.Asks ["<br".toList] := (Pattern.asks_anyCase _).followedBy _

theorem read_closeTag (name s : Text) :
    (closeTag name).read s = after? foldCase (closeMark name) s :=
  Pattern.read_like foldCase ('<' :: '/' :: name ++ ['>']) (by simp) s

theorem asks_closeTag (name : Text) : (closeTag name).Asks [closeMark name] :=
  Pattern.asks_anyCase _

namespace OpenTag

variable (t : OpenTag n)

theorem notMem {c : Char} (h : c.toLower.isLower = false) (hc : c ∉ t.attributes) :
    c ∉ t.name.text ++ t.attributes := by
  rw [List.mem_append, not_or]
  exact ⟨t.name.notMem h, hc⟩

theorem span?_eq_none (hp : p.Asks ws) (h : ∀ w ∈ ws, comparable w ('<' :: n.text) = false)
    (rest : Text) : p.span? (t.text ++ rest) = none := by
  refine hp.span?_eq_none ⟨t.attributes.map foldCase ++ ('>' :: rest).map foldCase, ?_⟩ h
  rw [← t.name.fold_eq]
  simp [text, openMark, show foldCase '<' = '<' from rfl]

/-- Behind the name stands a blank or the end of the tag. -/
theorem exists_behind_name (rest : Text) : ∃ c more,
    t.text ++ rest = '<' :: (t.name.text ++ c :: more) ∧ (isBlank c = true ∨ c = '>') := by
  have hblank := t.blank_head
  cases h : t.attributes with
  | nil => exact ⟨'>', rest, by simp [text, openMark, h], Or.inr rfl⟩
  | cons c s =>
    rw [h] at hblank
    exact ⟨c, s ++ '>' :: rest, by simp [text, openMark, h], Or.inl (hblank c rfl)⟩

/-- A tag at which the pattern does not fit stays. -/
theorem rewrites (hp : p.StartsWith '<') (h : ∀ rest, p.span? (t.text ++ rest) = none) :
    p.Rewrites f t.text t.text :=
  rewrites_openMark hp (t.notMem rfl t.lt_notMem) h

end OpenTag

namespace CloseTag

variable (t : CloseTag n)

theorem map_fold_text : t.text.map foldCase = closeMark n.text := by
  rw [← t.name.fold_eq]
  simp [text, closeMark, show foldCase '<' = '<' from rfl, show foldCase '/' = '/' from rfl,
    show foldCase '>' = '>' from rfl]

theorem span?_eq_none (hp : p.Asks ws) (h : ∀ w ∈ ws, comparable w (closeMark n.text) = false)
    (rest : Text) : p.span? (t.text ++ rest) = none := by
  refine hp.span?_eq_none ⟨rest.map foldCase, ?_⟩ h
  rw [List.map_append, t.map_fold_text]

/-- The closing tag of an element is read in whatever case it is written. -/
theorem read_text (rest : Text) : (closeTag n.text).read (t.text ++ rest) = some rest := by
  rw [read_closeTag]
  exact after?_eq_some_iff.2 ⟨t.text, rfl, t.map_fold_text⟩

theorem rewrites (hp : p.StartsWith '<') (h : ∀ rest, p.span? (t.text ++ rest) = none) :
    p.Rewrites f t.text t.text :=
  rewrites_closeMark hp (t.name.notMem rfl) h

end CloseTag

/-! ## What shows -/

theorem read_anyTag {x : Text} (h : '>' ∉ x) (rest : Text) :
    anyTag.read (openMark x ++ rest) = some rest := by
  show ((Pattern.char '<').toTail.followedBy throughClose).read _ = _
  rw [Tail.read_followedBy, openMark, List.cons_append, List.cons_append, Pattern.char,
    Pattern.read_one_cons, if_pos (beq_self_eq_true '<'), List.append_assoc]
  exact Tail.read_through_char h rest

/-- A tag that is no line break shows nothing, whatever stands in it. -/
theorem shows_openMark {x : Text} (hbreak : ∀ rest, lineBreak.span? (openMark x ++ rest) = none)
    (hlt : '<' ∉ x) (hgt : '>' ∉ x) : Shows (openMark x) [] :=
  Shows.tag hbreak (fun rest => Pattern.span?_of_read (read_anyTag hgt rest)) (by simpa using hlt)

theorem OpenTag.span?_lineBreak (t : OpenTag n) (rest : Text) :
    lineBreak.span? (t.text ++ rest) = none := by
  refine t.span?_eq_none asks_lineBreak ?_ rest
  rcases n with _ | _ | _ | (_ | _) | _ | _ <;> decide

theorem CloseTag.span?_lineBreak (t : CloseTag n) (rest : Text) :
    lineBreak.span? (t.text ++ rest) = none := by
  refine t.span?_eq_none asks_lineBreak ?_ rest
  rcases n with _ | _ | _ | (_ | _) | _ | _ <;> decide

theorem OpenTag.shows (t : OpenTag n) : Shows t.text [] :=
  shows_openMark t.span?_lineBreak (t.notMem rfl t.lt_notMem) (t.notMem rfl t.gt_notMem)

theorem CloseTag.shows (t : CloseTag n) : Shows t.text [] :=
  shows_openMark (x := '/' :: t.name.text) t.span?_lineBreak (by simpa using t.name.notMem rfl)
    (by simpa using t.name.notMem rfl)

/-! ## What is read behind a name -/

theorem OpenTag.after?_name (t : OpenTag n) (rest : Text) :
    after? foldCase ('<' :: n.text) (t.text ++ rest) = some (t.attributes ++ '>' :: rest) := by
  refine after?_eq_some_iff.2 ⟨'<' :: t.name.text, by simp [text, openMark], ?_⟩
  rw [List.map_cons, t.name.fold_eq]
  rfl

/-- The end of an opening tag is where its attributes end. -/
theorem OpenTag.read_tagEnd (t : OpenTag n) (rest : Text) :
    tagEnd.read (t.attributes ++ '>' :: rest) = some rest := by
  have hblank := t.blank_head
  have hgt := t.gt_notMem
  rw [tagEnd, Tail.read_or, Pattern.char]
  cases h : t.attributes with
  | nil => rw [List.nil_append, Pattern.read_one_cons, if_pos (beq_self_eq_true '>'), Option.some_or]
  | cons d s =>
    rw [h] at hblank hgt
    rw [List.mem_cons, not_or] at hgt
    rw [List.cons_append, Pattern.read_one_cons, if_neg (by simpa using Ne.symm hgt.1),
      Option.none_or]
    show ((Pattern.one isBlank).toTail.followedBy throughClose).read _ = _
    rw [Tail.read_followedBy, Pattern.read_one_cons, if_pos (hblank d rfl)]
    exact Tail.read_through_char hgt.2 rest

/-- A tag that is not whole does not become so in front of the next one. -/
theorem after?_append_lt {w : Text} (hw : '<' ∉ w) (c : Char) (s more : Text) :
    after? foldCase ('<' :: w) (c :: (s ++ '<' :: more)) =
      (after? foldCase ('<' :: w) (c :: s)).map (· ++ '<' :: more) := by
  rw [after?, after?]
  split
  · exact Pattern.after?_append_cons (c := '<') hw s more
  · rfl

/-- Everything through a closing tag is read, where none stands in front of it. -/
theorem CloseTag.read_through (t : CloseTag n) {content : Text}
    (h : countClose n.text content = 0) (rest : Text) :
    (Tail.through (closeTag n.text).toTail).read (content ++ (t.text ++ rest)) = some rest := by
  have hlt : '<' ∉ '/' :: n.text ++ ['>'] ∧ 's' ∉ closeMark n.text ∧ 'k' ∉ closeMark n.text := by
    rcases n with _ | _ | _ | (_ | _) | _ | _ <;> decide
  induction content with
  | nil =>
    show (Tail.through _).read ('<' :: ('/' :: t.name.text ++ ['>'] ++ rest)) = some rest
    rw [Tail.read_through_cons]
    exact Option.or_eq_some_iff.2 (Or.inl (t.read_text rest))
  | cons c s ih =>
    obtain ⟨hc, hs⟩ := Nat.add_eq_zero_iff.1 h
    have hwhole : after? foldCase (closeMark n.text) (c :: s) = none := by
      rw [← Option.not_isSome_iff_eq_none]
      intro hsome
      exact absurd (hc.symm.trans (if_pos (after?_toLower hlt.2.1 hlt.2.2 hsome))) Nat.zero_ne_one
    have hnone : (closeTag n.text).read (c :: (s ++ (t.text ++ rest))) = none := by
      rw [read_closeTag]
      exact (after?_append_lt hlt.1 c s _).trans (congrArg (Option.map _) hwhole)
    rw [List.cons_append, Tail.read_through_cons, hnone, Option.none_or]
    exact ih hs

/-! ## On one line -/

/-- The tag with a space for each newline. -/
def OpenTag.flat (t : OpenTag n) : OpenTag n where
  name := t.name
  attributes := replaceChar '\n' ' ' t.attributes
  blank_head := by
    cases h : t.attributes with
    | nil => intro c hc; cases hc
    | cons d s =>
      rintro _ ⟨⟩
      dsimp only
      split
      · rfl
      · exact t.blank_head d (by rw [h]; rfl)
  lt_notMem h := (mem_replaceChar h).elim (by decide) fun h => t.lt_notMem h.1
  gt_notMem h := (mem_replaceChar h).elim (by decide) fun h => t.gt_notMem h.1

theorem OpenTag.replace_newline (t : OpenTag n) : replaceChar '\n' ' ' t.text = t.flat.text := by
  have hname : replaceChar '\n' ' ' t.name.text = t.name.text :=
    replaceChar_of_notMem (t.name.notMem rfl)
  unfold OpenTag.text openMark OpenTag.flat
  rw [replaceChar_append, replaceChar_cons, replaceChar_append, hname]
  rfl

theorem CloseTag.replace_newline (t : CloseTag n) : replaceChar '\n' ' ' t.text = t.text :=
  replaceChar_of_notMem (by simpa [text, closeMark] using t.name.notMem rfl)

namespace Gap

variable (g : Gap)

theorem notMem {c : Char} (hspace : c ≠ ' ') (hnewline : c ≠ '\n') : c ∉ g.text :=
  fun h => (g.space_or_newline c h).elim hspace hnewline

/-- The gap with a space for each newline. -/
def flat : Text := replaceChar '\n' ' ' g.text

theorem eq_space_of_mem {c : Char} (h : c ∈ g.flat) : c = ' ' :=
  (mem_replaceChar h).elim id fun h => (g.space_or_newline c h.1).resolve_right h.2

theorem isBlank_of_mem_flat {c : Char} (h : c ∈ g.flat) : isBlank c = true := by
  rw [g.eq_space_of_mem h]
  rfl

theorem notMem_flat {c : Char} (h : c ≠ ' ') : c ∉ g.flat := fun hc => h (g.eq_space_of_mem hc)

theorem lt_notMem : '<' ∉ g.text := g.notMem (by decide) (by decide)

theorem lt_notMem_flat : '<' ∉ g.flat := g.notMem_flat (by decide)

theorem shows_flat : Shows g.flat g.flat :=
  Shows.of_notMem g.lt_notMem_flat (g.notMem_flat (by decide))

end Gap

/-! ## Inert parts -/

/-- The pattern fits at no opening tag but that of a head, and at no closing tag of a whole table
or list. -/
structure Skips (p : Pattern) : Prop where
  startsWith : p.StartsWith '<'
  openTag : ∀ {n} (o : OpenTag n) rest, n ≠ .head → p.span? (o.text ++ rest) = none
  closeTag : ∀ {n} (t : CloseTag n) rest, n = .table ∨ n = .list → p.span? (t.text ++ rest) = none

theorem skips_lineBreak : Skips lineBreak :=
  ⟨startsWith_lineBreak, fun o rest _ => o.span?_lineBreak rest,
    fun t rest _ => t.span?_lineBreak rest⟩

theorem span?_closeTag {m : ElementName} (t : CloseTag n) (h : m ≠ n) (rest : Text) :
    (closeTag m.text).span? (t.text ++ rest) = none := by
  refine t.span?_eq_none (asks_closeTag _) (List.forall_mem_singleton.2 ?_) rest
  revert h
  rcases n with _ | _ | _ | (_ | _) | _ | _ <;>
    rcases m with _ | _ | _ | (_ | _) | _ | _ <;> decide

theorem skips_closeTag {m : ElementName} (htable : m ≠ .table) (hlist : m ≠ .list) :
    Skips (closeTag m.text) where
  startsWith := startsWith_closeTag _
  openTag {n} o rest _ := by
    refine o.span?_eq_none (asks_closeTag _) (List.forall_mem_singleton.2 ?_) rest
    rcases n with _ | _ | _ | (_ | _) | _ | _ <;>
      rcases m with _ | _ | _ | (_ | _) | _ | _ <;> decide
  closeTag t rest h := by
    rcases h with rfl | rfl
    · exact span?_closeTag t htable rest
    · exact span?_closeTag t hlist rest

/-- Patterns that skip tags leave the part as it is, also on one line, where it shows `t`. -/
structure Inert (a t : Text) : Prop where
  rewrites : ∀ {p : Pattern} {f : Text → Text}, Skips p → p.Rewrites f a a
  rewrites_line : ∀ {p : Pattern} {f : Text → Text}, Skips p →
    p.Rewrites f (replaceChar '\n' ' ' a) (replaceChar '\n' ' ' a)
  shows : Shows (replaceChar '\n' ' ' a) t

theorem Inert.append {a t b u : Text} (h : Inert a t) (h' : Inert b u) :
    Inert (a ++ b) (t ++ u) where
  rewrites hp := (h.rewrites hp).append (h'.rewrites hp)
  rewrites_line hp := by
    rw [replaceChar_append]
    exact (h.rewrites_line hp).append (h'.rewrites_line hp)
  shows := by
    rw [replaceChar_append]
    exact h.shows.append h'.shows

theorem inert_openTag (o : OpenTag n) (h : n ≠ .head) : Inert o.text [] where
  rewrites hp := o.rewrites hp.startsWith fun rest => hp.openTag o rest h
  rewrites_line hp := by
    rw [o.replace_newline]
    exact o.flat.rewrites hp.startsWith fun rest => hp.openTag o.flat rest h
  shows := by
    rw [o.replace_newline]
    exact o.flat.shows

theorem inert_closeTag (t : CloseTag n) (h : n = .table ∨ n = .list) : Inert t.text [] where
  rewrites hp := t.rewrites hp.startsWith fun rest => hp.closeTag t rest h
  rewrites_line hp := by
    rw [t.replace_newline]
    exact t.rewrites hp.startsWith fun rest => hp.closeTag t rest h
  shows := by
    rw [t.replace_newline]
    exact t.shows

theorem inert_gap (g : Gap) : Inert g.text g.flat where
  rewrites hp := .of_notMem hp.startsWith g.lt_notMem
  rewrites_line hp := .of_notMem hp.startsWith g.lt_notMem_flat
  shows := g.shows_flat

theorem inert_escape {t : Text} (h : '\n' ∉ t) : Inert (escape t) t := by
  have hline : replaceChar '\n' ' ' (escape t) = escape t :=
    replaceChar_of_notMem (notMem_escape h (by decide))
  refine ⟨fun hp => rewrites_escape hp.startsWith t, fun hp => ?_, ?_⟩ <;> rw [hline]
  · exact rewrites_escape hp.startsWith t
  · exact Shows.escape t

end DocTypes.Markup
