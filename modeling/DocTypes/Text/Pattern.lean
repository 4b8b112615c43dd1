/-
  Patterns: readers of a piece at the front of a text, and the searches built on them.
  A tail may read nothing; a pattern reads at least one character, so that cutting a text at a
  pattern, or replacing what the pattern reads, ends. The `read` lemmas say what is left after a
  composed reader.
-/
import DocTypes.Text.Basic
import DocTypes.Text.Word

namespace DocTypes

open Text

/-- Reads a possibly empty piece at the front of a text: gives how many characters it has. -/
structure Tail where
  span? : Text → Option Nat
  span_le : ∀ {s n}, span? s = some n → n ≤ s.length

/-- Reads a nonempty piece at the front of a text: gives how many characters it has. -/
structure Pattern extends Tail where
  span_pos : ∀ {s n}, span? s = some n → 0 < n

namespace Tail

/-- What follows the piece. -/
def read (t : Tail) (s : Text) : Option Text := (t.span? s).map fun n => s.drop n

/-- The piece. -/
def piece? (t : Tail) (s : Text) : Option Text := (t.span? s).map fun n => s.take n

theorem suffix (t : Tail) {s r : Text} (h : t.read s = some r) : r <:+ s := by
  obtain ⟨n, _, rfl⟩ := Option.map_eq_some_iff.1 h
  exact List.drop_suffix n s

/-- All leading characters with the property `p`. -/
def many (p : Char → Bool) : Tail where
  span? s := some (s.takeWhile p).length
  span_le h := by
    simp only [Option.some.injEq] at h
    exact h ▸ (List.takeWhile_prefix p).length_le

/-- Nothing, at the end of the text only. -/
def atEnd : Tail where
  span? s := if s.isEmpty then some 0 else none
  span_le h := by
    split at h <;> simp at h
    omega

/-- Nothing, where no word character follows. -/
def wordEnd : Tail where
  span? s := if s.head?.any isWord then none else some 0
  span_le h := by
    split at h <;> simp at h
    omega

/-- First `a`, then `b`. -/
def followedBy (a b : Tail) : Tail where
  span? s := (a.span? s).bind fun n => (b.span? (s.drop n)).map (n + ·)
  span_le h := by
    obtain ⟨n, hn, h⟩ := Option.bind_eq_some_iff.1 h
    obtain ⟨m, hm, rfl⟩ := Option.map_eq_some_iff.1 h
    have h1 := a.span_le hn
    have h2 := b.span_le hm
    rw [List.length_drop] at h2
    omega

/-- What `a` reads, or where it does not fit, what `b` reads. -/
def or (a b : Tail) : Tail where
  span? s := (a.span? s).or (b.span? s)
  span_le h := by
    rcases Option.or_eq_some_iff.1 h with h | ⟨_, h⟩
    · exact a.span_le h
    · exact b.span_le h

/-- What `a` reads, or nothing where it does not fit. -/
def optional (a : Tail) : Tail where
  span? s := some ((a.span? s).getD 0)
  span_le {s n} h := by
    simp only [Option.some.injEq] at h
    cases ha : a.span? s with
    | none => simp [ha] at h; omega
    | some m => simp only [ha, Option.getD_some] at h; exact h ▸ a.span_le ha

/-- Everything through the end of the first place where `a` fits. -/
def spanThrough (a : Tail) : Text → Option Nat
  | [] => a.span? []
  | c :: s => (a.span? (c :: s)).or ((spanThrough a s).map (· + 1))

theorem spanThrough_le (a : Tail) {s : Text} {n : Nat} (h : a.spanThrough s = some n) :
    n ≤ s.length := by
  induction s generalizing n with
  | nil => exact a.span_le h
  | cons c s ih =>
    rcases Option.or_eq_some_iff.1 h with h | ⟨_, h⟩
    · exact a.span_le h
    · obtain ⟨m, hm, rfl⟩ := Option.map_eq_some_iff.1 h
      have := ih hm
      simp; omega

@[inherit_doc spanThrough]
def through (a : Tail) : Tail where
  span? := a.spanThrough
  span_le := a.spanThrough_le

@[simp] theorem read_many (p : Char → Bool) (s : Text) :
    (many p).read s = some (s.dropWhile p) := by
  simp only [read, many, Option.map_some, Option.some.injEq]
  induction s with
  | nil => rfl
  | cons c s ih => by_cases h : p c <;> simp [h, ih]

@[simp] theorem read_followedBy (a b : Tail) (s : Text) :
    (a.followedBy b).read s = (a.read s).bind b.read := by
  simp only [read, followedBy]
  cases a.span? s with
  | none => rfl
  | some n => simp [Function.comp_def, read]

@[simp] theorem read_or (a b : Tail) (s : Text) :
    (a.or b).read s = (a.read s).or (b.read s) := by
  simp only [read, or]
  cases a.span? s <;> rfl

@[simp] theorem read_optional (a : Tail) (s : Text) :
    a.optional.read s = some ((a.read s).getD s) := by
  simp only [read, optional]
  cases a.span? s <;> simp

theorem read_through_cons (a : Tail) (c : Char) (s : Text) :
    a.through.read (c :: s) = (a.read (c :: s)).or (a.through.read s) := by
  simp only [read, through, spanThrough]
  cases a.span? (c :: s) with
  | none => cases a.spanThrough s <;> simp
  | some n => rfl

end Tail

namespace Pattern

theorem shorter (p : Pattern) {s r : Text} (h : p.read s = some r) : r.length < s.length := by
  obtain ⟨n, hn, rfl⟩ := Option.map_eq_some_iff.1 h
  have h1 := p.span_pos hn
  have h2 := p.span_le hn
  rw [List.length_drop]
  omega

theorem drop_shorter (p : Pattern) {s : Text} {n : Nat} (h : p.span? s = some n) :
    (s.drop n).length < s.length :=
  p.shorter (by rw [Tail.read, h]; rfl)

/-- One character with the property `p`. -/
def one (p : Char → Bool) : Pattern where
  span? s := if s.head?.any p then some 1 else none
  span_le {s n} h := by
    cases s with
    | nil => simp at h
    | cons c s =>
      split at h
      · simp only [Option.some.injEq] at h; simp; omega
      · simp at h
  span_pos h := by
    split at h <;> simp at h
    omega

/-- The given character. -/
def char (c : Char) : Pattern := one (· == c)

/-- The word `w`, each character compared through `key`. -/
def like (key : Char → Char) (w : Text) (h : w ≠ []) : Pattern where
  span? s := (after? key w s).map fun _ => w.length
  span_le hn := by
    obtain ⟨r, hr, rfl⟩ := Option.map_eq_some_iff.1 hn
    have := (after?_suffix hr).2
    omega
  span_pos hn := by
    obtain ⟨r, _, rfl⟩ := Option.map_eq_some_iff.1 hn
    exact List.length_pos_iff.2 h

/-- The word `w` as it stands. -/
def exactly (w : Text) (h : w ≠ [] := by decide) : Pattern := like id w h

/-- The word `w`, given in lower case, in any letter case. -/
def anyCase (w : Text) (h : w ≠ [] := by decide) : Pattern := like foldCase w h

/-- First the pattern, then what `b` reads. -/
def followedBy (a : Pattern) (b : Tail) : Pattern where
  toTail := a.toTail.followedBy b
  span_pos h := by
    obtain ⟨n, hn, h⟩ := Option.bind_eq_some_iff.1 h
    obtain ⟨m, _, rfl⟩ := Option.map_eq_some_iff.1 h
    have := a.span_pos hn
    omega

/-- What `a` reads, or where it does not fit, what `b` reads. -/
def or (a b : Pattern) : Pattern where
  toTail := a.toTail.or b.toTail
  span_pos h := by
    rcases Option.or_eq_some_iff.1 h with h | ⟨_, h⟩
    · exact a.span_pos h
    · exact b.span_pos h

/-- A tail first, then the pattern. -/
def after (a : Pattern) (b : Tail) : Pattern where
  toTail := b.followedBy a.toTail
  span_pos h := by
    obtain ⟨n, _, h⟩ := Option.bind_eq_some_iff.1 h
    obtain ⟨m, hm, rfl⟩ := Option.map_eq_some_iff.1 h
    have := a.span_pos hm
    omega

/-- One or more characters with the property `p`. -/
def many1 (p : Char → Bool) : Pattern := (one p).followedBy (Tail.many p)

@[simp] theorem read_one_cons (p : Char → Bool) (c : Char) (s : Text) :
    (one p).read (c :: s) = if p c then some s else none := by
  by_cases h : p c <;> simp [Tail.read, one, h]

@[simp] theorem read_like (key : Char → Char) (w : Text) (h : w ≠ []) (s : Text) :
    (like key w h).read s = after? key w s := by
  simp only [Tail.read, like, Option.map_map]
  cases hr : after? key w s with
  | none => rfl
  | some r =>
    obtain ⟨⟨t, rfl⟩, hl⟩ := after?_suffix hr
    have hw : w.length = t.length := by
      rw [List.length_append] at hl
      omega
    simp [hw]

/-- Writes `f piece` for every piece that the pattern reads, from left to right, and keeps all
other characters. -/
def substitute (p : Pattern) (f : Text → Text) : Text → Text
  | [] => []
  | c :: s =>
    match _h : p.span? (c :: s) with
    | some n => f ((c :: s).take n) ++ p.substitute f ((c :: s).drop n)
    | none => c :: p.substitute f s
termination_by s => s.length
decreasing_by
  · exact p.drop_shorter _h
  · exact Nat.lt_succ_self _

/-- Writes `new` for every piece that the pattern reads. -/
def replace (p : Pattern) (new : Text) (s : Text) : Text := p.substitute (fun _ => new) s

/-- The texts between the pieces that the pattern reads. -/
def split (p : Pattern) : Text → List Text
  | [] => [[]]
  | c :: s =>
    match _h : p.span? (c :: s) with
    | some n => [] :: p.split ((c :: s).drop n)
    | none => consHead c (p.split s)
termination_by s => s.length
decreasing_by
  · exact p.drop_shorter _h
  · exact Nat.lt_succ_self _

end Pattern

/-- A place in a text where a pattern fits. -/
structure Occurrence where
  /-- What lies before, last character first. -/
  back : Text
  found : Text
  after : Text

/-- What lies before the place. -/
def Occurrence.before (o : Occurrence) : Text := o.back.reverse

namespace Pattern

/-- The places where the pattern fits at the start of a word, from left to right and without
overlap; `back` holds what lies before, last character first. -/
def occurrencesFrom (p : Pattern) (back : Text) : Text → List Occurrence
  | [] => []
  | c :: s =>
    if back.head?.any isWord then p.occurrencesFrom (c :: back) s
    else
      match _h : p.span? (c :: s) with
      | some n =>
        let found := (c :: s).take n
        let after := (c :: s).drop n
        ⟨back, found, after⟩ :: p.occurrencesFrom (found.reverse ++ back) after
      | none => p.occurrencesFrom (c :: back) s
termination_by s => s.length
decreasing_by
  · exact Nat.lt_succ_self _
  · exact p.drop_shorter _h
  · exact Nat.lt_succ_self _

@[inherit_doc occurrencesFrom]
def occurrences (p : Pattern) (s : Text) : List Occurrence := p.occurrencesFrom [] s

theorem substitute_nil (p : Pattern) (f : Text → Text) : p.substitute f [] = [] := by
  rw [substitute]

theorem substitute_of_span (p : Pattern) (f : Text → Text) {s : Text} {n : Nat}
    (h : p.span? s = some n) : p.substitute f s = f (s.take n) ++ p.substitute f (s.drop n) := by
  cases s with
  | nil => have := p.drop_shorter h; simp at this
  | cons c s =>
    rw [substitute]
    split
    · next m h' => rw [h] at h'; simp only [Option.some.injEq] at h'; rw [h']
    · next h' => rw [h] at h'; simp at h'

theorem substitute_cons_of_none (p : Pattern) (f : Text → Text) {c : Char} {s : Text}
    (h : p.span? (c :: s) = none) : p.substitute f (c :: s) = c :: p.substitute f s := by
  rw [substitute]
  split
  · next h' => rw [h] at h'; simp at h'
  · rfl

theorem split_ne_nil (p : Pattern) (s : Text) : p.split s ≠ [] := by
  cases s with
  | nil => rw [split]; simp
  | cons c s =>
    rw [split]
    split
    · simp
    · cases h : p.split s <;> simp [consHead]

/-- Induction along the pieces that a pattern reads in a text, from left to right. -/
theorem pieces_induction (p : Pattern) {motive : Text → Prop} (nil : motive [])
    (piece : ∀ s n, p.span? s = some n → motive (s.drop n) → motive s)
    (keep : ∀ c s, p.span? (c :: s) = none → motive s → motive (c :: s)) (s : Text) :
    motive s := by
  induction hn : s.length using Nat.strongRecOn generalizing s with
  | ind n ih =>
    subst hn
    cases s with
    | nil => exact nil
    | cons c s =>
      cases h : p.span? (c :: s) with
      | some n => exact piece (c :: s) n h (ih _ (p.drop_shorter h) _ rfl)
      | none => exact keep c s h (ih s.length (Nat.lt_succ_self _) s rfl)

/-- A piece is the shorter, the more pieces there are. -/
theorem length_of_mem_split (p : Pattern) (s : Text) :
    ∀ t ∈ p.split s, t.length + (p.split s).length ≤ s.length + 1 := by
  induction hn : s.length using Nat.strongRecOn generalizing s with
  | ind n ih =>
    subst hn
    cases s with
    | nil => rw [split]; simp
    | cons c s =>
      rw [split]
      split
      · next n hn =>
        have hlt := p.drop_shorter hn
        have ih := ih _ hlt _ rfl
        have hne := p.split_ne_nil ((c :: s).drop n)
        intro t ht
        rcases List.mem_cons.1 ht with rfl | ht
        · obtain ⟨a, ha⟩ := List.exists_mem_of_ne_nil _ hne
          have := ih a ha
          simp only [List.length_nil, List.length_cons] at hlt this ⊢
          omega
        · have := ih t ht
          simp only [List.length_cons] at hlt this ⊢
          omega
      · have ih := ih s.length (by simp) s rfl
        exact fun t ht => by
          have := consHead_bound ih (p.split_ne_nil s) t ht
          simpa using this

end Pattern

end DocTypes
