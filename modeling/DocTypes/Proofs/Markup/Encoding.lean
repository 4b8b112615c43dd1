/-
  Characters written as references. A text is encoded character by character: each is kept, or
  written as a reference to its number or by its name (`Encodes`), and what is encoded shows as it
  was, whatever it looks like (`Encodes.shows`). A number is written in digits of either letter
  case behind any zeros, and is read back from them (`IsNumber.numeral_eq`). A reference to a number
  that no character has stays as it is written, and what stands around it is decoded as if it were
  not there (`decodeReferences_void`).
-/
import DocTypes.Proofs.Markup.Escape
import DocTypes.Proofs.Markup.Reference
import DocTypes.Proofs.Text.Places
import Mathlib.Data.List.Induction

namespace DocTypes.Markup

open Text

/-! ## Letter case -/

/-- What does not tell capitals from small letters does not see the letter case. -/
theorem apply_toLower {α : Type} {f : Char → α}
    (h : ∀ n < 26, f (Char.ofNat (n + 0x61)) = f (Char.ofNat (n + 0x41))) (c : Char) :
    f c.toLower = f c := by
  by_cases hc : 0x41 ≤ c.toNat ∧ c.toNat ≤ 0x5a
  · have hall : ∀ n < 26, (Char.ofNat (n + 0x41)).toLower = Char.ofNat (n + 0x61) := by decide
    obtain ⟨n, hn⟩ : ∃ n, c.toNat = n + 0x41 := ⟨c.toNat - 0x41, by omega⟩
    have hcn : c = Char.ofNat (n + 0x41) := by rw [← hn, Char.ofNat_toNat]
    rw [hcn, hall n (by omega), h n (by omega)]
  · unfold Char.toLower
    split
    · next hu =>
      have h1 : 0x41 ≤ c.toNat := UInt32.le_iff_toNat_le.1 hu.1
      have h2 : c.toNat ≤ 0x5a := UInt32.le_iff_toNat_le.1 hu.2
      exact absurd ⟨h1, h2⟩ hc
    · rfl

/-! ## Numbers in digits -/

/-- The digits write the number in the base, in either letter case and behind any zeros. -/
def IsNumber (base : Nat) (ds : Text) (n : Nat) : Prop :=
  ∃ zeros, ds.map Char.toLower = List.replicate zeros '0' ++ Nat.toDigits base n

section Digits

variable {base n : Nat} {ds : Text}

theorem digitValue_digitChar {d : Nat} (h : d < 16) : digitValue (Nat.digitChar d) = d := by
  revert d
  decide

theorem numeral_concat (base : Nat) (ds : Text) (d : Char) :
    numeral base (ds ++ [d]) = numeral base ds * base + digitValue d :=
  List.foldl_append

theorem numeral_toDigits (hbase : 1 < base) (hle : base ≤ 16) (n : Nat) :
    numeral base (Nat.toDigits base n) = n := by
  induction n using Nat.strongRecOn with
  | ind n ih =>
    by_cases hn : n < base
    · rw [Nat.toDigits_of_lt_base hn]
      show 0 * base + digitValue (Nat.digitChar n) = n
      rw [digitValue_digitChar (by omega), Nat.zero_mul, Nat.zero_add]
    · have hlt : n / base < n := Nat.div_lt_self (by omega) hbase
      have hmod : n % base < 16 := Nat.lt_of_lt_of_le (Nat.mod_lt n (by omega)) hle
      rw [Nat.toDigits_of_base_le hbase (by omega), numeral_concat, ih _ hlt,
        digitValue_digitChar hmod, Nat.div_add_mod']

theorem numeral_zeros (base zeros : Nat) (ds : Text) :
    numeral base (List.replicate zeros '0' ++ ds) = numeral base ds := by
  induction zeros with
  | zero => rfl
  | succ zeros ih =>
    rw [List.replicate_succ, List.cons_append, ← ih]
    show List.foldl _ (0 * base + 0) _ = _
    rw [Nat.zero_mul]
    rfl

/-- Reading the digits gives the number that they write. -/
theorem IsNumber.numeral_eq (h : IsNumber base ds n) (hbase : 1 < base) (hle : base ≤ 16) :
    numeral base ds = n := by
  obtain ⟨zeros, hds⟩ := h
  have hvalue : (fun m d => m * base + digitValue d) =
      fun m d => m * base + digitValue (Char.toLower d) :=
    funext₂ fun m d => congrArg (m * base + ·) (apply_toLower (by decide) d).symm
  calc numeral base ds = numeral base (ds.map Char.toLower) := by
        rw [numeral, numeral, List.foldl_map, hvalue]
    _ = n := by rw [hds, numeral_zeros, numeral_toDigits hbase hle]

theorem mem_toDigits {c : Char} (hbase : 1 < base) (h : c ∈ Nat.toDigits base n) :
    ∃ d < base, c = Nat.digitChar d := by
  induction n using Nat.strongRecOn with
  | ind n ih =>
    by_cases hn : n < base
    · rw [Nat.toDigits_of_lt_base hn, List.mem_singleton] at h
      exact ⟨n, hn, h⟩
    · rw [Nat.toDigits_of_base_le hbase (by omega), List.mem_append, List.mem_singleton] at h
      rcases h with h | h
      · exact ih _ (Nat.div_lt_self (by omega) hbase) h
      · exact ⟨n % base, Nat.mod_lt n (by omega), h⟩

/-- In lower case, the digits of a number are the digits of its base. -/
theorem IsNumber.exists_digitChar (h : IsNumber base ds n) (hbase : 1 < base) {c : Char}
    (hc : c ∈ ds) : ∃ d < base, c.toLower = Nat.digitChar d := by
  obtain ⟨zeros, hds⟩ := h
  have hmem : c.toLower ∈ List.replicate zeros '0' ++ Nat.toDigits base n := by
    rw [← hds]
    exact List.mem_map_of_mem hc
  rcases List.mem_append.1 hmem with hzero | hdigit
  · exact ⟨0, by omega, (List.mem_replicate.1 hzero).2⟩
  · exact mem_toDigits hbase hdigit

theorem IsNumber.ne_nil (h : IsNumber base ds n) : ds ≠ [] := by
  rintro rfl
  obtain ⟨zeros, hds⟩ := h
  exact Nat.toDigits_ne_nil (List.append_eq_nil_iff.1 hds.symm).2

/-- Every run of digits of the base writes a number. -/
theorem exists_isNumber (hbase : 1 < base) (hne : ds ≠ [])
    (hds : ∀ c ∈ ds, ∃ d < base, c.toLower = Nat.digitChar d) : ∃ n, IsNumber base ds n := by
  induction ds using List.reverseRecOn with
  | nil => exact absurd rfl hne
  | append_singleton ds c ih =>
    obtain ⟨d, hd, hc⟩ := hds c (by simp)
    have hlast : Nat.toDigits base d = [c.toLower] := by rw [Nat.toDigits_of_lt_base hd, hc]
    by_cases hnil : ds = []
    · exact ⟨d, 0, by rw [hnil, hlast]; rfl⟩
    · obtain ⟨n, zeros, hn⟩ := ih hnil fun e he => hds e (List.mem_append_left _ he)
      by_cases hzero : n = 0
      · refine ⟨d, zeros + 1, ?_⟩
        rw [List.map_append, hn, hzero, Nat.toDigits_zero, List.replicate_succ', hlast]
        rfl
      · refine ⟨base * n + d, zeros, ?_⟩
        rw [List.map_append, hn, ← Nat.toDigits_append_toDigits hbase (by omega) hd, hlast,
          List.append_assoc]
        rfl

end Digits

/-! ## References -/

/-- The ways in which a reference writes a number. -/
inductive Radix
  | decimal
  | hexadecimal (isCapital : Bool)

namespace Radix

def base : Radix → Nat
  | decimal => 10
  | hexadecimal _ => 16

/-- The digits that may stand in a reference. -/
def isDigit : Radix → Char → Bool
  | decimal => Char.isDigit
  | hexadecimal _ => isHexDigit

/-- What stands in front of the digits. -/
def sign : Radix → Text
  | decimal => ['#']
  | hexadecimal false => ['#', 'x']
  | hexadecimal true => ['#', 'X']

theorem one_lt_base (k : Radix) : 1 < k.base := by rcases k with _ | (_ | _) <;> decide

theorem base_le (k : Radix) : k.base ≤ 16 := by rcases k with _ | (_ | _) <;> decide

theorem toNat_lt_of_isDigit {k : Radix} {c : Char} (h : k.isDigit c = true) : c.toNat < 128 := by
  cases k with
  | decimal =>
    have := Text.isDigit_iff.1 h
    omega
  | hexadecimal =>
    have hcases : (c.isDigit = true ∨ 'a' ≤ c ∧ c ≤ 'f') ∨ 'A' ≤ c ∧ c ≤ 'F' := by
      simpa [isDigit, isHexDigit] using h
    rcases hcases with (hc | hc) | hc
    · have := Text.isDigit_iff.1 hc
      omega
    · exact Nat.lt_of_le_of_lt (UInt32.le_iff_toNat_le.1 hc.2) (by decide)
    · exact Nat.lt_of_le_of_lt (UInt32.le_iff_toNat_le.1 hc.2) (by decide)

/-- The digits of a reference are those of its base, in either letter case. -/
theorem isDigit_iff (k : Radix) {c : Char} :
    k.isDigit c = true ↔ ∃ d < k.base, c.toLower = Nat.digitChar d := by
  constructor
  · intro h
    have hall : ∀ n < 128, k.isDigit (Char.ofNat n) = true →
        digitValue (Char.ofNat n) < k.base ∧
          (Char.ofNat n).toLower = Nat.digitChar (digitValue (Char.ofNat n)) := by
      rcases k with _ | (_ | _) <;> decide
    have hc := hall c.toNat (toNat_lt_of_isDigit h)
    rw [Char.ofNat_toNat] at hc
    exact ⟨digitValue c, hc h⟩
  · rintro ⟨d, hd, hc⟩
    have hlower : k.isDigit c.toLower = k.isDigit c :=
      apply_toLower (by rcases k with _ | (_ | _) <;> decide) c
    have hall : ∀ d < k.base, k.isDigit (Nat.digitChar d) = true := by
      rcases k with _ | (_ | _) <;> decide
    rw [← hlower, hc]
    exact hall d hd

end Radix

/-- The reference with the given body. -/
def referenceMark (body : Text) : Text := '&' :: body ++ [';']

/-- The characters that a reference writes by their names. -/
def characterNames : List (Text × Char) := [
  ("amp".toList, '&'), ("lt".toList, '<'), ("gt".toList, '>'), ("quot".toList, '"'),
  ("apos".toList, '\''), ("laquo".toList, '«'), ("raquo".toList, '»'), ("mdash".toList, '—'),
  ("ndash".toList, '–')]

/-- The ways to write a character: as it is, unless it is a markup character, by its number, or by
its name. -/
inductive EncodesChar : Char → Text → Prop
  | kept {c : Char} (hamp : c ≠ '&') (hlt : c ≠ '<') : EncodesChar c [c]
  | number {c : Char} (k : Radix) {ds : Text} (h : IsNumber k.base ds c.toNat) :
    EncodesChar c (referenceMark (k.sign ++ ds))
  | name {c : Char} {name : Text} (h : (name, c) ∈ characterNames) :
    EncodesChar c (referenceMark name)

/-- The text `t` writes `s`, character by character. -/
inductive Encodes : Text → Text → Prop
  | nil : Encodes [] []
  | cons {c : Char} {w s t : Text} (hc : EncodesChar c w) (hs : Encodes s t) :
    Encodes (c :: s) (w ++ t)

/-! ## Reading references -/

theorem read_many1_run {p : Char → Bool} {run rest : Text} (hne : run ≠ [])
    (hrun : ∀ c ∈ run, p c = true) (hrest : ∀ c ∈ rest.head?, p c = false) :
    (Pattern.many1 p).read (run ++ rest) = some rest := by
  obtain ⟨c, run, rfl⟩ := List.exists_cons_of_ne_nil hne
  have hhead : (c :: run ++ rest).head?.any p = true := hrun c List.mem_cons_self
  rw [Pattern.read_many1, if_pos hhead, dropWhile_run hrun hrest]

theorem read_many1_of_head {p : Char → Bool} {c : Char} (hc : p c = false) (s : Text) :
    (Pattern.many1 p).read (c :: s) = none := by
  have hhead : ¬ (c :: s).head?.any p = true := by simp [hc]
  rw [Pattern.read_many1, if_neg hhead]

/-- Behind a number sign stand digits, or hexadecimal ones behind their letter. -/
theorem read_referenceBody_sign (s : Text) :
    referenceBody.read ('#' :: s) = ((Pattern.many1 Char.isDigit).read s).or
      (((Pattern.one fun c => c == 'x' || c == 'X').toTail.followedBy
        (Pattern.many1 isHexDigit).toTail).read s) := by
  have hsign : (Pattern.char '#').read ('#' :: s) = some s := rfl
  have hname : (Pattern.many1 Char.isAlpha).read ('#' :: s) = none := read_many1_of_head rfl s
  show (((Pattern.char '#').toTail.followedBy _).or
    (((Pattern.char '#').toTail.followedBy _).or (Pattern.many1 Char.isAlpha).toTail)).read _ = _
  rw [Tail.read_or, Tail.read_or, Tail.read_followedBy, Tail.read_followedBy, hsign,
    Option.bind_some, Option.bind_some, hname, Option.or_none]

/-- The body of a numeric reference is read up to the semicolon. -/
theorem read_referenceBody_number (k : Radix) {ds : Text} (hne : ds ≠ [])
    (hds : ∀ c ∈ ds, k.isDigit c = true) (rest : Text) :
    referenceBody.read (k.sign ++ ds ++ ';' :: rest) = some (';' :: rest) := by
  have hstop : ∀ c ∈ (';' :: rest).head?, k.isDigit c = false := by
    rintro _ ⟨⟩
    rcases k with _ | (_ | _) <;> rfl
  have hdigits := read_many1_run hne hds hstop
  cases k with
  | decimal =>
    exact (read_referenceBody_sign _).trans (Option.or_eq_some_iff.2 (Or.inl hdigits))
  | hexadecimal isCapital =>
    have hletter : ∃ x, (x = 'x' ∨ x = 'X') ∧ (Radix.hexadecimal isCapital).sign = ['#', x] := by
      cases isCapital
      · exact ⟨'x', Or.inl rfl, rfl⟩
      · exact ⟨'X', Or.inr rfl, rfl⟩
    obtain ⟨x, hx, hsign⟩ := hletter
    have hnone : (Pattern.many1 Char.isDigit).read (x :: (ds ++ ';' :: rest)) = none :=
      read_many1_of_head (by rcases hx with rfl | rfl <;> rfl) _
    have hopen : (Pattern.one fun c => c == 'x' || c == 'X').read (x :: (ds ++ ';' :: rest)) =
        some (ds ++ ';' :: rest) := by
      rw [Pattern.read_one_cons, if_pos (by rcases hx with rfl | rfl <;> rfl)]
    rw [hsign, List.append_assoc]
    refine (read_referenceBody_sign _).trans (Option.or_eq_some_iff.2 (Or.inr ⟨hnone, ?_⟩))
    rw [Tail.read_followedBy]
    exact (congrArg (Option.bind · _) hopen).trans hdigits

theorem read_referenceBody_name {name : Text} {c : Char} (h : (name, c) ∈ characterNames)
    (rest : Text) : referenceBody.read (name ++ ';' :: rest) = some (';' :: rest) := by
  obtain ⟨hne, halpha⟩ : name ≠ [] ∧ ∀ d ∈ name, d.isAlpha = true := by
    have hall : ∀ p ∈ characterNames, p.1 ≠ [] ∧ ∀ d ∈ p.1, d.isAlpha = true := by decide
    exact hall _ h
  have hsign : (Pattern.char '#').read (name ++ ';' :: rest) = none := by
    obtain ⟨d, name, rfl⟩ := List.exists_cons_of_ne_nil hne
    have hd : d ≠ '#' := by
      rintro rfl
      exact absurd (halpha _ List.mem_cons_self) (by decide)
    rw [List.cons_append, Pattern.char, Pattern.read_one_cons, if_neg (by simpa using hd)]
  have hname : (Pattern.many1 Char.isAlpha).read (name ++ ';' :: rest) = some (';' :: rest) :=
    read_many1_run hne halpha (by rintro _ ⟨⟩; rfl)
  show (((Pattern.char '#').toTail.followedBy _).or
    (((Pattern.char '#').toTail.followedBy _).or (Pattern.many1 Char.isAlpha).toTail)).read _ = _
  rw [Tail.read_or, Tail.read_or, Tail.read_followedBy, Tail.read_followedBy, hsign, hname]
  rfl

theorem read_reference {body rest : Text}
    (h : referenceBody.read (body ++ ';' :: rest) = some (';' :: rest)) :
    reference.read (referenceMark body ++ rest) = some rest := by
  show ((Pattern.char '&').toTail.followedBy
    (referenceBody.followedBy (Pattern.char ';').toTail)).read _ = _
  have hopen : (Pattern.char '&').read ('&' :: (body ++ ';' :: rest)) =
      some (body ++ ';' :: rest) := rfl
  have hmark : referenceMark body ++ rest = '&' :: (body ++ ';' :: rest) := by
    simp [referenceMark]
  rw [hmark, Tail.read_followedBy, hopen, Option.bind_some, Tail.read_followedBy, h,
    Option.bind_some]
  rfl

/-! ## What references stand for -/

theorem decodeReference_mark (body : Text) :
    decodeReference (referenceMark body) =
      (denoted? body).elim (referenceMark body) fun c => [c] := by
  have hbody : (referenceMark body).tail.dropLast = body := by simp [referenceMark]
  rw [decodeReference, hbody]
  cases denoted? body <;> rfl

theorem charAt?_toNat (c : Char) : charAt? c.toNat = some c := by
  have hvalid : c.toNat.isValidChar := c.valid
  rw [charAt?, dif_pos hvalid]
  exact congrArg some (Char.toNat_inj.1 rfl)

/-- A numeric reference denotes the character of its number. -/
theorem denoted?_number (k : Radix) {ds : Text} {n : Nat} (h : IsNumber k.base ds n) :
    denoted? (k.sign ++ ds) = charAt? n := by
  rw [← h.numeral_eq k.one_lt_base k.base_le]
  rcases k with _ | (_ | _)
  · obtain ⟨d, ds, rfl⟩ := List.exists_cons_of_ne_nil h.ne_nil
    have hd : Radix.decimal.isDigit d = true :=
      Radix.decimal.isDigit_iff.2 (h.exists_digitChar (by decide) List.mem_cons_self)
    refine denoted?.eq_3 _ ?_ ?_ <;> (rintro _ ⟨⟩; cases hd)
  · rfl
  · rfl

theorem denoted?_name {name : Text} {c : Char} (h : (name, c) ∈ characterNames) :
    denoted? name = some c := by
  have hall : ∀ p ∈ characterNames, denoted? p.1 = some p.2 := by decide
  exact hall _ h

/-! ## Decoding what is encoded -/

section Marks

variable {body : Text}

theorem rewrites_mark (h : ∀ rest, referenceBody.read (body ++ ';' :: rest) = some (';' :: rest)) :
    reference.Rewrites decodeReference (referenceMark body)
      (decodeReference (referenceMark body)) :=
  .of_span fun rest => Pattern.span?_of_read (read_reference (h rest))

/-- A reference shows the character that it denotes. -/
theorem shows_mark {c : Char}
    (h : ∀ rest, referenceBody.read (body ++ ';' :: rest) = some (';' :: rest))
    (hlt : '<' ∉ body) (hc : denoted? body = some c) : Shows (referenceMark body) [c] := by
  have hmark : '<' ∉ referenceMark body := by simpa [referenceMark] using hlt
  refine ⟨.of_notMem startsWith_lineBreak hmark, referenceMark body,
    .of_notMem startsWith_anyTag hmark, ?_⟩
  have hdecode := rewrites_mark h
  rwa [decodeReference_mark, hc, Option.elim_some] at hdecode

end Marks

theorem isDigit_of_isNumber {k : Radix} {ds : Text} {n : Nat} (h : IsNumber k.base ds n) :
    ∀ c ∈ ds, k.isDigit c = true :=
  fun _ hc => k.isDigit_iff.2 (h.exists_digitChar k.one_lt_base hc)

theorem lt_notMem_number {k : Radix} {ds : Text} (h : ∀ c ∈ ds, k.isDigit c = true) :
    '<' ∉ k.sign ++ ds := by
  intro hmem
  rcases List.mem_append.1 hmem with hsign | hds
  · revert hsign
    rcases k with _ | (_ | _) <;> decide
  · have hdigit := h _ hds
    rcases k with _ | (_ | _) <;> cases hdigit

theorem EncodesChar.shows {c : Char} {w : Text} (h : EncodesChar c w) : Shows w [c] := by
  cases h with
  | kept hamp hlt =>
    exact Shows.of_notMem (by simpa using Ne.symm hlt) (by simpa using Ne.symm hamp)
  | number k h =>
    have hds := isDigit_of_isNumber h
    exact shows_mark (read_referenceBody_number k h.ne_nil hds) (lt_notMem_number hds)
      ((denoted?_number k h).trans (charAt?_toNat c))
  | name h =>
    have hlt : ∀ p ∈ characterNames, '<' ∉ p.1 := by decide
    exact shows_mark (read_referenceBody_name h) (hlt _ h) (denoted?_name h)

/-- What is encoded shows as it was. -/
theorem Encodes.shows {s t : Text} (h : Encodes s t) : Shows t s := by
  induction h with
  | nil => exact Shows.nil
  | cons hc _ ih => exact hc.shows.append ih

/-! ## References to no character -/

/-- An `&` opens a reference and is nowhere else in it. -/
theorem amp_notMem_of_reference {s : Text} {n : Nat} (h : reference.span? s = some n) :
    '&' ∉ (s.take n).tail := by
  have htail : (referenceBody.followedBy (Pattern.char ';').toTail).Avoids '&' :=
    (avoids_referenceBody rfl rfl rfl rfl rfl).followedBy (Tail.avoids_one rfl)
  obtain ⟨k, hk, h⟩ := Option.bind_eq_some_iff.1 h
  obtain ⟨m, hm, rfl⟩ := Option.map_eq_some_iff.1 h
  have hk1 : k = 1 := by
    simp only [Pattern.char, Pattern.one, Option.ite_none_right_eq_some, Option.some.injEq] at hk
    exact hk.2.symm
  subst hk1
  cases s with
  | nil => simp
  | cons d s =>
    rw [Nat.add_comm, List.take_succ_cons, List.tail_cons]
    exact htail hm

/-- A reference is not looked for past an `&`. -/
theorem span?_reference_append {s : Text} (hne : s ≠ []) (t : Text) :
    reference.span? (s ++ '&' :: t) = reference.span? s := by
  by_cases hmem : ';' ∈ s
  · exact decidedBy_reference s _ hmem
  · rw [endsAt_reference.span?_of_notMem hmem]
    cases h : reference.span? (s ++ '&' :: t) with
    | none => rfl
    | some n =>
      -- a reference that ends behind the `&` would have it in it
      refine absurd (endsAt_reference.mem h) fun hend => amp_notMem_of_reference h ?_
      obtain ⟨d, s, rfl⟩ := List.exists_cons_of_ne_nil hne
      have hlt : (d :: s).length < n := by
        refine Nat.lt_of_not_le fun hle => hmem ?_
        rw [List.take_append_of_le_length hle] at hend
        exact List.mem_of_mem_take hend
      rw [List.take_append, List.take_of_length_le (Nat.le_of_lt hlt)]
      obtain ⟨m, hm⟩ : ∃ m, n - (d :: s).length = m + 1 := ⟨n - (d :: s).length - 1, by omega⟩
      rw [hm, List.take_succ_cons, List.cons_append, List.tail_cons]
      exact List.mem_append_right s List.mem_cons_self

/-- What stands in front of an `&` is decoded by itself. -/
theorem decodeReferences_append (a t : Text) :
    decodeReferences (a ++ '&' :: t) = decodeReferences a ++ decodeReferences ('&' :: t) :=
  Pattern.substitute_append_of_stable fun _ _ hne => span?_reference_append hne t

/-- A reference to a number that no character has stays, in whatever text. -/
theorem decodeReferences_void (k : Radix) {ds : Text} {n : Nat} (h : IsNumber k.base ds n)
    (hn : ¬ n.isValidChar) (a b : Text) :
    decodeReferences (a ++ referenceMark (k.sign ++ ds) ++ b) =
      decodeReferences a ++ referenceMark (k.sign ++ ds) ++ decodeReferences b := by
  have hvoid : denoted? (k.sign ++ ds) = none := by
    rw [denoted?_number k h, charAt?, dif_neg hn]
  have hkeep := rewrites_mark (read_referenceBody_number k h.ne_nil (isDigit_of_isNumber h))
  rw [decodeReference_mark, hvoid, Option.elim_none] at hkeep
  have hfront := decodeReferences_append a (k.sign ++ ds ++ [';'] ++ b)
  rw [List.append_assoc, List.append_assoc]
  exact hfront.trans (congrArg (decodeReferences a ++ ·) (hkeep b))

/-- Decoding undoes encoding, and leaves the references to no character as they are. -/
theorem plainText_encoded :
    (∀ s t, Encodes s t → plainText t = s) ∧
      (∀ (k : Radix) (ds : Text) (n : Nat), IsNumber k.base ds n → ¬ n.isValidChar →
        ∀ a b, decodeReferences (a ++ referenceMark (k.sign ++ ds) ++ b) =
          decodeReferences a ++ referenceMark (k.sign ++ ds) ++ decodeReferences b) ∧
      ∀ (k : Radix) (ds : Text), ds ≠ [] → (∀ c ∈ ds, k.isDigit c = true) →
        ∃ n, IsNumber k.base ds n :=
  ⟨fun _ _ h => h.shows.plainText_eq, fun k _ _ h hn => decodeReferences_void k h hn,
    fun k _ hne h => exists_isNumber k.one_lt_base hne fun c hc => k.isDigit_iff.1 (h c hc)⟩

/-- A tag and a reference in plain sight, written with a zero in front and by name, and a reference
to half of a surrogate pair. -/
theorem plainText_encoded_lt :
    Encodes "<&lt;".toList "&#x03C;&amp;lt;".toList ∧
      plainText "&#x03C;&amp;lt;".toList = "<&lt;".toList ∧
      IsNumber 16 "D800".toList 0xd800 ∧ ¬ Nat.isValidChar 0xd800 ∧
      decodeReferences "&lt;&#xD800;".toList = "<&#xD800;".toList ∧
      ∃ n, IsNumber 10 "007".toList n := by
  have hamp : ("amp".toList, '&') ∈ characterNames := by decide
  have hlt : ("lt".toList, '<') ∈ characterNames := by decide
  have hbracket : IsNumber 16 "03C".toList '<'.toNat := ⟨1, rfl⟩
  have hcode : Encodes "<&lt;".toList "&#x03C;&amp;lt;".toList :=
    .cons (c := '<') (w := "&#x03C;".toList) (.number (.hexadecimal false) hbracket) <|
      .cons (c := '&') (w := "&amp;".toList) (.name hamp) <|
        .cons (.kept (by decide) (by decide)) <| .cons (.kept (by decide) (by decide)) <|
          .cons (.kept (by decide) (by decide)) .nil
  have hnumber : IsNumber 16 "D800".toList 0xd800 := ⟨0, rfl⟩
  have hvoid : ¬ Nat.isValidChar 0xd800 := by decide
  refine ⟨hcode, plainText_encoded.1 _ _ hcode, hnumber, hvoid, ?_,
    plainText_encoded.2.2 .decimal "007".toList (by decide) (by decide)⟩
  have hkeep := plainText_encoded.2.1 (.hexadecimal false) "D800".toList 0xd800 hnumber hvoid
    "&lt;".toList []
  have hfront : decodeReferences "&lt;".toList = ['<'] :=
    (rewrites_mark (read_referenceBody_name hlt)).substitute_eq
  have hback : decodeReferences [] = [] := Pattern.substitute_nil _ _
  rw [hfront, hback] at hkeep
  exact hkeep

end DocTypes.Markup
