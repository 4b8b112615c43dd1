/-
  What a plain YAML scalar is read as. A text that would be read as nothing, a truth value or a
  number is not safe as a plain scalar.
-/
import DocTypes.Text.Basic

namespace DocTypes.Yaml

/-- The spellings of no value. -/
def isNull (s : Text) : Bool :=
  s.isEmpty || s == "null".toList || s == "Null".toList || s == "NULL".toList || s == ['~']

/-- The truth value that a text spells. -/
def bool? (s : Text) : Option Bool :=
  if s == "true".toList || s == "True".toList || s == "TRUE".toList then some true
  else if s == "false".toList || s == "False".toList || s == "FALSE".toList then some false
  else none

/-- The value of a digit in the given base. -/
def digit? (base : Nat) (c : Char) : Option Nat :=
  let v :=
    if c.isDigit then c.toNat - '0'.toNat
    else if c.isLower then c.toNat - 'a'.toNat + 10
    else if c.isUpper then c.toNat - 'A'.toNat + 10
    else base
  if v < base then some v else none

/-- The number that one or more digits in the given base denote. -/
def digits? (base : Nat) (ds : Text) : Option Nat :=
  if ds.isEmpty then none
  else (ds.mapM (digit? base)).map fun vs => vs.foldl (fun n v => n * base + v) 0

/-- Digits with a needless leading zero, which are no number. -/
def hasLeadingZero (s : Text) : Bool :=
  let ds := match s with
    | '-' :: ds => ds
    | '+' :: ds => ds
    | ds => ds
  match ds with
  | '0' :: d :: ds => (d :: ds).all Char.isDigit
  | _ => false

/-- The magnitude of a number with a base mark, or in decimal. -/
def magnitude? (s : Text) : Option Nat :=
  let decimal := digits? 10 s
  match s with
  | '0' :: 'x' :: ds => digits? 16 ds
  | '0' :: 'o' :: ds => digits? 8 ds
  | '0' :: 'b' :: ds => digits? 2 ds
  | _ => decimal

/-- The natural number that a text spells, with or without a plus sign. -/
def natural? (s : Text) : Option Nat :=
  if hasLeadingZero s then none
  else
    match s with
    | '+' :: s => magnitude? s
    | s => magnitude? s

/-- The integer that a text spells. -/
def int? (s : Text) : Option Int :=
  match s with
  | '-' :: m => if hasLeadingZero s then none else (magnitude? m).map fun n => -(n : Int)
  | s => (natural? s).map Int.ofNat

/-- The sign and the digits of an exponent. -/
def exponent? : Text → Option Int
  | [] => some 0
  | e :: s =>
    if e == 'e' || e == 'E' then
      match s with
      | '-' :: ds => (digits? 10 ds).map fun n => -(n : Int)
      | '+' :: ds => (digits? 10 ds).map Int.ofNat
      | ds => (digits? 10 ds).map Int.ofNat
    else none

/-- Does `m * 10 ^ e` round to a finite binary floating-point number of 64 bits? From
`2 ^ 1024 - 2 ^ 970` on it does not. -/
def isFinite (m : Nat) (e : Int) : Bool :=
  let size : Int := (Nat.toDigits 10 m).length
  m == 0 || size + e < 308 ||
    (size + e ≤ 309 &&
      if 0 ≤ e then m * Nat.pow 10 e.toNat < Nat.pow 2 1024 - Nat.pow 2 970
      else m < (Nat.pow 2 1024 - Nat.pow 2 970) * Nat.pow 10 (-e).toNat)

/-- A number with a fraction or an exponent, or one of the words for what is no finite number. -/
def isFloat (s : Text) : Bool :=
  let unsigned := match s with
    | '+' :: r => r
    | r => r
  let words := [".inf", ".Inf", ".INF", "+.inf", "+.Inf", "+.INF", "-.inf", "-.Inf", "-.INF",
    ".nan", ".NaN", ".NAN"]
  let body := match unsigned with
    | '-' :: r => if s.head? == some '+' then unsigned else r
    | r => r
  let whole := body.takeWhile Char.isDigit
  let rest := body.dropWhile Char.isDigit
  let (fraction, rest) := match rest with
    | '.' :: r => (r.takeWhile Char.isDigit, r.dropWhile Char.isDigit)
    | r => ([], r)
  let ds := whole ++ fraction
  words.any (fun w => w.toList == s) ||
    match digits? 10 ds, exponent? rest with
    | some m, some e => isFinite m (e - fraction.length)
    | _, _ => false

/-- Would the text, as a plain scalar, be read as something else than a text, or as digits that
look like a number? -/
def looksTyped (s : Text) : Bool :=
  let fits (n : Int) : Bool := -(Nat.pow 2 127 : Int) ≤ n && n < Nat.pow 2 128
  isNull s || (bool? s).isSome || (int? s).any fits || isFloat s || hasLeadingZero s

end DocTypes.Yaml
