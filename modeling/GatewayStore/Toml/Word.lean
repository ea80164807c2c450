/-
  The words that stand for a number, a date or a truth value: runs of letters, digits and the marks
  `+ - _ . :`. Digits may be grouped by single underscores.
-/
import GatewayStore.Number.Power
import GatewayStore.Toml.Basic

namespace GatewayStore.Toml.Word

def isWordChar (c : Char) : Bool :=
  c.isAlphanum || c = '+' || c = '-' || c = '_' || c = '.' || c = ':'

/-- The value of a digit in a base of at most sixteen. -/
def digitValue? (base : Nat) (c : Char) : Option Nat :=
  let value :=
    if c.isDigit then c.toNat - '0'.toNat
    else if 'a' ≤ c ∧ c ≤ 'f' then c.toNat - 'a'.toNat + 10
    else if 'A' ≤ c ∧ c ≤ 'F' then c.toNat - 'A'.toNat + 10
    else base
  if value < base then some value else none

/-- Whether a word consists of digits, which single underscores may part. -/
def isGrouped (isDigit : Char → Bool) : List Char → Bool
  | [] => false
  | [c] => isDigit c
  | c :: '_' :: rest => isDigit c && isGrouped isDigit rest
  | c :: rest => isDigit c && isGrouped isDigit rest

/-- The number of grouped digits. -/
def grouped? (base : Nat) (s : List Char) : Option Nat :=
  if isGrouped (fun c => (digitValue? base c).isSome) s then
    some ((s.filterMap (digitValue? base)).foldl (fun n d => n * base + d) 0)
  else none

/-- Whether a word is a decimal number without sign, which has no leading zero. -/
def isWhole (s : List Char) : Bool :=
  s = ['0'] || (s.head? ≠ some '0' && isGrouped Char.isDigit s)

/-- Whether a word starts with a minus sign, and what follows its sign. -/
def splitSign : List Char → Bool × List Char
  | '+' :: rest => (false, rest)
  | '-' :: rest => (true, rest)
  | s => (false, s)

/-- Integers have 64 bits. -/
def inRange (i : Int) : Bool := -2 ^ 63 ≤ i && i < 2 ^ 63

/-- An integer: decimal with an optional sign, or with the mark of its base. -/
def integer? (s : List Char) : Option Int :=
  let value : Option Int := match s with
    | '0' :: 'x' :: digits => (grouped? 16 digits).map Int.ofNat
    | '0' :: 'o' :: digits => (grouped? 8 digits).map Int.ofNat
    | '0' :: 'b' :: digits => (grouped? 2 digits).map Int.ofNat
    | s =>
      let (negative, digits) := splitSign s
      if isWhole digits then
        (grouped? 10 digits).map fun n => if negative then -n else n
      else none
  value.filter inRange

/-- Whether `n * 10 ^ scale` rounds to infinity as a floating-point number. -/
def isTooLarge (n : Nat) (scale : Int) : Bool :=
  let places : Int := (Nat.toDigits 10 n).length + scale
  if n = 0 || places < 300 then false
  else if 320 < places then true
  else if scale < 0 then decide ((2 ^ 1024 - 2 ^ 970) * 10 ^ scale.natAbs ≤ n)
  else decide (2 ^ 1024 - 2 ^ 970 ≤ n * 10 ^ scale.toNat)

/-- The exponent of a float from its letter on. -/
def exponent? : List Char → Option Int
  | [] => some 0
  | c :: rest =>
    if c = 'e' || c = 'E' then
      let (negative, digits) := splitSign rest
      (grouped? 10 digits).map fun n => if negative then -n else n
    else none

/-- Whether a word is a float: it has a fraction or an exponent, or names infinity or no number. What
is too large for a float is none, unless it is negative. -/
def isFloat (s : List Char) : Bool :=
  let (negative, s) := splitSign s
  if s = "inf".toList || s = "nan".toList then true
  else
    let isDigitOrMark (c : Char) : Bool := c.isDigit || c = '_'
    let (whole, rest) := s.span isDigitOrMark
    if !isWhole whole || rest.isEmpty then false
    else
      let (fraction, rest) := match rest with
        | '.' :: rest => let (places, rest) := rest.span isDigitOrMark; (some places, rest)
        | rest => (none, rest)
      match exponent? rest with
      | none => false
      | some e =>
        let places := (fraction.getD []).filter Char.isDigit
        let n := (whole.filter Char.isDigit ++ places).foldl
          (fun n c => n * 10 + (c.toNat - '0'.toNat)) 0
        fraction.all (isGrouped Char.isDigit) && (negative || !isTooLarge n (e - places.length))

/-- The number of two digits. -/
def pair? (a b : Char) : Option Nat :=
  if a.isDigit && b.isDigit then some ((a.toNat - '0'.toNat) * 10 + (b.toNat - '0'.toNat)) else none

/-- The number of days of a month. -/
def daysIn (year month : Nat) : Nat :=
  if month = 2 then
    if year % 4 = 0 && (year % 100 ≠ 0 || year % 400 = 0) then 29 else 28
  else if month = 4 || month = 6 || month = 9 || month = 11 then 30
  else 31

/-- What follows a day at the start of a word. -/
def afterDay? : List Char → Option (List Char)
  | a :: b :: c :: d :: '-' :: e :: f :: '-' :: g :: h :: rest => do
    let century ← pair? a b
    let year ← pair? c d
    let month ← pair? e f
    let day ← pair? g h
    if 1 ≤ month ∧ month ≤ 12 ∧ 1 ≤ day ∧ day ≤ daysIn (century * 100 + year) month then some rest
    else none
  | _ => none

/-- What follows a time of day at the start of a word. -/
def afterTime? : List Char → Option (List Char)
  | a :: b :: ':' :: c :: d :: ':' :: e :: f :: rest => do
    let hour ← pair? a b
    let minute ← pair? c d
    let second ← pair? e f
    if hour ≤ 23 ∧ minute ≤ 59 ∧ second ≤ 60 then
      match rest with
      | '.' :: rest =>
        let (places, rest) := rest.span Char.isDigit
        if places.isEmpty then none else some rest
      | rest => some rest
    else none
  | _ => none

/-- Whether a word is an offset from universal time, or nothing. -/
def isOffset : List Char → Bool
  | [] | ['Z'] | ['z'] => true
  | [sign, a, b, ':', c, d] =>
    (sign = '+' || sign = '-') && (pair? a b).any (· ≤ 23) && (pair? c d).any (· ≤ 59)
  | _ => false

/-- Whether a word is a time of day with an offset. -/
def isTimeWithOffset (s : List Char) : Bool := (afterTime? s).any isOffset

/-- Whether a word is a day alone. -/
def isDay (s : List Char) : Bool := afterDay? s = some []

/-- Whether a word is a day, a time, or both with the letter T between. -/
def isDate (s : List Char) : Bool :=
  afterTime? s = some [] || (afterDay? s).any fun
    | [] => true
    | c :: rest => (c = 'T' || c = 't') && isTimeWithOffset rest

/-- The value of a word. -/
def value? (s : List Char) : Option Toml :=
  if s = "true".toList then some (.boolean true)
  else if s = "false".toList then some (.boolean false)
  else if isDate s then some (.date (String.ofList s))
  else if isFloat s then some (.float (String.ofList s))
  else (integer? s).map .integer

end GatewayStore.Toml.Word
