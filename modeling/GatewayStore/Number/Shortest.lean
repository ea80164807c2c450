/-
  The shortest decimal text of a floating-point number. Of the decimals that round to the number,
  those with the fewest digits are wanted, and of these the nearest. A layout then says where
  positional notation ends.
-/
import GatewayStore.Number.Binary64

namespace GatewayStore

/-- The number `digits * 10 ^ scale`. -/
structure Decimal where
  digits : Nat
  scale : Int
deriving DecidableEq

namespace Decimal

/-- Drops zeros from the end of the digits, at most `fuel` of them. -/
def trimZeros : Nat → Decimal → Decimal
  | 0, d => d
  | fuel + 1, d =>
    if d.digits % 10 = 0 ∧ d.digits ≠ 0 then trimZeros fuel ⟨d.digits / 10, d.scale + 1⟩ else d

end Decimal

/-- The decimal digits of a whole number. -/
def digitsOf (n : Nat) : List Char := Nat.toDigits 10 n

namespace Binary64

/-- The exponent `l` with `10 ^ l ≤ num / den`, for a quotient of at least one. -/
def floorLog10Nat (num den : Nat) : Nat := (digitsOf (num / den)).length - 1

/-- How many tens lift a quotient below one to at least one; `fuel` bounds the search. -/
def lift10 : Nat → Nat → Nat → Nat
  | 0, _, _ => 0
  | fuel + 1, num, den => if den ≤ num then 0 else lift10 fuel (num * 10) den + 1

/-- The exponent `l` with `10 ^ l ≤ num / den < 10 ^ (l + 1)`. No finite number is below
`10 ^ (-324)`. -/
def floorLog10 (num den : Nat) : Int :=
  if den ≤ num then floorLog10Nat num den else -(lift10 400 num den : Int)

/-- The decimals that round to a number are those in an interval around it; this is four times the
number and its two ends, as multiples of one power of two, and whether the ends belong to it. -/
structure Interval where
  low : Nat
  value : Nat
  high : Nat
  exponent : Int
  closed : Bool

/-- Below a power of two the next number is only half as far away. -/
def interval (x : Binary64) : Interval :=
  let m := x.mantissa
  let below := if x.fraction = 0 ∧ 1 < x.field then 1 else 2
  ⟨4 * m - below, 4 * m, 4 * m + 2, x.exponent - 2, m % 2 = 0⟩

/-- Compares `a * 2 ^ e` with `digits * 10 ^ scale`. -/
def compareScaled (a : Nat) (e : Int) (d : Decimal) : Ordering :=
  compare (a * 2 ^ e.toNat * 10 ^ (-d.scale).toNat) (d.digits * 10 ^ d.scale.toNat * 2 ^ (-e).toNat)

def Interval.contains (i : Interval) (d : Decimal) : Bool :=
  match compareScaled i.low i.exponent d, compareScaled i.high i.exponent d with
  | .lt, .gt => true
  | .eq, _ => i.closed
  | _, .eq => i.closed
  | _, _ => false

/-- Whether the first of two neighbouring decimals is the one to take: the nearer, or of two
equally near ones the even. -/
def Interval.prefersLower (i : Interval) (d : Decimal) : Bool :=
  -- twice the value against the sum of the neighbours
  match compareScaled (2 * i.value) i.exponent ⟨2 * d.digits + 1, d.scale⟩ with
  | .lt => true
  | .gt => false
  | .eq => d.digits % 2 = 0

/-- The decimal with `count` digits to take, if one of the value's two neighbours with that many
digits lies in the interval. -/
def candidate? (i : Interval) (num den : Nat) (top : Int) (count : Nat) : Option Decimal :=
  let scale := top - count + 1
  let lower : Decimal := ⟨num * 10 ^ (-scale).toNat / (den * 10 ^ scale.toNat), scale⟩
  let upper : Decimal := ⟨lower.digits + 1, scale⟩
  match i.contains lower, i.contains upper with
  | true, true => some (if i.prefersLower lower then lower else upper)
  | true, false => some lower
  | false, true => some upper
  | false, false => none

/-- The shortest decimal that rounds to a finite positive number. Seventeen digits always do. -/
def shortest (x : Binary64) : Decimal :=
  let (num, den) := x.ratio
  let top := floorLog10 num den
  let found := (List.range 17).findSome? fun n => candidate? x.interval num den top (n + 1)
  (found.getD ⟨0, 0⟩).trimZeros 20

end Binary64

/-- Where positional notation ends: the least and the greatest exponent of the first digit that
are written without an exponent. -/
structure FloatLayout where
  least : Int
  greatest : Int

/-- The text of a decimal: positional with at least one place, else with a signed exponent. -/
def FloatLayout.text (l : FloatLayout) (d : Decimal) : List Char :=
  let digits := digitsOf d.digits
  let top : Int := d.scale + digits.length - 1
  if l.least ≤ top ∧ top ≤ l.greatest then
    if 0 ≤ d.scale then digits ++ List.replicate d.scale.toNat '0' ++ ['.', '0']
    else if 0 ≤ top then
      digits.take (top.toNat + 1) ++ '.' :: digits.drop (top.toNat + 1)
    else '0' :: '.' :: List.replicate (-top - 1).toNat '0' ++ digits
  else
    let places := match digits with
      | [] => []
      | [c] => [c]
      | c :: rest => c :: '.' :: rest
    places ++ 'e' :: (if top < 0 then '-' else '+') :: digitsOf top.natAbs

/-- The text of a finite number. -/
def FloatLayout.write (l : FloatLayout) (x : Binary64) : List Char :=
  (if x.isNegative then ['-'] else []) ++
    (if x.isZero then ['0', '.', '0'] else l.text x.shortest)

end GatewayStore
