/-
  Binary floating point with 53 significant bits, held as its 64 bits and computed on with whole
  numbers only. `ofRatio` rounds a quotient to the nearest representable number, ties to the even
  one; products and quotients are rounded quotients of exact values.
-/
import GatewayStore.Number.Power

namespace GatewayStore

/-- A floating-point number by its bits: sign, eleven bits of exponent, 52 of fraction. -/
structure Binary64 where
  bits : UInt64
deriving DecidableEq, Inhabited

namespace Binary64

/-- A number from its sign, exponent field and fraction field. -/
def ofFields (negative : Bool) (field fraction : Nat) : Binary64 :=
  ⟨UInt64.ofNat ((if negative then 2 ^ 63 else 0) + field * 2 ^ 52 + fraction)⟩

def isNegative (x : Binary64) : Bool := 2 ^ 63 ≤ x.bits.toNat

/-- The eleven exponent bits. -/
def field (x : Binary64) : Nat := x.bits.toNat / 2 ^ 52 % 2 ^ 11

def fraction (x : Binary64) : Nat := x.bits.toNat % 2 ^ 52

/-- The whole number `m` of a finite value `m * 2 ^ e`. -/
def mantissa (x : Binary64) : Nat :=
  if x.field = 0 then x.fraction else x.fraction + 2 ^ 52

/-- The exponent `e` of a finite value `m * 2 ^ e`. -/
def exponent (x : Binary64) : Int :=
  if x.field = 0 then -1074 else (x.field : Int) - 1075

def isFinite (x : Binary64) : Bool := x.field < 2047

def isInfinite (x : Binary64) : Bool := x.field == 2047 && x.fraction == 0

def isZero (x : Binary64) : Bool := x.field == 0 && x.fraction == 0

def zero : Binary64 := ofFields false 0 0

def infinity : Binary64 := ofFields false 2047 0

def notANumber : Binary64 := ofFields false 2047 (2 ^ 51)

/-- The number with the other sign. -/
def negate (x : Binary64) : Binary64 := ofFields (!x.isNegative) x.field x.fraction

/-- The quotient of whole numbers, rounded to the nearest whole number, a tie to the even one. -/
def roundDiv (num den : Nat) : Nat :=
  let q := num / den
  let r := num % den
  if 2 * r < den then q
  else if den < 2 * r then q + 1
  else if q % 2 = 0 then q else q + 1

/-- The exponent `l` with `2 ^ l ≤ num / den < 2 ^ (l + 1)`, for positive numbers. -/
def floorLog2 (num den : Nat) : Int :=
  let l : Int := (num.log2 : Int) - den.log2
  let reached := if 0 ≤ l then den * 2 ^ l.toNat ≤ num else den ≤ num * 2 ^ (-l).toNat
  if reached then l else l - 1

/-- The representable number nearest to `num / den`, for a positive `den`. -/
def ofRatio (num den : Nat) : Binary64 :=
  if num = 0 then zero
  else
    let e : Int := max (floorLog2 num den - 52) (-1074)
    let m := if 0 ≤ e then roundDiv num (den * 2 ^ e.toNat) else roundDiv (num * 2 ^ (-e).toNat) den
    let (m, e) := if m = 2 ^ 53 then (2 ^ 52, e + 1) else (m, e)
    if m < 2 ^ 52 then ofFields false 0 m
    else if 972 ≤ e then infinity
    else ofFields false (e + 1075).toNat (m - 2 ^ 52)

/-- The size of a finite number as a quotient of whole numbers. -/
def ratio (x : Binary64) : Nat × Nat :=
  let e := x.exponent
  if 0 ≤ e then (x.mantissa * 2 ^ e.toNat, 1) else (x.mantissa, 2 ^ (-e).toNat)

/-- The rounded product of two finite numbers that are not negative. -/
def mul (x y : Binary64) : Binary64 :=
  ofRatio (x.ratio.1 * y.ratio.1) (x.ratio.2 * y.ratio.2)

/-- The rounded quotient of two finite numbers that are not negative, the second not zero. -/
def div (x y : Binary64) : Binary64 :=
  ofRatio (x.ratio.1 * y.ratio.2) (x.ratio.2 * y.ratio.1)

def ofNat (n : Nat) : Binary64 := ofRatio n 1

end Binary64

end GatewayStore
