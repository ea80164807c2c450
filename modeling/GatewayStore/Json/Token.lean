/-
  The words of a JSON text and the scanner that finds them.

  Reading a number keeps as many digits as a 64-bit word holds and one power of ten for the rest, so
  a float may differ in its last bit from the nearest one.
-/
import GatewayStore.Json.Basic

namespace GatewayStore.Json

inductive Token where
  | openArray
  | closeArray
  | openObject
  | closeObject
  | comma
  | colon
  | null
  | bool (value : Bool)
  | number (value : Number)
  | string (value : String)
deriving DecidableEq

namespace Token

def isBlank (c : Char) : Bool := c = ' ' || c = '\t' || c = '\n' || c = '\r'

def hexValue? (c : Char) : Option Nat :=
  if '0' ≤ c ∧ c ≤ '9' then some (c.toNat - '0'.toNat)
  else if 'a' ≤ c ∧ c ≤ 'f' then some (c.toNat - 'a'.toNat + 10)
  else if 'A' ≤ c ∧ c ≤ 'F' then some (c.toNat - 'A'.toNat + 10)
  else none

/-- The number of four hexadecimal digits. -/
def hexQuad? (a b c d : Char) : Option Nat :=
  match hexValue? a, hexValue? b, hexValue? c, hexValue? d with
  | some a, some b, some c, some d => some (((a * 16 + b) * 16 + c) * 16 + d)
  | _, _, _, _ => none

def isHighSurrogate (n : Nat) : Bool := 0xD800 ≤ n && n < 0xDC00

def isLowSurrogate (n : Nat) : Bool := 0xDC00 ≤ n && n < 0xE000

/-- The character of an escape of one letter. -/
def simpleEscape? (c : Char) : Option Char :=
  match c with
  | '"' => some '"'
  | '\\' => some '\\'
  | '/' => some '/'
  | 'b' => some (Char.ofNat 8)
  | 'f' => some (Char.ofNat 12)
  | 'n' => some '\n'
  | 'r' => some '\r'
  | 't' => some '\t'
  | _ => none

/-- The characters of a string after its opening quote, and what follows the closing one. -/
def scanString : List Char → Option (List Char × List Char)
  | [] => none
  | '"' :: rest => some ([], rest)
  | '\\' :: 'u' :: a :: b :: c :: d :: rest =>
    match hexQuad? a b c d with
    | none => none
    | some high =>
      if isHighSurrogate high then
        match rest with
        | '\\' :: 'u' :: e :: f :: g :: h :: rest =>
          match hexQuad? e f g h with
          | none => none
          | some low =>
            if isLowSurrogate low then
              (scanString rest).map fun p =>
                (Char.ofNat (0x10000 + (high - 0xD800) * 1024 + (low - 0xDC00)) :: p.1, p.2)
            else none
        | _ => none
      else if isLowSurrogate high then none
      else (scanString rest).map fun p => (Char.ofNat high :: p.1, p.2)
  | '\\' :: c :: rest =>
    match simpleEscape? c with
    | none => none
    | some c => (scanString rest).map fun p => (c :: p.1, p.2)
  | c :: rest =>
    if c.toNat < 32 ∨ c = '\\' then none else (scanString rest).map fun p => (c :: p.1, p.2)

/-- Reads digits as long as the number stays below `limit`; gives what is left of them. -/
def accumulate (limit : Nat) : Nat → List Char → Nat × List Char
  | n, [] => (n, [])
  | n, c :: rest =>
    let next := n * 10 + (c.toNat - '0'.toNat)
    if next < limit then accumulate limit next rest else (n, c :: rest)

/-- A power of ten as a floating-point number. -/
def powerOfTen (n : Nat) : Binary64 := Binary64.ofNat (10 ^ n)

/-- `x / 10 ^ n` in steps of at most 308 places; after three of them nothing is left. -/
def shiftDown : Nat → Binary64 → Nat → Binary64
  | 0, x, _ => x
  | steps + 1, x, n =>
    if n ≤ 308 then x.div (powerOfTen n)
    else if x.isZero then x
    else shiftDown steps (x.div (powerOfTen 308)) (n - 308)

/-- The float of `significand * 10 ^ scale`; none if it is too large. -/
def scaled? (significand : Nat) (scale : Int) : Option Binary64 :=
  let x := Binary64.ofNat significand
  if scale < 0 then some (shiftDown 4 x scale.natAbs)
  else if scale ≤ 308 then
    let y := x.mul (powerOfTen scale.toNat)
    if y.isInfinite then none else some y
  else if x.isZero then some x
  else none

def signed (negative : Bool) (x : Binary64) : Number := .float (if negative then x.negate else x)

/-- An integer if it fits; minus zero and everything larger is a float. -/
def wholeNumber? (negative : Bool) (digits : List Char) : Option Number :=
  let (significand, dropped) := accumulate (2 ^ 64) 0 digits
  let value : Int := if negative then -significand else significand
  if dropped.isEmpty then
    if h : -2 ^ 63 ≤ value ∧ value < 2 ^ 64 ∧ ¬(negative ∧ significand = 0) then
      some (.integer value ⟨h.1, h.2.1⟩)
    else some (signed negative (Binary64.ofNat significand))
  else (scaled? significand dropped.length).map (signed negative)

/-- The number with these whole digits, places and exponent. -/
def fraction? (negative : Bool) (whole places : List Char) (exponent : Option (Bool × List Char)) :
    Option Number :=
  let (significand, dropped) := accumulate (2 ^ 64) 0 whole
  let (significand, unread) := accumulate (2 ^ 64) significand places
  let scale : Int := dropped.length - (places.length - unread.length : Nat)
  match exponent with
  | none => (scaled? significand scale).map (signed negative)
  | some (negativeExponent, digits) =>
    let (size, tooLong) := accumulate (2 ^ 31) 0 digits
    if tooLong.isEmpty then
      let scale := if negativeExponent then scale - size else scale + size
      (scaled? significand scale).map (signed negative)
    else if significand ≠ 0 ∧ !negativeExponent then none
    else some (signed negative .zero)

/-- The sign and the digits of an exponent after its letter. -/
def scanExponent (s : List Char) : Option ((Bool × List Char) × List Char) :=
  let (negative, s) := match s with
    | '+' :: rest => (false, rest)
    | '-' :: rest => (true, rest)
    | s => (false, s)
  match s.span Char.isDigit with
  | ([], _) => none
  | (digits, rest) => some ((negative, digits), rest)

/-- A number without its sign, and what follows it. -/
def scanUnsigned (negative : Bool) (s : List Char) : Option (Number × List Char) :=
  let (whole, rest) := s.span Char.isDigit
  if whole.isEmpty ∨ (whole.head? = some '0' ∧ 1 < whole.length) then none
  else
    let places? : Option (Option (List Char) × List Char) := match rest with
      | '.' :: rest =>
        match rest.span Char.isDigit with
        | ([], _) => none
        | (places, rest) => some (some places, rest)
      | rest => some (none, rest)
    match places? with
    | none => none
    | some (places, rest) =>
      let exponent? : Option (Option (Bool × List Char) × List Char) := match rest with
        | 'e' :: rest | 'E' :: rest => (scanExponent rest).map fun p => (some p.1, p.2)
        | rest => some (none, rest)
      match exponent? with
      | none => none
      | some (exponent, rest) =>
        let value := match places, exponent with
          | none, none => wholeNumber? negative whole
          | places, exponent => fraction? negative whole (places.getD []) exponent
        value.map fun n => (n, rest)

/-- The first token of a text that starts with none of the blanks, and what follows it. -/
def scanOne : List Char → Option (Token × List Char)
  | '[' :: rest => some (.openArray, rest)
  | ']' :: rest => some (.closeArray, rest)
  | '\x7b' :: rest => some (.openObject, rest)
  | '\x7d' :: rest => some (.closeObject, rest)
  | ',' :: rest => some (.comma, rest)
  | ':' :: rest => some (.colon, rest)
  | '"' :: rest => (scanString rest).map fun p => (.string (String.ofList p.1), p.2)
  | 'n' :: 'u' :: 'l' :: 'l' :: rest => some (.null, rest)
  | 't' :: 'r' :: 'u' :: 'e' :: rest => some (.bool true, rest)
  | 'f' :: 'a' :: 'l' :: 's' :: 'e' :: rest => some (.bool false, rest)
  | '-' :: rest => (scanUnsigned true rest).map fun p => (.number p.1, p.2)
  | s => (scanUnsigned false s).map fun p => (.number p.1, p.2)

/-- The tokens of a text; every token takes at least one character, so `fuel` of one more than the
length is enough. -/
def scanFrom : Nat → List Char → Option (List Token)
  | _, [] => some []
  | 0, _ => none
  | fuel + 1, c :: rest =>
    if isBlank c then scanFrom fuel rest
    else match scanOne (c :: rest) with
      | none => none
      | some (token, rest) => (scanFrom fuel rest).map (token :: ·)

/-- The tokens of a text, if it consists of tokens and blanks. -/
def scan (s : List Char) : Option (List Token) := scanFrom s.length s

end Token

end GatewayStore.Json
