/-
  Quoted TOML strings. Double quotes admit escapes and single quotes do not; three quotes admit line
  ends, and a line end right after the opening ones does not count.
-/
import GatewayStore.Json.Token

namespace GatewayStore.Toml.Quoted

/-- A character that a string may hold as it is, quotes and backslashes aside. -/
def isPlain (c : Char) : Bool := c = '\t' || (0x20 ≤ c.toNat && c.toNat ≠ 0x7F)

def isBlank (c : Char) : Bool := c = ' ' || c = '\t'

/-- The character of an escape of one letter. -/
def simpleEscape? (c : Char) : Option Char :=
  match c with
  | '"' => some '"'
  | '\\' => some '\\'
  | 'b' => some (Char.ofNat 8)
  | 'f' => some (Char.ofNat 12)
  | 'n' => some '\n'
  | 'r' => some '\r'
  | 't' => some '\t'
  | _ => none

/-- The character with a number in hexadecimal digits. -/
def character? (digits : List Char) : Option Char := do
  let values ← digits.mapM Json.Token.hexValue?
  let n := values.foldl (fun n d => n * 16 + d) 0
  if n.isValidChar then some (Char.ofNat n) else none

/-- Puts a character before the text of what was read. -/
def before (c : Char) (p : List Char × List Char) : List Char × List Char := (c :: p.1, p.2)

/-- The text after a double quote, and what follows the closing one. -/
def basic : List Char → Option (List Char × List Char)
  | [] => none
  | '"' :: rest => some ([], rest)
  | '\\' :: 'u' :: a :: b :: c :: d :: rest => do
    let x ← character? [a, b, c, d]
    return before x (← basic rest)
  | '\\' :: 'U' :: a :: b :: c :: d :: e :: f :: g :: h :: rest => do
    let x ← character? [a, b, c, d, e, f, g, h]
    return before x (← basic rest)
  | '\\' :: c :: rest => do
    let x ← simpleEscape? c
    return before x (← basic rest)
  | c :: rest => if isPlain c && c ≠ '\\' then (basic rest).map (before c) else none

/-- The text after a single quote, and what follows the closing one. -/
def verbatim : List Char → Option (List Char × List Char)
  | [] => none
  | '\'' :: rest => some ([], rest)
  | c :: rest => if isPlain c then (verbatim rest).map (before c) else none

/-- What follows three closing quotes. Up to two quotes before them belong to the text. -/
def closing (quote : Char) : List Char → List Char × List Char
  | a :: b :: rest =>
    if a = quote ∧ b = quote then ([quote, quote], rest)
    else if a = quote then ([quote], b :: rest)
    else ([], a :: b :: rest)
  | [a] => if a = quote then ([quote], []) else ([], [a])
  | [] => ([], [])

/-- Whether only blanks come before the end of the line. -/
def isLineRest : List Char → Bool
  | '\n' :: _ => true
  | '\r' :: '\n' :: _ => true
  | c :: rest => isBlank c && isLineRest rest
  | [] => false

/-- The text after three double quotes, and what follows the closing ones. A backslash at the end of a
line leaves out all blanks and line ends that follow; `skips` holds while that goes on. -/
def longBasic : (skips : Bool) → List Char → Option (List Char × List Char)
  | _, [] => none
  | _, '"' :: '"' :: '"' :: rest => some (closing '"' rest)
  | _, '\\' :: 'u' :: a :: b :: c :: d :: rest => do
    let x ← character? [a, b, c, d]
    return before x (← longBasic false rest)
  | _, '\\' :: 'U' :: a :: b :: c :: d :: e :: f :: g :: h :: rest => do
    let x ← character? [a, b, c, d, e, f, g, h]
    return before x (← longBasic false rest)
  | _, '\\' :: c :: rest =>
    if isLineRest (c :: rest) then longBasic true (c :: rest)
    else do
      let x ← simpleEscape? c
      return before x (← longBasic false rest)
  | skips, '\n' :: rest => if skips then longBasic true rest else (longBasic false rest).map (before '\n')
  | skips, '\r' :: '\n' :: rest =>
    if skips then longBasic true rest else (longBasic false rest).map (before '\n')
  | skips, c :: rest =>
    if skips && isBlank c then longBasic true rest
    else if isPlain c && c ≠ '\\' then (longBasic false rest).map (before c)
    else none

/-- The text after three single quotes, and what follows the closing ones. -/
def longVerbatim : List Char → Option (List Char × List Char)
  | [] => none
  | '\'' :: '\'' :: '\'' :: rest => some (closing '\'' rest)
  | '\n' :: rest => (longVerbatim rest).map (before '\n')
  | '\r' :: '\n' :: rest => (longVerbatim rest).map (before '\n')
  | c :: rest => if isPlain c then (longVerbatim rest).map (before c) else none

/-- Leaves out a line end. -/
def dropLineEnd : List Char → List Char
  | '\n' :: rest => rest
  | '\r' :: '\n' :: rest => rest
  | s => s

/-- The text of a string on one line from its quote on. -/
def short? : List Char → Option (List Char × List Char)
  | '"' :: rest => basic rest
  | '\'' :: rest => verbatim rest
  | _ => none

/-- The text of a string from its first quote on. -/
def any? : List Char → Option (List Char × List Char)
  | '"' :: '"' :: '"' :: rest => longBasic false (dropLineEnd rest)
  | '\'' :: '\'' :: '\'' :: rest => longVerbatim (dropLineEnd rest)
  | s => short? s

end GatewayStore.Toml.Quoted
