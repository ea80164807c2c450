/-
  Compact and indented JSON text. Members are written in the order of the list, so a value whose
  objects are in key order has one text.
-/
import GatewayStore.Json.Basic
import GatewayStore.Number.Shortest

namespace GatewayStore.Json

/-- Floats are positional from `0.00001` up to sixteen places. -/
def floatLayout : FloatLayout := ⟨-5, 15⟩

/-- The text of an integer. -/
def intText (i : Int) : List Char :=
  if i < 0 then '-' :: digitsOf i.natAbs else digitsOf i.toNat

def Number.text : Number → List Char
  | .integer i _ => intText i
  | .float x => floatLayout.write x

/-- The text of a number as a string. -/
def Number.toText (n : Number) : String := String.ofList n.text

/-- A hexadecimal digit in lower case. -/
def hexDigit (n : Nat) : Char := Nat.digitChar n

/-- Quotes, backslashes and control characters are escaped, and nothing else. -/
def escape (c : Char) : List Char :=
  if c = '"' then ['\\', '"']
  else if c = '\\' then ['\\', '\\']
  else if c.toNat < 32 then
    if c.toNat = 8 then ['\\', 'b']
    else if c.toNat = 9 then ['\\', 't']
    else if c.toNat = 10 then ['\\', 'n']
    else if c.toNat = 12 then ['\\', 'f']
    else if c.toNat = 13 then ['\\', 'r']
    else ['\\', 'u', '0', '0', hexDigit (c.toNat / 16), hexDigit (c.toNat % 16)]
  else [c]

def quote (s : String) : List Char := '"' :: (s.toList.flatMap escape ++ ['"'])

mutual

/-- The compact text of a value. -/
def text : Json → List Char
  | .null => "null".toList
  | .bool true => "true".toList
  | .bool false => "false".toList
  | .number n => n.text
  | .string s => quote s
  | .array [] => ['[', ']']
  | .array (v :: rest) => '[' :: (text v ++ textElements rest)
  | .object [] => ['\x7b', '\x7d']
  | .object ((k, v) :: rest) => '\x7b' :: (quote k ++ ':' :: (text v ++ textMembers rest))

/-- The elements after the first, and the closing bracket. -/
def textElements : List Json → List Char
  | [] => [']']
  | v :: rest => ',' :: (text v ++ textElements rest)

/-- The members after the first, and the closing brace. -/
def textMembers : List (String × Json) → List Char
  | [] => ['\x7d']
  | (k, v) :: rest => ',' :: (quote k ++ ':' :: (text v ++ textMembers rest))

end

/-- The compact text of a value. -/
def render (v : Json) : String := String.ofList v.text

/-- A new line, indented by two blanks for each open container. -/
def newLine (level : Nat) : List Char := '\n' :: List.replicate (2 * level) ' '

mutual

/-- The indented text of a value inside `level` containers. -/
def indentedText (level : Nat) : Json → List Char
  | .array (v :: rest) =>
    '[' :: (newLine (level + 1) ++ indentedText (level + 1) v ++ indentedElements level rest)
  | .object ((k, v) :: rest) =>
    '\x7b' :: (newLine (level + 1) ++ quote k ++ ':' :: ' ' :: (indentedText (level + 1) v ++
      indentedMembers level rest))
  | v => text v

def indentedElements (level : Nat) : List Json → List Char
  | [] => newLine level ++ [']']
  | v :: rest =>
    ',' :: (newLine (level + 1) ++ indentedText (level + 1) v ++ indentedElements level rest)

def indentedMembers (level : Nat) : List (String × Json) → List Char
  | [] => newLine level ++ ['\x7d']
  | (k, v) :: rest =>
    ',' :: (newLine (level + 1) ++ quote k ++ ':' :: ' ' :: (indentedText (level + 1) v ++
      indentedMembers level rest))

end

/-- The text of a value with one element or member a line. -/
def renderIndented (v : Json) : String := String.ofList (indentedText 0 v)

end GatewayStore.Json
