/-
  Writing TOML: sections of texts, numbers and lists of texts. A text is written in the plainest form
  that holds it, and a list of two or more has one element a line.
-/
import GatewayStore.Text.Affix
import GatewayStore.Number.Shortest

namespace GatewayStore.Toml

/-- A value that is written. -/
inductive Entry where
  | text (value : String)
  | number (value : Nat)
  | texts (values : List String)
deriving DecidableEq

/-- The length of the longest run of a character. -/
def longestRun (c : Char) (s : List Char) : Nat :=
  ((s.splitBy fun a b => a = c && b = c).filter fun run => run.head? = some c).foldl
    (fun n run => max n run.length) 0

/-- Whether a character has to be escaped wherever it stands. -/
def isControl (c : Char) : Bool :=
  c ≠ '\t' && c ≠ '\n' && (c.toNat < 0x20 || c.toNat = 0x7F)

def hexDigit (n : Nat) : Char := (Nat.digitChar n).toUpper

/-- A character other than a quote; `long` holds where line ends may stand. -/
def escape (long : Bool) (c : Char) : List Char :=
  if c = '\\' then ['\\', '\\']
  else if c = '\n' then (if long then ['\n'] else ['\\', 'n'])
  else if c = '\t' then ['\\', 't']
  else if c = '\r' then ['\\', 'r']
  else if c.toNat = 8 then ['\\', 'b']
  else if c.toNat = 12 then ['\\', 'f']
  else if isControl c then
    ['\\', 'u', '0', '0', hexDigit (c.toNat / 16), hexDigit (c.toNat % 16)]
  else [c]

/-- The text between double quotes, where at most `bare` quotes in a row stand without an escape;
`run` of them have come right before. -/
def escaped (long : Bool) (bare : Nat) : (run : Nat) → List Char → List Char
  | _, [] => []
  | run, c :: rest =>
    if c ≠ '"' then escape long c ++ escaped long bare 0 rest
    else if run < bare then '"' :: escaped long bare (run + 1) rest
    else '\\' :: '"' :: escaped long bare 0 rest

/-- A text between double quotes. -/
def inDouble (s : List Char) : List Char := '"' :: (escaped false 0 0 s ++ ['"'])

/-- A text between single quotes. -/
def inSingle (s : List Char) : List Char := '\'' :: (s ++ ['\''])

/-- What comes before a long text: one with line ends starts on a line of its own. -/
def longStart (s : List Char) : List Char := if '\n' ∈ s then ['\n'] else []

/-- A text between three double quotes. -/
def inTripleDouble (s : List Char) : List Char :=
  let quotes := ['"', '"', '"']
  quotes ++ longStart s ++ escaped true 2 0 s ++ quotes

/-- A text between three single quotes. -/
def inTripleSingle (s : List Char) : List Char :=
  let quotes := ['\'', '\'', '\'']
  quotes ++ longStart s ++ s ++ quotes

/-- A text in the plainest form that holds it. -/
def quote (text : String) : List Char :=
  let s := text.toList
  let hasControl := s.any isControl
  let hasLineEnd := s.contains '\n'
  let hasBackslash := s.contains '\\'
  if !hasControl && !hasBackslash && !s.contains '"' && !hasLineEnd then inDouble s
  else if !hasControl && !s.contains '\'' && !hasLineEnd then inSingle s
  else if !hasControl && !hasBackslash && longestRun '"' s ≤ 2 then inTripleDouble s
  else if !hasControl && longestRun '\'' s ≤ 2 then inTripleSingle s
  else if hasLineEnd then inTripleDouble s
  else inDouble s

def Entry.write : Entry → List Char
  | .text s => quote s
  | .number n => digitsOf n
  | .texts [] => ['[', ']']
  | .texts [s] => '[' :: (quote s ++ [']'])
  | .texts l => '[' :: '\n' :: (l.flatMap (fun s => "    ".toList ++ quote s ++ [',', '\n']) ++ [']'])

/-- A section: its header and one value a line. -/
def writeSection (name : String) (entries : List (String × Entry)) : String :=
  "[" ++ name ++ "]\n" ++ Text.join "" (entries.map fun e =>
    e.1 ++ " = " ++ String.ofList e.2.write ++ "\n")

/-- The text of sections, with an empty line between them. -/
def render (sections : List (String × List (String × Entry))) : String :=
  Text.join "\n" (sections.map fun e => writeSection e.1 e.2)

end GatewayStore.Toml
