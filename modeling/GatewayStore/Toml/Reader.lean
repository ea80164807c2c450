/-
  Reading TOML: a document is a list of statements, one a line. At most 79 containers may be open,
  and a key has at most 79 parts.
-/
import GatewayStore.Toml.Quoted
import GatewayStore.Toml.Word

namespace GatewayStore.Toml

/-- The greatest number of open containers, and of the parts of a key. -/
def maxDepth : Nat := 79

def isCommentChar (c : Char) : Bool := c = '\t' || (0x20 ≤ c.toNat && c.toNat ≠ 0x7F)

def skipBlanks (s : List Char) : List Char := s.dropWhile Quoted.isBlank

/-- What follows the end of a line, before which only blanks and a comment may stand. -/
def lineEnd? (s : List Char) : Option (List Char) :=
  let s := match skipBlanks s with
    | '#' :: rest => rest.dropWhile isCommentChar
    | s => s
  match s with
  | [] => some []
  | '\n' :: rest => some rest
  | '\r' :: '\n' :: rest => some rest
  | _ => none

/-- Skips blanks, line ends and comments. -/
def skipGap : (inComment : Bool) → List Char → List Char
  | _, [] => []
  | _, '\n' :: rest => skipGap false rest
  | _, '\r' :: '\n' :: rest => skipGap false rest
  | true, c :: rest => if isCommentChar c then skipGap true rest else c :: rest
  | false, c :: rest =>
    if Quoted.isBlank c then skipGap false rest
    else if c = '#' then skipGap true rest
    else c :: rest

def isBareChar (c : Char) : Bool := c.isAlphanum || c = '-' || c = '_'

/-- One part of a key. -/
def keyPart? (s : List Char) : Option (String × List Char) :=
  match Quoted.short? s with
  | some (text, rest) => some (String.ofList text, rest)
  | none =>
    let (bare, rest) := s.span isBareChar
    if bare.isEmpty then none else some (String.ofList bare, rest)

/-- A key of at most so many parts with points between them, and blanks around each. -/
def key? : (parts : Nat) → List Char → Option (List String × List Char)
  | 0, _ => none
  | parts + 1, s => do
    let (name, rest) ← keyPart? (skipBlanks s)
    match skipBlanks rest with
    | '.' :: rest =>
      let (names, rest) ← key? parts rest
      return (name :: names, rest)
    | rest => return ([name], rest)

/-- The value of a word; a day may be followed by a blank and a time. -/
def wordValue? (s : List Char) : Option (Toml × List Char) := do
  let (word, rest) := s.span Word.isWordChar
  match rest with
  | ' ' :: more =>
    let (time, after) := more.span Word.isWordChar
    if Word.isDay word ∧ !time.isEmpty then
      if Word.isTimeWithOffset time then
        return (.date (String.ofList (word ++ ' ' :: time)), after)
      else none
    else return (← Word.value? word, rest)
  | rest => return (← Word.value? word, rest)

/-- The elements of an array after its opening bracket or a comma; `fuel` of one for each character is
enough. -/
def elements? (item : List Char → Option (Toml × List Char)) :
    (fuel : Nat) → List Char → Option (List Toml × List Char)
  | 0, _ => none
  | fuel + 1, s =>
    match skipGap false s with
    | ']' :: rest => some ([], rest)
    | s => do
      let (v, rest) ← item s
      match skipGap false rest with
      | ']' :: rest => return ([v], rest)
      | ',' :: rest =>
        let (vs, rest) ← elements? item fuel rest
        return (v :: vs, rest)
      | _ => none

/-- A key, its equals sign and its value. -/
def pair? (item : List Char → Option (Toml × List Char)) (s : List Char) :
    Option ((List String × Toml) × List Char) := do
  let (key, rest) ← key? maxDepth s
  match rest with
  | '=' :: rest =>
    let (v, rest) ← item (skipBlanks rest)
    return ((key, v), rest)
  | _ => none

/-- The pairs of a table in braces, of which there is one more. -/
def pairs? (item : List Char → Option (Toml × List Char)) :
    (fuel : Nat) → List Char → Option (List (List String × Toml) × List Char)
  | 0, _ => none
  | fuel + 1, s => do
    let (p, rest) ← pair? item s
    match skipBlanks rest with
    | '\x7d' :: rest => return ([p], rest)
    | ',' :: rest =>
      let (ps, rest) ← pairs? item fuel rest
      return (p :: ps, rest)
    | _ => none

/-- A value, inside of which so many containers may be open. -/
def value? : (nesting : Nat) → List Char → Option (Toml × List Char)
  | _, '"' :: rest => (Quoted.any? ('"' :: rest)).map fun p => (.string (String.ofList p.1), p.2)
  | _, '\'' :: rest => (Quoted.any? ('\'' :: rest)).map fun p => (.string (String.ofList p.1), p.2)
  | nesting + 1, '[' :: rest =>
    (elements? (value? nesting) (rest.length + 1) rest).map fun p => (.array p.1, p.2)
  | nesting + 1, '\x7b' :: rest =>
    match skipBlanks rest with
    | '\x7d' :: rest => some (.table .braces [], rest)
    | rest => do
      let (ps, rest) ← pairs? (value? nesting) (rest.length + 1) rest
      return (.table .braces (← inBraces ps), rest)
  | _, s => wordValue? s

/-- A header after its first bracket. -/
def header? : List Char → Option (Statement × List Char)
  | '[' :: rest => do
    let (path, rest) ← key? maxDepth rest
    match rest with
    | ']' :: ']' :: rest => return (.elementHeader path, rest)
    | _ => none
  | rest => do
    let (path, rest) ← key? maxDepth rest
    match rest with
    | ']' :: rest => return (.tableHeader path, rest)
    | _ => none

/-- A statement. -/
def statement? : List Char → Option (Statement × List Char)
  | '[' :: rest => header? rest
  | s => (pair? (value? maxDepth) s).map fun p => (.pair p.1.1 p.1.2, p.2)

/-- The statements of a document; `fuel` of one for each character is enough. -/
def statements? : (fuel : Nat) → List Char → Option (List Statement)
  | fuel, s =>
    match skipGap false s with
    | [] => some []
    | s =>
      match fuel with
      | 0 => none
      | fuel + 1 => do
        let (statement, rest) ← statement? s
        return statement :: (← statements? fuel (← lineEnd? rest))

/-- Leaves out a byte order mark. -/
def dropMark : List Char → List Char
  | c :: rest => if c.toNat = 0xFEFF then rest else c :: rest
  | [] => []

/-- The members of the document that a text holds. -/
def parse? (text : String) : Option Members := do
  let s := dropMark text.toList
  Document.build (← statements? s.length s)

end GatewayStore.Toml
