/-
  TOML values, and how the statements of a document build up its tables. A table may be written in
  several places, and how it came to be decides which of them are allowed.
-/
namespace GatewayStore

namespace Toml

/-- How a table came to be: by a header of its own, on the way of a longer header, by a dotted key,
or written in braces. -/
inductive Origin where
  | header
  | way
  | dots
  | braces
deriving DecidableEq

end Toml

/-- A TOML value. Floats and dates are kept as they are written. `tables` is an array of tables that
headers in double brackets build up, which has a last one. -/
inductive Toml where
  | string (text : String)
  | integer (value : Int)
  | boolean (value : Bool)
  | float (written : String)
  | date (written : String)
  | array (elements : List Toml)
  | table (origin : Toml.Origin) (members : List (String × Toml))
  | tables (earlier : List (List (String × Toml))) (last : List (String × Toml))

namespace Toml

/-- The members of a table in the order of writing. -/
abbrev Members := List (String × Toml)

/-- Changes the member with a name, which may be absent; `f` gives none where that is not allowed. -/
def alter (name : String) (f : Option Toml → Option Toml) : Members → Option Members
  | [] => (f none).map fun v => [(name, v)]
  | (k, v) :: rest =>
    if k = name then (f (some v)).map fun v => (k, v) :: rest
    else (alter name f rest).map fun rest => (k, v) :: rest

/-- Adds a member with a new name. -/
def add (name : String) (v : Toml) : Members → Option Members :=
  alter name fun existing => if existing.isNone then some v else none

/-- Whether a dotted key may lead through a table. -/
def Origin.admitsDots : Origin → Bool
  | .way | .dots => true
  | .header | .braces => false

/-- Whether a header may lead through a table. -/
def Origin.admitsHeader (o : Origin) : Bool := o ≠ .braces

/-- Changes the table at the end of a header's path. Tables that are missing on the way are made; in
an array of tables the way leads to the last. -/
def alongHeader (f : Members → Option Members) : List String → Members → Option Members
  | [], members => f members
  | name :: path, members =>
    alter name (fun
      | none => (alongHeader f path []).map (.table .way)
      | some (.table origin inner) =>
        if origin.admitsHeader then (alongHeader f path inner).map (.table origin) else none
      | some (.tables earlier last) => (alongHeader f path last).map (.tables earlier)
      | some _ => none) members

/-- Changes the table that the way of a dotted key leads to. The last table on it has to be one that
dotted keys have made. -/
def alongDots (f : Members → Option Members) : Origin → List String → Members → Option Members
  | origin, [], members => if origin = .dots then f members else none
  | _, name :: path, members =>
    alter name (fun
      | none => (alongDots f .dots path []).map (.table .dots)
      | some (.table origin inner) =>
        if origin.admitsDots then (alongDots f origin path inner).map (.table origin) else none
      | some (.tables earlier last) => (alongDots f .header path last).map (.tables earlier)
      | some _ => none) members

/-- Sets the value at a key of a table. -/
def assign (key : List String) (v : Toml) (members : Members) : Option Members :=
  match key.dropLast, key.getLast? with
  | _, none => none
  | [], some name => add name v members
  | way, some name => alongDots (add name v) .dots way members

/-- Opens the table with a name by its header. -/
def openTable (name : String) : Members → Option Members :=
  alter name fun
    | none => some (.table .header [])
    | some (.table .way inner) => some (.table .header inner)
    | some _ => none

/-- Adds a table to the array of tables with a name. -/
def openElement (name : String) : Members → Option Members :=
  alter name fun
    | none => some (.tables [] [])
    | some (.tables earlier last) => some (.tables (earlier ++ [last]) [])
    | some _ => none

/-- A statement of a document. -/
inductive Statement where
  | pair (key : List String) (value : Toml)
  | tableHeader (path : List String)
  | elementHeader (path : List String)

/-- Opens what a header names. -/
def openAt (f : String → Members → Option Members) (path : List String) (root : Members) :
    Option Members :=
  path.getLast?.bind fun name => alongHeader (f name) path.dropLast root

/-- A document so far: its members, and the path of the header that the next pairs belong to. -/
structure Document where
  root : Members
  current : List String

namespace Document

def empty : Document := ⟨[], []⟩

/-- Adds a statement. -/
def apply (d : Document) : Statement → Option Document
  | .pair key v => (alongHeader (assign key v) d.current d.root).map fun root => ⟨root, d.current⟩
  | .tableHeader path => (openAt openTable path d.root).map fun root => ⟨root, path⟩
  | .elementHeader path => (openAt openElement path d.root).map fun root => ⟨root, path⟩

/-- The members of a document with these statements. -/
def build (statements : List Statement) : Option Members :=
  (statements.foldlM apply empty).map root

end Document

/-- The members of a table in braces with these pairs. -/
def inBraces (pairs : List (List String × Toml)) : Option Members :=
  pairs.foldlM (fun members p => assign p.1 p.2 members) []

end Toml

end GatewayStore
