/-
  The fields of a message: a tag and a value. Fields in forms that no message here uses, and whole
  groups, are kept only as such, because their contents mean nothing.
-/
import GatewayStore.Wire.Varint

namespace GatewayStore.Wire

/-- The value of a field. -/
inductive Value where
  | varint (n : UInt64)
  | bytes (b : Bytes)
  | foreign
deriving DecidableEq

/-- A field of a message. -/
structure Field where
  tag : Nat
  value : Value
deriving DecidableEq

/-- How deeply messages and groups may be nested. -/
def maxNesting : Nat := 100

namespace Field

/-- The bytes of a field. A foreign one has none. -/
def write (f : Field) : Bytes :=
  match f.value with
  | .varint n => Wire.varint (f.tag * 8) ++ Wire.varint n.toNat
  | .bytes b => Wire.varint (f.tag * 8 + 2) ++ Wire.varint b.length ++ b
  | .foreign => []

/-- The bytes of several fields. -/
def writeAll (fs : List Field) : Bytes := fs.flatMap write

/-- The form and the tag at the start of a field. -/
def readKey (b : Bytes) : Option ((Nat × Nat) × Bytes) :=
  match readVarint b with
  | none => none
  | some (key, rest) =>
    if key < 2 ^ 32 ∧ 8 ≤ key ∧ key % 8 < 6 then some ((key % 8, key / 8), rest) else none

/-- The first `n` bytes and the rest, if there are so many. -/
def take? (n : Nat) (b : Bytes) : Option (Bytes × Bytes) :=
  if n ≤ b.length then some (b.splitAt n) else none

/-- A piece of a message: a field, or the start or end of a group with its tag. -/
inductive Piece where
  | field (f : Field)
  | groupStart (tag : Nat)
  | groupEnd (tag : Nat)

/-- Reads a piece. -/
def readPiece (b : Bytes) : Option (Piece × Bytes) :=
  match readKey b with
  | none => none
  | some ((form, tag), rest) =>
    match form with
    | 0 => (readVarint rest).map fun p => (.field ⟨tag, .varint (UInt64.ofNat p.1)⟩, p.2)
    | 1 => (take? 8 rest).map fun p => (.field ⟨tag, .foreign⟩, p.2)
    | 2 => (readVarint rest).bind fun p =>
        (take? p.1 p.2).map fun q => (.field ⟨tag, .bytes q.1⟩, q.2)
    | 3 => some (.groupStart tag, rest)
    | 4 => some (.groupEnd tag, rest)
    | _ => (take? 4 rest).map fun p => (.field ⟨tag, .foreign⟩, p.2)

/-- Reads fields to the end. `groups` are the tags of the open groups, the innermost first, and
`nesting` is how many may be open. Every piece takes at least one byte, so the length is enough
`fuel`. -/
def readFrom (nesting : Nat) : (fuel : Nat) → (groups : List Nat) → Bytes → Option (List Field)
  | _, [], [] => some []
  | _, _ :: _, [] => none
  | 0, _, _ => none
  | fuel + 1, groups, b =>
    match readPiece b, groups with
    | none, _ => none
    | some (.field f, rest), [] => (readFrom nesting fuel [] rest).map (f :: ·)
    | some (.groupStart tag, rest), [] =>
      if 0 < nesting then (readFrom nesting fuel [tag] rest).map (⟨tag, .foreign⟩ :: ·) else none
    | some (.groupEnd _, _), [] => none
    | some (.field _, rest), groups =>
      if groups.length < nesting then readFrom nesting fuel groups rest else none
    | some (.groupStart tag, rest), groups =>
      if groups.length < nesting then readFrom nesting fuel (tag :: groups) rest else none
    | some (.groupEnd tag, rest), opened :: around =>
      if tag = opened then readFrom nesting fuel around rest else none

/-- The fields of a message. -/
def readAll (nesting : Nat) (b : Bytes) : Option (List Field) := readFrom nesting b.length [] b

end Field

end GatewayStore.Wire
