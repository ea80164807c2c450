/-
  Stored values are byte strings. This file ties them to text: the UTF-8 encoding, its exact
  inverse, and a lenient reading that marks every ill-formed part.
-/
namespace GatewayStore

/-- A byte string. -/
abbrev Bytes := List UInt8

namespace Text

/-- The UTF-8 encoding of a text. -/
def utf8 (s : String) : Bytes := s.toUTF8.data.toList

/-- The text with this UTF-8 encoding, if the bytes are well-formed. -/
def ofUtf8? (b : Bytes) : Option String := String.fromUTF8? ⟨b.toArray⟩

theorem ofUtf8?_utf8 (s : String) : ofUtf8? (utf8 s) = some s := by
  simp [ofUtf8?, utf8, String.fromUTF8?, String.toUTF8, String.fromUTF8, s.isValidUTF8]

theorem utf8_of_ofUtf8? {b : Bytes} {s : String} (h : ofUtf8? b = some s) : utf8 s = b := by
  unfold ofUtf8? String.fromUTF8? at h
  split at h
  · cases h; simp [utf8, String.toUTF8, String.fromUTF8]
  · cases h

theorem utf8_injective {s t : String} (h : utf8 s = utf8 t) : s = t := by
  have := ofUtf8?_utf8 s
  rw [h, ofUtf8?_utf8] at this
  exact (Option.some.inj this).symm

/-- A character whose first bytes have been read: how many bytes are owed, the range of the next
one, and the code point so far. -/
structure Partial where
  owed : Nat
  low : UInt8
  high : UInt8
  point : Nat

/-- What a first byte promises; `none` if no character of two or more bytes starts with it. -/
def Partial.ofLead (b : UInt8) : Option Partial :=
  let n := b.toNat
  if 0xC2 ≤ n ∧ n ≤ 0xDF then some ⟨1, 0x80, 0xBF, n - 0xC0⟩
  else if n = 0xE0 then some ⟨2, 0xA0, 0xBF, 0⟩
  else if n = 0xED then some ⟨2, 0x80, 0x9F, 13⟩
  else if 0xE1 ≤ n ∧ n ≤ 0xEF then some ⟨2, 0x80, 0xBF, n - 0xE0⟩
  else if n = 0xF0 then some ⟨3, 0x90, 0xBF, 0⟩
  else if 0xF1 ≤ n ∧ n ≤ 0xF3 then some ⟨3, 0x80, 0xBF, n - 0xF0⟩
  else if n = 0xF4 then some ⟨3, 0x80, 0x8F, 4⟩
  else none

/-- U+FFFD, which stands for an ill-formed part. -/
def replacement : Char := Char.ofNat 0xFFFD

/-- A byte read between characters. -/
def lenientStart (b : UInt8) : List Char × Option Partial :=
  if b < 0x80 then ([Char.ofNat b.toNat], none)
  else match Partial.ofLead b with
    | some p => ([], some p)
    | none => ([replacement], none)

/-- One byte of the lenient reading: the characters it completes and what is still open. A byte
that cannot continue the open character closes it as ill-formed and is read anew. -/
def lenientStep : Option Partial → UInt8 → List Char × Option Partial
  | none, b => lenientStart b
  | some p, b =>
    if p.low ≤ b ∧ b ≤ p.high then
      let point := p.point * 64 + (b.toNat - 0x80)
      if p.owed ≤ 1 then ([Char.ofNat point], none)
      else ([], some ⟨p.owed - 1, 0x80, 0xBF, point⟩)
    else
      let (out, next) := lenientStart b
      (replacement :: out, next)

/-- The lenient reading from an open character on. -/
def lenientFrom : Option Partial → Bytes → List Char
  | none, [] => []
  | some _, [] => [replacement]
  | p, b :: rest => (lenientStep p b).1 ++ lenientFrom (lenientStep p b).2 rest

/-- The text of any byte string: one U+FFFD for every maximal ill-formed prefix of a character. -/
def lenient (b : Bytes) : String := String.ofList (lenientFrom none b)

end Text

end GatewayStore
