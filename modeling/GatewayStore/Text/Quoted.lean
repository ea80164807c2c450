/-
  Texts quoted for a reader: in double quotes, with everything escaped that could not be told from
  something else on a screen.
-/
import GatewayStore.Text.Printable

namespace GatewayStore.Text

/-- An escape by code point. -/
def codePointEscape (c : Char) : List Char :=
  "\\u\x7b".toList ++ Nat.toDigits 16 c.toNat ++ ['\x7d']

/-- The quoted form of a character. -/
def quotedChar (c : Char) : List Char :=
  if c = '"' then ['\\', '"']
  else if c = '\\' then ['\\', '\\']
  else if c = '\n' then ['\\', 'n']
  else if c = '\r' then ['\\', 'r']
  else if c = '\t' then ['\\', 't']
  else if c.toNat = 0 then ['\\', '0']
  else if 32 ≤ c.toNat ∧ c.toNat < 127 then [c]
  else if isExtending c ∨ isInvisible c then codePointEscape c
  else [c]

/-- A text as it stands in an error text. -/
def quoted (s : String) : String :=
  String.ofList ('"' :: (s.toList.flatMap quotedChar ++ ['"']))

end GatewayStore.Text
