import Stencil.Text.Extend
import Stencil.Text.Unseen

/-!
# Quoted text

The form in which a text is shown in a listing: between double quotes, with a backslash
in front of quotes and backslashes, short names for the common control characters, and
the code point in hexadecimal for every other character that cannot be seen on its own.

## Main definitions

* `quoted` — the quoted form of a text.
-/

namespace Stencil.Text

/-- Whether a character can be seen when it is shown on its own. -/
def isVisible (c : Char) : Bool := !isExtender c && !isUnseen c

/-- The quoted form of one character. -/
def quotedChar (c : Char) : List Char :=
  if c = '"' then ['\\', '"']
  else if c = '\\' then ['\\', '\\']
  else if c = '\n' then ['\\', 'n']
  else if c = '\r' then ['\\', 'r']
  else if c = '\t' then ['\\', 't']
  else if c.toNat = 0 then ['\\', '0']
  else if isVisible c then [c]
  else ['\\', 'u', '{'] ++ Nat.toDigits 16 c.toNat ++ ['}']

/-- The quoted form of a text. -/
def quoted (s : String) : String :=
  String.ofList ('"' :: s.toList.flatMap quotedChar ++ ['"'])

end Stencil.Text
