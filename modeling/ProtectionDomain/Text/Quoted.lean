import ProtectionDomain.Text.Hex
import ProtectionDomain.Text.Printable

/-!
# Quoted text

How a text is shown inside a message: between double quotes, with a short escape where there is
one and the code point in braces for every other character that cannot be shown.

* `quotedChar`: one character;
* `quoted`: a whole text.
-/

namespace ProtectionDomain.Text

/-- A character between quotes. -/
def quotedChar (c : Char) : List Char :=
  if c = '"' then ['\\', '"']
  else if c = '\\' then ['\\', '\\']
  else if c = '\n' then ['\\', 'n']
  else if c = '\r' then ['\\', 'r']
  else if c = '\t' then ['\\', 't']
  else if c = '\x00' then ['\\', '0']
  else if isPrintable c then [c]
  else '\\' :: 'u' :: '{' :: hexNumber c.toNat ++ ['}']

/-- A text between quotes. -/
def quoted (s : String) : String :=
  String.ofList ('"' :: s.toList.flatMap quotedChar ++ ['"'])

end ProtectionDomain.Text
