import ProtectionDomain.Text.Printable.Runs

/-!
# Printable characters

* `isPrintable`: the characters that are shown as they are.
-/

namespace ProtectionDomain.Text

/-- The character is shown as it is. Of the ASCII characters these are the ones from the space to
the tilde. -/
def isPrintable (c : Char) : Bool :=
  if c.toNat < 0x7F then 0x20 ≤ c.toNat
  else !hiddenRuns.any fun (first, last) => first ≤ c.toNat && c.toNat ≤ last

end ProtectionDomain.Text
