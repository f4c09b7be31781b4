import ProtectionDomain.Text.Hex
import ProtectionDomain.Text.Utf8

/-!
# The bytes of JSON's own signs

* names for the signs;
* `isBlank`, `skipBlanks`: the blanks allowed between tokens;
* `isDigit`, `hexValue?`: digits.
-/

namespace ProtectionDomain.Json

namespace Byte

/-- The byte `"`. -/
abbrev quote : UInt8 := 0x22
/-- The byte `\`. -/
abbrev backslash : UInt8 := 0x5C
/-- The byte `,`. -/
abbrev comma : UInt8 := 0x2C
/-- The byte `:`. -/
abbrev colon : UInt8 := 0x3A
/-- The byte `[`. -/
abbrev openBracket : UInt8 := 0x5B
/-- The byte `]`. -/
abbrev closeBracket : UInt8 := 0x5D
/-- The byte `{`. -/
abbrev openBrace : UInt8 := 0x7B
/-- The byte `}`. -/
abbrev closeBrace : UInt8 := 0x7D
/-- The byte `-`. -/
abbrev minus : UInt8 := 0x2D
/-- The byte `+`. -/
abbrev plus : UInt8 := 0x2B
/-- The byte `.`. -/
abbrev point : UInt8 := 0x2E
/-- The byte `0`. -/
abbrev zero : UInt8 := 0x30
/-- The byte `u`. -/
abbrev letterU : UInt8 := 0x75

/-- The bytes `0` to `9`. -/
def isDigit (b : UInt8) : Bool := 0x30 ≤ b && b ≤ 0x39

/-- The value of a digit. -/
def digitValue (b : UInt8) : Nat := b.toNat - 0x30

/-- Space, tab, line feed and carriage return. -/
def isBlank (b : UInt8) : Bool := b == 0x20 || b == 0x09 || b == 0x0A || b == 0x0D

/-- The value of a hexadecimal digit of either case. -/
def hexValue? (b : UInt8) : Option Nat := Text.hexValue? (Char.ofUInt8 b)

end Byte

/-- A document without the blanks at its front. -/
def skipBlanks (bs : Bytes) : Bytes := bs.dropWhile Byte.isBlank

end ProtectionDomain.Json
