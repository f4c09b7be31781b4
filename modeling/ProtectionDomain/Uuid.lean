import ProtectionDomain.Text.Hex

/-!
# Universally unique ids

* `Uuid`: 128 bits;
* `Uuid.ofRandom`, `Uuid.version`: random ids are marked as version 4;
* `Uuid.text`: the canonical text, lower-case digits in groups of 8, 4, 4, 4 and 12.
-/

namespace ProtectionDomain

/-- A universally unique id. -/
structure Uuid where
  bits : BitVec 128
  deriving DecidableEq, Hashable

namespace Uuid

/-- The id whose bits are all zero. -/
def nil : Uuid := ⟨0⟩

/-- The id made of 128 drawn bits, six of which give way to the version and the variant. -/
def ofRandom (drawn : BitVec 128) : Uuid :=
  let version : BitVec 128 := 4 <<< 76
  let variant : BitVec 128 := 2 <<< 62
  let mask : BitVec 128 := 15 <<< 76 ||| 3 <<< 62
  ⟨drawn &&& ~~~mask ||| version ||| variant⟩

/-- The version field. -/
def version (u : Uuid) : Nat := (u.bits >>> 76 &&& 15).toNat

/-- The 32 digits of an id. -/
def digits (u : Uuid) : List Char := Text.hexDigits 32 u.bits.toNat

/-- Digits with hyphens after the eighth, twelfth, sixteenth and twentieth. -/
def hyphenate (ds : List Char) : List Char :=
  ds.extract 0 8 ++ '-' :: ds.extract 8 12 ++ '-' :: ds.extract 12 16 ++
    '-' :: ds.extract 16 20 ++ '-' :: ds.extract 20 32

/-- The canonical text of an id. -/
def text (u : Uuid) : String := String.ofList (hyphenate u.digits)

end Uuid

end ProtectionDomain
