import ProtectionDomain.IntKind

/-!
# The machine integers of the kinds

* `FixedWidth`: the eight machine integer types, each with its kind;
* `FixedWidth.wrap`: keeps the low bits of a 128-bit number and reads them in the type;
* `FixedWidth.widen`: the number that a machine integer is, through 128 bits;
* `IntKind.cast`: both in turn, for the type of a kind.
-/

namespace ProtectionDomain

/-- A machine integer type of a kind. -/
class FixedWidth (α : Type) where
  kind : IntKind
  /-- The integer with the low bits of a 128-bit number. -/
  wrap : BitVec 128 → α
  /-- The integer extended to 128 bits. -/
  widen : α → BitVec 128

instance : FixedWidth Int8 := ⟨⟨.w8, .signed⟩, fun v => .ofBitVec (v.setWidth 8),
  fun x => x.toBitVec.signExtend 128⟩

instance : FixedWidth Int16 := ⟨⟨.w16, .signed⟩, fun v => .ofBitVec (v.setWidth 16),
  fun x => x.toBitVec.signExtend 128⟩

instance : FixedWidth Int32 := ⟨⟨.w32, .signed⟩, fun v => .ofBitVec (v.setWidth 32),
  fun x => x.toBitVec.signExtend 128⟩

instance : FixedWidth Int64 := ⟨⟨.w64, .signed⟩, fun v => .ofBitVec (v.setWidth 64),
  fun x => x.toBitVec.signExtend 128⟩

instance : FixedWidth UInt8 := ⟨⟨.w8, .unsigned⟩, fun v => .ofBitVec (v.setWidth 8),
  fun x => x.toBitVec.setWidth 128⟩

instance : FixedWidth UInt16 := ⟨⟨.w16, .unsigned⟩, fun v => .ofBitVec (v.setWidth 16),
  fun x => x.toBitVec.setWidth 128⟩

instance : FixedWidth UInt32 := ⟨⟨.w32, .unsigned⟩, fun v => .ofBitVec (v.setWidth 32),
  fun x => x.toBitVec.setWidth 128⟩

instance : FixedWidth UInt64 := ⟨⟨.w64, .unsigned⟩, fun v => .ofBitVec (v.setWidth 64),
  fun x => x.toBitVec.setWidth 128⟩

namespace FixedWidth

variable (α : Type) [FixedWidth α]

/-- The integer of the type that a number is cast to. -/
def ofInt (v : Int) : α := wrap (BitVec.ofInt 128 v)

variable {α} in
/-- The number that a machine integer is. -/
def toInt (x : α) : Int := (widen x).toInt

/-- A number cast to the type and back. -/
def cast (v : Int) : Int := toInt (ofInt α v)

end FixedWidth

/-- A number cast to the machine integer type of a kind and back. -/
def IntKind.cast : IntKind → Int → Int
  | ⟨.w8, .signed⟩ => FixedWidth.cast Int8
  | ⟨.w16, .signed⟩ => FixedWidth.cast Int16
  | ⟨.w32, .signed⟩ => FixedWidth.cast Int32
  | ⟨.w64, .signed⟩ => FixedWidth.cast Int64
  | ⟨.w8, .unsigned⟩ => FixedWidth.cast UInt8
  | ⟨.w16, .unsigned⟩ => FixedWidth.cast UInt16
  | ⟨.w32, .unsigned⟩ => FixedWidth.cast UInt32
  | ⟨.w64, .unsigned⟩ => FixedWidth.cast UInt64

end ProtectionDomain
