import ProtectionDomain.Text.Inspect
import ProtectionDomain.Wire

/-!
# Kinds of fixed-width integers

* `IntWidth`, `Signedness`, `IntKind`: the eight kinds, `IntKind.all`;
* `IntKind.min`, `IntKind.max`, `IntKind.contains`: their ranges;
* `IntKind.truncate`: the value of a kind that agrees with a number modulo `2 ^ bits`.
-/

namespace ProtectionDomain

/-- The width of an integer. -/
inductive IntWidth
  | w8
  | w16
  | w32
  | w64
  deriving DecidableEq, Hashable, Ord

/-- Whether an integer has a sign. -/
inductive Signedness
  | signed
  | unsigned
  deriving DecidableEq, Hashable

/-- The width and signedness of an integer. -/
structure IntKind where
  width : IntWidth
  signedness : Signedness
  deriving DecidableEq, Hashable

namespace IntWidth

/-- The number of bits. -/
def bits : IntWidth → Nat
  | w8 => 8
  | w16 => 16
  | w32 => 32
  | w64 => 64

/-- The number of values. -/
def span (w : IntWidth) : Nat := 1 <<< w.bits

/-- The number of bytes. -/
def bytes (w : IntWidth) : Nat := w.bits / 8

/-- The name on the wire and in inspection texts. -/
def name : IntWidth → String
  | w8 => "W8"
  | w16 => "W16"
  | w32 => "W32"
  | w64 => "W64"

end IntWidth

/-- The name on the wire and in inspection texts. -/
def Signedness.name : Signedness → String
  | signed => "Signed"
  | unsigned => "Unsigned"

namespace IntKind

/-- All kinds: signed before unsigned, narrow before wide. -/
def all : List IntKind :=
  [.signed, .unsigned].flatMap fun s => [.w8, .w16, .w32, .w64].map fun w => ⟨w, s⟩

variable (k : IntKind)

/-- The kind has a sign. -/
def isSigned : Bool := k.signedness == .signed

/-- The smallest value. -/
def min : Int := if k.isSigned then -(k.width.span / 2 : Nat) else 0

/-- The largest value. -/
def max : Int := if k.isSigned then (k.width.span / 2 : Nat) - 1 else k.width.span - 1

/-- The number is a value of the kind. -/
def contains (v : Int) : Bool := k.min ≤ v && v ≤ k.max

/-- The value of the kind that agrees with a number modulo `2 ^ bits`. -/
def truncate (v : Int) : Int :=
  let low := v % k.width.span
  if k.isSigned ∧ k.max < low then low - k.width.span else low

/-- The name of the kind. -/
def display : String := (if k.isSigned then "Int" else "Uint") ++ toString k.width.bits

end IntKind

/-! ## Texts -/

instance : Inspect IntWidth := ⟨IntWidth.name⟩

instance : Inspect Signedness := ⟨Signedness.name⟩

instance : Inspect IntKind :=
  ⟨fun k => Text.inspectRecord "IntKind"
    [("width", inspect k.width), ("signedness", inspect k.signedness)]⟩

instance : Wire IntWidth where
  shape := .choice "IntWidth" (.plain "W8" (.plain "W16" (.plain "W32" (.plain "W64" .nil))))
  toCarrier
    | .w8 => .inl ()
    | .w16 => .inr (.inl ())
    | .w32 => .inr (.inr (.inl ()))
    | .w64 => .inr (.inr (.inr (.inl ())))
  ofCarrier
    | .inl () => .w8
    | .inr (.inl ()) => .w16
    | .inr (.inr (.inl ())) => .w32
    | .inr (.inr (.inr (.inl ()))) => .w64
  ofCarrier_toCarrier w := by cases w <;> rfl

instance : Wire Signedness where
  shape := .choice "Signedness" (.plain "Signed" (.plain "Unsigned" .nil))
  toCarrier
    | .signed => .inl ()
    | .unsigned => .inr (.inl ())
  ofCarrier
    | .inl () => .signed
    | .inr (.inl ()) => .unsigned
  ofCarrier_toCarrier s := by cases s <;> rfl

instance : Wire IntKind where
  shape := .record "IntKind" (.cons "width" (Wire.shape IntWidth)
    (.cons "signedness" (Wire.shape Signedness) .nil))
  toCarrier k := (Wire.toCarrier k.width, Wire.toCarrier k.signedness, ())
  ofCarrier := fun (w, s, ()) => ⟨Wire.ofCarrier w, Wire.ofCarrier s⟩
  ofCarrier_toCarrier k := by simp [Wire.ofCarrier_toCarrier]

end ProtectionDomain
