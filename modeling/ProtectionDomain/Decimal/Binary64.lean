/-!
# Binary floating point

A finite 64-bit float is `± m · 2 ^ q`.

* `Binary64`: a float by its bit pattern;
* `significand`, `exponent`: the numbers `m` and `q`;
* `lower`, `upper`: the numbers that round to the float, in quarters of its last place.
-/

namespace ProtectionDomain.Decimal

/-- A 64-bit float, by its bit pattern. -/
structure Binary64 where
  bits : UInt64
  deriving DecidableEq

namespace Binary64

/-- The bit pattern of a float. -/
def ofFloat (x : Float) : Binary64 := ⟨x.toBits⟩

variable (x : Binary64)

/-- The sign bit. -/
def isNegative : Bool := x.bits.toNat >>> 63 == 1

/-- The eleven bits after the sign. -/
def exponentField : Nat := x.bits.toNat >>> 52 % 1 <<< 11

/-- The last fifty-two bits. -/
def fraction : Nat := x.bits.toNat % 1 <<< 52

/-- The number `m` of the magnitude `m · 2 ^ q`. -/
def significand : Nat := if x.exponentField = 0 then x.fraction else 1 <<< 52 + x.fraction

/-- The number `q` of the magnitude `m · 2 ^ q`. -/
def exponent : Int := (max x.exponentField 1 : Nat) - 1075

/-- The lower end of what rounds to the magnitude, in quarters of `2 ^ q`. Below a power of two
the next float is half as far. -/
def lower : Nat :=
  4 * x.significand - if x.fraction = 0 ∧ 1 < x.exponentField then 1 else 2

/-- The upper end of what rounds to the magnitude, in quarters of `2 ^ q`. -/
def upper : Nat := 4 * x.significand + 2

/-- What a quarter of `2 ^ q` and what `10 ^ k` are on one integer scale. -/
def scale (k : Int) : Nat × Nat :=
  let e := x.exponent - 2
  (Nat.pow 10 (-k).toNat <<< e.toNat, Nat.pow 10 k.toNat <<< (-e).toNat)

/-- `c · 10 ^ k` rounds to the magnitude. The ends do if `m` is even. -/
def roundsTo (k : Int) (c : Nat) : Bool :=
  let (quarter, unit) := x.scale k
  if x.significand % 2 = 0 then
    x.lower * quarter ≤ c * unit && c * unit ≤ x.upper * quarter
  else
    x.lower * quarter < c * unit && c * unit < x.upper * quarter

/-- The largest `c` with `c · 10 ^ k` not above the magnitude. -/
def floorAt (k : Int) : Nat :=
  let (quarter, unit) := x.scale k
  4 * x.significand * quarter / unit

/-- The magnitude is nearer to `c · 10 ^ k` than to the next multiple of `10 ^ k`, or as near and
`c` is even. -/
def prefersFloor (k : Int) (c : Nat) : Bool :=
  let (quarter, unit) := x.scale k
  let twice := 2 * (4 * x.significand * quarter)
  let middle := (2 * c + 1) * unit
  twice < middle || twice == middle && c % 2 == 0

end Binary64

end ProtectionDomain.Decimal
