import ProtectionDomain.Json.Byte
import ProtectionDomain.Json.Fault

/-!
# Numerals

* `Numeral`: the parts of a numeral as written;
* `Numeral.scan`: the numeral at the front of a document;
* `Numeral.value`: its value. A numeral with a fraction or an exponent, and an integer beyond 64
  bits, has a float as its value.
-/

namespace ProtectionDomain.Json

/-- A numeral, as it is written. -/
structure Numeral where
  negative : Bool
  /-- The digits before the point. -/
  whole : Bytes
  /-- The digits after the point; none without a point. -/
  fraction : Bytes
  /-- The sign and the digits of the exponent. -/
  exponent : Option (Bool × Bytes)
  deriving DecidableEq

namespace Numeral

/-! ## Scanning -/

/-- At least one digit. At the end of the document the fault is `atEnd`. -/
def scanDigits (atEnd : Fault) (bs : Bytes) : Except Fault (Bytes × Bytes) :=
  match bs with
  | [] => .error atEnd
  | b :: _ =>
    if Byte.isDigit b then .ok (bs.takeWhile Byte.isDigit, bs.dropWhile Byte.isDigit)
    else .error .badNumeral

/-- The digits before the point: a single zero, or digits that do not begin with one. -/
def scanWhole (atEnd : Fault) (bs : Bytes) : Except Fault (Bytes × Bytes) :=
  match bs with
  | b :: rest =>
    if b = Byte.zero then
      if rest.head?.any Byte.isDigit then .error .badNumeral else .ok ([b], rest)
    else scanDigits atEnd bs
  | [] => scanDigits atEnd bs

/-- The digits after a point, if there is one. -/
def scanFraction (atEnd : Fault) (bs : Bytes) : Except Fault (Bytes × Bytes) :=
  match bs with
  | b :: rest => if b = Byte.point then scanDigits atEnd rest else .ok ([], bs)
  | [] => .ok ([], bs)

/-- A minus sign at the front, if there is one. -/
def scanMinus (bs : Bytes) : Bool × Bytes :=
  match bs with
  | b :: rest => if b = Byte.minus then (true, rest) else (false, bs)
  | [] => (false, bs)

/-- A sign at the front, if there is one; a minus sign gives `true`. -/
def scanSign (bs : Bytes) : Bool × Bytes :=
  match bs with
  | b :: rest => if b = Byte.plus then (false, rest) else scanMinus bs
  | [] => (false, bs)

/-- The byte opens an exponent. -/
def isExponentSign (b : UInt8) : Bool := b == 0x65 || b == 0x45

/-- The exponent, if there is one. -/
def scanExponent (atEnd : Fault) (bs : Bytes) : Except Fault (Option (Bool × Bytes) × Bytes) :=
  match bs with
  | b :: rest =>
    if isExponentSign b then do
      let (negative, rest) := scanSign rest
      let (digits, rest) ← scanDigits atEnd rest
      return (some (negative, digits), rest)
    else .ok (none, bs)
  | [] => .ok (none, bs)

/-- The numeral at the front of a document. Where it is cut off by the end of the document, the
fault is `atEnd`. -/
def scan (atEnd : Fault) (bs : Bytes) : Except Fault (Numeral × Bytes) := do
  let (negative, bs) := scanMinus bs
  let (whole, bs) ← scanWhole atEnd bs
  let (fraction, bs) ← scanFraction atEnd bs
  let (exponent, bs) ← scanExponent atEnd bs
  return (⟨negative, whole, fraction, exponent⟩, bs)

/-! ## Values -/

/-- The number that digits spell. -/
def ofDigits (ds : Bytes) : Nat := ds.foldl (fun n d => 10 * n + Byte.digitValue d) 0

/-- The largest significand. -/
def maxSignificand : Nat := 1 <<< 64 - 1

/-- As many digits as the significand can take after `n`: the new significand and the digits
left over. -/
def takeDigits : Nat → Bytes → Nat × Bytes
  | n, [] => (n, [])
  | n, d :: ds =>
    let m := 10 * n + Byte.digitValue d
    if m ≤ maxSignificand then takeDigits m ds else (n, d :: ds)

/-- The magnitude `significand · 10 ^ exponent`, with the digits that exceed the significand cut
off. -/
def decimal (x : Numeral) : Nat × Int :=
  let (n, dropped) := takeDigits 0 x.whole
  let (m, unread) := takeDigits n x.fraction
  let written : Int := match x.exponent with
    | none => 0
    | some (negative, ds) => if negative then -(ofDigits ds : Int) else ofDigits ds
  (m, written + dropped.length - (x.fraction.length - unread.length : Nat))

/-- `10 ^ n` as a float. -/
def tenTo (n : Nat) : Float := Float.ofScientific 1 false n

/-- `f / 10 ^ n`, in steps of at most `10 ^ 308`, each of them rounded. -/
def divideByTenTo (f : Float) (n : Nat) : Float :=
  if n ≤ 308 then f / tenTo n
  else if f == 0 then f
  else divideByTenTo (f / tenTo 308) (n - 308)
termination_by n

/-- The float nearest to a magnitude up to rounding in each step, unless it is too large. -/
def magnitude? (significand : Nat) (exponent : Int) : Option Float :=
  let f := significand.toUInt64.toFloat
  if exponent < 0 then some (divideByTenTo f exponent.natAbs)
  else if exponent ≤ 308 then
    let g := f * tenTo exponent.natAbs
    if g.isInf then none else some g
  else if f == 0 then some f
  else none

/-- The float that is a numeral's value. -/
def floatValue (x : Numeral) : Except Fault Number :=
  match magnitude? x.decimal.1 x.decimal.2 with
  | none => .error .tooLarge
  | some f => .ok (.float (.ofFloat (if x.negative then -f else f)))

/-- The integer that a numeral spells, if it spells one of 64 bits. There is no negative zero. -/
def integer? (x : Numeral) : Option Int :=
  if x.fraction.isEmpty && x.exponent.isNone then
    let n := ofDigits x.whole
    if x.negative then
      if 0 < n ∧ n ≤ 1 <<< 63 then some (-(n : Int)) else none
    else if n < 1 <<< 64 then some n else none
  else none

/-- The value of a numeral. -/
def value (x : Numeral) : Except Fault Number :=
  match x.integer? with
  | some n => .ok (.integer n)
  | none => x.floatValue

end Numeral

end ProtectionDomain.Json
