import ProtectionDomain.Decimal.Binary64

/-!
# The shortest decimal text of a float

* `shortest`: the fewest digits that read back as the float, and of those the nearest;
* `text`: those digits, positional when the first stands at the places `10 ^ (-5)` to `10 ^ 15`
  and with an exponent otherwise.
-/

namespace ProtectionDomain.Decimal.Binary64

/-- The multiple of `10 ^ k` that rounds to the magnitude and is nearest to it. Only the two
neighbours of the magnitude can be. -/
def onGrid? (x : Binary64) (k : Int) : Option Nat :=
  let c := x.floorAt k
  match x.roundsTo k c, x.roundsTo k (c + 1) with
  | true, true => some (if x.prefersFloor k c then c else c + 1)
  | true, false => some c
  | false, true => some (c + 1)
  | false, false => none

/-- The places of the digits of 64-bit floats, from the coarsest to the finest. -/
def places : List Int := (List.range 640).map fun i : Nat => 310 - (i : Int)

/-- The digits `c` and the place `k` of the shortest decimal `c · 10 ^ k`: the coarsest grid with
a number that rounds to the magnitude. -/
def shortest (x : Binary64) : Nat × Int :=
  (places.findSome? fun k => (x.onGrid? k).map fun c => (c, k)).getD (0, 0)

/-- Digits with a point after the `n`-th. -/
def pointed (n : Nat) (digits : List Char) : List Char :=
  match digits.drop n with
  | [] => digits.take n
  | rest => digits.take n ++ '.' :: rest

/-- The decimal text of `c · 10 ^ k`. -/
def layout (c : Nat) (k : Int) : List Char :=
  let digits := Nat.toDigits 10 c
  let leading := k + digits.length - 1
  if -5 ≤ leading ∧ leading ≤ 15 then
    if 0 ≤ k then digits ++ List.replicate k.toNat '0' ++ ['.', '0']
    else if 0 ≤ leading then pointed (leading.toNat + 1) digits
    else '0' :: '.' :: List.replicate (-leading - 1).toNat '0' ++ digits
  else
    pointed 1 digits ++ 'e' :: (if leading < 0 then '-' else '+') :: Nat.toDigits 10 leading.natAbs

/-- The text of a finite float. Zero keeps its sign. -/
def text (x : Binary64) : String :=
  let magnitude :=
    if x.significand = 0 then ['0', '.', '0']
    else layout x.shortest.1 x.shortest.2
  String.ofList (if x.isNegative then '-' :: magnitude else magnitude)

end ProtectionDomain.Decimal.Binary64
