/-!
# Hexadecimal digits

* `hexValue?`: the value of a digit of either case;
* `hexDigits`: a number in a fixed count of lower-case digits, most significant first;
* `hexNumber`: a number in as few lower-case digits as it needs;
* `ofHexDigits?`: the number that digits spell; `ofHexDigits?_hexDigits`: it undoes `hexDigits`.
-/

namespace ProtectionDomain.Text

/-- The value of a hexadecimal digit of either case. -/
def hexValue? (c : Char) : Option Nat :=
  if '0' ≤ c ∧ c ≤ '9' then some (c.toNat - 0x30)
  else if 'a' ≤ c ∧ c ≤ 'f' then some (c.toNat - 0x57)
  else if 'A' ≤ c ∧ c ≤ 'F' then some (c.toNat - 0x37)
  else none

/-- The last `width` hexadecimal digits of `n`, lower case, most significant first. -/
def hexDigits (width n : Nat) : List Char :=
  (List.range width).reverse.map fun i => Nat.digitChar (n >>> (4 * i) % 16)

/-- The hexadecimal digits of `n`, lower case, without leading zeros. -/
def hexNumber (n : Nat) : List Char := Nat.toDigits 16 n

/-- The number that a list of hexadecimal digits spells, if each of them is one. -/
def ofHexDigits? (cs : List Char) : Option Nat :=
  cs.foldlM (fun n c => (hexValue? c).map (16 * n + ·)) 0

@[simp] theorem length_hexDigits (width n : Nat) : (hexDigits width n).length = width := by
  simp [hexDigits]

theorem hexValue?_digitChar {d : Nat} (h : d < 16) : hexValue? (Nat.digitChar d) = some d := by
  have hall : ∀ d < 16, hexValue? (Nat.digitChar d) = some d := by decide
  exact hall d h

theorem hexDigits_succ (width n : Nat) :
    hexDigits (width + 1) n = Nat.digitChar (n >>> (4 * width) % 16) :: hexDigits width n := by
  simp [hexDigits, List.range_succ]

theorem foldlM_hexDigits (width n m : Nat) :
    (hexDigits width n).foldlM (fun n c => (hexValue? c).map (16 * n + ·)) m =
      some (m <<< (4 * width) + n % 1 <<< (4 * width)) := by
  induction width generalizing m with
  | zero => simp [hexDigits, Nat.mod_one]
  | succ width ih =>
    have hdigit := hexValue?_digitChar (Nat.mod_lt (n >>> (4 * width)) (by decide : 0 < 16))
    rw [hexDigits_succ, List.foldlM_cons, hdigit, Option.map_some, Option.bind_eq_bind,
      Option.bind_some, ih, Nat.mul_succ]
    simp only [Nat.shiftLeft_eq, Nat.shiftRight_eq_div_pow, Nat.one_mul, Nat.pow_add, Nat.reducePow,
      Nat.mod_mul]
    have hpush (s d : Nat) : (16 * m + d) * s = m * (s * 16) + s * d := by
      rw [Nat.add_mul, Nat.mul_comm 16 m, Nat.mul_assoc, Nat.mul_comm 16 s, Nat.mul_comm d s]
    rw [hpush, Nat.add_assoc, Nat.add_comm (n % _)]

theorem ofHexDigits?_hexDigits (width n : Nat) :
    ofHexDigits? (hexDigits width n) = some (n % 1 <<< (4 * width)) := by
  rw [ofHexDigits?, foldlM_hexDigits, Nat.zero_shiftLeft, Nat.zero_add]

end ProtectionDomain.Text
