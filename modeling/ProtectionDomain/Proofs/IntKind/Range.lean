import Mathlib.Data.Int.ModEq
import ProtectionDomain.IntKind

/-!
# The ranges of the kinds

The values of a kind are `2 ^ bits` numbers in a row, so that every number agrees modulo `2 ^ bits`
with exactly one of them. That is the value to which it is truncated.

* `IntWidth.span_eq`, `IntWidth.two_mul_half`: the number of values, and half of it;
* `contains_iff`: a kind begins at its smallest value and has as many values as its width allows;
* `contains_truncate`, `truncate_modEq`: the two laws of truncation;
* `eq_of_modEq`: no two values of a kind agree modulo `2 ^ bits`;
* `truncate_eq_iff`, `truncate_eq_self_iff`, `truncate_truncate`: what follows from the three.
-/

namespace ProtectionDomain

namespace IntWidth

variable (w : IntWidth)

theorem bits_pos : 0 < w.bits := by cases w <;> decide

theorem bits_le : w.bits ≤ 64 := by cases w <;> decide

theorem span_eq : (w.span : ℤ) = 2 ^ w.bits := by
  rw [span, Nat.one_shiftLeft]
  exact Nat.cast_pow 2 w.bits

theorem half_eq : ((w.span / 2 : ℕ) : ℤ) = 2 ^ (w.bits - 1) := by
  have hpow : 2 ^ (w.bits - 1) * 2 = 2 ^ w.bits := by
    rw [← Nat.pow_succ, Nat.succ_eq_add_one, Nat.sub_add_cancel w.bits_pos]
  rw [span, Nat.one_shiftLeft, ← hpow, Nat.mul_div_cancel _ Nat.two_pos]
  exact Nat.cast_pow 2 (w.bits - 1)

theorem two_mul_half : 2 * ((w.span / 2 : ℕ) : ℤ) = w.span := by
  rw [half_eq, span_eq, ← pow_succ', Nat.sub_add_cancel w.bits_pos]

theorem span_le : (w.span : ℤ) ≤ 2 ^ 64 := by
  rw [span_eq]
  exact_mod_cast Nat.pow_le_pow_right Nat.two_pos w.bits_le

theorem span_pos : (0 : ℤ) < w.span := by
  rw [span_eq]
  exact Int.pow_pos (by decide)

theorem half_pos : 0 < ((w.span / 2 : ℕ) : ℤ) := by
  rw [half_eq]
  exact Int.pow_pos (by decide)

end IntWidth

namespace IntKind

variable (k : IntKind) {v r s : ℤ}

theorem max_eq : k.max = k.min + k.width.span - 1 := by
  have hhalf := k.width.two_mul_half
  rw [max, min]
  split <;> omega

theorem min_nonpos : k.min ≤ 0 := by
  have hhalf := k.width.half_pos
  rw [min]
  split <;> omega

/-- The kind has as many values as its width allows, in a row. -/
theorem contains_iff : k.contains v = true ↔ k.min ≤ v ∧ v < k.min + k.width.span := by
  rw [contains, max_eq, Bool.and_eq_true, decide_eq_true_iff, decide_eq_true_iff]
  omega

variable (v) in
theorem contains_truncate : k.contains (k.truncate v) = true := by
  have hhalf := k.width.two_mul_half
  have hpos := k.width.half_pos
  have hnonneg : 0 ≤ v % k.width.span := Int.emod_nonneg v (by omega)
  have hlt : v % k.width.span < k.width.span := Int.emod_lt_of_pos v (by omega)
  rw [contains_iff, truncate, max, min]
  cases k.isSigned with
  | false => simp only [Bool.false_eq_true, false_and, if_false]; omega
  | true =>
    simp only [true_and, if_true]
    split <;> omega

variable (v) in
theorem truncate_modEq : k.truncate v ≡ v [ZMOD k.width.span] := by
  have hlow : v % k.width.span ≡ v [ZMOD k.width.span] := Int.mod_modEq v k.width.span
  rw [truncate]
  split
  · exact Int.sub_modulus_modEq_iff.mpr hlow
  · exact hlow

variable {k} in
theorem eq_of_modEq (hr : k.contains r = true) (hs : k.contains s = true)
    (h : r ≡ s [ZMOD k.width.span]) : r = s := by
  rw [contains_iff] at hr hs
  have hdvd : (k.width.span : ℤ) ∣ r - s := h.symm.dvd
  have habs : |r - s| < k.width.span := by
    rw [abs_lt]
    omega
  exact sub_eq_zero.mp (Int.eq_zero_of_abs_lt_dvd hdvd habs)

/-- A number is truncated to the only value of the kind that agrees with it. -/
theorem truncate_eq_iff :
    k.truncate v = r ↔ k.contains r = true ∧ r ≡ v [ZMOD k.width.span] := by
  constructor
  · rintro rfl
    exact ⟨k.contains_truncate v, k.truncate_modEq v⟩
  · rintro ⟨hr, hmod⟩
    exact eq_of_modEq (k.contains_truncate v) hr ((k.truncate_modEq v).trans hmod.symm)

theorem truncate_eq_self_iff : k.truncate v = v ↔ k.contains v = true := by
  rw [truncate_eq_iff]
  exact and_iff_left (Int.ModEq.refl v)

variable (v) in
theorem truncate_truncate : k.truncate (k.truncate v) = k.truncate v :=
  k.truncate_eq_self_iff.mpr (k.contains_truncate v)

end IntKind

end ProtectionDomain
