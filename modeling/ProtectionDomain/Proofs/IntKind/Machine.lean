import Mathlib.Data.Nat.PSub
import ProtectionDomain.Proofs.IntKind.Range

/-!
# Kinds in 128 bits

The arithmetic of the kinds runs in signed numbers of 128 bits as well. Each step there has a
result only if the exact one has a place in 128 bits, and none of the steps goes without.

* `Int128`, `Int128.oneShiftLeft?`, `Int128.neg?`, `Int128.sub?`, `Int128.mod?`: the steps, on bits
  and with the overflow flags of the machine;
* `oneShiftLeft?_eq_some_iff`, `neg?_eq_some_iff`, `sub?_eq_some_iff`, `mod?_eq_some_iff`: a step
  has a result if and only if the exact number is one of 128 bits, and that is the result;
* `IntKind.min?`, `IntKind.max?`, `IntKind.contains?`, `IntKind.truncate?`: the arithmetic of the
  kinds, step by step;
* `min?_eq_some`, `max?_eq_some`, `contains?_eq_some`, `truncate?_eq_some`: it gets through, with
  the result over all integers;
* **`truncate_exact`**: what truncation is, over the integers and in 128 bits.
-/

namespace ProtectionDomain

/-- A signed number of 128 bits. -/
abbrev Int128 := BitVec 128

namespace Int128

variable {x y z : Int128}

/-! ## Steps -/

/-- One shifted to the left, though not up to the sign. -/
def oneShiftLeft? (n : ℕ) : Option Int128 :=
  if n < 127 then some (1#128 <<< n) else none

/-- The number with the other sign. -/
def neg? (x : Int128) : Option Int128 :=
  if x.negOverflow then none else some (-x)

/-- The difference of two numbers. -/
def sub? (x y : Int128) : Option Int128 :=
  if x.ssubOverflow y then none else some (x - y)

/-- The remainder that is not negative. It comes out of the one that has the sign of the dividend,
as long as that has a quotient. -/
def mod? (x y : Int128) : Option Int128 :=
  if y = 0 ∨ x.sdivOverflow y then none
  else
    let r := x.srem y
    some (if r.slt 0 then r + y.abs else r)

variable (x) in
theorem toInt_range : -2 ^ 127 ≤ x.toInt ∧ x.toInt < 2 ^ 127 :=
  ⟨x.le_toInt, x.toInt_lt⟩

theorem exists_toInt_eq {n : ℤ} (hlo : -2 ^ 127 ≤ n) (hhi : n < 2 ^ 127) :
    ∃ z : Int128, z.toInt = n :=
  ⟨BitVec.ofInt 128 n, BitVec.toInt_ofInt_eq_self (by decide) hlo hhi⟩

theorem some_eq_some_iff {n : ℤ} (h : x.toInt = n) : some x = some z ↔ z.toInt = n := by
  rw [Option.some_inj, ← BitVec.toInt_inj, h, eq_comm]

theorem none_eq_some_iff {n : ℤ} (h : n < -2 ^ 127 ∨ 2 ^ 127 ≤ n) :
    none = some z ↔ z.toInt = n := by
  have hrange := toInt_range z
  exact iff_of_false (fun heq => nomatch heq) (by omega)

theorem oneShiftLeft?_eq_some_iff {n : ℕ} : oneShiftLeft? n = some z ↔ z.toInt = 2 ^ n := by
  unfold oneShiftLeft?
  split
  · next hn =>
    have hshift : (1#128 <<< n).toInt = 2 ^ n := by
      rw [← BitVec.twoPow_eq, BitVec.toInt_twoPow, if_neg (by omega), if_neg (by omega)]
    exact some_eq_some_iff hshift
  · next hn =>
    have hle : (2 : ℤ) ^ 127 ≤ 2 ^ n := by
      exact_mod_cast Nat.pow_le_pow_right Nat.two_pos (Nat.not_lt.mp hn)
    exact none_eq_some_iff (.inr hle)

theorem neg?_eq_some_iff : neg? x = some z ↔ z.toInt = -x.toInt := by
  unfold neg?
  split
  · next hover =>
    have hmin : x.toInt = -2 ^ 127 := beq_iff_eq.mp hover
    exact none_eq_some_iff (.inr (by omega))
  · next hover => exact some_eq_some_iff (BitVec.toInt_neg_of_not_negOverflow hover)

theorem sub?_eq_some_iff : sub? x y = some z ↔ z.toInt = x.toInt - y.toInt := by
  unfold sub?
  split
  · next hover =>
    have hout : 2 ^ 127 ≤ x.toInt - y.toInt ∨ x.toInt - y.toInt < -2 ^ 127 := by
      simpa [BitVec.ssubOverflow] using hover
    exact none_eq_some_iff hout.symm
  · next hover => exact some_eq_some_iff (BitVec.toInt_sub_of_not_ssubOverflow hover)

theorem not_sdivOverflow (hy : 0 < y.toInt) : ¬ x.sdivOverflow y := by
  have hrange := toInt_range x
  have hle := Int.natAbs_ediv_le_natAbs x.toInt y.toInt
  have hnonneg : 0 ≤ x.toInt → 0 ≤ x.toInt / y.toInt := fun h => Int.ediv_nonneg h hy.le
  have hneg : x.toInt < 0 → x.toInt / y.toInt < 0 := fun h => Int.ediv_neg_of_neg_of_pos h hy
  simp only [BitVec.sdivOverflow, Bool.or_eq_true, decide_eq_true_iff]
  omega

theorem toInt_abs_of_pos (hy : 0 < y.toInt) : y.abs.toInt = y.toInt := by
  rw [BitVec.abs, if_neg]
  rw [BitVec.msb_eq_toInt, decide_eq_true_iff]
  omega

theorem mod?_eq_some_iff (hy : 0 < y.toInt) : mod? x y = some z ↔ z.toInt = x.toInt % y.toInt := by
  have hne : y ≠ 0 := by
    rintro rfl
    exact absurd hy (by decide)
  have hnonneg : 0 ≤ x.toInt % y.toInt := Int.emod_nonneg _ hy.ne'
  have hlt : x.toInt % y.toInt < y.toInt := Int.emod_lt_of_pos _ hy
  have hsign : (x.srem y).slt 0 = true ↔ (x.srem y).toInt < 0 := BitVec.slt_iff_toInt_lt
  have hsrem : (x.srem y).toInt = (x.toInt).tmod y.toInt := BitVec.toInt_srem x y
  rw [Int.tmod_eq_emod] at hsrem
  rw [mod?, if_neg (not_or.mpr ⟨hne, not_sdivOverflow hy⟩)]
  refine some_eq_some_iff ?_
  split at hsrem
  · -- the remainder of the machine is that of the integers
    rw [if_neg (by rw [hsign]; omega), hsrem, Nat.cast_zero, sub_zero]
  · -- it is short of it by the divisor
    have hrange := toInt_range y
    have hover : ¬ (x.srem y).saddOverflow y.abs := by
      simp only [BitVec.saddOverflow, Bool.or_eq_true, decide_eq_true_iff, toInt_abs_of_pos hy]
      omega
    rw [if_pos (by rw [hsign]; omega), BitVec.toInt_add_of_not_saddOverflow hover,
      toInt_abs_of_pos hy, hsrem]
    omega

end Int128

/-! ## The arithmetic of the kinds -/

namespace IntWidth

open Int128

variable (w : IntWidth)

theorem ppred_bits : w.bits.ppred = some (w.bits - 1) :=
  Nat.ppred_eq_some.mpr (Nat.sub_add_cancel w.bits_pos)

theorem exists_half : ∃ half : Int128,
    oneShiftLeft? (w.bits - 1) = some half ∧ half.toInt = (w.span / 2 : ℕ) := by
  have hle := w.span_le
  have hhalf := w.two_mul_half
  obtain ⟨half, hval⟩ := exists_toInt_eq (n := (w.span / 2 : ℕ)) (by omega) (by omega)
  exact ⟨half, oneShiftLeft?_eq_some_iff.mpr (hval.trans w.half_eq), hval⟩

theorem exists_span : ∃ span : Int128,
    oneShiftLeft? w.bits = some span ∧ span.toInt = w.span := by
  have hle := w.span_le
  obtain ⟨span, hval⟩ := exists_toInt_eq (n := w.span) (by omega) (by omega)
  exact ⟨span, oneShiftLeft?_eq_some_iff.mpr (hval.trans w.span_eq), hval⟩

end IntWidth

namespace IntKind

open Int128

variable (k : IntKind)

/-- The smallest value, in 128 bits. -/
def min? : Option Int128 :=
  if k.isSigned then do
    let amount ← k.width.bits.ppred
    let half ← oneShiftLeft? amount
    neg? half
  else some 0

/-- The largest value, in 128 bits. -/
def max? : Option Int128 :=
  if k.isSigned then do
    let amount ← k.width.bits.ppred
    let half ← oneShiftLeft? amount
    sub? half 1
  else do
    let span ← oneShiftLeft? k.width.bits
    sub? span 1

/-- A number of 128 bits is a value of the kind. The largest value is computed only if it is not too
small. -/
def contains? (v : Int128) : Option Bool := do
  let lo ← k.min?
  if lo.sle v then
    let hi ← k.max?
    return v.sle hi
  else return false

/-- The value of the kind that agrees with a number of 128 bits. -/
def truncate? (v : Int128) : Option Int128 := do
  let span ← oneShiftLeft? k.width.bits
  let low ← mod? v span
  if k.isSigned then
    let hi ← k.max?
    if hi.slt low then sub? low span else return low
  else return low

variable {k} {v z : Int128}

theorem min?_eq_some (hz : z.toInt = k.min) : k.min? = some z := by
  obtain ⟨half, hshift, hhalf⟩ := k.width.exists_half
  unfold min at hz
  unfold min?
  split at hz
  · next hs =>
    simp only [if_pos hs, k.width.ppred_bits, Option.bind_eq_bind, Option.bind_some, hshift]
    rw [neg?_eq_some_iff, hz, hhalf]
  · next hs =>
    rw [if_neg hs, Option.some_inj, ← BitVec.toInt_inj, hz]
    rfl

theorem max?_eq_some (hz : z.toInt = k.max) : k.max? = some z := by
  obtain ⟨half, hshift, hhalf⟩ := k.width.exists_half
  obtain ⟨span, hshift', hspan⟩ := k.width.exists_span
  have hone : (1 : Int128).toInt = 1 := rfl
  unfold max at hz
  unfold max?
  split at hz
  · next hs =>
    simp only [if_pos hs, k.width.ppred_bits, Option.bind_eq_bind, Option.bind_some, hshift]
    rw [sub?_eq_some_iff, hz, hhalf, hone]
  · next hs =>
    simp only [if_neg hs, Option.bind_eq_bind, Option.bind_some, hshift']
    rw [sub?_eq_some_iff, hz, hspan, hone]

theorem exists_toInt_of_contains {r : ℤ} (h : k.contains r = true) : ∃ z : Int128, z.toInt = r := by
  have hle := k.width.span_le
  have hhalf := k.width.two_mul_half
  have hnonpos := k.min_nonpos
  have hmin : -2 ^ 64 ≤ k.min := by
    rw [min]
    split <;> omega
  rw [contains_iff] at h
  exact exists_toInt_eq (by omega) (by omega)

theorem contains_min : k.contains k.min = true := by
  have hpos := k.width.half_pos
  have hhalf := k.width.two_mul_half
  rw [contains_iff]
  omega

theorem contains_max : k.contains k.max = true := by
  have hpos := k.width.half_pos
  have hhalf := k.width.two_mul_half
  rw [contains_iff, max_eq]
  omega

variable (k v) in
theorem contains?_eq_some : k.contains? v = some (k.contains v.toInt) := by
  obtain ⟨lo, hlo⟩ := exists_toInt_of_contains k.contains_min
  obtain ⟨hi, hhi⟩ := exists_toInt_of_contains k.contains_max
  have hle : lo.sle v = decide (k.min ≤ v.toInt) := by rw [BitVec.sle_eq_decide, hlo]
  have hle' : v.sle hi = decide (v.toInt ≤ k.max) := by rw [BitVec.sle_eq_decide, hhi]
  simp only [contains?, contains, min?_eq_some hlo, max?_eq_some hhi, hle, hle',
    Option.bind_eq_bind, Option.bind_some]
  by_cases hmin : k.min ≤ v.toInt <;> simp [hmin]

theorem truncate?_eq_some (hz : z.toInt = k.truncate v.toInt) : k.truncate? v = some z := by
  obtain ⟨span, hshift, hspan⟩ := k.width.exists_span
  obtain ⟨hi, hhi⟩ := exists_toInt_of_contains k.contains_max
  have hle := k.width.span_le
  have hpos := k.width.span_pos
  have hnonneg : 0 ≤ v.toInt % k.width.span := Int.emod_nonneg _ hpos.ne'
  have hlt : v.toInt % k.width.span < k.width.span := Int.emod_lt_of_pos _ hpos
  obtain ⟨low, hlow⟩ := exists_toInt_eq (n := v.toInt % k.width.span) (by omega) (by omega)
  have hmod : mod? v span = some low := by
    rw [mod?_eq_some_iff (hspan ▸ hpos), hlow, hspan]
  have hslt : hi.slt low = decide (k.max < low.toInt) := by rw [BitVec.slt_eq_decide, hhi]
  rw [truncate, ← hlow] at hz
  simp only [truncate?, hshift, hmod, max?_eq_some hhi, hslt, Option.bind_eq_bind,
    Option.bind_some, decide_eq_true_iff]
  by_cases hs : k.isSigned = true
  · rw [if_pos hs]
    by_cases hmax : k.max < low.toInt
    · rw [if_pos ⟨hs, hmax⟩, ← hspan] at hz
      rw [if_pos hmax, sub?_eq_some_iff, hz]
    · rw [if_neg fun h => hmax h.2] at hz
      rw [if_neg hmax, BitVec.eq_of_toInt_eq hz]
      rfl
  · rw [if_neg fun h => hs h.1] at hz
    rw [if_neg hs, BitVec.eq_of_toInt_eq hz]
    rfl

/-- **`k.truncate v` is the one value of `k` that agrees with `v` modulo `2 ^ bits`**, and
`truncate?` computes it in 128 bits without an overflow. -/
theorem truncate_exact (k : IntKind) :
    (∀ v r : ℤ, k.truncate v = r ↔ k.contains r = true ∧ r ≡ v [ZMOD 2 ^ k.width.bits]) ∧
    (∀ v : ℤ, k.truncate v = v ↔ k.contains v = true) ∧
    (∀ v : ℤ, k.truncate (k.truncate v) = k.truncate v) ∧
    k.min?.map BitVec.toInt = some k.min ∧ k.max?.map BitVec.toInt = some k.max ∧
    ∀ v : Int128, k.contains? v = some (k.contains v.toInt) ∧
      (k.truncate? v).map BitVec.toInt = some (k.truncate v.toInt) := by
  obtain ⟨lo, hlo⟩ := exists_toInt_of_contains k.contains_min
  obtain ⟨hi, hhi⟩ := exists_toInt_of_contains k.contains_max
  refine ⟨fun v r => ?_, fun v => k.truncate_eq_self_iff, k.truncate_truncate, ?_, ?_,
    fun v => ⟨contains?_eq_some k v, ?_⟩⟩
  · rw [← k.width.span_eq]
    exact k.truncate_eq_iff
  · rw [min?_eq_some hlo, Option.map_some, hlo]
  · rw [max?_eq_some hhi, Option.map_some, hhi]
  · obtain ⟨z, hz⟩ := exists_toInt_of_contains (k.contains_truncate v.toInt)
    rw [truncate?_eq_some hz, Option.map_some, hz]

/-- The largest number of 128 bits ends in ones, and so does the one with its low bits. -/
example : truncate? ⟨.w16, .signed⟩ (BitVec.intMax 128) = some (-1) := by decide

end IntKind

end ProtectionDomain
