import Mathlib.Algebra.Order.Ring.Abs
import ProtectionDomain.Proofs.IntKind.Machine

/-!
# Conversions one after the other

What a number is truncated to hangs on its residue modulo `2 ^ bits` alone. So a conversion that
keeps this residue may come before it and changes nothing.

* `truncate_congr`: numbers with one residue are truncated alike;
* `truncate_truncate_of_le`, `truncate_add`, `truncate_mul`: conversions to kinds that are as wide,
  sums and products;
* `Covers`, `covers_iff`: which kinds have all values of which others;
* `abs_le_of_contains`: how large the values of a kind are;
* `Int128.add?`, `Int128.mul?`, `truncateAfter?`: the same in 128 bits; `truncateAfter?_eq`: it gets
  through as long as the truncated numbers do not leave their range;
* **`truncate_chained`**: chains of conversions, over the integers and in 128 bits.
-/

namespace ProtectionDomain

namespace IntWidth

variable {w w' : IntWidth}

theorem span_dvd_span (h : w.bits ≤ w'.bits) : (w.span : ℤ) ∣ w'.span := by
  rw [span_eq, span_eq]
  exact pow_dvd_pow 2 h

theorem span_le_span_iff : (w.span : ℤ) ≤ w'.span ↔ w.bits ≤ w'.bits := by
  rw [span_eq, span_eq, pow_le_pow_iff_right₀ (by decide)]

theorem span_le_half_iff : (w.span : ℤ) ≤ (w'.span / 2 : ℕ) ↔ w.bits < w'.bits := by
  have hpos := w'.bits_pos
  rw [span_eq, half_eq, pow_le_pow_iff_right₀ (by decide)]
  omega

end IntWidth

namespace IntKind

variable {a b : IntKind} {v x y : ℤ}

/-! ## Residues -/

theorem truncate_congr (h : x ≡ y [ZMOD a.width.span]) : a.truncate x = a.truncate y :=
  a.truncate_eq_iff.mpr ⟨a.contains_truncate y, (a.truncate_modEq y).trans h.symm⟩

theorem truncate_truncate_of_le (h : a.width.bits ≤ b.width.bits) (v : ℤ) :
    a.truncate (b.truncate v) = a.truncate v :=
  truncate_congr ((b.truncate_modEq v).of_dvd (IntWidth.span_dvd_span h))

variable (a x y) in
theorem truncate_add : a.truncate (a.truncate x + a.truncate y) = a.truncate (x + y) :=
  truncate_congr ((a.truncate_modEq x).add (a.truncate_modEq y))

variable (a x y) in
theorem truncate_mul : a.truncate (a.truncate x * a.truncate y) = a.truncate (x * y) :=
  truncate_congr ((a.truncate_modEq x).mul (a.truncate_modEq y))

/-! ## Ranges -/

/-- The range of a kind lies inside that of another. -/
def Covers (a b : IntKind) : Prop := a.min ≤ b.min ∧ b.max ≤ a.max

theorem forall_truncate_eq_iff : (∀ x, b.contains x = true → a.truncate x = x) ↔ a.Covers b := by
  simp only [truncate_eq_self_iff]
  constructor
  · intro h
    have hmin := a.contains_iff.mp (h b.min b.contains_min)
    have hmax := a.contains_iff.mp (h b.max b.contains_max)
    rw [Covers, a.max_eq]
    omega
  · rintro ⟨hmin, hmax⟩ x hx
    rw [contains_iff] at hx ⊢
    rw [a.max_eq, b.max_eq] at hmax
    omega

/-- A kind has all values of another with the same sign that is no wider, and with a sign also those
of narrower ones without. -/
theorem covers_iff : a.Covers b ↔
    (a.signedness = b.signedness ∧ b.width.bits ≤ a.width.bits) ∨
      (a.signedness = .signed ∧ b.signedness = .unsigned ∧ b.width.bits < a.width.bits) := by
  obtain ⟨w, s⟩ := a
  obtain ⟨w', s'⟩ := b
  have hhalf := w.two_mul_half
  have hhalf' := w'.two_mul_half
  have hpos := w'.half_pos
  have hle : (w'.span : ℤ) ≤ w.span ↔ w'.bits ≤ w.bits := IntWidth.span_le_span_iff
  have hlt : (w'.span : ℤ) ≤ (w.span / 2 : ℕ) ↔ w'.bits < w.bits := IntWidth.span_le_half_iff
  -- with one sign the numbers of values decide; values without a sign have to fit into the upper
  -- half of a range with one, and negative ones into no range without
  cases s <;> cases s' <;> simp [Covers, min, max, isSigned] <;> omega

theorem abs_le_of_contains (h : a.contains x = true) : |x| ≤ 2 ^ 64 := by
  have hspan := a.width.span_le
  have hhalf := a.width.two_mul_half
  have hnonpos := a.min_nonpos
  have hmin : -(a.width.span : ℤ) ≤ a.min := by
    rw [min]
    split <;> omega
  rw [contains_iff] at h
  rw [abs_le]
  omega

theorem abs_le_of_ne (ha : a ≠ ⟨.w64, .unsigned⟩) (h : a.contains x = true) : |x| ≤ 2 ^ 63 := by
  obtain ⟨w, s⟩ := a
  have hspan := w.span_le
  have hhalf := w.two_mul_half
  rw [abs_le]
  cases s with
  | signed =>
    have hrange : -((w.span / 2 : ℕ) : ℤ) ≤ x ∧ x < -((w.span / 2 : ℕ) : ℤ) + w.span :=
      (contains_iff _).mp h
    omega
  | unsigned =>
    have hrange : 0 ≤ x ∧ x < 0 + w.span := (contains_iff _).mp h
    have hnarrow : (w.span : ℤ) ≤ 2 ^ 63 := by
      cases w with
      | w64 => exact absurd rfl ha
      | _ => decide
    omega

end IntKind

/-! ## In 128 bits -/

namespace Int128

variable {x y z : Int128}

/-- The sum of two numbers. -/
def add? (x y : Int128) : Option Int128 :=
  if x.saddOverflow y then none else some (x + y)

/-- The product of two numbers. -/
def mul? (x y : Int128) : Option Int128 :=
  if x.smulOverflow y then none else some (x * y)

theorem add?_eq_some_iff : add? x y = some z ↔ z.toInt = x.toInt + y.toInt := by
  unfold add?
  split
  · next hover =>
    have hout : 2 ^ 127 ≤ x.toInt + y.toInt ∨ x.toInt + y.toInt < -2 ^ 127 := by
      simpa [BitVec.saddOverflow] using hover
    exact none_eq_some_iff hout.symm
  · next hover => exact some_eq_some_iff (BitVec.toInt_add_of_not_saddOverflow hover)

theorem mul?_eq_some_iff : mul? x y = some z ↔ z.toInt = x.toInt * y.toInt := by
  unfold mul?
  split
  · next hover =>
    have hout : 2 ^ 127 ≤ x.toInt * y.toInt ∨ x.toInt * y.toInt < -2 ^ 127 := by
      simpa [BitVec.smulOverflow] using hover
    exact none_eq_some_iff hout.symm
  · next hover => exact some_eq_some_iff (BitVec.toInt_mul_of_not_smulOverflow hover)

end Int128

namespace IntKind

open Int128

/-- Truncates two numbers, and then what an operation makes of them. -/
def truncateAfter? (k : IntKind) (op : Int128 → Int128 → Option Int128) (x y : Int128) :
    Option Int128 := do
  let x' ← k.truncate? x
  let y' ← k.truncate? y
  let z ← op x' y'
  k.truncate? z

variable {a : IntKind}

/-- An operation may come before the truncation or after it, as long as its exact result for
truncated numbers has a place in 128 bits. -/
theorem truncateAfter?_eq {op : Int128 → Int128 → Option Int128} {f : ℤ → ℤ → ℤ}
    (hop : ∀ {x y z}, op x y = some z ↔ z.toInt = f x.toInt y.toInt)
    (hf : ∀ x y, a.truncate (f (a.truncate x) (a.truncate y)) = a.truncate (f x y))
    (hfits : ∀ x y, |f (a.truncate x) (a.truncate y)| < 2 ^ 127) {x y z : Int128}
    (h : op x y = some z) :
    ∃ r, a.truncate? z = some r ∧ a.truncateAfter? op x y = some r := by
  obtain ⟨x', hx⟩ := exists_toInt_of_contains (a.contains_truncate x.toInt)
  obtain ⟨y', hy⟩ := exists_toInt_of_contains (a.contains_truncate y.toInt)
  obtain ⟨r, hr⟩ := exists_toInt_of_contains (a.contains_truncate z.toInt)
  obtain ⟨hlo, hhi⟩ := abs_lt.mp (hfits x.toInt y.toInt)
  obtain ⟨z', hz⟩ := exists_toInt_eq hlo.le hhi
  have hz' : op x' y' = some z' := by rw [hop, hx, hy, hz]
  have hr' : r.toInt = a.truncate z'.toInt := by rw [hr, hop.mp h, hz, hf]
  refine ⟨r, truncate?_eq_some hr, ?_⟩
  simp only [truncateAfter?, truncate?_eq_some hx, truncate?_eq_some hy, hz',
    truncate?_eq_some hr', Option.bind_eq_bind, Option.bind_some]

theorem truncateAfter?_add {x y z : Int128} (h : add? x y = some z) :
    ∃ r, a.truncate? z = some r ∧ a.truncateAfter? add? x y = some r := by
  refine truncateAfter?_eq add?_eq_some_iff a.truncate_add (fun x y => ?_) h
  have hx := abs_le_of_contains (a.contains_truncate x)
  have hy := abs_le_of_contains (a.contains_truncate y)
  have hsum := abs_add_le (a.truncate x) (a.truncate y)
  omega

theorem truncateAfter?_mul (ha : a ≠ ⟨.w64, .unsigned⟩) {x y z : Int128}
    (h : mul? x y = some z) :
    ∃ r, a.truncate? z = some r ∧ a.truncateAfter? mul? x y = some r := by
  refine truncateAfter?_eq mul?_eq_some_iff a.truncate_mul (fun x y => ?_) h
  have hx := abs_le_of_ne ha (a.contains_truncate x)
  have hy := abs_le_of_ne ha (a.contains_truncate y)
  calc |a.truncate x * a.truncate y|
      = |a.truncate x| * |a.truncate y| := abs_mul _ _
    _ ≤ 2 ^ 63 * 2 ^ 63 := mul_le_mul hx hy (abs_nonneg _) (by decide)
    _ < 2 ^ 127 := by decide

/-- **Truncations in a row**: `b.truncate` may come before an `a.truncate` that is no wider, and is
undone by one of the same width; `a.truncate` changes no value of `b` exactly if `a.Covers b`. -/
theorem truncate_chained :
    (∀ (a b : IntKind) (v : ℤ), a.width.bits ≤ b.width.bits →
      a.truncate (b.truncate v) = a.truncate v) ∧
    (∀ (a b : IntKind) (x : ℤ), a.width = b.width → b.contains x = true →
      b.truncate (a.truncate x) = x) ∧
    (∀ a b : IntKind, ((∀ x, b.contains x = true → a.truncate x = x) ↔ a.Covers b) ∧
      (a.Covers b ↔ (a.signedness = b.signedness ∧ b.width.bits ≤ a.width.bits) ∨
        (a.signedness = .signed ∧ b.signedness = .unsigned ∧ b.width.bits < a.width.bits))) ∧
    (∀ (a : IntKind) (x y : ℤ),
      a.truncate (x + y) = a.truncate (a.truncate x + a.truncate y) ∧
      a.truncate (x * y) = a.truncate (a.truncate x * a.truncate y)) ∧
    (∀ (a : IntKind) (x y z : Int128), add? x y = some z →
      ∃ r, a.truncate? z = some r ∧ a.truncateAfter? add? x y = some r) ∧
    (∀ (a : IntKind) (x y z : Int128), a ≠ ⟨.w64, .unsigned⟩ → mul? x y = some z →
      ∃ r, a.truncate? z = some r ∧ a.truncateAfter? mul? x y = some r) ∧
    ∃ x y z : Int128, mul? x y = some z ∧
      truncateAfter? ⟨.w64, .unsigned⟩ mul? x y = none := by
  refine ⟨fun a b v h => truncate_truncate_of_le h v, fun a b x h hx => ?_,
    fun a b => ⟨forall_truncate_eq_iff, covers_iff⟩,
    fun a x y => ⟨(a.truncate_add x y).symm, (a.truncate_mul x y).symm⟩,
    fun a x y z h => truncateAfter?_add h, fun a x y z ha h => truncateAfter?_mul ha h, ?_⟩
  · rw [truncate_truncate_of_le (congrArg IntWidth.bits h).ge, b.truncate_eq_self_iff]
    exact hx
  · exact ⟨-1, -1, 1, by decide, by decide⟩

/-- The byte of a number comes out of its 64 bits, whatever sign these had. A byte with a sign keeps
the sum of two numbers, and the product of two that are far too large for it. -/
theorem truncate_chained_bytes :
    truncate ⟨.w8, .unsigned⟩ (truncate ⟨.w64, .signed⟩ (-2 ^ 127)) =
      truncate ⟨.w8, .unsigned⟩ (-2 ^ 127) ∧
    truncate ⟨.w8, .unsigned⟩ (truncate ⟨.w8, .signed⟩ 200) = 200 ∧
    (∃ r, truncate? ⟨.w8, .signed⟩ 1000000000000 = some r ∧
      truncateAfter? ⟨.w8, .signed⟩ mul? 1000000 1000000 = some r) := by
  obtain ⟨hnarrow, hback, -, -, -, hproduct, -⟩ := truncate_chained
  exact ⟨hnarrow _ _ _ (by decide), hback _ _ _ (by decide) (by decide),
    hproduct _ _ _ _ (by decide) (by decide)⟩

end IntKind

end ProtectionDomain
