import Mathlib.Logic.Equiv.Defs
import ProtectionDomain.IntKind.Cast
import ProtectionDomain.Proofs.IntKind.Range

/-!
# Kinds and machine integers

A machine integer is cast bit by bit: its low bits are kept, and on the way back they are extended
by the sign or by zeros. The arithmetic of its kind says the same.

* `toNat_setWidth_modEq`, `toInt_setWidth_modEq`: the low bits keep a number modulo `2 ^ bits`;
* `FixedWidth.Stores`: the laws of the cast that the arithmetic hangs on; `stores_signed`,
  `stores_unsigned`: they hold for types with a sign and for types without;
* `FixedWidth.MatchesKind`: the arithmetic of the kind agrees with the cast;
  `matchesKind_of_stores`: it does under these laws;
* **`kinds_match`**: so it does for each of the eight types.
-/

namespace ProtectionDomain

/-! ## Low bits -/

section LowBits

variable {m n : ℕ}

theorem toInt_modEq_toNat (x : BitVec n) : x.toInt ≡ x.toNat [ZMOD 2 ^ n] := by
  have hmod : (x.toNat : ℤ).bmod (2 ^ n) % ((2 ^ n : ℕ) : ℤ) = (x.toNat : ℤ) % ((2 ^ n : ℕ) : ℤ) :=
    Int.bmod_emod
  rw [Nat.cast_pow] at hmod
  rw [Int.ModEq, BitVec.toInt_eq_toNat_bmod]
  exact hmod

theorem toNat_setWidth_modEq (v : BitVec m) (h : n ≤ m) :
    ((v.setWidth n).toNat : ℤ) ≡ v.toInt [ZMOD 2 ^ n] := by
  have hdvd : (2 ^ n : ℤ) ∣ 2 ^ m := pow_dvd_pow 2 h
  have hlow : ((v.setWidth n).toNat : ℤ) ≡ v.toNat [ZMOD 2 ^ n] := by
    rw [BitVec.toNat_setWidth, Int.natCast_emod, Nat.cast_pow]
    exact Int.mod_modEq _ _
  exact hlow.trans ((toInt_modEq_toNat v).of_dvd hdvd).symm

theorem toInt_setWidth_modEq (v : BitVec m) (h : n ≤ m) :
    (v.setWidth n).toInt ≡ v.toInt [ZMOD 2 ^ n] :=
  (toInt_modEq_toNat _).trans (toNat_setWidth_modEq v h)

theorem setWidth_signExtend (x : BitVec n) (h : n ≤ m) : (x.signExtend m).setWidth n = x := by
  ext i hi
  have him : i < m := Nat.lt_of_lt_of_le hi h
  rw [BitVec.getElem_setWidth, BitVec.getLsbD_signExtend]
  simp [hi, him]

end LowBits

namespace FixedWidth

variable {α : Type} [FixedWidth α]

variable (α) in
/-- The machine integers of a type store the values of its kind, in the low bits. -/
class Stores : Prop where
  wrap_widen : ∀ x : α, wrap (widen x) = x
  contains_toInt : ∀ x : α, (kind α).contains (toInt x) = true
  toInt_wrap : ∀ v : BitVec 128, toInt (wrap v : α) ≡ v.toInt [ZMOD (kind α).width.span]

theorem stores_signed (w : IntWidth) (e : α ≃ BitVec w.bits) (hkind : kind α = ⟨w, .signed⟩)
    (hwrap : ∀ v, wrap v = e.symm (v.setWidth w.bits))
    (hwiden : ∀ x, widen x = (e x).signExtend 128) : Stores α := by
  have hle : w.bits ≤ 128 := w.bits_le.trans (by decide)
  have htoInt : ∀ x : α, toInt x = (e x).toInt := fun x => by
    rw [toInt, hwiden, BitVec.toInt_signExtend_of_le hle]
  refine ⟨fun x => ?_, fun x => ?_, fun v => ?_⟩
  · rw [hwrap, hwiden, setWidth_signExtend _ hle, e.symm_apply_apply]
  · have hmin : (⟨w, .signed⟩ : IntKind).min = -2 ^ (w.bits - 1) := congrArg Neg.neg w.half_eq
    have hspan : (w.span : ℤ) = 2 * 2 ^ (w.bits - 1) := by rw [← w.two_mul_half, w.half_eq]
    have hlo := (e x).le_toInt
    have hhi := (e x).toInt_lt
    rw [hkind, IntKind.contains_iff, htoInt, hmin, hspan]
    omega
  · rw [hkind, w.span_eq, htoInt, hwrap, e.apply_symm_apply]
    exact toInt_setWidth_modEq v hle

theorem stores_unsigned (w : IntWidth) (e : α ≃ BitVec w.bits) (hkind : kind α = ⟨w, .unsigned⟩)
    (hwrap : ∀ v, wrap v = e.symm (v.setWidth w.bits))
    (hwiden : ∀ x, widen x = (e x).setWidth 128) : Stores α := by
  have hle : w.bits ≤ 64 := w.bits_le
  have htoInt : ∀ x : α, toInt x = (e x).toNat := fun x => by
    have hlt : (e x).toNat < 2 ^ 64 :=
      (e x).isLt.trans_le (Nat.pow_le_pow_right Nat.two_pos hle)
    have hnat : ((e x).setWidth 128).toNat = (e x).toNat :=
      BitVec.toNat_setWidth_of_le (by omega)
    rw [toInt, hwiden, BitVec.toInt_eq_toNat_of_lt (by omega), hnat]
  refine ⟨fun x => ?_, fun x => ?_, fun v => ?_⟩
  · rw [hwrap, hwiden, BitVec.setWidth_setWidth_of_le _ (by omega), BitVec.setWidth_eq,
      e.symm_apply_apply]
  · have hlt : ((e x).toNat : ℤ) < w.span := by
      rw [w.span_eq]
      exact_mod_cast (e x).isLt
    have hmin : (⟨w, .unsigned⟩ : IntKind).min = 0 := rfl
    rw [hkind, IntKind.contains_iff, htoInt, hmin, zero_add]
    exact ⟨Int.natCast_nonneg _, hlt⟩
  · rw [hkind, w.span_eq, htoInt, hwrap, e.apply_symm_apply]
    exact toNat_setWidth_modEq v (by omega)

-- each type is a structure around its bits, so that what is assumed of it holds by definition
instance : Stores Int8 :=
  stores_signed .w8 ⟨Int8.toBitVec, Int8.ofBitVec, fun _ => rfl, fun _ => rfl⟩ rfl
    (fun _ => rfl) fun _ => rfl

instance : Stores Int16 :=
  stores_signed .w16 ⟨Int16.toBitVec, Int16.ofBitVec, fun _ => rfl, fun _ => rfl⟩ rfl
    (fun _ => rfl) fun _ => rfl

instance : Stores Int32 :=
  stores_signed .w32 ⟨Int32.toBitVec, Int32.ofBitVec, fun _ => rfl, fun _ => rfl⟩ rfl
    (fun _ => rfl) fun _ => rfl

instance : Stores Int64 :=
  stores_signed .w64 ⟨Int64.toBitVec, Int64.ofBitVec, fun _ => rfl, fun _ => rfl⟩ rfl
    (fun _ => rfl) fun _ => rfl

instance : Stores UInt8 :=
  stores_unsigned .w8 ⟨UInt8.toBitVec, UInt8.ofBitVec, fun _ => rfl, fun _ => rfl⟩ rfl
    (fun _ => rfl) fun _ => rfl

instance : Stores UInt16 :=
  stores_unsigned .w16 ⟨UInt16.toBitVec, UInt16.ofBitVec, fun _ => rfl, fun _ => rfl⟩ rfl
    (fun _ => rfl) fun _ => rfl

instance : Stores UInt32 :=
  stores_unsigned .w32 ⟨UInt32.toBitVec, UInt32.ofBitVec, fun _ => rfl, fun _ => rfl⟩ rfl
    (fun _ => rfl) fun _ => rfl

instance : Stores UInt64 :=
  stores_unsigned .w64 ⟨UInt64.toBitVec, UInt64.ofBitVec, fun _ => rfl, fun _ => rfl⟩ rfl
    (fun _ => rfl) fun _ => rfl

/-! ## Agreement with the kinds -/

variable (α) in
/-- The arithmetic of the kind agrees with the cast: it truncates as the cast wraps, and its values
are the integers of the type, each of which comes back from 128 bits. -/
def MatchesKind : Prop :=
  (∀ v : BitVec 128, (kind α).truncate v.toInt = toInt (wrap v : α)) ∧
  (∀ x : α, (kind α).contains (toInt x) = true ∧ wrap (widen x) = x) ∧
  ∀ v : BitVec 128, (kind α).contains v.toInt = true ↔ ∃ x : α, widen x = v

section Stores

variable [Stores α]

variable (α) in
theorem truncate_eq_toInt_wrap (v : BitVec 128) :
    (kind α).truncate v.toInt = toInt (wrap v : α) :=
  (kind α).truncate_eq_iff.mpr ⟨Stores.contains_toInt _, Stores.toInt_wrap v⟩

variable (α) in
theorem cast_eq_truncate_kind (v : BitVec 128) : cast α v.toInt = (kind α).truncate v.toInt := by
  rw [cast, ofInt, BitVec.ofInt_toInt, truncate_eq_toInt_wrap α]

theorem matchesKind_of_stores : MatchesKind α := by
  refine ⟨truncate_eq_toInt_wrap α,
    fun x => ⟨Stores.contains_toInt x, Stores.wrap_widen x⟩, fun v => ?_⟩
  constructor
  · intro hv
    -- a value of the kind is what it is truncated to
    have hself : (kind α).truncate v.toInt = v.toInt := (kind α).truncate_eq_self_iff.mpr hv
    rw [truncate_eq_toInt_wrap α] at hself
    exact ⟨wrap v, BitVec.eq_of_toInt_eq hself⟩
  · rintro ⟨x, rfl⟩
    exact Stores.contains_toInt x

end Stores

theorem cast_eq_truncate (v : BitVec 128) : (k : IntKind) → k.cast v.toInt = k.truncate v.toInt
  | ⟨.w8, .signed⟩ => cast_eq_truncate_kind Int8 v
  | ⟨.w16, .signed⟩ => cast_eq_truncate_kind Int16 v
  | ⟨.w32, .signed⟩ => cast_eq_truncate_kind Int32 v
  | ⟨.w64, .signed⟩ => cast_eq_truncate_kind Int64 v
  | ⟨.w8, .unsigned⟩ => cast_eq_truncate_kind UInt8 v
  | ⟨.w16, .unsigned⟩ => cast_eq_truncate_kind UInt16 v
  | ⟨.w32, .unsigned⟩ => cast_eq_truncate_kind UInt32 v
  | ⟨.w64, .unsigned⟩ => cast_eq_truncate_kind UInt64 v

/-- **The kinds of the eight machine integer types say what the casts do.** So the arithmetic of a
kind and the cast of its type never disagree. -/
theorem kinds_match :
    MatchesKind Int8 ∧ MatchesKind Int16 ∧ MatchesKind Int32 ∧ MatchesKind Int64 ∧
    MatchesKind UInt8 ∧ MatchesKind UInt16 ∧ MatchesKind UInt32 ∧ MatchesKind UInt64 ∧
    ∀ (k : IntKind) (v : BitVec 128), k.cast v.toInt = k.truncate v.toInt :=
  ⟨matchesKind_of_stores, matchesKind_of_stores, matchesKind_of_stores, matchesKind_of_stores,
    matchesKind_of_stores, matchesKind_of_stores, matchesKind_of_stores, matchesKind_of_stores,
    fun k v => cast_eq_truncate v k⟩

end FixedWidth

end ProtectionDomain
