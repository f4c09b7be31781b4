import Mathlib.Data.List.Forall2
import Mathlib.Data.Nat.Digits.Defs
import ProtectionDomain.Text.Hex

/-!
# Numbers in hexadecimal digits

* `HexDigit`, `SpellsHex`: digits of either case, and the numbers that rows of them spell;
* `hexValue?_eq_some_iff`, `ofHexDigits?_eq_some_iff`: these are what is read;
* `exists_spellsHex_iff`: every row of digits spells a number;
* `SpellsHex.eq_iff`: rows of one length spell one number if and only if they differ in nothing but
  the case of their letters;
* `spellsHex_hexDigits`, `mem_lowerDigits_of_mem_hexDigits`: what is written spells the number in
  lower case;
* `hexDigits_add`, `hexDigits_mod`, `hexDigits_two_mul`: digits are written in parts, and only the
  last ones of a number count; `hexDigits_succ_eq_leftpad`: they are those of `Nat.toDigits`, filled
  up with zeros;
* `hexDigits_lt_iff`: digits of one width stand in the order of their numbers.
-/

namespace ProtectionDomain.Text

/-- A hexadecimal digit of either case, and its value. -/
def HexDigit (c : Char) (d : ℕ) : Prop :=
  d < 16 ∧ (c = Nat.digitChar d ∨ c = (Nat.digitChar d).toUpper)

/-- Digits, the most significant first, and the number that they spell. -/
def SpellsHex (ds : List Char) (n : ℕ) : Prop :=
  ∃ vs, List.Forall₂ HexDigit ds vs ∧ n = Nat.ofDigits 16 vs.reverse

/-- The digits in lower case. -/
def lowerDigits : List Char := "0123456789abcdef".toList

variable {c : Char} {d n m : ℕ} {ds ds' : List Char} {vs : List ℕ}

/-! ## Single digits -/

theorem HexDigit.toLower_eq (h : HexDigit c d) : c.toLower = Nat.digitChar d := by
  have hall : ∀ d < 16, (Nat.digitChar d).toLower = Nat.digitChar d ∧
      (Nat.digitChar d).toUpper.toLower = Nat.digitChar d := by decide
  obtain ⟨hd, rfl | rfl⟩ := h
  · exact (hall d hd).1
  · exact (hall d hd).2

theorem hexValue?_of_hexDigit (h : HexDigit c d) : hexValue? c = some d := by
  have hall : ∀ d < 16, hexValue? (Nat.digitChar d) = some d ∧
      hexValue? (Nat.digitChar d).toUpper = some d := by decide
  obtain ⟨hd, rfl | rfl⟩ := h
  · exact (hall d hd).1
  · exact (hall d hd).2

theorem hexDigit_of_hexValue? (h : hexValue? c = some d) : HexDigit c d := by
  have hall : ∀ d < 16, (d < 10 → (Nat.digitChar d).toNat = d + 0x30) ∧
      (10 ≤ d → (Nat.digitChar d).toNat = d + 0x57 ∧
        (Nat.digitChar d).toUpper.toNat = d + 0x37) := by decide
  unfold hexValue? at h
  split at h
  · next hc =>
    have hlo : 0x30 ≤ c.toNat := hc.1
    have hhi : c.toNat ≤ 0x39 := hc.2
    have hd : c.toNat - 0x30 = d := Option.some.inj h
    refine ⟨by omega, .inl (Char.toNat_inj.mp ?_)⟩
    rw [(hall d (by omega)).1 (by omega)]
    omega
  split at h
  · next hc =>
    have hlo : 0x61 ≤ c.toNat := hc.1
    have hhi : c.toNat ≤ 0x66 := hc.2
    have hd : c.toNat - 0x57 = d := Option.some.inj h
    refine ⟨by omega, .inl (Char.toNat_inj.mp ?_)⟩
    rw [((hall d (by omega)).2 (by omega)).1]
    omega
  split at h
  · next hc =>
    have hlo : 0x41 ≤ c.toNat := hc.1
    have hhi : c.toNat ≤ 0x46 := hc.2
    have hd : c.toNat - 0x37 = d := Option.some.inj h
    refine ⟨by omega, .inr (Char.toNat_inj.mp ?_)⟩
    rw [((hall d (by omega)).2 (by omega)).2]
    omega
  · contradiction

theorem hexValue?_eq_some_iff : hexValue? c = some d ↔ HexDigit c d :=
  ⟨hexDigit_of_hexValue?, hexValue?_of_hexDigit⟩

/-! ## Rows of digits -/

theorem foldlM_eq_some_iff :
    ds.foldlM (fun n c => (hexValue? c).map (16 * n + ·)) m = some n ↔
      ∃ vs, List.Forall₂ HexDigit ds vs ∧ n = m * 16 ^ ds.length + Nat.ofDigits 16 vs.reverse := by
  induction ds generalizing m with
  | nil =>
    rw [List.foldlM_nil, Option.pure_def, Option.some.injEq]
    constructor
    · rintro rfl
      exact ⟨[], .nil, by simp⟩
    · rintro ⟨vs, hvs, rfl⟩
      cases hvs
      simp
  | cons c ds ih =>
    have hpush : ∀ (vs : List ℕ) (d : ℕ), ds.length = vs.length →
        m * 16 ^ (c :: ds).length + Nat.ofDigits 16 (d :: vs).reverse =
          (16 * m + d) * 16 ^ ds.length + Nat.ofDigits 16 vs.reverse := by
      intro vs d hlength
      rw [List.length_cons, List.reverse_cons, Nat.ofDigits_append, Nat.ofDigits_singleton,
        List.length_reverse, hlength]
      ring
    rw [List.foldlM_cons, Option.bind_eq_bind, Option.bind_eq_some_iff]
    simp only [Option.map_eq_some_iff, hexValue?_eq_some_iff]
    constructor
    · rintro ⟨_, ⟨d, hd, rfl⟩, hn⟩
      obtain ⟨vs, hvs, rfl⟩ := ih.mp hn
      exact ⟨d :: vs, .cons hd hvs, (hpush vs d hvs.length_eq).symm⟩
    · rintro ⟨vs, hvs, rfl⟩
      cases hvs with
      | @cons _ d _ vs hd hvs =>
        exact ⟨_, ⟨d, hd, rfl⟩, ih.mpr ⟨vs, hvs, hpush vs d hvs.length_eq⟩⟩

theorem ofHexDigits?_eq_some_iff : ofHexDigits? ds = some n ↔ SpellsHex ds n := by
  rw [ofHexDigits?, foldlM_eq_some_iff]
  simp [SpellsHex]

theorem exists_spellsHex_iff : (∃ n, SpellsHex ds n) ↔ ∀ c ∈ ds, ∃ d, HexDigit c d := by
  constructor
  · rintro ⟨n, vs, hvs, -⟩
    induction hvs with
    | nil => simp
    | cons hd _ ih => exact List.forall_mem_cons.mpr ⟨⟨_, hd⟩, ih⟩
  · intro h
    induction ds with
    | nil => exact ⟨_, [], .nil, rfl⟩
    | cons c ds ih =>
      rw [List.forall_mem_cons] at h
      obtain ⟨d, hd⟩ := h.1
      obtain ⟨n, vs, hvs, -⟩ := ih h.2
      exact ⟨_, d :: vs, .cons hd hvs, rfl⟩

theorem lt_of_forall₂_hexDigit (h : List.Forall₂ HexDigit ds vs) : ∀ v ∈ vs.reverse, v < 16 := by
  simp only [List.mem_reverse]
  induction h with
  | nil => simp
  | cons hd _ ih => exact List.forall_mem_cons.mpr ⟨hd.1, ih⟩

theorem SpellsHex.lt (h : SpellsHex ds n) : n < 16 ^ ds.length := by
  obtain ⟨vs, hvs, rfl⟩ := h
  rw [hvs.length_eq, ← List.length_reverse]
  exact Nat.ofDigits_lt_base_pow_length (by decide) (lt_of_forall₂_hexDigit hvs)

theorem SpellsHex.unique (h : SpellsHex ds n) (h' : SpellsHex ds m) : n = m := by
  rw [← ofHexDigits?_eq_some_iff] at h h'
  exact Option.some.inj (h.symm.trans h')

theorem map_toLower_eq (h : List.Forall₂ HexDigit ds vs) :
    ds.map Char.toLower = vs.map Nat.digitChar := by
  induction h with
  | nil => rfl
  | cons hd _ ih => rw [List.map_cons, List.map_cons, hd.toLower_eq, ih]

theorem SpellsHex.map_toLower (h : SpellsHex ds n) : SpellsHex (ds.map Char.toLower) n := by
  obtain ⟨vs, hvs, rfl⟩ := h
  refine ⟨vs, List.forall₂_map_left_iff.mpr (hvs.imp fun c d hd => ?_), rfl⟩
  rw [hd.toLower_eq]
  exact ⟨hd.1, .inl rfl⟩

/-- Rows of one length spell one number if and only if they differ in nothing but the case of their
letters. -/
theorem SpellsHex.eq_iff (h : SpellsHex ds n) (h' : SpellsHex ds' m)
    (hlength : ds.length = ds'.length) :
    n = m ↔ ds.map Char.toLower = ds'.map Char.toLower := by
  constructor
  · intro heq
    obtain ⟨vs, hvs, rfl⟩ := h
    obtain ⟨vs', hvs', rfl⟩ := h'
    have hlength' : vs.reverse.length = vs'.reverse.length := by
      rw [List.length_reverse, List.length_reverse, ← hvs.length_eq, ← hvs'.length_eq, hlength]
    have hvalues := Nat.ofDigits_inj_of_len_eq (by decide) hlength' (lt_of_forall₂_hexDigit hvs)
      (lt_of_forall₂_hexDigit hvs') heq
    rw [map_toLower_eq hvs, map_toLower_eq hvs', List.reverse_inj.mp hvalues]
  · intro heq
    have hlower := h.map_toLower
    rw [heq] at hlower
    exact hlower.unique h'.map_toLower

/-! ## Writing -/

theorem shiftRight_eq_div (n width : ℕ) : n >>> (4 * width) = n / 16 ^ width := by
  rw [Nat.shiftRight_eq_div_pow, Nat.pow_mul]

theorem spellsHex_hexDigits {width : ℕ} (h : n < 16 ^ width) :
    SpellsHex (hexDigits width n) n := by
  have hpow : 1 <<< (4 * width) = 16 ^ width := by rw [Nat.one_shiftLeft, Nat.pow_mul]
  rw [← ofHexDigits?_eq_some_iff, ofHexDigits?_hexDigits, hpow, Nat.mod_eq_of_lt h]

theorem mem_lowerDigits_of_mem_hexDigits {width : ℕ} (h : c ∈ hexDigits width n) :
    c ∈ lowerDigits := by
  have hall : ∀ d < 16, Nat.digitChar d ∈ lowerDigits := by decide
  obtain ⟨i, -, rfl⟩ := List.mem_map.mp h
  exact hall _ (Nat.mod_lt _ (by decide))

theorem map_toLower_of_lower (h : ∀ c ∈ ds, c ∈ lowerDigits) : ds.map Char.toLower = ds := by
  have hall : lowerDigits.all (fun c => c.toLower == c) = true := by decide
  rw [List.all_eq_true] at hall
  exact (List.map_congr_left fun c hc => beq_iff_eq.mp (hall c (h c hc))).trans ds.map_id

/-! ## Parts and order -/

theorem hexDigits_add (a b n : ℕ) :
    hexDigits (a + b) n = hexDigits a (n / 16 ^ b) ++ hexDigits b n := by
  induction a with
  | zero => rw [Nat.zero_add]; rfl
  | succ a ih =>
    rw [Nat.succ_add, hexDigits_succ, hexDigits_succ, ih, shiftRight_eq_div, shiftRight_eq_div,
      Nat.div_div_eq_div_mul, ← Nat.pow_add, Nat.add_comm b a]
    rfl

/-- In a fixed width a number has the digits that it needs, and zeros in front of them. -/
theorem hexDigits_succ_eq_leftpad (width : ℕ) (h : n < 16 ^ (width + 1)) :
    hexDigits (width + 1) n = (Nat.toDigits 16 n).leftpad (width + 1) '0' := by
  have hlast : ∀ n, hexDigits 1 n = [Nat.digitChar (n % 16)] := by simp [hexDigits]
  induction width generalizing n with
  | zero =>
    have hlt : n < 16 := h
    rw [hlast, Nat.toDigits_of_lt_base hlt, Nat.mod_eq_of_lt hlt]
    rfl
  | succ width ih =>
    have hdiv : n / 16 < 16 ^ (width + 1) := Nat.div_lt_of_lt_mul (h.trans_eq (Nat.pow_succ' ..))
    rw [hexDigits_add, Nat.pow_one, ih hdiv, hlast,
      Nat.toDigits_eq_if (n := n) (by decide)]
    split
    · next hlt =>
      rw [Nat.div_eq_of_lt hlt, Nat.mod_eq_of_lt hlt]
      simp [List.leftpad, List.replicate_succ']
    · simp [List.leftpad]

theorem hexDigits_mod (width n : ℕ) : hexDigits width (n % 16 ^ width) = hexDigits width n := by
  have hlast : ∀ k ≤ width, hexDigits k (n % 16 ^ width) = hexDigits k n := by
    intro k hk
    induction k with
    | zero => rfl
    | succ k ih =>
      have hdigit : n % 16 ^ width / 16 ^ k % 16 = n / 16 ^ k % 16 := by
        obtain ⟨j, rfl⟩ := Nat.exists_eq_add_of_le hk
        rw [Nat.add_assoc, Nat.pow_add, Nat.mod_mul_right_div_self, Nat.add_comm 1 j, Nat.pow_succ',
          Nat.mod_mul_right_mod]
      rw [hexDigits_succ, hexDigits_succ, shiftRight_eq_div, shiftRight_eq_div, hdigit,
        ih (Nat.le_of_succ_le hk)]
  exact hlast width le_rfl

/-- Digits are written two by two, from the digits to the base 256. -/
theorem hexDigits_two_mul (n k : ℕ) :
    hexDigits (2 * k) n =
      ((List.range k).map fun i => n / 256 ^ i % 256).reverse.flatMap (hexDigits 2) := by
  induction k with
  | zero => rfl
  | succ k ih =>
    have hpow : 16 ^ (2 * k) = 256 ^ k := by rw [Nat.pow_mul]
    rw [Nat.mul_succ, Nat.add_comm, hexDigits_add, ih, List.range_succ, List.map_append,
      List.reverse_append, List.map_singleton, List.reverse_singleton, List.singleton_append,
      List.flatMap_cons, hpow, ← hexDigits_mod 2]
    rfl

theorem add_mul_lt_add_mul_iff {b x y d e : ℕ} (hx : x < b) (hy : y < b) :
    x + b * d < y + b * e ↔ d < e ∨ d = e ∧ x < y := by
  rcases Nat.lt_trichotomy d e with h | rfl | h
  · have hle : b * (d + 1) ≤ b * e := Nat.mul_le_mul_left b h
    rw [Nat.mul_add] at hle
    omega
  · omega
  · have hle : b * (e + 1) ≤ b * d := Nat.mul_le_mul_left b h
    rw [Nat.mul_add] at hle
    omega

theorem digitChar_order {d e : ℕ} (hd : d < 16) (he : e < 16) :
    (Nat.digitChar d < Nat.digitChar e ↔ d < e) ∧ (Nat.digitChar d = Nat.digitChar e ↔ d = e) := by
  have hall : ∀ d < 16, ∀ e < 16, (Nat.digitChar d < Nat.digitChar e ↔ d < e) ∧
      (Nat.digitChar d = Nat.digitChar e ↔ d = e) := by decide
  exact hall d hd e he

/-- Digits of one width stand in the order of the numbers that they spell. -/
theorem hexDigits_lt_iff (width : ℕ) :
    hexDigits width n < hexDigits width m ↔ n % 16 ^ width < m % 16 ^ width := by
  induction width with
  | zero => simp [hexDigits, Nat.mod_one]
  | succ width ih =>
    have hpos : 0 < 16 ^ width := Nat.pow_pos (by decide)
    obtain ⟨hlt, heq⟩ := digitChar_order (Nat.mod_lt (n / 16 ^ width) (by decide))
      (Nat.mod_lt (m / 16 ^ width) (by decide))
    rw [hexDigits_succ, hexDigits_succ, List.cons_lt_cons_iff, ih, shiftRight_eq_div,
      shiftRight_eq_div, hlt, heq, Nat.mod_pow_succ, Nat.mod_pow_succ,
      add_mul_lt_add_mul_iff (Nat.mod_lt n hpos) (Nat.mod_lt m hpos)]

end ProtectionDomain.Text
