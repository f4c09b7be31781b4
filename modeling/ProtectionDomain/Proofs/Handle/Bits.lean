import Mathlib.Data.Nat.Digits.Lemmas
import ProtectionDomain.Handle
import ProtectionDomain.Proofs.Text.Hex

/-!
# The bits of firmware handles

A handle is shown as a number, as the bytes that lie in memory and as a text, and all of these
carry the same 64 bits.

* `toNat_getElem_bytes`, `toNat_raw_ofBytes`: bytes are the digits of the number to the base 256;
* `ofBytes_bytes`, `ofBytes_injective`, `bytes_ofBytes`: there and back;
* `digits`, `digits_eq_flatten`: the digits of the text, two of them for each byte;
* `display_lt_iff`, `display_inj`: texts stand in the order of the numbers;
* **`same_bits`**: all of this for both kinds of handles.
-/

namespace ProtectionDomain.Handle

open Text

variable {kind : HandleKind} {h h' : Handle kind}

/-! ## Bytes -/

theorem toNat_getElem_bytes (h : Handle kind) (i : Fin 8) :
    h.bytes[i].toNat = h.raw.toNat / 256 ^ (i : ℕ) % 256 := by
  have hshift : (8 * UInt64.ofNat i).toNat % 64 = 8 * i := by
    have hi := i.isLt
    have hsize : (i : ℕ) < UInt64.size := hi.trans (by decide)
    rw [UInt64.toNat_mul, UInt64.toNat_ofNat_of_lt' hsize]
    show 8 * (i : ℕ) % 2 ^ 64 % 64 = 8 * i
    omega
  have hpow : (256 : ℕ) ^ (i : ℕ) = 2 ^ (8 * (i : ℕ)) := by rw [Nat.pow_mul]
  rw [bytes, Fin.getElem_fin, Vector.getElem_ofFn, UInt64.toNat_toUInt8, UInt64.toNat_shiftRight,
    hshift, Nat.shiftRight_eq_div_pow, hpow]

theorem map_toNat_bytes (h : Handle kind) :
    h.bytes.toList.map UInt8.toNat = (List.range 8).map fun i => h.raw.toNat / 256 ^ i % 256 := by
  refine List.ext_getElem (by simp) fun i hi hi' => ?_
  have hlt : i < 8 := by simpa using hi'
  have hbyte := h.toNat_getElem_bytes ⟨i, hlt⟩
  simpa using hbyte

theorem ofDigits_map_range (n k : ℕ) :
    Nat.ofDigits 256 ((List.range k).map fun i => n / 256 ^ i % 256) = n % 256 ^ k := by
  induction k with
  | zero => simp [Nat.mod_one]
  | succ k ih =>
    rw [List.range_succ, List.map_append, Nat.ofDigits_append, ih, List.length_map,
      List.length_range, List.map_singleton, Nat.ofDigits_singleton, Nat.mod_pow_succ]

theorem map_toNat_lt (bs : List UInt8) : ∀ n ∈ bs.map UInt8.toNat, n < 256 := by
  intro n hn
  obtain ⟨b, -, rfl⟩ := List.mem_map.mp hn
  exact b.toNat_lt

theorem toNat_foldr {bs : List UInt8} (hlength : bs.length ≤ 8) :
    (bs.foldr (fun b (n : UInt64) => n <<< 8 ||| b.toUInt64) 0).toNat =
      Nat.ofDigits 256 (bs.map UInt8.toNat) := by
  induction bs with
  | nil => rfl
  | cons b bs ih =>
    rw [List.length_cons] at hlength
    have hrest := ih (by omega)
    have hbound : Nat.ofDigits 256 (bs.map UInt8.toNat) < 2 ^ 56 := by
      have hlt := Nat.ofDigits_lt_base_pow_length (by decide) (map_toNat_lt bs)
      rw [List.length_map] at hlt
      exact hlt.trans_le (Nat.pow_le_pow_right (by decide) (Nat.le_of_lt_succ hlength) :
        256 ^ bs.length ≤ 256 ^ 7)
    have hbyte : b.toNat < 2 ^ 8 := b.toNat_lt
    rw [List.foldr_cons, UInt64.toNat_or, UInt64.toNat_shiftLeft, hrest, UInt8.toNat_toUInt64,
      List.map_cons, Nat.ofDigits_cons]
    show Nat.ofDigits 256 (bs.map UInt8.toNat) <<< 8 % 2 ^ 64 ||| b.toNat = _
    rw [Nat.mod_eq_of_lt (by rw [Nat.shiftLeft_eq]; omega), ← Nat.shiftLeft_add_eq_or_of_lt hbyte,
      Nat.shiftLeft_eq]
    omega

theorem toNat_raw_ofBytes (bs : Vector UInt8 8) :
    (ofBytes bs : Handle kind).raw.toNat = Nat.ofDigits 256 (bs.toList.map UInt8.toNat) :=
  toNat_foldr (Vector.length_toList).le

theorem eq_iff_toNat : h = h' ↔ h.raw.toNat = h'.raw.toNat := by
  obtain ⟨r⟩ := h
  obtain ⟨r'⟩ := h'
  rw [mk.injEq, UInt64.toNat_inj]

theorem ofBytes_bytes (h : Handle kind) : ofBytes h.bytes = h := by
  rw [eq_iff_toNat, toNat_raw_ofBytes, map_toNat_bytes, ofDigits_map_range]
  exact Nat.mod_eq_of_lt h.raw.toNat_lt

theorem ofBytes_injective : Function.Injective (ofBytes : Vector UInt8 8 → Handle kind) := by
  intro bs bs' heq
  have hdigits := congrArg (fun h : Handle kind => h.raw.toNat) heq
  simp only [toNat_raw_ofBytes] at hdigits
  have hvalues := Nat.ofDigits_inj_of_len_eq (by decide) (by simp) (map_toNat_lt bs.toList)
    (map_toNat_lt bs'.toList) hdigits
  exact Vector.toList_inj.mp (List.map_injective_iff.mpr (fun _ _ => UInt8.toNat_inj.mp) hvalues)

theorem bytes_ofBytes (bs : Vector UInt8 8) : (ofBytes bs : Handle kind).bytes = bs :=
  @ofBytes_injective kind _ _ (ofBytes_bytes _)

/-! ## Texts -/

/-- The digits of the text. -/
def digits (h : Handle kind) : List Char := hexDigits 16 h.raw.toNat

theorem display_eq (h : Handle kind) :
    h.display = kind.name ++ "(0x" ++ String.ofList h.digits ++ ")" := rfl

/-- Each byte is written in two digits, the highest byte first. -/
theorem digits_eq_flatten (h : Handle kind) :
    h.digits = (h.bytes.toList.reverse.map fun b => hexDigits 2 b.toNat).flatten := by
  rw [digits, hexDigits_two_mul _ 8, ← map_toNat_bytes, ← List.map_reverse, List.flatMap_map,
    List.flatMap_def]

theorem spellsHex_digits (h : Handle kind) : SpellsHex h.digits h.raw.toNat :=
  spellsHex_hexDigits h.raw.toNat_lt

theorem forall₂_spellsHex (bs : List UInt8) :
    List.Forall₂ (fun pair b => pair.length = 2 ∧ SpellsHex pair b.toNat)
      (bs.map fun b => hexDigits 2 b.toNat) bs := by
  rw [List.forall₂_map_left_iff, List.forall₂_same]
  exact fun b _ => ⟨length_hexDigits 2 b.toNat, spellsHex_hexDigits b.toNat_lt⟩

theorem length_display (h : Handle kind) : h.display.length = kind.name.length + 20 := by
  have hdigits : (String.ofList h.digits).length = 16 := by
    rw [String.length_ofList, digits, length_hexDigits]
  rw [display_eq, String.length_append, String.length_append, String.length_append, hdigits]
  rfl

theorem append_lt_append_iff {front back l l' : List Char} (hlength : l.length = l'.length) :
    front ++ l ++ back < front ++ l' ++ back ↔ l < l' := by
  induction front with
  | cons c front ih => simpa using ih
  | nil =>
    induction l generalizing l' with
    | nil =>
      obtain rfl := List.length_eq_zero_iff.mp hlength.symm
      simp
    | cons c l ih =>
      cases l' with
      | nil => contradiction
      | cons c' l' =>
        have htail := ih (Nat.succ.inj hlength)
        simp only [List.nil_append, List.cons_append, List.cons_lt_cons_iff] at htail ⊢
        rw [htail]

theorem display_lt_iff : h.display < h'.display ↔ h.raw.toNat < h'.raw.toNat := by
  have hfront : ∀ h : Handle kind,
      h.display.toList = (kind.name ++ "(0x").toList ++ h.digits ++ ")".toList := by
    intro h
    rw [display_eq, String.toList_append, String.toList_append, String.toList_ofList]
  have hbound : ∀ h : Handle kind, h.raw.toNat % 16 ^ 16 = h.raw.toNat :=
    fun h => Nat.mod_eq_of_lt h.raw.toNat_lt
  rw [String.lt_iff, hfront, hfront, append_lt_append_iff (by simp [digits]), digits, digits,
    hexDigits_lt_iff, hbound, hbound]

theorem display_inj : h.display = h'.display ↔ h = h' := by
  have hnot : ∀ {h h' : Handle kind}, h.display = h'.display → ¬ h.raw.toNat < h'.raw.toNat := by
    intro h h' heq hlt
    have htexts := display_lt_iff.mpr hlt
    rw [heq] at htexts
    exact String.lt_irrefl _ htexts
  refine ⟨fun heq => ?_, congrArg display⟩
  have hle := hnot heq
  have hge := hnot heq.symm
  rw [eq_iff_toNat]
  omega

theorem compare_display : compare h.display h'.display = compare h h' := by
  have hlt : h.display < h'.display ↔ h.raw < h'.raw :=
    display_lt_iff.trans UInt64.lt_iff_toNat_lt.symm
  have heq : h.display = h'.display ↔ h.raw = h'.raw :=
    display_inj.trans (eq_iff_toNat.trans UInt64.toNat_inj)
  show compareOfLessAndEq h.display h'.display = compareOfLessAndEq h.raw h'.raw
  simp only [compareOfLessAndEq, hlt, heq]

theorem compare_eq : compare h h' = compare h.raw.toNat h'.raw.toNat := by
  show compareOfLessAndEq h.raw h'.raw = compareOfLessAndEq h.raw.toNat h'.raw.toNat
  simp only [compareOfLessAndEq, UInt64.lt_iff_toNat_lt, UInt64.toNat_inj]

/-! ## All presentations -/

/-- **`raw`, `bytes` and `display` carry the same 64 bits**: each determines the handle, two digits
of the text spell one byte, and the texts stand in the order of `compare`. -/
theorem same_bits (kind : HandleKind) :
    (HandleKind.name .channel = "ScIpc" ∧ HandleKind.name .message = "ScIpcId") ∧
    (∀ r : UInt64, (r : Handle kind) = ⟨r⟩ ∧ (r : Handle kind).raw = r) ∧
    (∀ h : Handle kind, h.raw = h) ∧
    (∀ h : Handle kind, ofBytes h.bytes = h) ∧
    (∀ bs, (ofBytes bs : Handle kind).bytes = bs) ∧
    (∀ (h : Handle kind) (i : Fin 8), h.bytes[i].toNat = h.raw.toNat / 256 ^ (i : ℕ) % 256) ∧
    (∀ h : Handle kind, ∃ ds pairs, h.display = kind.name ++ "(0x" ++ String.ofList ds ++ ")" ∧
      ds.length = 16 ∧ ds ⊆ lowerDigits ∧ SpellsHex ds h.raw.toNat ∧ ds = pairs.flatten ∧
      List.Forall₂ (fun pair b => pair.length = 2 ∧ SpellsHex pair b.toNat) pairs
        h.bytes.toList.reverse) ∧
    (∀ h : Handle kind, h.display.length = kind.name.length + 20) ∧
    (∀ h h' : Handle kind, h.display = h'.display ↔ h = h') ∧
    (∀ h h' : Handle kind, (h.display < h'.display ↔ h.raw.toNat < h'.raw.toNat) ∧
      compare h.display h'.display = compare h h' ∧
      compare h h' = compare h.raw.toNat h'.raw.toNat) := by
  refine ⟨⟨rfl, rfl⟩, fun _ => ⟨rfl, rfl⟩, fun _ => rfl, ofBytes_bytes, bytes_ofBytes,
    toNat_getElem_bytes, fun h => ?text, length_display, fun _ _ => display_inj,
    fun _ _ => ⟨display_lt_iff, compare_display, compare_eq⟩⟩
  case text =>
    exact ⟨h.digits, _, h.display_eq, length_hexDigits 16 h.raw.toNat,
      fun _ => mem_lowerDigits_of_mem_hexDigits, h.spellsHex_digits, h.digits_eq_flatten,
      forall₂_spellsHex h.bytes.toList.reverse⟩

example : (⟨0x10⟩ : Handle .channel).display = "ScIpc(0x0000000000000010)" := by decide

end ProtectionDomain.Handle
