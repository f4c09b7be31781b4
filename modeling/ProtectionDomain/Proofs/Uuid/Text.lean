import ProtectionDomain.Uuid.Read

/-!
# The canonical text of an id

* `unhyphenate`, `unhyphenate_hyphenate`: the digits between the hyphens;
* `read?_text`: an id is read back from its canonical text.
-/

namespace ProtectionDomain.Uuid

/-- The digits of a grouped text. -/
def unhyphenate (cs : List Char) : List Char :=
  cs.extract 0 8 ++ cs.extract 9 13 ++ cs.extract 14 18 ++ cs.extract 19 23 ++ cs.extract 24 36

section

variable {ds : List Char} (h : ds.length = 32)

include h

theorem length_hyphenate : (hyphenate ds).length = 36 := by
  simp [hyphenate, h]

theorem hyphenPlaces_hyphenate :
    hyphenPlaces.all (fun i => (hyphenate ds)[i]? == some '-') = true := by
  simp [hyphenPlaces, hyphenate, List.getElem?_append, h]

theorem groups_append : ds.extract 0 8 ++ ds.extract 8 12 ++ ds.extract 12 16 ++
    ds.extract 16 20 ++ ds.extract 20 32 = ds := by
  have hgroup : ∀ i j, i ≤ j → ds.take i ++ ds.extract i j = ds.take j := by
    intro i j hij
    rw [List.extract_eq_take_drop, ← List.take_add, Nat.add_sub_cancel' hij]
  rw [show ds.extract 0 8 = ds.take 8 by simp, hgroup 8 12 (by decide), hgroup 12 16 (by decide),
    hgroup 16 20 (by decide), hgroup 20 32 (by decide), List.take_of_length_le (Nat.le_of_eq h)]

theorem unhyphenate_hyphenate : unhyphenate (hyphenate ds) = ds := by
  have hgroups := groups_append h
  simp only [unhyphenate, hyphenate, List.extract_eq_take_drop] at hgroups ⊢
  simpa [List.take_append, List.drop_append, List.drop_take, List.take_take, h] using hgroups

end

theorem ofDigits?_digits (u : Uuid) : ofDigits? u.digits = some u := by
  have hlt : u.bits.toNat < 1 <<< (4 * 32) := u.bits.isLt
  rw [ofDigits?, digits, if_pos (Text.length_hexDigits _ _), Text.ofHexDigits?_hexDigits,
    Nat.mod_eq_of_lt hlt, Option.map_some, BitVec.ofNat_toNat, BitVec.setWidth_eq]

/-- **An id is read back from its canonical text.** -/
theorem read?_text (u : Uuid) : read? u.text.toList = some u := by
  have hlength : u.digits.length = 32 := Text.length_hexDigits _ _
  have hdigits : ofDigits? (hyphenate u.digits) = none := by
    rw [ofDigits?, length_hyphenate hlength, if_neg (by decide)]
  have hgroups : ofHyphenated? (hyphenate u.digits) = some u := by
    rw [ofHyphenated?, if_pos ⟨length_hyphenate hlength, hyphenPlaces_hyphenate hlength⟩]
    exact (congrArg ofDigits? (unhyphenate_hyphenate hlength)).trans (ofDigits?_digits u)
  rw [text, String.toList_ofList, read?, hdigits, hgroups]
  rfl

end ProtectionDomain.Uuid
