import ProtectionDomain.Proofs.Text.Hex
import ProtectionDomain.Proofs.Uuid.Text

/-!
# Spellings of an id

An id is spelled by its 32 digits, in one of four forms that differ in length.

* `Grouped`, `Form`: digits in five groups, and the forms of a text with these digits;
* `Spells`: the texts of an id;
* `grouped_iff`: grouped texts are those with the hyphens in their places;
* `ofDigits?_eq_some_iff`, `ofHyphenated?_eq_some_iff`, `unbrace?_eq_some_iff`,
  `unurn?_eq_some_iff`: what is read in each form;
* **`read?_eq_some_iff`**: an id is read from its spellings, and from nothing else;
* `map_toLower_eq_digits`: what spells an id is its digits, but for the case;
* `grouped_digits_iff`: the canonical text has these digits in groups.
-/

namespace ProtectionDomain.Uuid

open Text

/-! ## The forms -/

/-- Digits in groups of 8, 4, 4, 4 and 12, and the text with hyphens between the groups. -/
inductive Grouped : List Char → List Char → Prop
  | mk {a b c d e : List Char} : a.length = 8 → b.length = 4 → c.length = 4 → d.length = 4 →
      e.length = 12 →
      Grouped (a ++ (b ++ (c ++ (d ++ e))))
        (a ++ '-' :: (b ++ '-' :: (c ++ '-' :: (d ++ '-' :: e))))

/-- What stands in front of the groups in the form of a name. -/
def urnScheme : List Char := "urn:uuid:".toList

/-- The digits of an id and the forms of its texts. -/
inductive Form : List Char → List Char → Prop
  | bare {ds : List Char} : ds.length = 32 → Form ds ds
  | grouped {ds cs : List Char} : Grouped ds cs → Form ds cs
  | braced {ds cs : List Char} : Grouped ds cs → Form ds ('{' :: (cs ++ ['}']))
  /-- The letters of the scheme may have either case. -/
  | urn {ds cs p : List Char} : p.map Char.toLower = urnScheme → Grouped ds cs → Form ds (p ++ cs)

/-- A text is a form of digits that spell an id. -/
def Spells (cs : List Char) (u : Uuid) : Prop := ∃ ds, Form ds cs ∧ SpellsHex ds u.bits.toNat

variable {cs ds : List Char} {u : Uuid}

/-! ## Groups -/

theorem Grouped.length_digits (h : Grouped ds cs) : ds.length = 32 := by
  obtain ⟨ha, hb, hc, hd, he⟩ := h
  simp [ha, hb, hc, hd, he]

theorem Grouped.eq_hyphenate (h : Grouped ds cs) : cs = hyphenate ds := by
  obtain ⟨ha, hb, hc, hd, he⟩ := h
  simp (disch := omega) [hyphenate, List.extract_eq_take_drop, List.drop_append,
    List.take_of_length_le, List.drop_of_length_le, ha, hb, hc, hd]

theorem grouped_hyphenate (h : ds.length = 32) : Grouped ds (hyphenate ds) := by
  have hgrouped : Grouped _ _ := .mk (a := ds.extract 0 8) (b := ds.extract 8 12)
    (c := ds.extract 12 16) (d := ds.extract 16 20) (e := ds.extract 20 32) (by simp [h])
    (by simp [h]) (by simp [h]) (by simp [h]) (by simp [h])
  have hdigits := groups_append h
  simp only [List.append_assoc] at hdigits
  rw [hdigits] at hgrouped
  simpa [hyphenate] using hgrouped

theorem grouped_iff : Grouped ds cs ↔ ds.length = 32 ∧ cs = hyphenate ds := by
  constructor
  · exact fun h => ⟨h.length_digits, h.eq_hyphenate⟩
  · rintro ⟨h, rfl⟩
    exact grouped_hyphenate h

theorem drop_eq_extract {i j : ℕ} (hij : i ≤ j) (h : cs[j]? = some '-') :
    cs.drop i = cs.extract i j ++ '-' :: cs.drop (j + 1) := by
  obtain ⟨hlt, heq⟩ := List.getElem?_eq_some_iff.mp h
  have hdrop : (cs.drop i).drop (j - i) = cs.drop j := by
    rw [List.drop_drop, Nat.add_sub_cancel' hij]
  rw [List.extract_eq_take_drop, ← heq, ← List.drop_eq_getElem_cons hlt, ← hdrop,
    List.take_append_drop]

theorem grouped_unhyphenate (hlength : cs.length = 36)
    (hplaces : hyphenPlaces.all (fun i => cs[i]? == some '-') = true) :
    Grouped (unhyphenate cs) cs := by
  simp only [hyphenPlaces, List.all_cons, List.all_nil, Bool.and_true, Bool.and_eq_true,
    beq_iff_eq] at hplaces
  obtain ⟨h8, h13, h18, h23⟩ := hplaces
  have hend : cs.drop 24 = cs.extract 24 36 := by
    rw [List.extract_eq_take_drop, List.take_of_length_le (by simp [hlength])]
  have hcs : cs = cs.extract 0 8 ++ '-' :: (cs.extract 9 13 ++ '-' :: (cs.extract 14 18 ++
      '-' :: (cs.extract 19 23 ++ '-' :: cs.extract 24 36))) := by
    rw [← hend, ← drop_eq_extract (by decide) h23, ← drop_eq_extract (by decide) h18,
      ← drop_eq_extract (by decide) h13, ← drop_eq_extract (by decide) h8, List.drop_zero]
  have hgrouped : Grouped _ _ := .mk (a := cs.extract 0 8) (b := cs.extract 9 13)
    (c := cs.extract 14 18) (d := cs.extract 19 23) (e := cs.extract 24 36) (by simp [hlength])
    (by simp [hlength]) (by simp [hlength]) (by simp [hlength]) (by simp [hlength])
  rw [← hcs] at hgrouped
  simpa [unhyphenate] using hgrouped

/-! ## What is read -/

theorem ofDigits?_eq_some_iff :
    ofDigits? ds = some u ↔ ds.length = 32 ∧ SpellsHex ds u.bits.toNat := by
  unfold ofDigits?
  split
  · next hlength =>
    rw [and_iff_right hlength, Option.map_eq_some_iff, ← ofHexDigits?_eq_some_iff]
    have hbits : ∀ n, SpellsHex ds n → (BitVec.ofNat 128 n).toNat = n := by
      intro n hn
      have hlt := hn.lt
      rw [hlength] at hlt
      exact (BitVec.toNat_ofNat n 128).trans (Nat.mod_eq_of_lt hlt)
    constructor
    · rintro ⟨n, hn, rfl⟩
      rw [hbits n (ofHexDigits?_eq_some_iff.mp hn)]
      exact hn
    · intro hn
      refine ⟨_, hn, ?_⟩
      rw [BitVec.ofNat_toNat, BitVec.setWidth_eq]
  · next hlength => simp [hlength]

theorem ofHyphenated?_eq_some_iff :
    ofHyphenated? cs = some u ↔ ∃ ds, Grouped ds cs ∧ SpellsHex ds u.bits.toNat := by
  unfold ofHyphenated?
  constructor
  · intro h
    split at h
    · next hform =>
      exact ⟨_, grouped_unhyphenate hform.1 hform.2, (ofDigits?_eq_some_iff.mp h).2⟩
    · contradiction
  · rintro ⟨ds, hgrouped, hds⟩
    obtain ⟨hlength, rfl⟩ := grouped_iff.mp hgrouped
    rw [if_pos ⟨length_hyphenate hlength, hyphenPlaces_hyphenate hlength⟩]
    show ofDigits? (unhyphenate (hyphenate ds)) = some u
    rw [unhyphenate_hyphenate hlength, ofDigits?_eq_some_iff]
    exact ⟨hlength, hds⟩

theorem unbrace?_eq_some_iff {inner : List Char} :
    unbrace? cs = some inner ↔ cs = '{' :: (inner ++ ['}']) := by
  constructor
  · intro h
    unfold unbrace? at h
    split at h
    · next rest =>
      split at h
      · next hlast =>
        obtain ⟨before, rfl⟩ := List.getLast?_eq_some_iff.mp hlast
        rw [← Option.some.inj h, List.dropLast_concat]
      · contradiction
    · contradiction
  · rintro rfl
    simp [unbrace?]

theorem length_of_scheme {p : List Char} (h : p.map Char.toLower = urnScheme) : p.length = 9 := by
  rw [← List.length_map Char.toLower, h]
  rfl

theorem unurn?_eq_some_iff {inner : List Char} :
    unurn? cs = some inner ↔ ∃ p, p.map Char.toLower = urnScheme ∧ cs = p ++ inner := by
  constructor
  · intro h
    unfold unurn? at h
    split at h
    · next hscheme => exact ⟨_, hscheme, by rw [← Option.some.inj h, List.take_append_drop]⟩
    · contradiction
  · rintro ⟨p, hp, rfl⟩
    have hlength := length_of_scheme hp
    unfold unurn?
    rw [List.take_left' hlength, List.drop_left' hlength]
    exact if_pos hp

/-! ## The forms apart -/

theorem Grouped.length_text (h : Grouped ds cs) : cs.length = 36 := by
  rw [h.eq_hyphenate, length_hyphenate h.length_digits]

theorem ofDigits?_eq_none (h : cs.length ≠ 32) : ofDigits? cs = none := if_neg h

theorem ofHyphenated?_eq_none (h : cs.length ≠ 36) : ofHyphenated? cs = none :=
  if_neg fun hform => h hform.1

theorem unbrace?_bind_eq_none (h : cs.length ≠ 38) : (unbrace? cs).bind ofHyphenated? = none := by
  rw [Option.bind_eq_none_iff]
  intro inner hinner
  refine ofHyphenated?_eq_none fun hlength => h ?_
  rw [unbrace?_eq_some_iff.mp hinner]
  simp [hlength]

/-- **An id is read from its spellings, and from nothing else.** -/
theorem read?_eq_some_iff : read? cs = some u ↔ Spells cs u := by
  constructor
  · intro h
    unfold read? at h
    simp only [Option.orElse_eq_some, Option.bind_eq_some_iff, ofDigits?_eq_some_iff,
      ofHyphenated?_eq_some_iff, unbrace?_eq_some_iff, unurn?_eq_some_iff] at h
    rcases h with ⟨hlength, hu⟩ | ⟨-, ⟨ds, hds, hu⟩ | ⟨-, ⟨inner, rfl, ds, hds, hu⟩ |
      ⟨-, inner, ⟨p, hp, rfl⟩, ds, hds, hu⟩⟩⟩
    · exact ⟨cs, .bare hlength, hu⟩
    · exact ⟨ds, .grouped hds, hu⟩
    · exact ⟨ds, .braced hds, hu⟩
    · exact ⟨ds, .urn hp hds, hu⟩
  · rintro ⟨ds, hform, hu⟩
    -- the forms before that of the text have another length
    cases hform with
    | bare hlength =>
      have hread := ofDigits?_eq_some_iff.mpr ⟨hlength, hu⟩
      rw [read?, hread]
      rfl
    | grouped hds =>
      have hread := ofHyphenated?_eq_some_iff.mpr ⟨ds, hds, hu⟩
      have hlength := hds.length_text
      rw [read?, ofDigits?_eq_none (by omega), hread]
      rfl
    | @braced inner hds =>
      have hread := ofHyphenated?_eq_some_iff.mpr ⟨ds, hds, hu⟩
      have hlength : ('{' :: (inner ++ ['}'])).length = 38 := by simp [hds.length_text]
      rw [read?, ofDigits?_eq_none (by omega), ofHyphenated?_eq_none (by omega),
        unbrace?_eq_some_iff.mpr rfl, Option.bind_some, hread]
      rfl
    | @urn inner p hp hds =>
      have hread := ofHyphenated?_eq_some_iff.mpr ⟨ds, hds, hu⟩
      have hlength : (p ++ inner).length = 45 := by
        rw [List.length_append, length_of_scheme hp, hds.length_text]
      rw [read?, ofDigits?_eq_none (by omega), ofHyphenated?_eq_none (by omega),
        unbrace?_bind_eq_none (by omega), unurn?_eq_some_iff.mpr ⟨p, hp, rfl⟩, Option.bind_some,
        hread]
      rfl

/-! ## The canonical text -/

theorem Form.length_digits (h : Form ds cs) : ds.length = 32 := by
  cases h with
  | bare h => exact h
  | grouped h => exact h.length_digits
  | braced h => exact h.length_digits
  | urn _ h => exact h.length_digits

theorem spellsHex_digits (u : Uuid) : SpellsHex u.digits u.bits.toNat :=
  spellsHex_hexDigits (u.bits.isLt.trans_eq (by decide))

theorem mem_lowerDigits (u : Uuid) : ∀ c ∈ u.digits, c ∈ lowerDigits :=
  fun _ => mem_lowerDigits_of_mem_hexDigits

theorem map_toLower_eq_digits (hlength : ds.length = 32) (h : SpellsHex ds u.bits.toNat) :
    ds.map Char.toLower = u.digits := by
  have hlengths : ds.length = u.digits.length := hlength.trans (length_hexDigits _ _).symm
  rw [(h.eq_iff u.spellsHex_digits hlengths).mp rfl, map_toLower_of_lower u.mem_lowerDigits]

theorem grouped_digits_iff : Grouped u.digits cs ↔ u.text = String.ofList cs := by
  have hlength : u.digits.length = 32 := length_hexDigits _ _
  rw [grouped_iff, and_iff_right hlength, text, String.ofList_inj]
  exact eq_comm

theorem Grouped.mem {c : Char} (h : Grouped ds cs) (hc : c ∈ cs) : c = '-' ∨ c ∈ ds := by
  obtain ⟨-, -, -, -, -⟩ := h
  simp only [List.mem_append, List.mem_cons] at hc ⊢
  tauto

theorem mem_text {c : Char} (h : c ∈ u.text.toList) : c ∈ '-' :: lowerDigits := by
  have hgrouped : Grouped u.digits u.text.toList :=
    grouped_digits_iff.mpr String.ofList_toList.symm
  rcases hgrouped.mem h with rfl | hc
  · exact List.mem_cons_self
  · exact List.mem_cons_of_mem _ (u.mem_lowerDigits c hc)

end ProtectionDomain.Uuid
