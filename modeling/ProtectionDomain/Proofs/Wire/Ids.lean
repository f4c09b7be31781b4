import ProtectionDomain.Proofs.Json.Unique
import ProtectionDomain.Proofs.Uuid.Spelling
import ProtectionDomain.Proofs.Wire.RoundTrip

/-!
# Ids on the wire

* `encode_id`: an id is written as its canonical text in quotes;
* `decode_id`: it is read from a literal whose text is one of its spellings;
* **`ids_exact`**: what is read, which spellings are of one id, and what is written.
-/

namespace ProtectionDomain.Wire

open Json Text Uuid

variable {s : String} {t w w' : Bytes} {ds ds' cs cs' : List Char} {id id' : SessionId}

/-! ## Writing -/

theorem flatMap_escape_text (u : Uuid) : u.text.toList.flatMap Literal.escape = u.text.toList := by
  have hplain : ('-' :: lowerDigits).all (fun c => Literal.escape c == [c]) = true := by decide
  rw [List.all_eq_true] at hplain
  calc u.text.toList.flatMap Literal.escape
      = u.text.toList.flatMap fun c => [c] :=
        List.flatMap_congr fun c hc => beq_iff_eq.mp (hplain c (mem_text hc))
    _ = u.text.toList := List.flatMap_singleton' _

/-- An id is written as its canonical text in quotes. -/
theorem encode_id (id : SessionId) : encode id = "\"" ++ id.uuid.text ++ "\"" := by
  show String.ofList (Literal.write id.uuid.text) = _
  rw [Literal.write, flatMap_escape_text]
  apply String.toList_injective
  simp

theorem encode_id_eq_iff : encode id = "\"" ++ String.ofList cs ++ "\"" ↔
    Grouped id.uuid.digits cs := by
  rw [encode_id, grouped_digits_iff, ← String.toList_inj, ← String.toList_inj]
  simp

/-! ## Reading -/

/-- An id is read from a literal whose text is one of its spellings. -/
theorem decode_id (ht : Literal.LiteralText t s) (hw : Blanks w) (hw' : Blanks w') :
    decode SessionId (w ++ (t ++ w')) = .ok id ↔ Spells s.toList id.uuid := by
  have huuid : ∀ u : Uuid, (shape SessionId).decode (w ++ (t ++ w')) = .ok u ↔
      Spells s.toList u := by
    intro u
    rw [Shape.decode_between hw hw' (Shape.wellFormed .text t s ht).trimmed, ← read?_eq_some_iff]
    constructor
    · rintro ⟨s', ht', hu⟩
      rw [ht.unique ht']
      exact hu
    · exact fun hu => ⟨s, ht, hu⟩
  rw [decode, map_eq_ok]
  constructor
  · rintro ⟨u, hu, rfl⟩
    exact (huuid u).mp hu
  · exact fun hid => ⟨id.uuid, (huuid id.uuid).mpr hid, rfl⟩

theorem exists_spells_iff :
    (∃ id : SessionId, Spells cs id.uuid) ↔ ∃ ds, Form ds cs ∧ ∀ c ∈ ds, ∃ d, HexDigit c d := by
  constructor
  · rintro ⟨id, ds, hform, hds⟩
    exact ⟨ds, hform, exists_spellsHex_iff.mp ⟨_, hds⟩⟩
  · rintro ⟨ds, hform, hdigits⟩
    obtain ⟨n, hn⟩ := exists_spellsHex_iff.mpr hdigits
    have hlt : n < 2 ^ 128 := by
      have hbound := hn.lt
      rwa [hform.length_digits] at hbound
    refine ⟨⟨⟨BitVec.ofNat 128 n⟩⟩, ds, hform, ?_⟩
    rwa [BitVec.toNat_ofNat, Nat.mod_eq_of_lt hlt]

theorem SessionId.eq_iff : id = id' ↔ id.uuid.bits.toNat = id'.uuid.bits.toNat := by
  obtain ⟨⟨u⟩⟩ := id
  obtain ⟨⟨u'⟩⟩ := id'
  rw [SessionId.mk.injEq, Uuid.mk.injEq, BitVec.toNat_eq]

/-! ## Exactness -/

/-- **`decode` reads an id from the four `Form`s of digits that spell it, and `encode` writes one of
them**, `Grouped` and in lower case; the case of digits does not matter. -/
theorem ids_exact :
    (∀ {s t w w'}, Literal.LiteralText t s → Blanks w → Blanks w' →
      (∀ id, decode SessionId (w ++ (t ++ w')) = .ok id ↔
        ∃ ds, Form ds s.toList ∧ SpellsHex ds id.uuid.bits.toNat) ∧
      ((∃ id, decode SessionId (w ++ (t ++ w')) = .ok id) ↔
        ∃ ds, Form ds s.toList ∧ ∀ c ∈ ds, ∃ d, HexDigit c d)) ∧
    (∀ {ds ds' cs cs'} {id id' : SessionId}, Form ds cs → SpellsHex ds id.uuid.bits.toNat →
      Form ds' cs' → SpellsHex ds' id'.uuid.bits.toNat →
      (id = id' ↔ ds.map Char.toLower = ds'.map Char.toLower)) ∧
    (∀ id : SessionId, ∃ ds cs, Grouped ds cs ∧ SpellsHex ds id.uuid.bits.toNat ∧
      (∀ c ∈ ds, c ∈ lowerDigits) ∧ encode id = "\"" ++ String.ofList cs ++ "\"" ∧
      id.display = "Session(" ++ String.ofList cs ++ ")") ∧
    (∀ {s t w w' id}, Literal.LiteralText t s → Blanks w → Blanks w' →
      decode SessionId (w ++ (t ++ w')) = .ok id →
      decode SessionId (Bytes.ofString (encode id)) = .ok id ∧
      ∃ ds, Form ds s.toList ∧
        ∀ cs, encode id = "\"" ++ String.ofList cs ++ "\"" ↔ Grouped (ds.map Char.toLower) cs) := by
  refine ⟨?reading, ?apart, ?writing, ?again⟩
  case reading =>
    intro s t w w' ht hw hw'
    refine ⟨fun id => decode_id ht hw hw', ?_⟩
    rw [← exists_spells_iff]
    exact exists_congr fun id => decode_id ht hw hw'
  case apart =>
    intro ds ds' cs cs' id id' hform hds hform' hds'
    rw [SessionId.eq_iff]
    exact hds.eq_iff hds' (hform.length_digits.trans hform'.length_digits.symm)
  case writing =>
    intro id
    refine ⟨id.uuid.digits, id.uuid.text.toList, ?_, id.uuid.spellsHex_digits,
      id.uuid.mem_lowerDigits, ?_, ?_⟩
    · exact grouped_digits_iff.mpr String.ofList_toList.symm
    · rw [String.ofList_toList, encode_id]
    · rw [String.ofList_toList]
      rfl
  case again =>
    intro s t w w' id ht hw hw' hread
    obtain ⟨ds, hform, hds⟩ := (decode_id ht hw hw').mp hread
    refine ⟨decode_encode id, ds, hform, fun cs => ?_⟩
    rw [map_toLower_eq_digits hform.length_digits hds]
    exact encode_id_eq_iff

/-- An id after `urn:uuid:`, partly in upper case like its digits, and another that differs in the
last digit. -/
theorem ids_exact_urn :
    let s := "URN:uuid:67E55044-10b1-426f-9247-bb680e5fe0C8"
    let id : SessionId := ⟨⟨0x67e5504410b1426f9247bb680e5fe0c8⟩⟩
    decode SessionId (Value.text s).bytes = .ok id ∧
    decode SessionId (Bytes.ofString (encode id)) = .ok id ∧
    encode id = "\"67e55044-10b1-426f-9247-bb680e5fe0c8\"" ∧
    id ≠ ⟨⟨0x67e5504410b1426f9247bb680e5fe0c9⟩⟩ := by
  intro s id
  obtain ⟨hreading, hapart, -, hagain⟩ := ids_exact
  let ds := "67E5504410b1426f9247bb680e5fe0C8".toList
  let ds' := "67E5504410b1426f9247bb680e5fe0C9".toList
  have hgroups : Grouped ds "67E55044-10b1-426f-9247-bb680e5fe0C8".toList :=
    grouped_iff.mpr ⟨by decide, by decide⟩
  have hscheme : s.toList = "URN:uuid:".toList ++
      "67E55044-10b1-426f-9247-bb680e5fe0C8".toList := by decide
  have hform : Form ds s.toList := hscheme ▸ .urn (by decide) hgroups
  have hform' : Form ds' ds' := .bare (by decide)
  have hds : SpellsHex ds id.uuid.bits.toNat := ofHexDigits?_eq_some_iff.mp (by decide)
  have hds' : SpellsHex ds' (0x67e5504410b1426f9247bb680e5fe0c9 : BitVec 128).toNat :=
    ofHexDigits?_eq_some_iff.mp (by decide)
  have ht : Literal.LiteralText (Value.text s).bytes s := Literal.literalText_write s
  have hdecode : decode SessionId ([] ++ ((Value.text s).bytes ++ [])) = .ok id :=
    ((hreading ht Blanks.nil Blanks.nil).1 id).mpr ⟨ds, hform, hds⟩
  obtain ⟨hdecoded, -⟩ := hagain ht Blanks.nil Blanks.nil hdecode
  rw [List.nil_append, List.append_nil] at hdecode
  refine ⟨hdecode, hdecoded, ?_, fun heq => ?_⟩
  · rw [encode_id]
    decide
  · have hcase := (hapart hform hds hform' hds').mp heq
    exact absurd hcase (by decide)

end ProtectionDomain.Wire
