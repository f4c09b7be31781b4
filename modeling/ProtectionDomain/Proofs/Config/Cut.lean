import ProtectionDomain.Proofs.Json.Closed
import ProtectionDomain.Proofs.Wire.RoundTrip

/-!
# Configurations that are cut off or go on

Since every setting has a default, a document that was cut off and read all the same would pass for
a configuration.

* `Wire.decode_append_iff`, `Wire.decode_front_ne`: documents of a type that is closed;
* `ofJson_eq_parse_iff`, `ofJson_congr`: loading comes down to what is decoded;
* `Whole`: what becomes of a document that is cut or goes on;
* **`cut_or_extended`**: a configuration is loaded from the whole document or not at all.
-/

namespace ProtectionDomain

open Json

/-! ## Types that are closed -/

namespace Wire

variable {α : Type} [Wire α] {document front more : Bytes} {a b : α}
  (hclosed : ∀ t x, (shape α).Denotes t x → Closed t)

include hclosed

theorem decode_append_iff (h : decode α document = .ok a) :
    decode α (document ++ more) = .ok b ↔ Blanks more ∧ b = a := by
  obtain ⟨x, hx, rfl⟩ := map_eq_ok.mp h
  rw [decode, map_eq_ok]
  simp only [Shape.decode_append_iff hclosed hx]
  constructor
  · rintro ⟨y, ⟨hmore, rfl⟩, rfl⟩
    exact ⟨hmore, rfl⟩
  · rintro ⟨hmore, rfl⟩
    exact ⟨x, ⟨hmore, rfl⟩, rfl⟩

theorem decode_front_ne (h : decode α document = .ok a) (hfront : front <+: trimEnd document)
    (hne : front ≠ trimEnd document) : decode α front ≠ .ok b := by
  obtain ⟨x, hx, -⟩ := map_eq_ok.mp h
  intro hdecode
  obtain ⟨y, hy, -⟩ := map_eq_ok.mp hdecode
  exact Shape.decode_front_ne hclosed hx hfront hne hy

end Wire

namespace SessionConfig

variable {document document' more : Bytes}
  {outcome : Except ConfigError SessionConfig}

/-! ## Loading -/

theorem closed (t : Bytes) (x : (Wire.shape SessionConfig).Carrier)
    (h : (Wire.shape SessionConfig).Denotes t x) : Closed t := RecordText.closed h

theorem ofJson_eq_parse_iff : (∃ reason, ofJson document = .error (.parse reason)) ↔
    ∀ c, Wire.decode SessionConfig document ≠ .ok c := by
  unfold ofJson
  cases hdecode : Wire.decode SessionConfig document with
  | error fault => simp
  | ok c =>
    simp only [Except.ok.injEq, ne_eq]
    split <;> simp

theorem ofJson_congr
    (h : Wire.decode SessionConfig document = Wire.decode SessionConfig document') :
    ofJson document = ofJson document' := by
  rw [ofJson, h, ofJson]

theorem exists_decode (h : ofJson document = outcome)
    (hread : ∀ reason, outcome ≠ .error (.parse reason)) :
    ∃ c, Wire.decode SessionConfig document = .ok c := by
  by_contra hnone
  obtain ⟨reason, hrefused⟩ := ofJson_eq_parse_iff.mpr fun c hc => hnone ⟨c, hc⟩
  exact hread reason (h.symm.trans hrefused)

/-! ## Whole documents -/

/-- The document is read as a whole or not at all. -/
structure Whole (document : Bytes) (outcome : Except ConfigError SessionConfig) : Prop where
  /-- Wherever the document is cut, what is left is no configuration. -/
  front {front : Bytes} : front <+: trimEnd document → front ≠ trimEnd document →
    ∃ reason, ofJson front = .error (.parse reason)
  /-- Blanks behind the document do not matter. -/
  blanks {more : Bytes} : Blanks more → ofJson (document ++ more) = outcome
  /-- With anything else behind it the document is no configuration. -/
  refused {more : Bytes} : ¬ Blanks more →
    ∃ reason, ofJson (document ++ more) = .error (.parse reason)

/-- A document that is not refused as no configuration is read as a whole or not at all. -/
theorem whole (h : ofJson document = outcome)
    (hread : ∀ reason, outcome ≠ .error (.parse reason)) : Whole document outcome := by
  obtain ⟨c, hc⟩ := exists_decode h hread
  refine ⟨fun hfront hne => ?_, fun hmore => ?_, fun hmore => ?_⟩
  · exact ofJson_eq_parse_iff.mpr fun _ => Wire.decode_front_ne closed hc hfront hne
  · have happend := (Wire.decode_append_iff closed hc).mpr ⟨hmore, rfl⟩
    rw [ofJson_congr (happend.trans hc.symm), h]
  · exact ofJson_eq_parse_iff.mpr fun d hd => hmore ((Wire.decode_append_iff closed hc).mp hd).1

theorem Whole.blanks_of_ne (h : Whole document outcome)
    (hmore : ∀ reason, ofJson (document ++ more) ≠ .error (.parse reason)) : Blanks more := by
  by_contra hblanks
  obtain ⟨reason, hrefused⟩ := h.refused hblanks
  exact hmore reason hrefused

/-- **`ofJson` takes a document as a `Whole`**: cut it and it is no configuration, append `more` and
it is the same one if `more` is `Blanks`, and else none. -/
theorem cut_or_extended :
    (∀ {document c}, ofJson document = .ok c → Whole document (.ok c) ∧
      ∀ more, (∃ c', ofJson (document ++ more) = .ok c') ↔ Blanks more) ∧
    (∀ {document v}, ofJson document = .error (.unsupportedVersion v) →
      Whole document (.error (.unsupportedVersion v)) ∧
      ∀ more, (∃ v', ofJson (document ++ more) = .error (.unsupportedVersion v')) ↔
        Blanks more) := by
  constructor
  · intro document c h
    have hwhole : Whole document (.ok c) := whole h fun _ => nofun
    refine ⟨hwhole, fun more => ⟨?_, fun hmore => ⟨c, hwhole.blanks hmore⟩⟩⟩
    rintro ⟨c', hc'⟩
    exact hwhole.blanks_of_ne fun reason hrefused => nomatch hc'.symm.trans hrefused
  · intro document v h
    have hwhole : Whole document (.error (.unsupportedVersion v)) := whole h fun _ => nofun
    refine ⟨hwhole, fun more => ⟨?_, fun hmore => ⟨v, hwhole.blanks hmore⟩⟩⟩
    rintro ⟨v', hv'⟩
    exact hwhole.blanks_of_ne fun reason hrefused => nomatch hv'.symm.trans hrefused

/-- A compact document with a line break behind it, with a brace missing and with one too many. -/
theorem cut_or_extended_compact :
    let document (version : UInt32) : Bytes :=
      Bytes.ofString (Wire.encode (⟨version, true, ["nic"]⟩ : SessionConfig))
    ofJson (document 1 ++ [0x0A]) = .ok ⟨1, true, ["nic"]⟩ ∧
    (∃ reason, ofJson (document 1).dropLast = .error (.parse reason)) ∧
    (∃ reason, ofJson (document 1 ++ [Byte.closeBrace]) = .error (.parse reason)) ∧
    ofJson (document 7 ++ [0x0A]) = .error (.unsupportedVersion 7) ∧
    (∃ reason, ofJson (document 7).dropLast = .error (.parse reason)) := by
  intro document
  obtain ⟨hloaded, hversion⟩ := cut_or_extended
  have hload : ofJson (document 1) = .ok ⟨1, true, ["nic"]⟩ := by
    rw [ofJson, Wire.decode_encode]
    rfl
  have hrefuse : ofJson (document 7) = .error (.unsupportedVersion 7) := by
    rw [ofJson, Wire.decode_encode]
    rfl
  have hblanks : Blanks [0x0A] := by simp [Blanks, Byte.isBlank]
  have hbrace : ¬ Blanks [Byte.closeBrace] := fun h => absurd (h _ List.mem_cons_self) (by decide)
  obtain ⟨hwhole, -⟩ := hloaded hload
  obtain ⟨hwhole', -⟩ := hversion hrefuse
  exact ⟨hwhole.blanks hblanks, hwhole.front (by decide) (by decide), hwhole.refused hbrace,
    hwhole'.blanks hblanks, hwhole'.front (by decide) (by decide)⟩

end SessionConfig

end ProtectionDomain
