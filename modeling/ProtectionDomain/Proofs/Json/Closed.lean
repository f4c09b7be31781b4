import ProtectionDomain.Proofs.Json.Unique

/-!
# Documents that are cut off or go on

The last byte of a value that is no numeral is the first place where it may end.

* `Closed`: values that are no numerals; `Closed.cut`: they end in one place;
* `RecordText.closed`: records are closed;
* `Shape.decode_append_iff`: nothing but blanks may follow the document of a closed shape;
* `Shape.decode_front_ne`: nothing but blanks may be cut off behind it.
-/

namespace ProtectionDomain.Json

variable {w w' t t' rest rest' document front more : Bytes}

/-! ## Closed texts -/

/-- A value that is no numeral. -/
structure Closed (t : Bytes) : Prop where
  wellFormed : WellFormed t
  not_numeral : ∀ x, ¬ Numeral.NumeralText t x

/-- Whatever follows, closed texts end in one place. -/
theorem Closed.cut (ht : Closed t) (ht' : Closed t') (hw : Blanks w) (hw' : Blanks w')
    (heq : w ++ (t ++ rest) = w' ++ (t' ++ rest')) : t = t' ∧ rest = rest' :=
  ht.wellFormed.cut ht'.wellFormed hw hw' (fun x hx => absurd hx (ht.not_numeral x))
    (fun x hx => absurd hx (ht'.not_numeral x)) heq

theorem RecordText.closed {fs : Fields} {α : Type} {OfMembers OfElements : fs.Partial → α → Prop}
    {v : α} (h : RecordText fs.Named fs.Listed OfMembers OfElements t v) : Closed t := by
  refine ⟨h.wellFormed fs.valid, fun x hx => ?_⟩
  obtain ⟨b, t', rfl, hb, -⟩ := hx.head
  rcases h with ⟨⟨r, heq, -⟩, -, -⟩ | ⟨⟨r, heq, -⟩, -, -⟩
  · rw [(List.cons.inj heq).1] at hb
    contradiction
  · rw [(List.cons.inj heq).1] at hb
    contradiction

/-! ## Documents -/

section

variable {s : Shape} {x y : s.Carrier} (hclosed : ∀ t x, s.Denotes t x → Closed t)

include hclosed

/-- Nothing but blanks may follow a document. -/
theorem Shape.decode_append_iff (h : s.decode document = .ok x) :
    s.decode (document ++ more) = .ok y ↔ Blanks more ∧ y = x := by
  obtain ⟨w, t, w', rfl, hw, hw', ht⟩ := Shape.decode_eq_ok.mp h
  rw [Shape.decode_eq_ok]
  constructor
  · rintro ⟨v, u, v', heq, hv, hv', hu⟩
    simp only [List.append_assoc] at heq
    obtain ⟨rfl, hrest⟩ := (hclosed t x ht).cut (hclosed u y hu) hw hv heq
    refine ⟨fun b hb => hv' b ?_, Shape.denotes_unique hu ht⟩
    rw [← hrest]
    exact List.mem_append_right w' hb
  · rintro ⟨hmore, rfl⟩
    exact ⟨w, t, w' ++ more, by simp, hw, hw'.append hmore, ht⟩

theorem Shape.decode_front_ne (h : s.decode document = .ok x) (hfront : front <+: trimEnd document)
    (hne : front ≠ trimEnd document) : s.decode front ≠ .ok y := by
  obtain ⟨w, t, w', rfl, hw, hw', ht⟩ := Shape.decode_eq_ok.mp h
  intro hdecode
  obtain ⟨v, u, v', rfl, hv, hv', hu⟩ := Shape.decode_eq_ok.mp hdecode
  have htrim : trimEnd (w ++ (t ++ w')) = w ++ t := by
    rw [← List.append_assoc, trimEnd_append_blanks hw',
      (hclosed t x ht).wellFormed.trimmed.trimEnd_eq]
  rw [htrim] at hfront hne
  obtain ⟨cut, heq⟩ := hfront
  -- the shorter text ends where the longer one does, and nothing is cut off
  have hends : v ++ (u ++ (v' ++ cut)) = w ++ (t ++ []) := by
    rw [List.append_nil, ← heq]
    simp only [List.append_assoc]
  obtain ⟨-, hrest⟩ := (hclosed u y hu).cut (hclosed t x ht) hv hw hends
  obtain ⟨rfl, rfl⟩ := List.append_eq_nil_iff.mp hrest
  rw [List.append_nil] at heq
  exact hne heq

end

end ProtectionDomain.Json
