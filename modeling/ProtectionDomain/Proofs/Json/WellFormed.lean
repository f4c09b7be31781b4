import ProtectionDomain.Proofs.Json.Numeral
import ProtectionDomain.Proofs.Json.Row
import ProtectionDomain.Proofs.Json.Scalar

/-!
# Values of any form

What nobody asked for is only checked for its form. Inside it keys may repeat, and literals need
not spell texts.

* `WellFormed`: the JSON values, to any depth;
* `skipNested_sound`, `skipNested_complete`: exactly these are skipped;
* `reads_skipValue`: the same as a reader without a result.
-/

namespace ProtectionDomain.Json

/-- The texts of JSON values. -/
inductive WellFormed : Bytes → Prop
  | keyword {t : Bytes} {found : Found} : KeywordText t found → WellFormed t
  | numeral {t : Bytes} {x : Numeral} : Numeral.NumeralText t x → WellFormed t
  | literal {t : Bytes} : Literal.LiteralForm t → WellFormed t
  | list {t : Bytes} {items : List Bytes} : ListText items t → (∀ u ∈ items, WellFormed u) →
      WellFormed t
  | object {t : Bytes} {members : List (Bytes × Bytes)} : ObjectText KeyForm members t →
      (∀ m ∈ members, WellFormed m.2) → WellFormed t

/-! ## First bytes -/

theorem keyword?_of_beginsNumeral {b : UInt8} (h : beginsNumeral b = true) :
    keyword? b = none := by
  cases hkey : keyword? b with
  | none => rfl
  | some key =>
    obtain ⟨letters, found⟩ := key
    generalize ht : b :: letters = t at *
    have hsound := keyword?_sound hkey
    rw [ht] at hsound
    cases hsound with
    | null | true | false =>
      obtain ⟨rfl, -⟩ := List.cons.inj ht
      contradiction

theorem Numeral.NumeralText.head {t : Bytes} {x : Numeral} (h : Numeral.NumeralText t x) :
    ∃ b t', t = b :: t' ∧ beginsNumeral b = true ∧ Byte.isBlank b = false := by
  obtain ⟨hw, -, -⟩ := h
  cases hneg : x.negative with
  | true => exact ⟨Byte.minus, _, rfl, rfl, rfl⟩
  | false =>
    obtain ⟨d, ds, hds, hd⟩ := hw.digit
    rw [hds]
    exact ⟨d, _, rfl, by simp [beginsNumeral, hd], isBlank_of_isDigit hd⟩

theorem WellFormed.solid {t : Bytes} (h : WellFormed t) : Solid t := by
  cases h with
  | keyword h => exact h.solid
  | numeral h =>
    obtain ⟨b, t', rfl, hb, hblank⟩ := h.head
    refine ⟨b, t', rfl, hblank, ?_⟩
    rintro rfl
    contradiction
  | literal h =>
    obtain ⟨r, rfl, -⟩ := h
    exact ⟨Byte.quote, _, rfl, rfl, by decide⟩
  | list h _ =>
    obtain ⟨r, rfl, -⟩ := h
    exact ⟨Byte.openBracket, _, rfl, rfl, by decide⟩
  | object h _ =>
    obtain ⟨r, rfl, -⟩ := h
    exact ⟨Byte.openBrace, _, rfl, rfl, by decide⟩

/-! ## Skipping -/

theorem skipNested_cons {a b : UInt8} {bound bs rest : Bytes} (h : skipBlanks bs = b :: rest) :
    skipNested (a :: bound) bs =
      match keyword? b with
      | some (letters, _) => scanLetters letters rest
      | none =>
        if beginsNumeral b then (Numeral.scan .badNumeral (b :: rest)).map (·.2)
        else if b = Byte.quote then Literal.skip rest
        else if b = Byte.openBracket then skipItems (skipNested bound) rest
        else if b = Byte.openBrace then skipMembers (skipNested bound) rest
        else .error .noValue := by
  rw [skipNested.eq_def]
  generalize skipBlanks bs = front at h ⊢
  subst h
  rfl

theorem skipNested_sound {bound bs rest : Bytes} (h : skipNested bound bs = .ok rest) :
    ∃ w t, bs = w ++ (t ++ rest) ∧ Blanks w ∧ WellFormed t := by
  induction bound generalizing bs rest with
  | nil =>
    unfold skipNested at h
    contradiction
  | cons a bound ih =>
    cases hblanks : skipBlanks bs with
    | nil =>
      rw [skipNested.eq_def, hblanks] at h
      contradiction
    | cons b bs' =>
      rw [skipNested_cons hblanks] at h
      obtain ⟨w, rfl, hw, -⟩ := eq_append_of_skipBlanks hblanks
      split at h
      · next letters found hkey =>
        refine ⟨w, b :: letters, ?_, hw, .keyword (keyword?_sound hkey)⟩
        rw [scanLetters_eq_ok.mp h, List.cons_append]
      · split at h
        · obtain ⟨⟨x, rest'⟩, hscan, rfl⟩ := map_eq_ok.mp h
          obtain ⟨t, heq, ht⟩ := Numeral.scan_sound hscan
          exact ⟨w, t, by rw [heq], hw, .numeral ht⟩
        · split at h
          · next hb =>
            obtain ⟨r, rfl, hr⟩ := Literal.skip_sound h
            refine ⟨w, Byte.quote :: (r ++ [Byte.quote]), ?_, hw, .literal ⟨r, rfl, hr⟩⟩
            simp [hb]
          · split at h
            · next hb =>
              obtain ⟨items, r, rfl, hrow, hall⟩ := skipItems_sound (fun _ _ => ih) h
              refine ⟨w, Byte.openBracket :: (r ++ [Byte.closeBracket]), ?_, hw,
                .list ⟨r, rfl, hrow⟩ hall⟩
              simp [hb]
            · split at h
              · next hb =>
                obtain ⟨members, r, rfl, hrow, hall⟩ := skipMembers_sound (fun _ _ => ih) h
                refine ⟨w, Byte.openBrace :: (r ++ [Byte.closeBrace]), ?_, hw,
                  .object ⟨r, rfl, hrow⟩ hall⟩
                simp [hb]
              · contradiction

theorem Row.length_le {α : Type} {Item : α → Bytes → Prop} {first : Bool} {xs : List α} {r : Bytes}
    (h : Row Item first xs r) {x : α} (hx : x ∈ xs) : ∃ t, Item x t ∧ t.length ≤ r.length := by
  induction h with
  | nil => exact absurd hx List.not_mem_nil
  | @cons _ _ _ w t r _ ht _ ih =>
    simp only [List.length_append]
    rcases List.mem_cons.mp hx with rfl | hx
    · exact ⟨t, ht, by omega⟩
    · obtain ⟨u, hu, hle⟩ := ih hx
      exact ⟨u, hu, by omega⟩

theorem MemberText.length_le {κ : Type} {Key : κ → Bytes → Prop} {m : κ × Bytes} {t : Bytes}
    (h : MemberText Key m t) : m.2.length ≤ t.length := by
  cases h
  simp only [List.length_append, List.length_cons]
  omega

/-- A value is skipped, if it is no deeper than the bound and no numeral that goes on. -/
theorem skipNested_complete {t : Bytes} (h : WellFormed t) {bound w rest : Bytes}
    (hbound : t.length ≤ bound.length) (hw : Blanks w)
    (hrest : ∀ x, Numeral.NumeralText t x → Stops rest) :
    skipNested bound (w ++ (t ++ rest)) = .ok rest := by
  induction h generalizing bound w rest with
  | keyword h =>
    obtain ⟨b, letters, rfl, hkey, hblank, -⟩ := keyword?_complete h
    obtain ⟨a, bound, rfl⟩ := List.exists_cons_of_length_pos (Nat.lt_of_lt_of_le (by simp) hbound)
    rw [List.cons_append, skipNested_cons (skipBlanks_append_cons hw hblank _)]
    simp only [hkey]
    exact scanLetters_eq_ok.mpr rfl
  | numeral h =>
    have hscan : Numeral.scan .badNumeral _ = .ok (_, rest) := Numeral.scan_complete h (hrest _ h)
    obtain ⟨b, t', rfl, hb, hblank⟩ := h.head
    obtain ⟨a, bound, rfl⟩ := List.exists_cons_of_length_pos (Nat.lt_of_lt_of_le (by simp) hbound)
    rw [List.cons_append] at hscan ⊢
    rw [skipNested_cons (skipBlanks_append_cons hw hblank _)]
    simp only [keyword?_of_beginsNumeral hb, hb, if_true, hscan]
    rfl
  | literal h =>
    obtain ⟨r, rfl, hr⟩ := h
    obtain ⟨a, bound, rfl⟩ := List.exists_cons_of_length_pos (Nat.lt_of_lt_of_le (by simp) hbound)
    rw [List.cons_append, List.append_assoc, skipNested_cons (skipBlanks_append_cons hw rfl _)]
    exact Literal.skip_complete hr rest
  | @list t items h hall ih =>
    obtain ⟨r, rfl, hrow⟩ := h
    obtain ⟨a, bound, rfl⟩ := List.exists_cons_of_length_pos (Nat.lt_of_lt_of_le (by simp) hbound)
    have hskip : ∀ w t rest, Blanks w → t ∈ items → Stops rest →
        skipNested bound (w ++ (t ++ rest)) = .ok rest := by
      intro w t rest hw ht hrest
      obtain ⟨u, rfl, hle⟩ := hrow.length_le ht
      simp only [List.length_cons, List.length_append] at hbound
      exact ih u ht (by omega) hw fun _ _ => hrest
    rw [List.cons_append, List.append_assoc, skipNested_cons (skipBlanks_append_cons hw rfl _)]
    exact skipItems_complete (fun t ht => (hall t ht).solid) hskip (fun _ => id) hrow rest
  | @object t members h hall ih =>
    obtain ⟨r, rfl, hrow⟩ := h
    obtain ⟨a, bound, rfl⟩ := List.exists_cons_of_length_pos (Nat.lt_of_lt_of_le (by simp) hbound)
    have hskip : ∀ w t rest, Blanks w → (∃ m ∈ members, m.2 = t) → Stops rest →
        skipNested bound (w ++ (t ++ rest)) = .ok rest := by
      rintro w _ rest hw ⟨m, hm, rfl⟩ hrest
      obtain ⟨u, hu, hle⟩ := hrow.length_le hm
      have hvalue := hu.length_le
      simp only [List.length_cons, List.length_append] at hbound
      exact ih m hm (by omega) hw fun _ _ => hrest
    rw [List.cons_append, List.append_assoc, skipNested_cons (skipBlanks_append_cons hw rfl _)]
    exact skipMembers_complete hskip (fun m hm => ⟨m, hm, rfl⟩) hrow rest

/-- **Exactly the JSON values are skipped.** -/
theorem reads_skipValue :
    Reads (fun bs => (skipValue bs).map ((), ·)) fun t _ => WellFormed t where
  sound {bs rest v} h := by
    obtain ⟨rest', hskip, hrest⟩ := map_eq_ok.mp h
    obtain ⟨-, rfl⟩ := Prod.mk.inj hrest
    exact skipNested_sound hskip
  complete {w t rest v} hw ht hrest := by
    rw [skipValue, skipNested_complete ht (by simp; omega) hw fun _ _ => hrest]
    rfl
  solid ht := ht.solid

end ProtectionDomain.Json
