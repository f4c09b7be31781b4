import ProtectionDomain.Proofs.Json.Valid

/-!
# What is wrong with a literal

Where a literal ends is settled by its quotes and backslashes. What stands between its quotes spells
a text unless there is a flaw in it.

* `Quoted`: bytes in quotes, none of which is looked at further; `LiteralForm.quoted`: literals are
  quoted;
* `QuotedBody.cut`, `QuotedBody.tail`: where quoted bytes end, and what is left of them;
* `literalText_iff_read`: they spell what is read from them;
* `Flaw`, `Flawed`: raw control characters, unknown escapes, surrogates without their other half and
  bytes that are no UTF-8, after as much as spells characters;
* **`Quoted.exists_literalText_iff`**: quoted bytes spell a text if and only if they are not flawed.
-/

namespace ProtectionDomain.Json.Literal

variable {b : UInt8} {d q r r' rest rest' t u u' : Bytes} {c : Char} {cs : List Char} {n : Nat}

/-! ## Quoted bytes -/

/-- Bytes without a quote, apart from those after a backslash. -/
inductive QuotedBody : Bytes → Prop
  | nil : QuotedBody []
  | byte {b : UInt8} {r : Bytes} : b ≠ Byte.quote → b ≠ Byte.backslash → QuotedBody r →
      QuotedBody (b :: r)
  | escape {b : UInt8} {r : Bytes} : QuotedBody r → QuotedBody (Byte.backslash :: b :: r)

/-- Bytes in quotes. -/
def Quoted (d : Bytes) : Prop := ∃ r, d = Byte.quote :: (r ++ [Byte.quote]) ∧ QuotedBody r

theorem QuotedBody.append (h : QuotedBody r) (h' : QuotedBody r') : QuotedBody (r ++ r') := by
  induction h with
  | nil => exact h'
  | byte hquote hslash _ ih => exact .byte hquote hslash ih
  | escape _ ih => exact .escape ih

theorem CodeText.quotedBody (h : CodeText t n) : QuotedBody t := by
  have hhex : ∀ {b : UInt8} {k : Nat}, Byte.hexValue? b = some k →
      b ≠ Byte.quote ∧ b ≠ Byte.backslash := by
    intro b k hb
    constructor
    · rintro rfl
      contradiction
    · rintro rfl
      contradiction
  obtain ⟨hi, hj, hk, hl⟩ := h
  exact .byte (hhex hi).1 (hhex hi).2 <| .byte (hhex hj).1 (hhex hj).2 <|
    .byte (hhex hk).1 (hhex hk).2 <| .byte (hhex hl).1 (hhex hl).2 .nil

theorem BodyForm.quotedBody (h : BodyForm r) : QuotedBody r := by
  induction h with
  | nil => exact .nil
  | cons ht _ ih =>
    cases ht with
    | raw _ hquote hslash => exact .byte hquote hslash ih
    | short => exact .escape ih
    | code hcode => exact .escape (hcode.quotedBody.append ih)

theorem LiteralForm.quoted (h : LiteralForm d) : Quoted d := by
  obtain ⟨r, rfl, hr⟩ := h
  exact ⟨r, rfl, hr.quotedBody⟩

theorem CharText.quotedBody (h : CharText t c) : QuotedBody t := by
  have hform := BodyForm.append_char h .nil
  rw [List.append_nil] at hform
  exact hform.quotedBody

/-- Quoted bytes end in one place. -/
theorem QuotedBody.cut (h : QuotedBody r) (h' : QuotedBody r')
    (heq : r ++ Byte.quote :: rest = r' ++ Byte.quote :: rest') : r = r' ∧ rest = rest' := by
  induction h generalizing r' with
  | nil =>
    cases h' with
    | nil => exact ⟨rfl, (List.cons.inj heq).2⟩
    | byte hquote _ _ => exact absurd (List.cons.inj heq).1.symm hquote
    | escape _ => exact absurd (List.cons.inj heq).1 (by decide)
  | byte hquote hslash _ ih =>
    cases h' with
    | nil => exact absurd (List.cons.inj heq).1 hquote
    | byte _ _ h' =>
      obtain ⟨rfl, htail⟩ := List.cons.inj heq
      obtain ⟨rfl, hrest⟩ := ih h' htail
      exact ⟨rfl, hrest⟩
    | escape _ => exact absurd (List.cons.inj heq).1 hslash
  | escape _ ih =>
    cases h' with
    | nil => exact absurd (List.cons.inj heq).1 (by decide)
    | byte _ hslash _ => exact absurd (List.cons.inj heq).1.symm hslash
    | escape h' =>
      obtain ⟨rfl, htail⟩ := List.cons.inj (List.cons.inj heq).2
      obtain ⟨rfl, hrest⟩ := ih h' htail
      exact ⟨rfl, hrest⟩

theorem QuotedBody.tail (ht : QuotedBody t) (hr : QuotedBody r)
    (heq : t ++ u = r ++ [Byte.quote]) :
    ∃ r', r = t ++ r' ∧ u = r' ++ [Byte.quote] ∧ QuotedBody r' := by
  induction ht generalizing r with
  | nil => exact ⟨r, rfl, heq, hr⟩
  | byte hquote hslash _ ih =>
    cases hr with
    | nil => exact absurd (List.cons.inj heq).1 hquote
    | byte _ _ hr =>
      obtain ⟨rfl, htail⟩ := List.cons.inj heq
      obtain ⟨r', rfl, hu, hr'⟩ := ih hr htail
      exact ⟨r', rfl, hu, hr'⟩
    | escape _ => exact absurd (List.cons.inj heq).1 hslash
  | escape _ ih =>
    cases hr with
    | nil => exact absurd (List.cons.inj heq).1 (by decide)
    | byte _ hslash _ => exact absurd (List.cons.inj heq).1.symm hslash
    | escape hr =>
      obtain ⟨rfl, htail⟩ := List.cons.inj (List.cons.inj heq).2
      obtain ⟨r', rfl, hu, hr'⟩ := ih hr htail
      exact ⟨r', rfl, hu, hr'⟩

theorem literalText_iff_read {s : String} :
    LiteralText (Byte.quote :: (r ++ [Byte.quote])) s ↔ read (r ++ [Byte.quote]) = .ok (s, []) := by
  constructor
  · rintro ⟨r', heq, hr⟩
    obtain rfl := List.append_cancel_right (List.cons.inj heq).2
    exact read_complete hr []
  · intro h
    obtain ⟨r', heq, hr⟩ := read_sound h
    obtain rfl := List.append_cancel_right heq
    exact ⟨r, rfl, hr⟩

/-! ## Flaws -/

/-- The bytes begin with something that no character is spelled by. -/
inductive Flaw : Bytes → Prop
  /-- A control character has to be escaped. -/
  | control {b : UInt8} {q : Bytes} : b < 0x20 → Flaw (b :: q)
  /-- The byte after the backslash begins no escape. -/
  | escape {b : UInt8} {q : Bytes} : b ≠ Byte.letterU → (∀ c, (b, c) ∉ shortEscapes) →
      Flaw (Byte.backslash :: b :: q)
  /-- An escape by code has four digits. -/
  | code {q : Bytes} : (∀ t n rest, CodeText t n → q ≠ t ++ rest) →
      Flaw (Byte.backslash :: Byte.letterU :: q)
  /-- The second of a surrogate pair has no first. -/
  | trailing {t q : Bytes} {n : Nat} : CodeText t n → isTrailing n = true →
      Flaw (Byte.backslash :: Byte.letterU :: (t ++ q))
  /-- The first of a surrogate pair has no second. -/
  | leading {t q : Bytes} {n : Nat} : CodeText t n → isLeading n = true →
      (∀ t' n' rest, CodeText t' n' → isTrailing n' = true →
        q ≠ Byte.backslash :: Byte.letterU :: (t' ++ rest)) →
      Flaw (Byte.backslash :: Byte.letterU :: (t ++ q))
  /-- The bytes begin with no character in UTF-8. -/
  | stray {b : UInt8} {q : Bytes} : (∀ c rest, b :: q ≠ String.utf8EncodeChar c ++ rest) →
      Flaw (b :: q)

/-- After its quote and as much as spells characters there is a flaw. -/
def Flawed (d : Bytes) : Prop := ∃ r cs q, d = Byte.quote :: (r ++ q) ∧ BodyText r cs ∧ Flaw q

theorem CodeText.cut {t' : Bytes} {n' : Nat} (h : CodeText t n) (h' : CodeText t' n')
    (heq : t ++ u = t' ++ u') : n = n' ∧ u = u' := by
  have hread := readCode_complete h u
  rw [heq, readCode_complete h', Except.ok.injEq, Prod.mk.injEq] at hread
  exact ⟨hread.1.symm, hread.2.symm⟩

theorem CharText.cut {t' : Bytes} {c' : Char} (h : CharText t c) (h' : CharText t' c')
    (heq : t ++ u = t' ++ u') : c = c' ∧ u = u' := by
  have hread := next_char_complete h u
  rw [heq, next_char_complete h', Except.ok.injEq, Piece.char.injEq] at hread
  exact ⟨hread.1.symm, hread.2.symm⟩

theorem not_flaw_quote : ¬ Flaw (Byte.quote :: rest) := by
  intro h
  cases h with
  | control h => exact absurd h (by decide)
  | stray h => exact h '"' rest rfl

/-- After a code the flaw is that it is half of a pair. -/
theorem Flaw.of_code (ht : CodeText t n)
    (h : Flaw (Byte.backslash :: Byte.letterU :: (t ++ u))) :
    isTrailing n = true ∨ isLeading n = true ∧ ∀ t' n' rest, CodeText t' n' →
      isTrailing n' = true → u ≠ Byte.backslash :: Byte.letterU :: (t' ++ rest) := by
  generalize hq : Byte.backslash :: Byte.letterU :: (t ++ u) = q at h
  cases h with
  | control h =>
    rw [← (List.cons.inj hq).1] at h
    exact absurd h (by decide)
  | escape h _ => exact absurd (List.cons.inj (List.cons.inj hq).2).1.symm h
  | code h => exact absurd (List.cons.inj (List.cons.inj hq).2).2.symm (h t n u ht)
  | trailing ht' h =>
    obtain ⟨rfl, -⟩ := ht.cut ht' (List.cons.inj (List.cons.inj hq).2).2
    exact Or.inl h
  | leading ht' hleading h =>
    obtain ⟨rfl, rfl⟩ := ht.cut ht' (List.cons.inj (List.cons.inj hq).2).2
    exact Or.inr ⟨hleading, h⟩
  | stray h => exact absurd hq.symm (h '\\' _)

theorem EscapeText.not_flaw (ht : EscapeText t c) : ¬ Flaw (Byte.backslash :: (t ++ u)) := by
  intro h
  cases ht with
  | short hshort =>
    cases h with
    | control h => exact absurd h (by decide)
    | escape _ h => exact h c hshort
    | code | trailing | leading => exact letterU_notMem_shortEscapes hshort
    | stray h => exact h '\\' _ rfl
  | code hcode =>
    have hsurrogate := not_surrogate c
    rcases h.of_code hcode with htrailing | ⟨hleading, -⟩
    · rw [hsurrogate.2] at htrailing
      contradiction
    · rw [hsurrogate.1] at hleading
      contradiction
  | @pair t t' n n' _ hcode hleading hcode' htrailing' _ =>
    have htext : Byte.letterU :: (t ++ Byte.backslash :: Byte.letterU :: t') ++ u =
        Byte.letterU :: (t ++ Byte.backslash :: Byte.letterU :: (t' ++ u)) := by simp
    rw [htext] at h
    rcases h.of_code hcode with htrailing | ⟨-, hnone⟩
    · simp only [isLeading, isTrailing, Bool.and_eq_true, decide_eq_true_eq] at hleading htrailing
      omega
    · exact hnone t' n' u hcode' htrailing' rfl

theorem CharText.not_flaw (ht : CharText t c) : ¬ Flaw (t ++ u) := by
  cases ht with
  | raw h20 hquote hslash =>
    intro h
    cases henc : String.utf8EncodeChar c with
    | nil => exact absurd henc String.utf8EncodeChar_ne_nil
    | cons b t =>
      obtain ⟨hcontrol, -, hb⟩ := (raw_head henc).mp ⟨h20, hquote, hslash⟩
      rw [henc, List.cons_append] at h
      generalize htail : t ++ u = tail at h
      cases h with
      | control h => exact hcontrol h
      | escape | code | trailing | leading => exact hb rfl
      | stray h =>
        refine h c u ?_
        rw [henc, List.cons_append, htail]
  | escape ht => exact ht.not_flaw

/-! ## Either a spelling or a flaw -/

theorem exists_escapeText_or_flaw (q : Bytes) :
    (∃ t c u, Byte.letterU :: q = t ++ u ∧ EscapeText t c) ∨
      Flaw (Byte.backslash :: Byte.letterU :: q) := by
  by_cases hcode : ∃ t n rest, CodeText t n ∧ q = t ++ rest
  · obtain ⟨t, n, rest, ht, rfl⟩ := hcode
    by_cases htrailing : isTrailing n = true
    · exact Or.inr (.trailing ht htrailing)
    by_cases hleading : isLeading n = true
    · by_cases hpair : ∃ t' n' rest', CodeText t' n' ∧ isTrailing n' = true ∧
          rest = Byte.backslash :: Byte.letterU :: (t' ++ rest')
      · obtain ⟨t', n', rest', ht', htrailing', rfl⟩ := hpair
        refine Or.inl ⟨Byte.letterU :: (t ++ Byte.backslash :: Byte.letterU :: t'), ofPair n n',
          rest', by simp, ?_⟩
        exact .pair ht hleading ht' htrailing' (toNat_ofPair hleading htrailing')
      · refine Or.inr (.leading ht hleading fun t' n' rest' ht' htrailing' heq => ?_)
        exact hpair ⟨t', n', rest', ht', htrailing', heq⟩
    · have hlt := ht.lt
      simp only [isLeading, isTrailing, Bool.and_eq_true, decide_eq_true_eq] at hleading htrailing
      have hn : (Char.ofNat n).toNat = n := toNat_ofNat (by omega)
      exact Or.inl ⟨Byte.letterU :: t, Char.ofNat n, rest, rfl, .code (hn.symm ▸ ht)⟩
  · refine Or.inr (.code fun t n rest ht heq => ?_)
    exact hcode ⟨t, n, rest, ht, heq⟩

/-- Quoted bytes begin with what spells a character, or with a flaw. -/
theorem QuotedBody.exists_charText_or_flaw (h : QuotedBody r) (hne : r ≠ []) :
    (∃ t c u, r ++ [Byte.quote] = t ++ u ∧ CharText t c) ∨ Flaw (r ++ [Byte.quote]) := by
  cases h with
  | nil => exact absurd rfl hne
  | @byte b r hquote hslash _ =>
    by_cases hcontrol : b < 0x20
    · exact Or.inr (.control hcontrol)
    by_cases hchar : ∃ c rest, b :: (r ++ [Byte.quote]) = String.utf8EncodeChar c ++ rest
    · obtain ⟨c, rest, heq⟩ := hchar
      cases henc : String.utf8EncodeChar c with
      | nil => exact absurd henc String.utf8EncodeChar_ne_nil
      | cons d t =>
        rw [henc] at heq
        obtain ⟨rfl, -⟩ := List.cons.inj heq
        obtain ⟨h20, hq, hs⟩ := (raw_head henc).mpr ⟨hcontrol, hquote, hslash⟩
        exact Or.inl ⟨b :: t, c, rest, heq, henc ▸ .raw h20 hq hs⟩
    · exact Or.inr (.stray fun c rest heq => hchar ⟨c, rest, heq⟩)
  | @escape b r _ =>
    by_cases hunicode : b = Byte.letterU
    · subst hunicode
      rcases exists_escapeText_or_flaw (r ++ [Byte.quote]) with ⟨t, c, u, heq, ht⟩ | hflaw
      · exact Or.inl ⟨Byte.backslash :: t, c, u, congrArg _ heq, .escape ht⟩
      · exact Or.inr hflaw
    by_cases hshort : ∃ c, (b, c) ∈ shortEscapes
    · obtain ⟨c, hc⟩ := hshort
      exact Or.inl ⟨[Byte.backslash, b], c, r ++ [Byte.quote], rfl, .escape (.short hc)⟩
    · exact Or.inr (.escape hunicode fun c hc => hshort ⟨c, hc⟩)

/-- Quoted bytes spell characters up to their end or up to a flaw. -/
theorem QuotedBody.exists_bodyText_or_flaw (h : QuotedBody r) :
    (∃ cs, BodyText r cs) ∨
      ∃ front cs q, r ++ [Byte.quote] = front ++ q ∧ BodyText front cs ∧ Flaw q := by
  -- each character takes one or more of the bytes
  induction hlength : r.length using Nat.strong_induction_on generalizing r with
  | _ length ih =>
    by_cases hne : r = []
    · exact Or.inl ⟨[], hne ▸ .nil⟩
    rcases h.exists_charText_or_flaw hne with ⟨t, c, u, heq, ht⟩ | hflaw
    · obtain ⟨r', rfl, rfl, hr'⟩ := ht.quotedBody.tail h heq.symm
      have hpos := List.length_pos_iff.mpr ht.ne_nil
      rw [List.length_append] at hlength
      rcases ih r'.length (by omega) hr' rfl with ⟨cs, hcs⟩ | ⟨front, cs, q, hq, hfront, hflaw⟩
      · exact Or.inl ⟨c :: cs, .cons ht hcs⟩
      · refine Or.inr ⟨t ++ front, c :: cs, q, ?_, .cons ht hfront, hflaw⟩
        rw [List.append_assoc, List.append_assoc, hq]
    · exact Or.inr ⟨[], [], _, rfl, .nil, hflaw⟩

theorem BodyText.not_flaw {ds : List Char} (hr : BodyText r cs) (ht : BodyText t ds)
    (heq : r ++ [Byte.quote] = t ++ q) : ¬ Flaw q := by
  induction ht generalizing r cs with
  | nil =>
    rw [List.nil_append] at heq
    subst heq
    cases hr with
    | nil => exact not_flaw_quote
    | cons hc _ =>
      rw [List.append_assoc]
      exact hc.not_flaw
  | cons hd _ ih =>
    rw [List.append_assoc] at heq
    cases hr with
    | nil =>
      obtain ⟨_, hnil, -⟩ := hd.quotedBody.tail .nil heq.symm
      exact absurd (List.append_eq_nil_iff.mp hnil.symm).1 hd.ne_nil
    | cons hc hr =>
      rw [List.append_assoc] at heq
      exact ih hr (hc.cut hd heq).2

/-- **Quoted bytes spell a text if and only if they are not flawed.** -/
theorem Quoted.exists_literalText_iff (h : Quoted d) : (∃ s, LiteralText d s) ↔ ¬ Flawed d := by
  obtain ⟨r, rfl, hr⟩ := h
  constructor
  · rintro ⟨s, r', heq, hs⟩ ⟨t, cs, q, heq', ht, hflaw⟩
    obtain rfl := List.append_cancel_right (List.cons.inj heq).2
    exact hs.not_flaw ht (List.cons.inj heq').2 hflaw
  · intro hflawed
    rcases hr.exists_bodyText_or_flaw with ⟨cs, hcs⟩ | ⟨front, cs, q, heq, hfront, hflaw⟩
    · exact ⟨String.ofList cs, r, rfl, by rwa [String.toList_ofList]⟩
    · exact absurd ⟨front, cs, q, congrArg _ heq, hfront, hflaw⟩ hflawed

end ProtectionDomain.Json.Literal
