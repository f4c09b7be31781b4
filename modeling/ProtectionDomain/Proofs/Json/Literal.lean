import ProtectionDomain.Proofs.Json.Reads

/-!
# Spellings of texts

A literal spells its text character by character: each one raw, as an escape of two characters, or
by its code in one escape or a pair of them.

* `CodeText`, `EscapeText`, `CharText`, `BodyText`, `LiteralText`: the spellings of numbers of four
  digits, of characters and of texts;
* `LiteralForm`: what looks like a literal, whether or not it spells a text;
* `readEscape_sound`, `readEscape_complete`: an escape is read as the character it spells;
* `read_sound`, `read_complete`: a literal is read as the text it spells;
* `skip_sound`, `skip_complete`: whatever looks like a literal is skipped;
* `reads_readTextFor`: the reader of texts.
-/

namespace ProtectionDomain.Json.Literal

/-! ## The grammar -/

/-- Four hexadecimal digits, and the number that they spell. -/
inductive CodeText : Bytes → Nat → Prop
  | digits {a b c d : UInt8} {i j k l : Nat} : Byte.hexValue? a = some i →
      Byte.hexValue? b = some j → Byte.hexValue? c = some k → Byte.hexValue? d = some l →
      CodeText [a, b, c, d] (4096 * i + 256 * j + 16 * k + l)

/-- What follows the backslash of an escape, and the character that it spells. -/
inductive EscapeText : Bytes → Char → Prop
  | short {b : UInt8} {c : Char} : (b, c) ∈ shortEscapes → EscapeText [b] c
  | code {t : Bytes} {c : Char} : CodeText t c.toNat → EscapeText (Byte.letterU :: t) c
  /-- Characters beyond 16 bits are spelled by two codes. -/
  | pair {t t' : Bytes} {n n' : Nat} {c : Char} : CodeText t n → isLeading n = true →
      CodeText t' n' → isTrailing n' = true →
      c.toNat = 0x10000 + 1024 * (n - 0xD800) + (n' - 0xDC00) →
      EscapeText (Byte.letterU :: (t ++ Byte.backslash :: Byte.letterU :: t')) c

/-- A spelling of a character inside a literal. -/
inductive CharText : Bytes → Char → Prop
  | raw {c : Char} : 0x20 ≤ c.toNat → c ≠ '"' → c ≠ '\\' → CharText (String.utf8EncodeChar c) c
  | escape {t : Bytes} {c : Char} : EscapeText t c → CharText (Byte.backslash :: t) c

/-- Spellings of characters, one after the other. -/
inductive BodyText : Bytes → List Char → Prop
  | nil : BodyText [] []
  | cons {t r : Bytes} {c : Char} {cs : List Char} : CharText t c → BodyText r cs →
      BodyText (t ++ r) (c :: cs)

/-- A literal that spells a text. -/
def LiteralText (t : Bytes) (s : String) : Prop :=
  ∃ r, t = Byte.quote :: (r ++ [Byte.quote]) ∧ BodyText r s.toList

/-- What looks like a part of a literal. The bytes need form no character, and codes no pairs. -/
inductive PieceForm : Bytes → Prop
  | raw {b : UInt8} : 0x20 ≤ b → b ≠ Byte.quote → b ≠ Byte.backslash → PieceForm [b]
  | short {b : UInt8} {c : Char} : (b, c) ∈ shortEscapes → PieceForm [Byte.backslash, b]
  | code {t : Bytes} {n : Nat} : CodeText t n → PieceForm (Byte.backslash :: Byte.letterU :: t)

/-- What looks like the inside of a literal. -/
inductive BodyForm : Bytes → Prop
  | nil : BodyForm []
  | cons {t r : Bytes} : PieceForm t → BodyForm r → BodyForm (t ++ r)

/-- What looks like a literal. -/
def LiteralForm (t : Bytes) : Prop := ∃ r, t = Byte.quote :: (r ++ [Byte.quote]) ∧ BodyForm r

/-! ## Escapes -/

theorem hexValue?_lt {b : UInt8} {n : Nat} (h : Byte.hexValue? b = some n) : n < 16 := by
  unfold Byte.hexValue? Text.hexValue? at h
  simp only [Char.le_def, UInt32.le_iff_toNat_le] at h
  split at h
  · next hc =>
    cases h
    have : ('9' : Char).val.toNat = 57 := rfl
    have : (Char.ofUInt8 b).toNat = (Char.ofUInt8 b).val.toNat := rfl
    omega
  · split at h
    · next hc =>
      cases h
      have : ('f' : Char).val.toNat = 102 := rfl
      have : (Char.ofUInt8 b).toNat = (Char.ofUInt8 b).val.toNat := rfl
      omega
    · split at h
      · next hc =>
        cases h
        have : ('F' : Char).val.toNat = 70 := rfl
        have : (Char.ofUInt8 b).toNat = (Char.ofUInt8 b).val.toNat := rfl
        omega
      · contradiction

theorem CodeText.lt {t : Bytes} {n : Nat} (h : CodeText t n) : n < 0x10000 := by
  obtain ⟨ha, hb, hc, hd⟩ := h
  have := hexValue?_lt ha
  have := hexValue?_lt hb
  have := hexValue?_lt hc
  have := hexValue?_lt hd
  omega

theorem readCode_sound {bs rest : Bytes} {n : Nat} (h : readCode bs = .ok (n, rest)) :
    ∃ t, bs = t ++ rest ∧ CodeText t n := by
  unfold readCode at h
  split at h
  · next a b c d bs =>
    split at h
    · next i j k l ha hb hc hd =>
      cases h
      exact ⟨[a, b, c, d], rfl, .digits ha hb hc hd⟩
    · contradiction
  · contradiction

theorem readCode_complete {t : Bytes} {n : Nat} (h : CodeText t n) (rest : Bytes) :
    readCode (t ++ rest) = .ok (n, rest) := by
  obtain ⟨ha, hb, hc, hd⟩ := h
  simp [readCode, ha, hb, hc, hd]

theorem shortEscape?_eq_some {b : UInt8} {c : Char} :
    shortEscape? b = some c ↔ (b, c) ∈ shortEscapes := by
  constructor
  · intro h
    obtain ⟨before, after, heq, -⟩ := List.lookup_eq_some_iff.mp h
    rw [heq]
    simp
  · intro h
    simp only [shortEscapes, List.mem_cons, Prod.mk.injEq, List.not_mem_nil, or_false] at h
    rcases h with ⟨rfl, rfl⟩ | ⟨rfl, rfl⟩ | ⟨rfl, rfl⟩ | ⟨rfl, rfl⟩ | ⟨rfl, rfl⟩ | ⟨rfl, rfl⟩ |
      ⟨rfl, rfl⟩ | ⟨rfl, rfl⟩ <;> rfl

theorem letterU_notMem_shortEscapes {c : Char} : (Byte.letterU, c) ∉ shortEscapes := by
  rw [← shortEscape?_eq_some]
  exact fun h => nomatch h

theorem toNat_ofNat {n : Nat} (h : n < 0xD800 ∨ 0xDFFF < n ∧ n < 0x110000) :
    (Char.ofNat n).toNat = n := by
  rw [Char.ofNat, dif_pos h]
  rfl

theorem toNat_ofPair {n n' : Nat} (h : isLeading n = true) (h' : isTrailing n' = true) :
    (ofPair n n').toNat = 0x10000 + 1024 * (n - 0xD800) + (n' - 0xDC00) := by
  simp only [isLeading, isTrailing, Bool.and_eq_true, decide_eq_true_eq] at h h'
  exact toNat_ofNat (Or.inr (by omega))

theorem readTrailing_sound {n : Nat} {bs rest : Bytes} {c : Char}
    (h : readTrailing n bs = .ok (c, rest)) :
    ∃ t n', bs = Byte.backslash :: Byte.letterU :: (t ++ rest) ∧ CodeText t n' ∧
      isTrailing n' = true ∧ c = ofPair n n' := by
  unfold readTrailing at h
  split at h
  · contradiction
  · contradiction
  · next a b bs =>
    split at h
    · next hab =>
      obtain ⟨⟨n', rest'⟩, hcode, hif⟩ := bind_eq_ok.mp h
      obtain ⟨t, rfl, ht⟩ := readCode_sound hcode
      simp only at hif
      split at hif
      · next htrailing =>
        simp only [pure_eq_ok, Prod.mk.injEq] at hif
        obtain ⟨rfl, rfl⟩ := hif
        exact ⟨t, n', by rw [hab.1, hab.2], ht, htrailing, rfl⟩
      · contradiction
    · contradiction

theorem readTrailing_complete {n n' : Nat} {t : Bytes} (ht : CodeText t n')
    (h : isTrailing n' = true) (rest : Bytes) :
    readTrailing n (Byte.backslash :: Byte.letterU :: (t ++ rest)) = .ok (ofPair n n', rest) := by
  rw [readTrailing]
  simp [readCode_complete ht, bind, Except.bind, pure, Except.pure, h]

theorem readUnicode_sound {bs rest : Bytes} {c : Char} (h : readUnicode bs = .ok (c, rest)) :
    ∃ t, bs = t ++ rest ∧ EscapeText (Byte.letterU :: t) c := by
  obtain ⟨⟨n, rest'⟩, hcode, hif⟩ := bind_eq_ok.mp h
  obtain ⟨t, rfl, ht⟩ := readCode_sound hcode
  simp only at hif
  split at hif
  · contradiction
  · next hn =>
    split at hif
    · next hleading =>
      obtain ⟨t', n', rfl, ht', htrailing, hc⟩ := readTrailing_sound hif
      refine ⟨t ++ Byte.backslash :: Byte.letterU :: t', by simp,
        .pair ht hleading ht' htrailing ?_⟩
      rw [hc, toNat_ofPair hleading htrailing]
    · next hleading =>
      cases hif
      have hlt := ht.lt
      simp only [isLeading, isTrailing, Bool.and_eq_true, decide_eq_true_eq] at hn hleading
      have hcode : (Char.ofNat n).toNat = n := toNat_ofNat (by omega)
      exact ⟨t, rfl, .code (hcode.symm ▸ ht)⟩

theorem not_surrogate (c : Char) : isLeading c.toNat = false ∧ isTrailing c.toNat = false := by
  have hvalid : c.toNat < 0xD800 ∨ 0xDFFF < c.toNat ∧ c.toNat < 0x110000 := c.valid
  simp only [isLeading, isTrailing, Bool.and_eq_false_iff, decide_eq_false_iff_not]
  omega

theorem readUnicode_complete {t : Bytes} {c : Char} (h : EscapeText (Byte.letterU :: t) c)
    (rest : Bytes) : readUnicode (t ++ rest) = .ok (c, rest) := by
  cases h with
  | short h => exact absurd h letterU_notMem_shortEscapes
  | code h =>
    rw [readUnicode, readCode_complete h]
    simp [bind, Except.bind, pure, Except.pure, not_surrogate c]
  | @pair t t' n n' c h hleading h' htrailing hc =>
    have hn : isTrailing n = false := by
      simp only [isLeading, isTrailing, Bool.and_eq_true, decide_eq_true_eq,
        Bool.and_eq_false_iff, decide_eq_false_iff_not] at hleading ⊢
      omega
    have hpair : ofPair n n' = c :=
      Char.toNat_inj.mp ((toNat_ofPair hleading htrailing).trans hc.symm)
    rw [readUnicode, List.append_assoc, readCode_complete h]
    simp only [bind, Except.bind, hn, hleading, if_true, List.cons_append, Bool.false_eq_true,
      if_false]
    rw [readTrailing_complete h' htrailing, hpair]

theorem readEscape_sound {bs rest : Bytes} {c : Char} (h : readEscape bs = .ok (c, rest)) :
    ∃ t, bs = t ++ rest ∧ EscapeText t c := by
  unfold readEscape at h
  split at h
  · contradiction
  · next b bs =>
    split at h
    · next hb =>
      obtain ⟨t, rfl, ht⟩ := readUnicode_sound h
      exact ⟨Byte.letterU :: t, by rw [hb]; rfl, ht⟩
    · split at h
      · next c' hc =>
        cases h
        exact ⟨[b], rfl, .short (shortEscape?_eq_some.mp hc)⟩
      · contradiction

theorem readEscape_complete {t : Bytes} {c : Char} (h : EscapeText t c) (rest : Bytes) :
    readEscape (t ++ rest) = .ok (c, rest) := by
  have hunicode : ∀ t', t = Byte.letterU :: t' → readEscape (t ++ rest) = .ok (c, rest) := by
    rintro t' rfl
    rw [List.cons_append, readEscape, if_pos rfl, readUnicode_complete h]
  cases h with
  | @short b c hmem =>
    have hb : b ≠ Byte.letterU := fun hb => letterU_notMem_shortEscapes (hb ▸ hmem)
    simp [readEscape, hb, shortEscape?_eq_some.mpr hmem]
  | code => exact hunicode _ rfl
  | pair => exact hunicode _ rfl

/-! ## Reading -/

/-- The first byte of a character that may stand raw in a literal. -/
theorem raw_head {c : Char} {b : UInt8} {t : Bytes} (h : String.utf8EncodeChar c = b :: t) :
    (0x20 ≤ c.toNat ∧ c ≠ '"' ∧ c ≠ '\\') ↔
      (¬ b < 0x20 ∧ b ≠ Byte.quote ∧ b ≠ Byte.backslash) := by
  have hquote : c = '"' ↔ c.toNat = 0x22 := Char.toNat_inj.symm
  have hslash : c = '\\' ↔ c.toNat = 0x5C := Char.toNat_inj.symm
  rw [UInt8.lt_iff_toNat_lt, ne_eq, ne_eq, ne_eq, ne_eq, hquote, hslash, ← UInt8.toNat_inj,
    ← UInt8.toNat_inj]
  have h20 : (0x20 : UInt8).toNat = 0x20 := rfl
  have h22 : Byte.quote.toNat = 0x22 := rfl
  have h5C : Byte.backslash.toNat = 0x5C := rfl
  by_cases hc : c.toNat < 0x80
  · rw [Bytes.utf8EncodeChar_of_lt hc] at h
    obtain ⟨hb, -⟩ := List.cons.inj h
    have : b.toNat = c.toNat := by rw [← hb, UInt8.toNat_ofNat']; omega
    omega
  · have := Bytes.le_of_mem_utf8EncodeChar (Nat.not_lt.mp hc) (h ▸ List.mem_cons_self)
    omega

theorem next_close {bs rest : Bytes} (h : next bs = .ok (.close rest)) :
    bs = Byte.quote :: rest := by
  unfold next at h
  split at h
  · contradiction
  · next b bs =>
    split at h
    · next hb =>
      cases h
      rw [hb]
    · split at h
      · obtain ⟨_, -, h⟩ := map_eq_ok.mp h
        contradiction
      · split at h
        · contradiction
        · split at h <;> cases h

theorem next_char_sound {bs rest : Bytes} {c : Char} (h : next bs = .ok (.char c rest)) :
    ∃ t, bs = t ++ rest ∧ CharText t c := by
  unfold next at h
  split at h
  · contradiction
  · next b bs =>
    split at h
    · cases h
    · next hquote =>
      split at h
      · next hslash =>
        obtain ⟨⟨c', rest'⟩, hescape, h⟩ := map_eq_ok.mp h
        cases h
        obtain ⟨t, rfl, ht⟩ := readEscape_sound hescape
        exact ⟨Byte.backslash :: t, by rw [hslash]; rfl, .escape ht⟩
      · next hslash =>
        split at h
        · contradiction
        · next hcontrol =>
          split at h
          · next c' rest' hchar =>
            cases h
            have hbs := Bytes.eq_append_of_nextChar? hchar
            refine ⟨String.utf8EncodeChar c, hbs, ?_⟩
            cases henc : String.utf8EncodeChar c with
            | nil => exact absurd henc String.utf8EncodeChar_ne_nil
            | cons d t =>
              rw [henc] at hbs
              obtain ⟨rfl, -⟩ := List.cons.inj hbs
              obtain ⟨h20, hq, hs⟩ := (raw_head henc).mpr ⟨hcontrol, hquote, hslash⟩
              exact henc ▸ .raw h20 hq hs
          · cases h

theorem next_char_complete {t : Bytes} {c : Char} (h : CharText t c) (rest : Bytes) :
    next (t ++ rest) = .ok (.char c rest) := by
  cases h with
  | raw h20 hq hs =>
    have hchar := Bytes.nextChar?_append c rest
    cases henc : String.utf8EncodeChar c with
    | nil => exact absurd henc String.utf8EncodeChar_ne_nil
    | cons b t =>
      obtain ⟨hcontrol, hquote, hslash⟩ := (raw_head henc).mp ⟨h20, hq, hs⟩
      rw [henc, List.cons_append] at hchar
      simp [next, hcontrol, hquote, hslash, hchar]
  | @escape t c ht =>
    have hslash : Byte.backslash ≠ Byte.quote := by decide
    rw [List.cons_append, next, if_neg hslash, if_pos rfl, readEscape_complete ht]
    rfl

theorem CharText.ne_nil {t : Bytes} {c : Char} (h : CharText t c) : t ≠ [] := by
  cases h with
  | raw => exact String.utf8EncodeChar_ne_nil
  | escape => exact List.cons_ne_nil _ _

theorem readPieces_sound {bound bs rest : Bytes} {cs : List Char}
    (h : readPieces bound bs = .ok (some cs, rest)) :
    ∃ r, bs = r ++ Byte.quote :: rest ∧ BodyText r cs := by
  induction bound generalizing bs cs rest with
  | nil => contradiction
  | cons _ bound ih =>
    obtain ⟨piece, hnext, h⟩ := bind_eq_ok.mp h
    cases piece with
    | close rest' =>
      cases h
      exact ⟨[], next_close hnext, .nil⟩
    | char c rest' =>
      obtain ⟨⟨cs?, rest''⟩, hread, h⟩ := bind_eq_ok.mp h
      simp only [pure_eq_ok, Prod.mk.injEq, Option.map_eq_some_iff] at h
      obtain ⟨⟨cs', rfl, rfl⟩, rfl⟩ := h
      obtain ⟨t, rfl, ht⟩ := next_char_sound hnext
      obtain ⟨r, rfl, hr⟩ := ih hread
      exact ⟨t ++ r, by rw [List.append_assoc], .cons ht hr⟩
    | stray rest' =>
      obtain ⟨_, -, h⟩ := bind_eq_ok.mp h
      simp [pure, Except.pure] at h

theorem readPieces_complete {bound r rest : Bytes} {cs : List Char} (h : BodyText r cs)
    (hbound : r.length < bound.length) :
    readPieces bound (r ++ Byte.quote :: rest) = .ok (some cs, rest) := by
  induction h generalizing bound with
  | nil =>
    cases bound with
    | nil => contradiction
    | cons _ bound => rfl
  | @cons t r c cs ht _ ih =>
    cases bound with
    | nil => contradiction
    | cons _ bound =>
      have hpos := List.length_pos_iff.mpr ht.ne_nil
      rw [List.length_append, List.length_cons] at hbound
      rw [readPieces, List.append_assoc, next_char_complete ht]
      simp [bind, Except.bind, ih (show r.length < bound.length by omega), pure, Except.pure]

theorem read_sound {bs rest : Bytes} {s : String} (h : read bs = .ok (s, rest)) :
    ∃ r, bs = r ++ Byte.quote :: rest ∧ BodyText r s.toList := by
  obtain ⟨⟨cs?, rest'⟩, hread, h⟩ := bind_eq_ok.mp h
  cases cs? with
  | none => contradiction
  | some cs =>
    simp only [pure_eq_ok, Prod.mk.injEq] at h
    obtain ⟨rfl, rfl⟩ := h
    rw [String.toList_ofList]
    exact readPieces_sound hread

theorem read_complete {r : Bytes} {s : String} (h : BodyText r s.toList) (rest : Bytes) :
    read (r ++ Byte.quote :: rest) = .ok (s, rest) := by
  rw [read, readPieces_complete h (by simp)]
  simp [bind, Except.bind, pure, Except.pure]

/-! ## Skipping -/

theorem skipEscape_sound {bs rest : Bytes} (h : skipEscape bs = .ok rest) :
    ∃ t, bs = t ++ rest ∧ PieceForm (Byte.backslash :: t) := by
  unfold skipEscape at h
  split at h
  · contradiction
  · next b bs =>
    split at h
    · next hb =>
      obtain ⟨⟨n, rest'⟩, hcode, rfl⟩ := map_eq_ok.mp h
      obtain ⟨t, rfl, ht⟩ := readCode_sound hcode
      exact ⟨Byte.letterU :: t, by rw [hb]; rfl, .code ht⟩
    · split at h
      · next hshort =>
        cases h
        obtain ⟨c, hc⟩ := Option.isSome_iff_exists.mp hshort
        exact ⟨[b], rfl, .short (shortEscape?_eq_some.mp hc)⟩
      · contradiction

theorem skipPieces_sound {bound bs rest : Bytes} (h : skipPieces bound bs = .ok rest) :
    ∃ r, bs = r ++ Byte.quote :: rest ∧ BodyForm r := by
  induction bound generalizing bs with
  | nil =>
    unfold skipPieces at h
    contradiction
  | cons _ bound ih =>
    cases bs with
    | nil =>
      unfold skipPieces at h
      contradiction
    | cons b bs =>
      rw [skipPieces] at h
      split at h
      · next hb =>
        cases h
        exact ⟨[], by rw [hb]; rfl, .nil⟩
      · next hquote =>
        split at h
        · next hb =>
          cases hskip : skipEscape bs with
          | error e => rw [hskip] at h; contradiction
          | ok rest' =>
            rw [hskip] at h
            obtain ⟨t, rfl, ht⟩ := skipEscape_sound hskip
            obtain ⟨r, rfl, hr⟩ := ih h
            exact ⟨Byte.backslash :: t ++ r, by simp [hb], .cons ht hr⟩
        · next hslash =>
          split at h
          · contradiction
          · next hcontrol =>
            obtain ⟨r, rfl, hr⟩ := ih h
            exact ⟨[b] ++ r, rfl, .cons (.raw (UInt8.not_lt.mp hcontrol) hquote hslash) hr⟩

theorem skipPieces_complete {bound r rest : Bytes} (h : BodyForm r)
    (hbound : r.length < bound.length) :
    skipPieces bound (r ++ Byte.quote :: rest) = .ok rest := by
  have hslash : Byte.backslash ≠ Byte.quote := by decide
  induction h generalizing bound with
  | nil =>
    cases bound with
    | nil => contradiction
    | cons _ bound => simp [skipPieces]
  | @cons t r ht _ ih =>
    cases bound with
    | nil => contradiction
    | cons _ bound =>
      rw [List.length_append, List.length_cons] at hbound
      rw [List.append_assoc]
      cases ht with
      | raw h20 hq hs =>
        rw [List.cons_append, skipPieces, if_neg hq, if_neg hs, if_neg (UInt8.not_lt.mpr h20)]
        refine ih ?_
        simp only [List.length_cons, List.length_nil] at hbound
        omega
      | @short b c hmem =>
        have hb : b ≠ Byte.letterU := fun hb => letterU_notMem_shortEscapes (hb ▸ hmem)
        simp only [List.cons_append, List.nil_append, skipPieces, hslash, if_false, if_true,
          skipEscape, hb, shortEscape?_eq_some.mpr hmem, Option.isSome_some, Except.bind]
        refine ih ?_
        simp only [List.length_cons, List.length_nil] at hbound
        omega
      | code hcode =>
        simp only [List.cons_append, skipPieces, hslash, if_false, if_true, skipEscape,
          readCode_complete hcode, Except.map, Except.bind]
        refine ih ?_
        simp only [List.length_cons] at hbound
        omega

theorem skip_sound {bs rest : Bytes} (h : skip bs = .ok rest) :
    ∃ r, bs = r ++ Byte.quote :: rest ∧ BodyForm r := skipPieces_sound h

theorem skip_complete {r : Bytes} (h : BodyForm r) (rest : Bytes) :
    skip (r ++ Byte.quote :: rest) = .ok rest := skipPieces_complete h (by simp)

/-! ## The reader of texts -/

theorem LiteralText.solid {t : Bytes} {s : String} (h : LiteralText t s) : Solid t := by
  obtain ⟨r, rfl, -⟩ := h
  exact ⟨Byte.quote, _, rfl, rfl, by decide⟩

/-- A text is read from its spellings. -/
theorem reads_readTextFor (expected : Expected) : Reads (readTextFor expected) LiteralText where
  sound {bs rest s} h := by
    unfold readTextFor at h
    split at h
    · contradiction
    · next b bs' hskip =>
      obtain ⟨w, rfl, hw, -⟩ := eq_append_of_skipBlanks hskip
      split at h
      · next hb =>
        obtain ⟨r, rfl, hr⟩ := read_sound h
        exact ⟨w, Byte.quote :: (r ++ [Byte.quote]), by simp [hb], hw, r, rfl, hr⟩
      · contradiction
  complete {w t rest s} hw ht hrest := by
    obtain ⟨r, rfl, hr⟩ := ht
    rw [readTextFor, List.cons_append, skipBlanks_append_cons hw rfl, List.append_assoc]
    exact read_complete hr rest
  solid := LiteralText.solid

end ProtectionDomain.Json.Literal
