import ProtectionDomain.Proofs.Json.Literal

/-!
# Spellings of flags, ids and null

* `scanLetters_eq_ok`, `keyword?_sound`, `keyword?_complete`: keywords;
* `FlagText`, `NullText`, `UuidText`, `OptionalText`: the grammars;
* `reads_readFlag`, `reads_readNullFor`, `reads_readUuid`, `reads_readOptional`: the readers.
-/

namespace ProtectionDomain.Json

/-! ## Keywords -/

theorem scanLetters_eq_ok {letters bs rest : Bytes} :
    scanLetters letters bs = .ok rest ↔ bs = letters ++ rest := by
  induction letters generalizing bs with
  | nil => simp [scanLetters]
  | cons l letters ih =>
    cases bs with
    | nil => simp [scanLetters]
    | cons b bs =>
      rw [scanLetters, List.cons_append, List.cons.injEq]
      split
      · next hb => rw [ih, and_iff_right hb]
      · next hb => simp [hb]

/-- The first letter of `null`. -/
abbrev Byte.letterN : UInt8 := 0x6E

/-- The keywords, each with what it stands for. -/
inductive KeywordText : Bytes → Found → Prop
  | null : KeywordText (Bytes.ofString "null") .null
  | true : KeywordText (Bytes.ofString "true") (.flag true)
  | false : KeywordText (Bytes.ofString "false") (.flag false)

theorem keyword?_sound {b : UInt8} {letters : Bytes} {found : Found}
    (h : keyword? b = some (letters, found)) : KeywordText (b :: letters) found := by
  unfold keyword? at h
  split at h
  · next hb =>
    simp only [Option.some.injEq, Prod.mk.injEq] at h
    obtain ⟨rfl, rfl⟩ := h
    exact hb ▸ .null
  · split at h
    · next hb =>
      simp only [Option.some.injEq, Prod.mk.injEq] at h
      obtain ⟨rfl, rfl⟩ := h
      exact hb ▸ .true
    · split at h
      · next hb =>
        simp only [Option.some.injEq, Prod.mk.injEq] at h
        obtain ⟨rfl, rfl⟩ := h
        exact hb ▸ .false
      · contradiction

theorem keyword?_complete {t : Bytes} {found : Found} (h : KeywordText t found) :
    ∃ b letters, t = b :: letters ∧ keyword? b = some (letters, found) ∧
      Byte.isBlank b = false ∧ b ≠ Byte.closeBracket := by
  cases h with
  | null => exact ⟨0x6E, Bytes.ofString "ull", rfl, rfl, rfl, by decide⟩
  | true => exact ⟨0x74, Bytes.ofString "rue", rfl, rfl, rfl, by decide⟩
  | false => exact ⟨0x66, Bytes.ofString "alse", rfl, rfl, rfl, by decide⟩

theorem KeywordText.solid {t : Bytes} {found : Found} (h : KeywordText t found) : Solid t := by
  obtain ⟨b, letters, heq, -, hblank, hclose⟩ := keyword?_complete h
  exact ⟨b, letters, heq, hblank, hclose⟩

/-! ## Flags -/

/-- The spelling of a flag. -/
def FlagText (t : Bytes) (v : Bool) : Prop := KeywordText t (.flag v)

theorem reads_readFlag : Reads readFlag FlagText where
  sound {bs rest v} h := by
    unfold readFlag at h
    split at h
    · contradiction
    · next b bs' hskip =>
      obtain ⟨w, rfl, hw, -⟩ := eq_append_of_skipBlanks hskip
      split at h
      · next letters flag hkey =>
        obtain ⟨rest', hscan, h⟩ := map_eq_ok.mp h
        obtain ⟨rfl, rfl⟩ := Prod.mk.inj h
        refine ⟨w, b :: letters, ?_, hw, keyword?_sound hkey⟩
        rw [scanLetters_eq_ok.mp hscan, List.cons_append]
      · contradiction
  complete {w t rest v} hw ht _ := by
    obtain ⟨b, letters, rfl, hkey, hblank, -⟩ := keyword?_complete ht
    rw [readFlag, List.cons_append, skipBlanks_append_cons hw hblank]
    simp only [hkey, scanLetters_eq_ok.mpr rfl]
    rfl
  solid ht := ht.solid

/-! ## Null -/

/-- The spelling of nothing. -/
def NullText (t : Bytes) : Prop := KeywordText t .null

theorem nullText_iff {t : Bytes} : NullText t ↔ t = Bytes.ofString "null" :=
  ⟨fun h => by cases h; rfl, fun h => h ▸ .null⟩

theorem reads_readNullFor (expected : Expected) :
    Reads (readNullFor expected) fun t _ => NullText t where
  sound {bs rest v} h := by
    unfold readNullFor at h
    split at h
    · contradiction
    · next b bs' hskip =>
      obtain ⟨w, rfl, hw, -⟩ := eq_append_of_skipBlanks hskip
      split at h
      · next letters hkey =>
        obtain ⟨rest', hscan, h⟩ := map_eq_ok.mp h
        obtain ⟨-, rfl⟩ := Prod.mk.inj h
        refine ⟨w, b :: letters, ?_, hw, keyword?_sound hkey⟩
        rw [scanLetters_eq_ok.mp hscan, List.cons_append]
      · contradiction
  complete {w t rest v} hw ht _ := by
    obtain ⟨b, letters, rfl, hkey, hblank, -⟩ := keyword?_complete ht
    rw [readNullFor, List.cons_append, skipBlanks_append_cons hw hblank]
    simp only [hkey, scanLetters_eq_ok.mpr rfl]
    rfl
  solid ht := ht.solid

/-- The spellings of a value or of nothing. What begins like `null` is nothing. -/
def OptionalText {α : Type} (Denotes : Bytes → α → Prop) (t : Bytes) : Option α → Prop
  | none => NullText t
  | some x => Denotes t x ∧ t.head? ≠ some Byte.letterN

theorem keyword?_eq_null {b : UInt8} :
    (∃ letters, keyword? b = some (letters, .null)) ↔ b = Byte.letterN := by
  constructor
  · rintro ⟨letters, h⟩
    have hnull := nullText_iff.mp (keyword?_sound h)
    exact (List.cons.inj hnull).1
  · rintro rfl
    exact ⟨_, rfl⟩

theorem reads_readOptional {α : Type} {read : Reader α} {Denotes : Bytes → α → Prop}
    (h : Reads read Denotes) : Reads (readOptional read) (OptionalText Denotes) where
  sound {bs rest v} hread := by
    unfold readOptional at hread
    split at hread
    · next letters hkey =>
      obtain ⟨w, t, hbs, hw, x, ht, rfl⟩ :=
        ((reads_readNullFor .unit).map fun _ => (none : Option α)).sound hread
      exact ⟨w, t, hbs, hw, ht⟩
    · next hkey =>
      obtain ⟨w, t, rfl, hw, x, ht, rfl⟩ := (h.map some).sound hread
      refine ⟨w, t, rfl, hw, ht, ?_⟩
      obtain ⟨b, t', rfl, hblank, -⟩ := h.solid ht
      rw [List.cons_append, skipBlanks_append_cons hw hblank] at hkey
      intro hb
      obtain ⟨letters, hnull⟩ := keyword?_eq_null.mpr (Option.some.inj hb)
      exact hkey letters hnull
  complete {w t rest v} hw ht hrest := by
    cases v with
    | none =>
      obtain ⟨b, letters, rfl, hkey, hblank, -⟩ := keyword?_complete ht
      have hnone := ((reads_readNullFor .unit).map fun _ => (none : Option α)).complete hw
        ⟨(), ht, rfl⟩ hrest
      rw [readOptional, List.cons_append, skipBlanks_append_cons hw hblank]
      simp only [List.head?_cons, Option.bind_some, hkey]
      exact hnone
    | some x =>
      obtain ⟨ht, hhead⟩ := ht
      obtain ⟨b, t', rfl, hblank, -⟩ := h.solid ht
      have hsome := (h.map some).complete hw ⟨x, ht, rfl⟩ hrest
      rw [readOptional, List.cons_append, skipBlanks_append_cons hw hblank]
      split
      · next letters hkey =>
        have hb := keyword?_eq_null.mp ⟨letters, hkey⟩
        exact absurd (congrArg some hb) hhead
      · exact hsome
  solid {t v} ht := by
    cases v with
    | none => exact KeywordText.solid ht
    | some x => exact h.solid ht.1

/-! ## Ids -/

/-- The spellings of an id: those of its texts. -/
def UuidText (t : Bytes) (u : Uuid) : Prop :=
  ∃ s, Literal.LiteralText t s ∧ Uuid.read? s.toList = some u

theorem Uuid.ofText_eq_ok {s : String} {u : Uuid} :
    Uuid.ofText s = .ok u ↔ Uuid.read? s.toList = some u := by
  unfold Uuid.ofText
  split
  · next v hv => simp [hv]
  · next hv => simp [hv]

theorem reads_readUuid : Reads readUuid UuidText where
  sound {bs rest u} h := by
    obtain ⟨⟨s, rest'⟩, hread, h⟩ := bind_eq_ok.mp h
    obtain ⟨w, t, hbs, hw, ht⟩ := (Literal.reads_readTextFor .uuid).sound hread
    cases hs : Uuid.ofText s with
    | ok v =>
      simp only [hs, pure_eq_ok, Prod.mk.injEq] at h
      obtain ⟨rfl, rfl⟩ := h
      exact ⟨w, t, hbs, hw, s, ht, Uuid.ofText_eq_ok.mp hs⟩
    | error complaint =>
      simp only [hs] at h
      contradiction
  complete {w t rest u} hw ht hrest := by
    obtain ⟨s, ht, hs⟩ := ht
    rw [readUuid, (Literal.reads_readTextFor .uuid).complete hw ht hrest]
    simp only [bind, Except.bind, Uuid.ofText_eq_ok.mpr hs]
    rfl
  solid ht := by
    obtain ⟨s, ht, -⟩ := ht
    exact ht.solid

end ProtectionDomain.Json
