import Mathlib.Data.List.DropRight
import ProtectionDomain.Proofs.Json.WellFormed

/-!
# Blanks around texts, and marks inside them

* `trimEnd`, `trim`: bytes without the blanks behind or around them; `trimEnd_append_blanks`,
  `trim_append_blanks`: further blanks do not matter; `trim_append`: what is left of a text;
* `Trimmed`: no blanks at either end; `Trimmed.unique`: between blanks stands one text;
  `WellFormed.trimmed`: values are trimmed;
* `isMark`, `Plain`: the signs around values, and bytes without any; `Plain.append_cons_inj`: bytes
  are cut at their first mark in one way;
* `IsWord`: bytes of keywords and numerals; `WellFormed.isWord_or_ends`: a value is a word, or
  begins and ends with a mark.
-/

namespace ProtectionDomain.Json

variable {bs t t' w w' : Bytes}

/-! ## Trimming -/

/-- Bytes without the blanks behind them. -/
def trimEnd (bs : Bytes) : Bytes := bs.rdropWhile Byte.isBlank

/-- Bytes without the blanks around them. -/
def trim (bs : Bytes) : Bytes := trimEnd (skipBlanks bs)

/-- The text begins and ends with bytes that are no blanks. -/
def Trimmed (t : Bytes) : Prop :=
  (∃ b rest, t = b :: rest ∧ Byte.isBlank b = false) ∧
    ∃ front b, t = front ++ [b] ∧ Byte.isBlank b = false

variable (bs) in
theorem exists_eq_trimEnd_append : ∃ w, Blanks w ∧ bs = trimEnd bs ++ w :=
  ⟨bs.rtakeWhile Byte.isBlank, fun _ hb => List.mem_rtakeWhile_imp hb,
    List.rdropWhile_append_rtakeWhile.symm⟩

variable (bs) in
theorem exists_eq_append_trim : ∃ w w', Blanks w ∧ Blanks w' ∧ bs = w ++ (trim bs ++ w') := by
  obtain ⟨w', hw', htrim⟩ := exists_eq_trimEnd_append (skipBlanks bs)
  refine ⟨bs.takeWhile Byte.isBlank, w', fun _ hb => List.mem_takeWhile_imp hb, hw', ?_⟩
  rw [trim, ← htrim, skipBlanks, List.takeWhile_append_dropWhile]

theorem trimEnd_append_blanks (hw : Blanks w) : trimEnd (bs ++ w) = trimEnd bs := by
  induction w using List.reverseRecOn with
  | nil => rw [List.append_nil]
  | append_singleton w b ih =>
    have hb := hw b (by simp)
    rw [← List.append_assoc, trimEnd, List.rdropWhile_concat_pos _ _ _ hb]
    exact ih fun c hc => hw c (List.mem_append_left _ hc)

theorem trim_append_blanks (hw : Blanks w) (hw' : Blanks w') :
    trim (w ++ (bs ++ w')) = trim bs := by
  rw [trim, skipBlanks_append hw, trim]
  cases hskip : skipBlanks bs with
  | nil =>
    have hbs := skipBlanks_eq_nil.mp hskip
    rw [skipBlanks_append hbs, skipBlanks_eq_nil.mpr hw']
  | cons b rest =>
    obtain ⟨v, rfl, hv, hb⟩ := eq_append_of_skipBlanks hskip
    rw [List.append_assoc, List.cons_append, skipBlanks_append_cons hv hb, ← List.cons_append]
    exact trimEnd_append_blanks hw'

theorem Trimmed.trimEnd_eq (ht : Trimmed t) : trimEnd (bs ++ t) = bs ++ t := by
  obtain ⟨-, front, b, rfl, hb⟩ := ht
  rw [← List.append_assoc, trimEnd, List.rdropWhile_concat_neg _ _ _ (by simp [hb])]

theorem Trimmed.trim_eq (ht : Trimmed t) : trim t = t := by
  obtain ⟨⟨b, rest, hcons, hb⟩, -⟩ := id ht
  have hskip : skipBlanks t = t := by rw [hcons, skipBlanks_cons hb]
  rw [trim, hskip, ← List.nil_append t, ht.trimEnd_eq]

theorem trim_append (ht : Trimmed t) (hw : Blanks w) (hw' : Blanks w') :
    trim (w ++ (t ++ w')) = t := by
  rw [trim_append_blanks hw hw', ht.trim_eq]

theorem Trimmed.unique {v v' : Bytes} (ht : Trimmed t) (ht' : Trimmed t') (hw : Blanks w)
    (hw' : Blanks w') (hv : Blanks v) (hv' : Blanks v')
    (heq : w ++ (t ++ w') = v ++ (t' ++ v')) : t = t' := by
  rw [← trim_append ht hw hw', heq, trim_append ht' hv hv']

theorem trimmed_of_ends {b c : UInt8} (hb : Byte.isBlank b = false) (hc : Byte.isBlank c = false) :
    Trimmed (b :: (t ++ [c])) :=
  ⟨⟨b, _, rfl, hb⟩, b :: t, c, rfl, hc⟩

theorem trimmed_of_forall (hne : t ≠ []) (h : ∀ b ∈ t, Byte.isBlank b = false) : Trimmed t := by
  constructor
  · obtain ⟨b, rest, rfl⟩ := List.exists_cons_of_ne_nil hne
    exact ⟨b, rest, rfl, h b List.mem_cons_self⟩
  · obtain ⟨front, b, rfl⟩ := List.eq_nil_or_concat' t |>.resolve_left hne
    exact ⟨front, b, rfl, h b (by simp)⟩

/-! ## Marks -/

/-- The signs around values and their parts. -/
def isMark (b : UInt8) : Bool :=
  b == Byte.comma || b == Byte.colon || b == Byte.quote || b == Byte.openBracket ||
    b == Byte.closeBracket || b == Byte.openBrace || b == Byte.closeBrace

/-- Bytes without a mark. -/
def Plain (bs : Bytes) : Prop := ∀ b ∈ bs, isMark b = false

instance : DecidablePred Plain := List.decidableBAll (isMark · = false)

theorem isMark_of_isBlank {b : UInt8} (h : Byte.isBlank b = true) : isMark b = false := by
  simp only [Byte.isBlank, Bool.or_eq_true, beq_iff_eq] at h
  rcases h with ((rfl | rfl) | rfl) | rfl <;> rfl

theorem Blanks.plain (h : Blanks w) : Plain w := fun b hb => isMark_of_isBlank (h b hb)

theorem Plain.append {a b : Bytes} (ha : Plain a) (hb : Plain b) : Plain (a ++ b) := by
  intro c hc
  rcases List.mem_append.mp hc with hc | hc
  · exact ha c hc
  · exact hb c hc

/-- Bytes are cut at their first mark in one way. -/
theorem Plain.append_cons_inj {a b x y : Bytes} {m m' : UInt8} (ha : Plain a) (hb : Plain b)
    (hm : isMark m = true) (hm' : isMark m' = true) (h : a ++ m :: x = b ++ m' :: y) :
    a = b ∧ m = m' := by
  have hfront : ∀ {c : Bytes} {k : UInt8} {z : Bytes}, Plain c → isMark k = true →
      (c ++ k :: z).takeWhile (fun b => !isMark b) = c := by
    intro c k z hc hk
    rw [List.takeWhile_append_of_pos (by simpa [Plain] using hc),
      List.takeWhile_cons_of_neg (by simp [hk]), List.append_nil]
  have hab : a = b := by rw [← hfront ha hm, h, hfront hb hm']
  subst hab
  exact ⟨rfl, (List.cons.inj (List.append_cancel_left h)).1⟩

/-! ## Values -/

/-- The bytes of keywords and numerals. -/
def isWord (b : UInt8) : Bool := !Byte.isBlank b && !isMark b

theorem isWord_eq_true {b : UInt8} :
    isWord b = true ↔ Byte.isBlank b = false ∧ isMark b = false := by
  simp [isWord]

theorem isWord_of_isDigit {b : UInt8} (h : Byte.isDigit b = true) : isWord b = true := by
  have hrange := Numeral.isDigit_iff.mp h
  refine isWord_eq_true.mpr ⟨isBlank_of_isDigit h, ?_⟩
  by_contra hmark
  simp only [isMark, Bool.not_eq_false, Bool.or_eq_true, beq_iff_eq] at hmark
  rcases hmark with (((((rfl | rfl) | rfl) | rfl) | rfl) | rfl) | rfl <;>
    exact absurd hrange (by decide)

/-- All bytes are of keywords and numerals. -/
def IsWord (t : Bytes) : Prop := ∀ b ∈ t, isWord b = true

instance : DecidablePred IsWord := List.decidableBAll (isWord · = true)

theorem IsWord.append {a b : Bytes} (ha : IsWord a) (hb : IsWord b) : IsWord (a ++ b) := by
  intro c hc
  rcases List.mem_append.mp hc with hc | hc
  · exact ha c hc
  · exact hb c hc

theorem IsWord.cons {b : UInt8} (hb : isWord b = true) (ht : IsWord t) : IsWord (b :: t) :=
  List.forall_mem_cons.mpr ⟨hb, ht⟩

theorem IsWord.plain (h : IsWord t) : Plain t := fun b hb => (isWord_eq_true.mp (h b hb)).2

theorem IsWord.trimmed (h : IsWord t) (hne : t ≠ []) : Trimmed t :=
  trimmed_of_forall hne fun b hb => (isWord_eq_true.mp (h b hb)).1

namespace Numeral

theorem Digits.isWord {ds : Bytes} (h : Digits ds) : IsWord ds :=
  fun d hd => isWord_of_isDigit (h.2 d hd)

theorem WholeText.isWord {ds : Bytes} (h : WholeText ds) : IsWord ds := by
  cases h with
  | zero => exact .cons rfl (by simp [IsWord])
  | digits h _ => exact h.isWord

theorem SignText.isWord {s : Bytes} {negative : Bool} (h : SignText s negative) : IsWord s := by
  cases h with
  | none => simp [IsWord]
  | plus | minus => exact .cons rfl (by simp [IsWord])

theorem FractionText.isWord {f ds : Bytes} (h : FractionText f ds) : IsWord f := by
  cases h with
  | none => simp [IsWord]
  | point h => exact .cons rfl h.isWord

theorem ExponentText.isWord {e : Bytes} {x : Option (Bool × Bytes)} (h : ExponentText e x) :
    IsWord e := by
  cases h with
  | none => simp [IsWord]
  | sign hb hsign hds =>
    simp only [isExponentSign, Bool.or_eq_true, beq_iff_eq] at hb
    rcases hb with rfl | rfl
    · exact .cons rfl (hsign.isWord.append hds.isWord)
    · exact .cons rfl (hsign.isWord.append hds.isWord)

theorem NumeralText.isWord {x : Numeral} (h : NumeralText t x) : IsWord t := by
  obtain ⟨hw, hf, he⟩ := h
  have hminus : IsWord (minusText x.negative) := by
    cases x.negative with
    | true => exact .cons rfl (by simp [IsWord])
    | false => simp [IsWord, minusText]
  exact hminus.append (hw.isWord.append (hf.isWord.append he.isWord))

end Numeral

theorem KeywordText.isWord {found : Found} (h : KeywordText t found) : IsWord t := by
  cases h <;> decide

/-- A value is a keyword or a numeral, or stands in quotes, brackets or braces. -/
theorem WellFormed.isWord_or_ends (h : WellFormed t) : (t ≠ [] ∧ IsWord t) ∨
    ∃ b r c, t = b :: (r ++ [c]) ∧ isMark b = true ∧ b ≠ Byte.comma ∧ b ≠ Byte.closeBrace ∧
      isMark c = true := by
  have hne : t ≠ [] := by
    obtain ⟨b, rest, rfl, -⟩ := h.solid
    exact List.cons_ne_nil _ _
  cases h with
  | keyword h => exact Or.inl ⟨hne, h.isWord⟩
  | numeral h => exact Or.inl ⟨hne, h.isWord⟩
  | literal h =>
    obtain ⟨r, rfl, -⟩ := h
    exact Or.inr ⟨_, r, _, rfl, by decide⟩
  | list h _ =>
    obtain ⟨r, rfl, -⟩ := h
    exact Or.inr ⟨_, r, _, rfl, by decide⟩
  | object h _ =>
    obtain ⟨r, rfl, -⟩ := h
    exact Or.inr ⟨_, r, _, rfl, by decide⟩

theorem isBlank_of_isMark {b : UInt8} (h : isMark b = true) : Byte.isBlank b = false := by
  by_contra hblank
  rw [isMark_of_isBlank (by simpa using hblank)] at h
  contradiction

theorem WellFormed.trimmed (h : WellFormed t) : Trimmed t := by
  rcases h.isWord_or_ends with ⟨hne, hword⟩ | ⟨b, r, c, rfl, hb, -, -, hc⟩
  · exact hword.trimmed hne
  · exact trimmed_of_ends (isBlank_of_isMark hb) (isBlank_of_isMark hc)

end ProtectionDomain.Json
