import Mathlib.Algebra.Group.Nat.Defs
import Mathlib.Data.List.Basic
import Mathlib.Data.List.Induction
import ProtectionDomain.Proofs.Json.Reads

/-!
# Spellings of numbers

* `SignText`, `WholeText`, `FractionText`, `ExponentText`, `NumeralText`: the numerals of JSON;
* `scan_sound`, `scan_complete`: a numeral is scanned up to its end;
* `digitsOf`: the digits of a number; `wholeText_iff`: the digits before a point are the digits of
  the number that they spell;
* **`reads_readUnsigned`**: an unsigned integer is read from its digits and from nothing else.
-/

namespace ProtectionDomain.Json

namespace Numeral

/-! ## The grammar -/

/-- At least one digit, and nothing else. -/
def Digits (ds : Bytes) : Prop := ds ≠ [] ∧ ∀ d ∈ ds, Byte.isDigit d = true

/-- A sign; no sign stands for plus. -/
inductive SignText : Bytes → Bool → Prop
  | none : SignText [] false
  | plus : SignText [Byte.plus] false
  | minus : SignText [Byte.minus] true

/-- The minus sign in front of a numeral. -/
def minusText (negative : Bool) : Bytes := if negative then [Byte.minus] else []

/-- The digits before a point. -/
inductive WholeText : Bytes → Prop
  | zero : WholeText [Byte.zero]
  | digits {ds : Bytes} : Digits ds → ds.head? ≠ some Byte.zero → WholeText ds

/-- A point and the digits after it, or neither. -/
inductive FractionText : Bytes → Bytes → Prop
  | none : FractionText [] []
  | point {ds : Bytes} : Digits ds → FractionText (Byte.point :: ds) ds

/-- An exponent, or none. -/
inductive ExponentText : Bytes → Option (Bool × Bytes) → Prop
  | none : ExponentText [] none
  | sign {b : UInt8} {s ds : Bytes} {negative : Bool} : isExponentSign b = true →
      SignText s negative → Digits ds → ExponentText (b :: (s ++ ds)) (some (negative, ds))

/-- The numerals. -/
inductive NumeralText : Bytes → Numeral → Prop
  | mk {x : Numeral} {f e : Bytes} : WholeText x.whole → FractionText f x.fraction →
      ExponentText e x.exponent →
      NumeralText (minusText x.negative ++ (x.whole ++ (f ++ e))) x

/-! ## First bytes -/

/-- The bytes do not begin with such a byte. -/
def Avoids (p : UInt8 → Bool) (bs : Bytes) : Prop := ∀ b ∈ bs.head?, p b = false

@[simp] theorem avoids_nil (p : UInt8 → Bool) : Avoids p [] := by simp [Avoids]

@[simp] theorem avoids_cons {p : UInt8 → Bool} {b : UInt8} {bs : Bytes} :
    Avoids p (b :: bs) ↔ p b = false := by
  simp [Avoids]

theorem Avoids.append {p : UInt8 → Bool} {t bs : Bytes} (ht : Avoids p t) (h : Avoids p bs) :
    Avoids p (t ++ bs) := by
  cases t with
  | nil => exact h
  | cons b t => exact ht

theorem Avoids.of_stops {p : UInt8 → Bool} {bs : Bytes} (h : Stops bs)
    (hp : ∀ b, p b = true → extendsNumeral b = true) : Avoids p bs := by
  intro b hb
  by_contra hpb
  have := h b hb
  rw [hp b (by simpa using hpb)] at this
  contradiction

theorem ne_of_isDigit {b : UInt8} (h : Byte.isDigit b = true) :
    b ≠ Byte.minus ∧ b ≠ Byte.plus ∧ b ≠ Byte.point ∧ isExponentSign b = false := by
  refine ⟨?_, ?_, ?_, ?_⟩
  · rintro rfl
    contradiction
  · rintro rfl
    contradiction
  · rintro rfl
    contradiction
  · by_contra hexp
    simp only [isExponentSign, Bool.not_eq_false, Bool.or_eq_true, beq_iff_eq] at hexp
    rcases hexp with rfl | rfl <;> contradiction

/-! ## Scanning -/

variable {atEnd : Fault} {bs rest : Bytes}

theorem scanDigits_sound {ds : Bytes} (h : scanDigits atEnd bs = .ok (ds, rest)) :
    bs = ds ++ rest ∧ Digits ds := by
  unfold scanDigits at h
  split at h
  · contradiction
  · next b bs =>
    split at h
    · next hb =>
      simp only [Except.ok.injEq, Prod.mk.injEq] at h
      obtain ⟨rfl, rfl⟩ := h
      refine ⟨List.takeWhile_append_dropWhile.symm, ?_, fun d hd => List.mem_takeWhile_imp hd⟩
      rw [List.takeWhile_cons_of_pos hb]
      exact List.cons_ne_nil _ _
    · contradiction

theorem scanDigits_complete {ds : Bytes} (h : Digits ds) (hrest : Avoids Byte.isDigit rest) :
    scanDigits atEnd (ds ++ rest) = .ok (ds, rest) := by
  obtain ⟨hne, hall⟩ := h
  have htake : (ds ++ rest).takeWhile Byte.isDigit = ds := by
    rw [List.takeWhile_append_of_pos hall, show rest.takeWhile Byte.isDigit = [] from ?_,
      List.append_nil]
    cases rest with
    | nil => rfl
    | cons b rest => exact List.takeWhile_cons_of_neg (by simp [avoids_cons.mp hrest])
  have hdrop : (ds ++ rest).dropWhile Byte.isDigit = rest := by
    rw [List.dropWhile_append_of_pos hall]
    cases rest with
    | nil => rfl
    | cons b rest => exact List.dropWhile_cons_of_neg (by simp [avoids_cons.mp hrest])
  obtain ⟨d, ds', rfl⟩ := List.exists_cons_of_ne_nil hne
  rw [List.cons_append] at htake hdrop ⊢
  rw [scanDigits, if_pos (hall d List.mem_cons_self), htake, hdrop]

theorem scanWhole_sound {ds : Bytes} (h : scanWhole atEnd bs = .ok (ds, rest)) :
    bs = ds ++ rest ∧ WholeText ds := by
  unfold scanWhole at h
  split at h
  · next b bs =>
    split at h
    · next hb =>
      split at h
      · contradiction
      · simp only [Except.ok.injEq, Prod.mk.injEq] at h
        obtain ⟨rfl, rfl⟩ := h
        exact ⟨rfl, hb ▸ .zero⟩
    · next hb =>
      obtain ⟨heq, hds⟩ := scanDigits_sound h
      refine ⟨heq, .digits hds ?_⟩
      obtain ⟨d, ds', rfl⟩ := List.exists_cons_of_ne_nil hds.1
      rw [List.cons_append] at heq
      obtain ⟨rfl, -⟩ := List.cons.inj heq
      simpa using hb
  · contradiction

theorem scanWhole_complete {ds : Bytes} (h : WholeText ds) (hrest : Avoids Byte.isDigit rest) :
    scanWhole atEnd (ds ++ rest) = .ok (ds, rest) := by
  cases h with
  | zero =>
    have hany : ¬ rest.head?.any Byte.isDigit = true := by
      cases rest with
      | nil => simp
      | cons b rest => simp [avoids_cons.mp hrest]
    rw [List.singleton_append, scanWhole, if_pos rfl, if_neg hany]
  | digits h hhead =>
    obtain ⟨d, ds', rfl⟩ := List.exists_cons_of_ne_nil h.1
    have hd : d ≠ Byte.zero := by simpa using hhead
    rw [List.cons_append, scanWhole, if_neg hd, ← List.cons_append]
    exact scanDigits_complete h hrest

theorem scanFraction_sound {ds : Bytes} (h : scanFraction atEnd bs = .ok (ds, rest)) :
    ∃ f, bs = f ++ rest ∧ FractionText f ds := by
  unfold scanFraction at h
  split at h
  · next b bs =>
    split at h
    · next hb =>
      obtain ⟨rfl, hds⟩ := scanDigits_sound h
      exact ⟨Byte.point :: ds, by rw [hb, List.cons_append], .point hds⟩
    · simp only [Except.ok.injEq, Prod.mk.injEq] at h
      obtain ⟨rfl, rfl⟩ := h
      exact ⟨[], rfl, .none⟩
  · simp only [Except.ok.injEq, Prod.mk.injEq] at h
    obtain ⟨rfl, rfl⟩ := h
    exact ⟨[], rfl, .none⟩

theorem scanFraction_complete {f ds : Bytes} (h : FractionText f ds)
    (hdigit : Avoids Byte.isDigit rest) (hpoint : Avoids (· == Byte.point) rest) :
    scanFraction atEnd (f ++ rest) = .ok (ds, rest) := by
  cases h with
  | none =>
    cases rest with
    | nil => rfl
    | cons b rest =>
      have hb : b ≠ Byte.point := by simpa using hpoint
      rw [List.nil_append, scanFraction, if_neg hb]
  | point h =>
    rw [List.cons_append, scanFraction, if_pos rfl]
    exact scanDigits_complete h hdigit

variable (bs) in
theorem scanMinus_eq : bs = minusText (scanMinus bs).1 ++ (scanMinus bs).2 := by
  unfold scanMinus
  split
  · split
    · next hb =>
      rw [hb]
      rfl
    · rfl
  · rfl

theorem scanMinus_append {negative : Bool} (h : Avoids (· == Byte.minus) rest) :
    scanMinus (minusText negative ++ rest) = (negative, rest) := by
  cases negative with
  | true => rfl
  | false =>
    cases rest with
    | nil => rfl
    | cons b rest =>
      have hb : b ≠ Byte.minus := by simpa using h
      exact if_neg hb

variable (bs) in
theorem scanSign_sound : ∃ s, bs = s ++ (scanSign bs).2 ∧ SignText s (scanSign bs).1 := by
  unfold scanSign
  split
  · next b bs =>
    split
    · next hb => exact ⟨[Byte.plus], by rw [hb]; rfl, .plus⟩
    · refine ⟨_, scanMinus_eq (b :: bs), ?_⟩
      cases (scanMinus (b :: bs)).1 with
      | true => exact .minus
      | false => exact .none
  · exact ⟨[], rfl, .none⟩

theorem scanSign_complete {s : Bytes} {negative : Bool} (h : SignText s negative)
    (hrest : Avoids (fun b => b == Byte.plus || b == Byte.minus) rest) :
    scanSign (s ++ rest) = (negative, rest) := by
  cases h with
  | none =>
    cases rest with
    | nil => rfl
    | cons b rest =>
      have hb : b ≠ Byte.plus ∧ b ≠ Byte.minus := by simpa using hrest
      rw [List.nil_append, scanSign, if_neg hb.1]
      exact if_neg hb.2
  | plus => rfl
  | minus => rfl

theorem scanExponent_sound {x : Option (Bool × Bytes)}
    (h : scanExponent atEnd bs = .ok (x, rest)) : ∃ e, bs = e ++ rest ∧ ExponentText e x := by
  unfold scanExponent at h
  split at h
  · next b bs =>
    split at h
    · next hb =>
      obtain ⟨⟨ds, rest'⟩, hdigits, hpure⟩ := bind_eq_ok.mp h
      simp only [pure_eq_ok, Prod.mk.injEq] at hpure
      obtain ⟨rfl, rfl⟩ := hpure
      obtain ⟨s, hs, hsign⟩ := scanSign_sound bs
      obtain ⟨heq, hds⟩ := scanDigits_sound hdigits
      refine ⟨b :: (s ++ ds), ?_, .sign hb hsign hds⟩
      rw [List.cons_append, List.append_assoc, ← heq]
      exact congrArg (b :: ·) hs
    · simp only [Except.ok.injEq, Prod.mk.injEq] at h
      obtain ⟨rfl, rfl⟩ := h
      exact ⟨[], rfl, .none⟩
  · simp only [Except.ok.injEq, Prod.mk.injEq] at h
    obtain ⟨rfl, rfl⟩ := h
    exact ⟨[], rfl, .none⟩

theorem scanExponent_complete {e : Bytes} {x : Option (Bool × Bytes)} (h : ExponentText e x)
    (hdigit : Avoids Byte.isDigit rest) (hexp : Avoids isExponentSign rest) :
    scanExponent atEnd (e ++ rest) = .ok (x, rest) := by
  cases h with
  | none =>
    cases rest with
    | nil => rfl
    | cons b rest =>
      have hb : ¬ isExponentSign b = true := by simp [avoids_cons.mp hexp]
      rw [List.nil_append, scanExponent, if_neg hb]
  | @sign b s ds negative hb hsign hds =>
    have hfirst : Avoids (fun b => b == Byte.plus || b == Byte.minus) (ds ++ rest) := by
      obtain ⟨d, ds', rfl⟩ := List.exists_cons_of_ne_nil hds.1
      obtain ⟨hminus, hplus, -⟩ := ne_of_isDigit (hds.2 d List.mem_cons_self)
      simp [hminus, hplus]
    rw [List.cons_append, List.append_assoc, scanExponent, if_pos hb,
      scanSign_complete hsign hfirst]
    simp only [scanDigits_complete hds hdigit]
    rfl

theorem scan_sound {x : Numeral} (h : scan atEnd bs = .ok (x, rest)) :
    ∃ t, bs = t ++ rest ∧ NumeralText t x := by
  obtain ⟨⟨whole, bs₁⟩, hwhole, h⟩ := bind_eq_ok.mp h
  obtain ⟨⟨fraction, bs₂⟩, hfraction, h⟩ := bind_eq_ok.mp h
  obtain ⟨⟨exponent, bs₃⟩, hexponent, h⟩ := bind_eq_ok.mp h
  simp only [pure_eq_ok, Prod.mk.injEq] at h
  obtain ⟨rfl, rfl⟩ := h
  have hminus := scanMinus_eq bs
  obtain ⟨hbs, hw⟩ := scanWhole_sound hwhole
  obtain ⟨f, hbs₁, hf⟩ := scanFraction_sound hfraction
  obtain ⟨e, hbs₂, he⟩ := scanExponent_sound hexponent
  refine ⟨_, ?_, .mk hw hf he⟩
  simp only [List.append_assoc]
  rw [← hbs₂, ← hbs₁, ← hbs]
  exact hminus

theorem ExponentText.avoids {e : Bytes} {x : Option (Bool × Bytes)} (h : ExponentText e x)
    {p : UInt8 → Bool} (hp : ∀ b, isExponentSign b = true → p b = false) : Avoids p e := by
  cases h with
  | none => exact avoids_nil p
  | sign hb _ _ => exact avoids_cons.mpr (hp _ hb)

theorem FractionText.avoids {f ds : Bytes} (h : FractionText f ds)
    {p : UInt8 → Bool} (hp : p Byte.point = false) : Avoids p f := by
  cases h with
  | none => exact avoids_nil p
  | point _ => exact avoids_cons.mpr hp

theorem WholeText.digit {ds : Bytes} (h : WholeText ds) :
    ∃ d ds', ds = d :: ds' ∧ Byte.isDigit d = true := by
  cases h with
  | zero => exact ⟨Byte.zero, [], rfl, rfl⟩
  | digits h _ =>
    obtain ⟨d, ds', rfl⟩ := List.exists_cons_of_ne_nil h.1
    exact ⟨d, ds', rfl, h.2 d List.mem_cons_self⟩

/-- A numeral is scanned up to where no numeral goes on. -/
theorem scan_complete {t : Bytes} {x : Numeral} (h : NumeralText t x) (hrest : Stops rest) :
    scan atEnd (t ++ rest) = .ok (x, rest) := by
  obtain ⟨hw, hf, he⟩ := h
  rename_i f e
  have hdigit : Avoids Byte.isDigit rest :=
    Avoids.of_stops hrest fun b hb => by simp [extendsNumeral, hb]
  have hpoint : Avoids (· == Byte.point) rest :=
    Avoids.of_stops hrest fun b hb => by simp [extendsNumeral, eq_of_beq hb]
  have hexp : Avoids isExponentSign rest :=
    Avoids.of_stops hrest fun b hb => by simp [extendsNumeral, hb]
  have hsign : ∀ b, isExponentSign b = true →
      Byte.isDigit b = false ∧ (b == Byte.point) = false := by
    intro b hb
    simp only [isExponentSign, Bool.or_eq_true, beq_iff_eq] at hb
    rcases hb with rfl | rfl <;> exact ⟨rfl, rfl⟩
  have hedigit : Avoids Byte.isDigit (e ++ rest) :=
    (he.avoids fun b hb => (hsign b hb).1).append hdigit
  have hepoint : Avoids (· == Byte.point) (e ++ rest) :=
    (he.avoids fun b hb => (hsign b hb).2).append hpoint
  have hfdigit : Avoids Byte.isDigit (f ++ (e ++ rest)) := (hf.avoids rfl).append hedigit
  have hminus : Avoids (· == Byte.minus) (x.whole ++ (f ++ (e ++ rest))) := by
    obtain ⟨d, ds', hds, hd⟩ := hw.digit
    rw [hds]
    simp [(ne_of_isDigit hd).1]
  simp only [List.append_assoc]
  rw [scan, scanMinus_append hminus]
  simp only [scanWhole_complete hw hfdigit, scanFraction_complete hf hedigit hepoint,
    scanExponent_complete he hdigit hexp, bind, Except.bind, pure, Except.pure]

/-! ## Digits of numbers -/

/-- The digits of a number. -/
def digitsOf (n : Nat) : Bytes := Bytes.ofChars (Nat.toDigits 10 n)

theorem toNat_digit {d : Nat} (h : d < 10) : (UInt8.ofNat (0x30 + d)).toNat = 0x30 + d := by
  rw [UInt8.toNat_ofNat']
  omega

theorem isDigit_iff {b : UInt8} : Byte.isDigit b = true ↔ 0x30 ≤ b.toNat ∧ b.toNat ≤ 0x39 := by
  rw [Byte.isDigit, Bool.and_eq_true, decide_eq_true_iff, decide_eq_true_iff,
    UInt8.le_iff_toNat_le, UInt8.le_iff_toNat_le]
  rfl

theorem digit_eq {b : UInt8} (h : Byte.isDigit b = true) :
    b = UInt8.ofNat (0x30 + Byte.digitValue b) ∧ Byte.digitValue b < 10 := by
  have hb := isDigit_iff.mp h
  have hlt : Byte.digitValue b < 10 := by
    unfold Byte.digitValue
    omega
  refine ⟨UInt8.toNat_inj.mp ?_, hlt⟩
  rw [toNat_digit hlt, Byte.digitValue]
  omega

theorem digitsOf_of_lt {n : Nat} (h : n < 10) : digitsOf n = [UInt8.ofNat (0x30 + n)] := by
  have hchar : n.digitChar.toNat = 0x30 + n := Nat.toNat_digitChar_of_lt_ten h
  rw [digitsOf, Nat.toDigits_of_lt_base h, Bytes.ofChars_cons, Bytes.ofChars_nil,
    Bytes.utf8EncodeChar_of_lt (by omega), hchar, List.append_nil]

theorem digitsOf_append {n d : Nat} (hn : 0 < n) (hd : d < 10) :
    digitsOf (10 * n + d) = digitsOf n ++ [UInt8.ofNat (0x30 + d)] := by
  rw [← digitsOf_of_lt hd, digitsOf, digitsOf, digitsOf, ← Bytes.ofChars_append,
    Nat.toDigits_append_toDigits (by decide) hn hd]

theorem ofDigits_concat (ds : Bytes) (d : UInt8) :
    ofDigits (ds ++ [d]) = 10 * ofDigits ds + Byte.digitValue d := by
  rw [ofDigits, List.foldl_append]
  rfl

theorem digitsOf_induction {P : Nat → Prop} (small : ∀ n < 10, P n)
    (step : ∀ n d, 0 < n → d < 10 → P n → P (10 * n + d)) (n : Nat) : P n := by
  induction n using Nat.strong_induction_on with
  | _ n ih =>
    by_cases hn : n < 10
    · exact small n hn
    · have hdiv : 10 * (n / 10) + n % 10 = n := Nat.div_add_mod n 10
      rw [← hdiv]
      exact step _ _ (by omega) (Nat.mod_lt n (by decide)) (ih _ (by omega))

theorem ofDigits_digitsOf (n : Nat) : ofDigits (digitsOf n) = n := by
  induction n using digitsOf_induction with
  | small n hn =>
    rw [digitsOf_of_lt hn, ← List.nil_append [_], ofDigits_concat, Byte.digitValue, toNat_digit hn]
    simp [ofDigits]
  | step n d hn hd ih =>
    rw [digitsOf_append hn hd, ofDigits_concat, ih, Byte.digitValue, toNat_digit hd]
    omega

theorem digits_digitsOf (n : Nat) : Digits (digitsOf n) := by
  have hdigit : ∀ d < 10, Byte.isDigit (UInt8.ofNat (0x30 + d)) = true := by
    intro d hd
    rw [isDigit_iff, toNat_digit hd]
    omega
  induction n using digitsOf_induction with
  | small n hn =>
    rw [digitsOf_of_lt hn]
    refine ⟨List.cons_ne_nil _ _, ?_⟩
    simpa using hdigit n hn
  | step n d hn hd ih =>
    rw [digitsOf_append hn hd]
    refine ⟨by simp, ?_⟩
    intro b hb
    rcases List.mem_append.mp hb with hb | hb
    · exact ih.2 b hb
    · rw [List.mem_singleton.mp hb]
      exact hdigit d hd

theorem head?_digitsOf {n : Nat} (hn : 0 < n) : (digitsOf n).head? ≠ some Byte.zero := by
  induction n using digitsOf_induction with
  | small n hlt =>
    rw [digitsOf_of_lt hlt, List.head?_cons, ne_eq, Option.some.injEq, ← UInt8.toNat_inj,
      toNat_digit hlt]
    show ¬ 0x30 + n = 0x30
    omega
  | step n d hpos hd ih =>
    rw [digitsOf_append hpos hd, List.head?_append_of_ne_nil _ (digits_digitsOf n).1]
    exact ih hpos

/-- Digits that do not begin with a zero are the digits of the number that they spell. -/
theorem digitsOf_ofDigits {ds : Bytes} (h : Digits ds) (hhead : ds.head? ≠ some Byte.zero) :
    digitsOf (ofDigits ds) = ds := by
  induction ds using List.reverseRecOn with
  | nil => exact absurd rfl h.1
  | append_singleton ds d ih =>
    obtain ⟨hd, hlt⟩ := digit_eq (h.2 d (by simp))
    rw [ofDigits_concat]
    by_cases hds : ds = []
    · rw [hds, show ofDigits [] = 0 from rfl, Nat.mul_zero, Nat.zero_add, digitsOf_of_lt hlt, ← hd]
      rfl
    · have hall : Digits ds := ⟨hds, fun b hb => h.2 b (List.mem_append_left _ hb)⟩
      rw [List.head?_append_of_ne_nil _ hds] at hhead
      have heq := ih hall hhead
      have hpos : 0 < ofDigits ds := by
        rw [Nat.pos_iff_ne_zero]
        intro hzero
        rw [hzero, digitsOf_of_lt (by decide)] at heq
        exact hhead (by rw [← heq]; rfl)
      rw [digitsOf_append hpos hlt, heq, ← hd]

theorem wholeText_iff {ds : Bytes} : WholeText ds ↔ digitsOf (ofDigits ds) = ds := by
  constructor
  · intro h
    cases h with
    | zero => exact digitsOf_of_lt (n := 0) (by decide)
    | digits h hhead => exact digitsOf_ofDigits h hhead
  · intro h
    rw [← h]
    rcases Nat.eq_zero_or_pos (ofDigits ds) with hzero | hpos
    · rw [hzero, digitsOf_of_lt (by decide)]
      exact .zero
    · exact .digits (digits_digitsOf _) (head?_digitsOf hpos)

theorem wholeText_digitsOf (n : Nat) : WholeText (digitsOf n) := by
  rw [wholeText_iff, ofDigits_digitsOf]

theorem numeralText_digitsOf (n : Nat) :
    NumeralText (digitsOf n) ⟨false, digitsOf n, [], none⟩ := by
  have h := NumeralText.mk (x := ⟨false, digitsOf n, [], none⟩) (wholeText_digitsOf n) .none .none
  simpa [minusText] using h

/-! ## Values -/

theorem floatValue_ne_integer (x : Numeral) (n : Int) : x.floatValue ≠ .ok (.integer n) := by
  unfold floatValue
  split
  · exact nofun
  · exact nofun

theorem integer?_eq_natCast {x : Numeral} {n : Nat} :
    x.integer? = some (n : Int) ↔ (x.negative = false ∧ x.fraction = [] ∧ x.exponent = none) ∧
      ofDigits x.whole = n ∧ n < 2 ^ 64 := by
  unfold integer?
  simp only [Bool.and_eq_true, List.isEmpty_iff, Option.isNone_iff_eq_none]
  by_cases hplain : x.fraction = [] ∧ x.exponent = none
  · rw [if_pos hplain]
    cases x.negative with
    | true =>
      simp only [if_true, Bool.true_eq_false, false_and, iff_false]
      split
      · intro h
        simp only [Option.some.injEq] at h
        omega
      · exact nofun
    | false =>
      simp only [Bool.false_eq_true, if_false, true_and, hplain]
      split
      · simp only [Option.some.injEq]
        omega
      · simp only [reduceCtorEq, false_iff]
        omega
  · rw [if_neg hplain]
    simp only [reduceCtorEq, false_iff]
    exact fun h => hplain h.1.2

theorem FractionText.eq_nil {f : Bytes} (h : FractionText f []) : f = [] := by
  cases h with
  | none => rfl
  | point h => exact absurd rfl h.1

theorem ExponentText.eq_nil {e : Bytes} (h : ExponentText e Option.none) : e = [] := by
  cases h
  rfl

/-- A numeral that stands for a natural number is the row of its digits. -/
theorem eq_digitsOf_of_value {t : Bytes} {x : Numeral} {n : Nat} (ht : NumeralText t x)
    (h : x.value = .ok (.integer n)) : t = digitsOf n := by
  have hinteger : x.integer? = some (n : Int) := by
    unfold value at h
    split at h
    · next m hm =>
      simp only [Except.ok.injEq, Number.integer.injEq] at h
      rw [hm, h]
    · exact absurd h (floatValue_ne_integer x n)
  obtain ⟨⟨hneg, hfraction, hexponent⟩, hn, -⟩ := integer?_eq_natCast.mp hinteger
  obtain ⟨hw, hf, he⟩ := ht
  rw [hfraction] at hf
  rw [hexponent] at he
  rw [hf.eq_nil, he.eq_nil, hneg, ← hn, wholeText_iff.mp hw, minusText]
  simp

theorem value_digitsOf {n : Nat} (h : n < 2 ^ 64) :
    value ⟨false, digitsOf n, [], none⟩ = .ok (.integer n) := by
  have hinteger : integer? ⟨false, digitsOf n, [], none⟩ = some (n : Int) := by
    rw [integer?_eq_natCast]
    exact ⟨⟨rfl, rfl, rfl⟩, ofDigits_digitsOf n, h⟩
  rw [value, hinteger]

end Numeral

/-! ## The reader of unsigned integers -/

open Numeral

theorem Size.toNumber_lt (z : Size) (n : z.Carrier) : z.toNumber n < 2 ^ z.bits := by
  cases z with
  | word32 => exact UInt32.toNat_lt n
  | word64 => exact UInt64.toNat_lt n
  | address => exact UInt64.toNat_lt n

theorem Size.bits_le (z : Size) : z.bits ≤ 64 := by
  cases z <;> decide

theorem Size.toNumber_ofNumber {z : Size} {n : Nat} (h : n < 2 ^ z.bits) :
    z.toNumber (z.ofNumber n) = n := by
  cases z with
  | word32 => exact UInt32.toNat_ofNat_of_lt' h
  | word64 => exact UInt64.toNat_ofNat_of_lt' h
  | address => exact UInt64.toNat_ofNat_of_lt' h

theorem Size.ofNumber_toNumber (z : Size) (n : z.Carrier) : z.ofNumber (z.toNumber n) = n := by
  cases z with
  | word32 => exact UInt32.ofNat_toNat
  | word64 => exact UInt64.ofNat_toNat
  | address => exact UInt64.ofNat_toNat

/-- The spelling of an unsigned integer: its digits. -/
def UnsignedText (z : Size) (t : Bytes) (n : z.Carrier) : Prop := t = digitsOf (z.toNumber n)

theorem isBlank_of_isDigit {b : UInt8} (h : Byte.isDigit b = true) : Byte.isBlank b = false := by
  have hrange := isDigit_iff.mp h
  by_contra hblank
  simp only [Byte.isBlank, Bool.not_eq_false, Bool.or_eq_true, beq_iff_eq] at hblank
  rcases hblank with ((rfl | rfl) | rfl) | rfl <;> exact absurd hrange (by decide)

theorem Numeral.digitsOf_cons (n : Nat) :
    ∃ d ds, digitsOf n = d :: ds ∧ Byte.isDigit d = true := (wholeText_digitsOf n).digit

/-- **An unsigned integer is read from its digits, and from nothing else.** -/
theorem reads_readUnsigned (z : Size) : Reads (readUnsigned z) (UnsignedText z) where
  sound {bs rest v} h := by
    unfold readUnsigned at h
    split at h
    · contradiction
    · next b bs' hskip =>
      obtain ⟨w, rfl, hw, -⟩ := eq_append_of_skipBlanks hskip
      split at h
      · obtain ⟨⟨x, rest'⟩, hscan, h⟩ := bind_eq_ok.mp h
        obtain ⟨value, hvalue, h⟩ := bind_eq_ok.mp h
        obtain ⟨t, heq, ht⟩ := scan_sound hscan
        split at h
        · next n =>
          split at h
          · next hrange =>
            simp only [pure_eq_ok, Prod.mk.injEq] at h
            obtain ⟨rfl, rfl⟩ := h
            obtain ⟨k, rfl⟩ := Int.eq_ofNat_of_zero_le hrange.1
            have hk : k < 2 ^ z.bits := by simpa [Nat.one_shiftLeft] using hrange.2
            refine ⟨w, t, by rw [heq], hw, ?_⟩
            rw [UnsignedText, Int.toNat_natCast, Size.toNumber_ofNumber hk]
            exact eq_digitsOf_of_value ht hvalue
          · contradiction
        · contradiction
      · contradiction
  complete {w t rest n} hw ht hrest := by
    obtain ⟨d, ds, hds, hd⟩ := digitsOf_cons (z.toNumber n)
    have hscan : scan .endInValue (digitsOf (z.toNumber n) ++ rest) = .ok (_, rest) :=
      scan_complete (numeralText_digitsOf (z.toNumber n)) hrest
    rw [hds, List.cons_append] at hscan
    have hbegins : beginsNumeral d = true := by simp [beginsNumeral, hd]
    have hlt := z.toNumber_lt n
    have hle : 2 ^ z.bits ≤ 2 ^ 64 := Nat.pow_le_pow_right (by decide) z.bits_le
    have hvalue := value_digitsOf (n := z.toNumber n) (by omega)
    have hrange : (0 : Int) ≤ z.toNumber n ∧ z.toNumber n < 1 <<< z.bits :=
      ⟨Int.natCast_nonneg _, by rwa [Nat.one_shiftLeft]⟩
    rw [ht, readUnsigned, hds, List.cons_append,
      skipBlanks_append_cons hw (isBlank_of_isDigit hd)]
    simp only [hbegins, if_true, hscan, ← hds, hvalue, bind, Except.bind, hrange, and_self, pure,
      Except.pure, Int.toNat_natCast, Size.ofNumber_toNumber]
  solid {t n} ht := by
    obtain ⟨d, ds, hds, hd⟩ := digitsOf_cons (z.toNumber n)
    refine ⟨d, ds, by rw [ht, hds], isBlank_of_isDigit hd, ?_⟩
    rintro rfl
    contradiction

end ProtectionDomain.Json
