import ProtectionDomain.Proofs.Config.Load
import ProtectionDomain.Proofs.Json.Place
import ProtectionDomain.Proofs.Wire.Presentation
import ProtectionDomain.Proofs.Wire.RoundTrip

/-!
# Integers on the wire

* `SpellsNumber`, `SpellsAddress`: bytes that spell a number of so many bits, or an address or
  `null`; `spellsNumber_iff`: the digits of a number are its only spelling;
* `ReadsWhole`, `ReadsAt`: what a type makes of any bytes as a whole document, or in the place of
  one value of an object; `readsWhole`, `readsAt`: any type that is a number, or has a field in that
  place, does so;
* **`integers_exact`**: an integer is read from bytes that spell it, and from no others.
-/

namespace ProtectionDomain

open Json

/-! ## Spellings -/

/-- Between blanks the bytes are digits, none of them a zero in front of others, and the number that
they spell has no more bits than this. -/
structure SpellsNumber (bits : ℕ) (d : Bytes) (n : ℕ) : Prop where
  whole : Numeral.WholeText (trim d)
  value : Numeral.ofDigits (trim d) = n
  fits : n ≤ 2 ^ bits - 1

/-- The bytes spell an address or `null`. -/
def SpellsAddress (d : Bytes) : Option UInt64 → Prop
  | none => trim d = Bytes.ofString "null"
  | some address => SpellsNumber 64 d address.toNat

section

variable {bits n : ℕ} {d : Bytes}

theorem spellsNumber_iff_digitsOf :
    SpellsNumber bits d n ↔ n < 2 ^ bits ∧ trim d = Numeral.digitsOf n := by
  have hpos := Nat.two_pow_pos bits
  constructor
  · rintro ⟨hwhole, rfl, hfits⟩
    exact ⟨by omega, (Numeral.wholeText_iff.mp hwhole).symm⟩
  · rintro ⟨hlt, htrim⟩
    refine ⟨?_, ?_, by omega⟩
    · rw [htrim]
      exact Numeral.wholeText_digitsOf n
    · rw [htrim, Numeral.ofDigits_digitsOf]

theorem spellsNumber_iff :
    SpellsNumber bits d n ↔ n < 2 ^ bits ∧ trim d = Bytes.ofString (toString n) := by
  have hdigits : Bytes.ofString (toString n) = Numeral.digitsOf n := by
    show Bytes.ofChars (String.ofList (Nat.toDigits 10 n)).toList = _
    rw [String.toList_ofList, Numeral.digitsOf]
  rw [hdigits, spellsNumber_iff_digitsOf]

theorem unsignedText_iff {z : Size} {x : z.Carrier} :
    UnsignedText z (trim d) x ↔ SpellsNumber z.bits d (z.toNumber x) := by
  rw [spellsNumber_iff_digitsOf, and_iff_right (z.toNumber_lt x)]
  rfl

end

namespace Wire

variable {α β : Type} [Wire α]

/-! ## Whole documents -/

variable (α) in
/-- A document is read as a value if and only if it spells its number, and then it is what is
written for the value, between blanks. -/
def ReadsWhole (number : α → ℕ) : Prop :=
  ∀ d, (∀ n, (∃ a : α, decode α d = .ok a ∧ number a = n) ↔ SpellsNumber 64 d n) ∧
    ∀ a, decode α d = .ok a ↔ trim d = Bytes.ofString (encode a)

/-- A type that is nothing but a number is read from what spells it. -/
theorem readsWhole {make : UInt64 → α} {number : α → UInt64} (hmake : ∀ a, make (number a) = a)
    (hnumber : ∀ n, number (make n) = n)
    (hdecode : ∀ d, decode α d = ((Shape.unsigned .word64).decode d).map make)
    (hencode : ∀ a, encode a = toString (number a).toNat) :
    ReadsWhole α fun a => (number a).toNat := by
  have hread : ∀ d a, decode α d = .ok a ↔ SpellsNumber 64 d (number a).toNat := by
    intro d a
    rw [hdecode, map_eq_ok]
    constructor
    · rintro ⟨n, hn, rfl⟩
      rw [hnumber]
      exact unsignedText_iff.mp (Shape.decode_iff_trim.mp hn)
    · intro hd
      exact ⟨number a, Shape.decode_iff_trim.mpr (unsignedText_iff.mpr hd), hmake a⟩
  intro d
  constructor
  · intro n
    constructor
    · rintro ⟨a, ha, rfl⟩
      exact (hread d a).mp ha
    · intro hd
      have hlt : n < 2 ^ 64 := (spellsNumber_iff.mp hd).1
      have hn : (UInt64.ofNat n).toNat = n := UInt64.toNat_ofNat_of_lt' hlt
      have hmade : (number (make (UInt64.ofNat n))).toNat = n := by rw [hnumber, hn]
      exact ⟨make (UInt64.ofNat n), (hread _ _).mpr (hmade.symm ▸ hd), hmade⟩
  · intro a
    rw [hread, spellsNumber_iff, hencode, and_iff_right (number a).toNat_lt]

/-! ## Members -/

variable (α) in
/-- An otherwise valid document with bytes without marks in the place of a member's value is read if
and only if these stand for a value, and then as what the value makes of the rest. -/
structure ReadsAt (case : Option String) (name : String) (Stands : Bytes → β → Prop)
    (put : α → β → α) : Prop where
  decode_iff {before after : List (String × Bytes)} {t₀ u₀ document₀ d u document : Bytes}
    {a₀ : α} : (∀ m ∈ before ++ after, WellFormed m.2) → WellFormed t₀ →
    ObjectText KeyText (before ++ (name, t₀) :: after) u₀ → Carries case u₀ document₀ →
    decode α document₀ = .ok a₀ → Plain d →
    ObjectText KeyText (before ++ (name, d) :: after) u → Carries case u document →
    ∀ a, decode α document = .ok a ↔ ∃ x, Stands d x ∧ a = put a₀ x

/-- If bytes in the place of a field change a record in that field only, then they do so in a
document. -/
theorem readsAt {case : Option String} {name : String} {s : Shape} {σ : Type}
    {Text : Bytes → σ → Prop} {make : σ → α} {Stands : Bytes → s.Carrier → Prop}
    {put : α → s.Carrier → α} (set : σ → s.Carrier → σ)
    (hread : ∀ {u document : Bytes} {a : α}, Trimmed u → Carries case u document →
      (decode α document = .ok a ↔ ∃ v, Text u v ∧ make v = a))
    (hplace : ∀ {before after : List (String × Bytes)} {d t₀ u₀ u : Bytes},
      (∀ m ∈ before ++ after, WellFormed m.2) → Plain d → WellFormed t₀ →
      ObjectText KeyText (before ++ (name, t₀) :: after) u₀ →
      ObjectText KeyText (before ++ (name, d) :: after) u → ∀ {v₀ v}, Text u₀ v₀ →
      (Text u v ↔ ∃ x, s.Denotes (trim d) x ∧ v = set v₀ x))
    (hmake : ∀ v x, make (set v x) = put (make v) x)
    (hstands : ∀ d x, s.Denotes (trim d) x ↔ Stands d x) : ReadsAt α case name Stands put where
  decode_iff {before after t₀ u₀ document₀ d u document a₀} hall ht₀ h₀ hc₀ hdecode₀ hd h hc a := by
    obtain ⟨v₀, hv₀, rfl⟩ := (hread h₀.trimmed hc₀).mp hdecode₀
    rw [hread h.trimmed hc]
    simp only [← hmake, ← hstands, eq_comm (a := make _)]
    exact exists_image_iff (hplace hall hd ht₀ h₀ h hv₀)

theorem decode_iff_of_carries {t document : Bytes} {a : α} (ht : Trimmed t)
    (h : Carries none t document) :
    decode α document = .ok a ↔ ∃ v, (shape α).Denotes t v ∧ ofCarrier v = a := by
  rw [decode, map_eq_ok]
  exact exists_congr fun v => and_congr_left fun _ => Shape.decode_of_carries ht h v

theorem stands_address (d : Bytes) (address : Option UInt64) :
    OptionalText (UnsignedText .address) (trim d) address ↔ SpellsAddress d address := by
  rw [← address_iff]
  cases address with
  | none => exact nullText_iff
  | some a => exact unsignedText_iff

/-! ## The types -/

open Policy

theorem readsAt_request :
    ReadsAt Request (some "AssignPci") "addr" (fun d (n : UInt64) => SpellsNumber 64 d n.toNat)
      fun _ n => .assignPci n := by
  let fields : Fields := .cons "addr" (.unsigned .address) .nil
  have hread : ∀ {u document : Bytes} {a : Request}, Trimmed u →
      Carries (some "AssignPci") u document →
      (decode Request document = .ok a ↔ ∃ v, fields.Text u v ∧ .assignPci v.1 = a) := by
    intro u document a hu hc
    have hholds : (∃ c, (Cases.record "AssignPci" fields .nil).Holds "AssignPci" (some u) c ∧
        (ofCarrier c : Request) = a) ↔ ∃ v, fields.Text u v ∧ .assignPci v.1 = a :=
      exists_holds_record
    rw [decode, map_eq_ok, ← hholds]
    exact exists_congr fun c => and_congr_left fun _ => decode_case hu hc c
  let place : Fields.Place "addr" (.unsigned .address) fields := .here
  exact readsAt place.set hread place.text_iff (fun _ _ => rfl)
    fun _ _ => unsignedText_iff

theorem readsAt_context :
    ReadsAt Context none "address" SpellsAddress fun x address => { x with address } := by
  let fields : Fields := .cons "session" .uuid (.cons "label" .text
    (.cons "address" (.optional (.unsigned .address)) .nil))
  let place : Fields.Place "address" (.optional (.unsigned .address)) fields :=
    .there (by decide) (.there (by decide) .here)
  exact readsAt place.set decode_iff_of_carries place.text_iff (fun _ _ => rfl) stands_address

theorem readsAt_config :
    ReadsAt SessionConfig none "version" (fun d (n : UInt32) => SpellsNumber 32 d n.toNat)
      fun c version => { c with version } := by
  let place : Fields.Place "version" (.unsigned .word32) SessionConfig.fields := .here
  exact readsAt place.put decode_iff_of_carries place.settings_iff (fun _ _ => rfl)
    fun _ _ => unsignedText_iff

/-- **Wherever an integer stands, `decode` reads it from the bytes that `SpellsNumber`, and from no
others**: from `toString n` between blanks, if `n` fits. -/
theorem integers_exact :
    (∀ target, ReadsWhole (Cap target) fun c => c.id.toNat) ∧
    (∀ kind, ReadsWhole (Handle kind) fun h => h.raw.toNat) ∧
    ReadsAt Request (some "AssignPci") "addr" (fun d (n : UInt64) => SpellsNumber 64 d n.toNat)
      (fun _ n => .assignPci n) ∧
    ReadsAt Context none "address" SpellsAddress (fun x address => { x with address }) ∧
    ReadsAt SessionConfig none "version" (fun d (n : UInt32) => SpellsNumber 32 d n.toNat)
      (fun c version => { c with version }) ∧
    (∀ bits d n, SpellsNumber bits d n ↔ n < 2 ^ bits ∧ trim d = Bytes.ofString (toString n)) ∧
    (∀ text ∈ ["-0", "1.0", "1e0"], ∀ bits n, ¬ SpellsNumber bits (Bytes.ofString text) n) := by
  refine ⟨?cap, ?handle, readsAt_request, readsAt_context, readsAt_config,
    fun _ _ _ => spellsNumber_iff, ?texts⟩
  case cap =>
    exact fun target => readsWhole (fun _ => rfl) (fun _ => rfl) (fun _ => rfl) fun _ => rfl
  case handle =>
    exact fun kind => readsWhole (fun _ => rfl) (fun _ => rfl) (fun _ => rfl) fun _ => rfl
  case texts =>
    intro text htext bits n hspells
    -- all bytes of a spelling are digits
    have hdigits : (trim (Bytes.ofString text)).all Byte.isDigit = true := by
      rw [(spellsNumber_iff_digitsOf.mp hspells).2, List.all_eq_true]
      exact (Numeral.digits_digitsOf n).2
    simp only [List.mem_cons, List.not_mem_nil, or_false] at htext
    rcases htext with rfl | rfl | rfl <;> exact absurd hdigits (by decide)

/-- The greatest address, between blanks, is read from the place where a zero stood. The number
after it, a negative zero and a number with a fraction or an exponent are not. -/
theorem integers_exact_request :
    let single (name : String) (d : Bytes) : Bytes :=
      Byte.openBrace :: (Bytes.ofChars (Literal.write name) ++ Byte.colon :: (d ++
        [Byte.closeBrace]))
    let document (text : String) : Bytes :=
      single "AssignPci" (single "addr" (Bytes.ofString text))
    decode Request (document "0") = .ok (.assignPci 0) ∧
    decode Request (document " 18446744073709551615\n") = .ok (.assignPci 18446744073709551615) ∧
    Refuses Request (document "18446744073709551616") ∧
    ∀ text ∈ ["-0", "1.0", "1e0"], Refuses Request (document text) := by
  intro single document
  obtain ⟨-, -, hrequest, -, -, -, htexts⟩ := integers_exact
  have hsingle : ∀ name d, ObjectText KeyText [(name, d)] (single name d) := by
    intro name d
    refine ⟨_, ?_, .cons (.first Blanks.nil) (.mk (Literal.literalText_write name) Blanks.nil
      Blanks.nil) (.nil Blanks.nil)⟩
    simp [single]
  have hcarries : ∀ text, Carries (some "AssignPci") (single "addr" (Bytes.ofString text))
      (document text) := by
    intro text
    have hcase := Carries.case (hsingle "AssignPci" (single "addr" (Bytes.ofString text)))
      Blanks.nil Blanks.nil
    simpa using hcase
  have hzero : decode Request (document "0") = .ok (.assignPci 0) := by
    have hencode : document "0" = Bytes.ofString (encode (Request.assignPci 0)) := by decide
    rw [hencode, decode_encode]
  have hread : ∀ text, Plain (Bytes.ofString text) → ∀ a, decode Request (document text) = .ok a ↔
      ∃ n : UInt64, SpellsNumber 64 (Bytes.ofString text) n.toNat ∧ a = .assignPci n := by
    intro text hplain
    have h₀ : ObjectText KeyText ([] ++ ("addr", Bytes.ofString "0") :: []) _ := hsingle _ _
    have h : ObjectText KeyText ([] ++ ("addr", Bytes.ofString text) :: []) _ := hsingle _ _
    exact hrequest.decode_iff (by simp) (.numeral (Numeral.numeralText_digitsOf 0)) h₀
      (hcarries "0") hzero hplain h (hcarries text)
  refine ⟨hzero, ?greatest, ?next, ?others⟩
  case greatest =>
    have hspells : SpellsNumber 64 (Bytes.ofString " 18446744073709551615\n")
        (18446744073709551615 : UInt64).toNat := spellsNumber_iff.mpr (by decide)
    exact (hread _ (by decide) _).mpr ⟨_, hspells, rfl⟩
  case next =>
    refine refuses_of_ne_ok fun a ha => ?_
    obtain ⟨n, hn, -⟩ := (hread _ (by decide) a).mp ha
    have hvalue : 18446744073709551616 = n.toNat := hn.value
    have hlt := n.toNat_lt
    omega
  case others =>
    intro text htext
    have hplain : ∀ text ∈ ["-0", "1.0", "1e0"], Plain (Bytes.ofString text) := by decide
    refine refuses_of_ne_ok fun a ha => ?_
    obtain ⟨n, hn, -⟩ := (hread text (hplain text htext) a).mp ha
    exact htexts text htext 64 n.toNat hn

end Wire

end ProtectionDomain
