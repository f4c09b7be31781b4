import ProtectionDomain.Proofs.Json.Grammar

/-!
# Texts of shapes are JSON values

What stands for a value of a shape is a JSON value like any other, so that it has no more ways to
be read than any other.

* `Literal.LiteralText.form`: what spells a text looks like a literal;
* `wellFormed_object`: an object of values is a value;
* **`Shape.wellFormed`**: every text of a shape is a value.
-/

namespace ProtectionDomain.Json

/-! ## Literals -/

namespace Literal

theorem BodyForm.append_raw {t r : Bytes}
    (ht : ∀ b ∈ t, 0x20 ≤ b ∧ b ≠ Byte.quote ∧ b ≠ Byte.backslash) (hr : BodyForm r) :
    BodyForm (t ++ r) := by
  induction t with
  | nil => exact hr
  | cons b t ih =>
    obtain ⟨h20, hquote, hslash⟩ := ht b List.mem_cons_self
    have htail := ih fun c hc => ht c (List.mem_cons_of_mem b hc)
    show BodyForm ([b] ++ (t ++ r))
    exact .cons (.raw h20 hquote hslash) htail

theorem raw_bytes {c : Char} (h20 : 0x20 ≤ c.toNat) (hquote : c ≠ '"') (hslash : c ≠ '\\') :
    ∀ b ∈ String.utf8EncodeChar c, 0x20 ≤ b ∧ b ≠ Byte.quote ∧ b ≠ Byte.backslash := by
  intro b hb
  by_cases hascii : c.toNat < 0x80
  · have henc := Bytes.utf8EncodeChar_of_lt hascii
    obtain ⟨hcontrol, hq, hs⟩ := (raw_head henc).mp ⟨h20, hquote, hslash⟩
    rw [henc, List.mem_singleton] at hb
    subst hb
    exact ⟨UInt8.not_lt.mp hcontrol, hq, hs⟩
  · have h80 := Bytes.le_of_mem_utf8EncodeChar (Nat.not_lt.mp hascii) hb
    rw [UInt8.le_iff_toNat_le, ne_eq, ne_eq, ← UInt8.toNat_inj, ← UInt8.toNat_inj]
    have hspace : (0x20 : UInt8).toNat = 0x20 := rfl
    have hquote : Byte.quote.toNat = 0x22 := rfl
    have hslash : Byte.backslash.toNat = 0x5C := rfl
    omega

theorem BodyForm.append_char {t r : Bytes} {c : Char} (ht : CharText t c) (hr : BodyForm r) :
    BodyForm (t ++ r) := by
  cases ht with
  | raw h20 hquote hslash => exact hr.append_raw (raw_bytes h20 hquote hslash)
  | escape ht =>
    cases ht with
    | short h => exact .cons (.short h) hr
    | code h => exact .cons (.code h) hr
    | @pair t t' _ _ _ h _ h' _ _ =>
      have hpair := BodyForm.cons (.code h) (.cons (.code h') hr)
      simpa using hpair

theorem LiteralText.form {t : Bytes} {s : String} (h : LiteralText t s) : LiteralForm t := by
  obtain ⟨r, rfl, hr⟩ := h
  refine ⟨r, rfl, ?_⟩
  generalize s.toList = cs at hr
  induction hr with
  | nil => exact .nil
  | cons ht _ ih => exact ih.append_char ht

end Literal

/-! ## Objects -/

theorem Row.forms {first : Bool} {members : List (String × Bytes)} {r : Bytes}
    (h : Row (MemberText KeyText) first members r) :
    ∃ forms : List (Bytes × Bytes), Row (MemberText KeyForm) first forms r ∧
      forms.map (·.2) = members.map (·.2) := by
  induction h with
  | nil hw => exact ⟨[], .nil hw, rfl⟩
  | cons hlead hm _ ih =>
    obtain ⟨forms, hforms, hvalues⟩ := ih
    obtain ⟨hkey, hw, hw'⟩ := hm
    rename_i l t _ _
    have hform : KeyForm l l := ⟨rfl, Literal.LiteralText.form hkey⟩
    exact ⟨(l, t) :: forms, .cons hlead (.mk hform hw hw') hforms, by simp [hvalues]⟩

theorem wellFormed_object {members : List (String × Bytes)} {t : Bytes}
    (h : ObjectText KeyText members t) (hall : ∀ m ∈ members, WellFormed m.2) : WellFormed t := by
  obtain ⟨r, rfl, hrow⟩ := h
  obtain ⟨forms, hforms, hvalues⟩ := hrow.forms
  refine .object ⟨r, rfl, hforms⟩ fun f hf => ?_
  have hmem : f.2 ∈ members.map (·.2) := hvalues ▸ List.mem_map_of_mem hf
  obtain ⟨m, hm, heq⟩ := List.mem_map.mp hmem
  exact heq ▸ hall m hm

/-! ## Fields and cases -/

/-- Every text of every field is a value. -/
def Fields.Valid : Fields → Prop
  | .nil => True
  | .cons _ s fs => (∀ t v, s.Denotes t v → WellFormed t) ∧ fs.Valid

/-- Every text of every field of every case is a value. -/
def Cases.Valid : Cases → Prop
  | .nil => True
  | .plain _ cs => cs.Valid
  | .record _ fs cs => fs.Valid ∧ cs.Valid

/-- The members that give the fields of a record have values, and so have all others. -/
theorem Fields.wellFormed_members : (fs : Fields) → fs.Valid → ∀ {members p},
    fs.Named members p → ∀ m ∈ members, WellFormed m.2
  | .nil, _, _, _, h => h
  | .cons name s fs, hfs, members, (x, p), h => by
    intro m hm
    by_cases hname : m.1 = name
    · have hvalue : m.2 ∈ valuesOf name members :=
        List.mem_map_of_mem (List.mem_filter.mpr ⟨hm, by simpa using hname⟩)
      obtain ⟨hgives, -⟩ := h
      cases x with
      | none =>
        rw [show valuesOf name members = [] from hgives] at hvalue
        contradiction
      | some x =>
        obtain ⟨t, ht, hx⟩ := hgives
        rw [ht, List.mem_singleton] at hvalue
        exact hvalue ▸ hfs.1 t x hx
    · exact fs.wellFormed_members hfs.2 h.2 m (mem_without.mpr ⟨hm, hname⟩)

theorem Fields.wellFormed_items : (fs : Fields) → fs.Valid → ∀ {items p},
    fs.Listed items p → ∀ u ∈ items, WellFormed u
  | .nil, _, items, _, h => by
    rw [Fields.Listed] at h
    simp [h]
  | .cons name s fs, _, [], _, _ => by simp
  | .cons name s fs, hfs, t :: items, (x, p), h => by
    obtain ⟨⟨y, -, hy⟩, hlisted⟩ := h
    rw [List.forall_mem_cons]
    exact ⟨hfs.1 t y hy, fs.wellFormed_items hfs.2 hlisted⟩

theorem RecordText.wellFormed {fs : Fields} (hfs : fs.Valid) {α : Type}
    {OfMembers OfElements : fs.Partial → α → Prop} {t : Bytes} {v : α}
    (h : RecordText fs.Named fs.Listed OfMembers OfElements t v) : WellFormed t := by
  cases h with
  | object htext hnamed _ => exact wellFormed_object htext (fs.wellFormed_members hfs hnamed)
  | list htext hlisted _ => exact .list htext (fs.wellFormed_items hfs hlisted)

theorem Cases.wellFormed_content : (cs : Cases) → cs.Valid → ∀ {name t v},
    cs.Holds name (some t) v → WellFormed t
  | .plain _ _, _, _, t, .inl (), h => .keyword (h.2 t rfl)
  | .plain _ cs, hcs, _, _, .inr _, h => cs.wellFormed_content hcs h.2
  | .record _ _ _, hcs, _, _, .inl _, h => by
    obtain ⟨-, u, hu, htext⟩ := h
    rw [Option.mem_def, Option.some.injEq] at hu
    exact hu ▸ htext.wellFormed hcs.1
  | .record _ _ cs, hcs, _, _, .inr _, h => cs.wellFormed_content hcs.2 h.2

theorem Cases.wellFormed {cs : Cases} (hcs : cs.Valid) {t : Bytes} {name : String}
    {content : Option Bytes} {v : cs.Carrier} (htext : CaseText t name content)
    (h : cs.Holds name content v) : WellFormed t := by
  cases htext with
  | alone hkey => exact .literal (Literal.LiteralText.form hkey)
  | content hobject =>
    refine wellFormed_object hobject fun m hm => ?_
    rw [List.mem_singleton] at hm
    exact hm ▸ cs.wellFormed_content hcs h

/-! ## Shapes -/

mutual

/-- **Every text of a shape is a JSON value.** -/
theorem Shape.wellFormed : (s : Shape) → ∀ t v, s.Denotes t v → WellFormed t
  | .unsigned z, t, n, h => by
    rw [show t = Numeral.digitsOf (z.toNumber n) from h]
    exact .numeral (Numeral.numeralText_digitsOf (z.toNumber n))
  | .flag, _, _, h => .keyword h
  | .text, _, _, h => .literal (Literal.LiteralText.form h)
  | .uuid, _, _, h => by
    obtain ⟨_, htext, -⟩ := h
    exact .literal (Literal.LiteralText.form htext)
  | .list s, t, xs, h => by
    obtain ⟨items, htext, hall⟩ := h
    have hvalues := hall.imp fun u x hx => (⟨s.wellFormed u x hx, hx⟩ : _ ∧ s.Denotes u x)
    exact .list htext ((List.forall₂_and_left _ _).mp hvalues).1
  | .optional _, _, none, h => .keyword h
  | .optional s, t, some x, h => s.wellFormed t x h.1
  | .record _ fs, _, _, h => RecordText.wellFormed fs.valid h
  | .settings _ fs, _, _, h => RecordText.wellFormed fs.valid h
  | .choice _ cs, _, _, h => by
    obtain ⟨_, _, htext, hholds⟩ := h
    exact Cases.wellFormed cs.valid htext hholds

theorem Fields.valid : (fs : Fields) → fs.Valid
  | .nil => trivial
  | .cons _ s fs => ⟨s.wellFormed, fs.valid⟩

theorem Cases.valid : (cs : Cases) → cs.Valid
  | .nil => trivial
  | .plain _ cs => cs.valid
  | .record _ fs cs => ⟨fs.valid, cs.valid⟩

end

end ProtectionDomain.Json
