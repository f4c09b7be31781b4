import ProtectionDomain.Proofs.Json.Presentation

/-!
# Any bytes in the place of a value

An object may have bytes in the place of a value that are none, and may be read all the same.

* `Plain.trim_eq`, `wellFormed_trim_of_rows`, `Row.trim`: bytes without marks in the place of a
  value are that value between blanks if the object is read, and the blanks belong to the object;
* `recordText_iff_of_plain`: what a record makes of such an object;
* `Fields.Place`: where a field stands, with `put` and `set` for another value of it;
  `named_iff`, `text_iff`, `settings_iff`: other bytes in its place change that field only;
* `exists_image_iff`: images of images, for places in places.
-/

namespace ProtectionDomain.Json

variable {first : Bool} {w u v v' r r' d t : Bytes} {name key : String}
  {before after members : List (String × Bytes)}

/-! ## Bytes without marks -/

theorem Row.exists_mark {α : Type} {Item : α → Bytes → Prop} {xs : List α}
    (h : Row Item false xs r) : ∃ w b x, r ++ [Byte.closeBrace] = w ++ b :: x ∧ Blanks w ∧
      (b = Byte.comma ∨ b = Byte.closeBrace) := by
  cases h with
  | nil hw => exact ⟨r, Byte.closeBrace, [], rfl, hw, Or.inr rfl⟩
  | @cons _ _ _ _ t r hlead _ _ =>
    cases hlead with
    | @next w w' hw _ =>
      refine ⟨w, Byte.comma, w' ++ (t ++ (r ++ [Byte.closeBrace])), ?_, hw, Or.inl rfl⟩
      simp

/-- Bytes without marks that are read like a value are that value between blanks. -/
theorem Plain.trim_eq {α : Type} {Item : α → Bytes → Prop} {xs ys : List α} (hd : Plain d)
    (ht : WellFormed t) (hv : Blanks v) (hv' : Blanks v') (hrow : Row Item false xs r)
    (hrow' : Row Item false ys r')
    (heq : v ++ (d ++ (r ++ [Byte.closeBrace])) = v' ++ (t ++ (r' ++ [Byte.closeBrace]))) :
    trim d = t := by
  obtain ⟨w, b, x, hr, hw, hb⟩ := hrow.exists_mark
  obtain ⟨w', b', x', hr', hw', hb'⟩ := hrow'.exists_mark
  have hmark : ∀ c, c = Byte.comma ∨ c = Byte.closeBrace → isMark c = true := by
    rintro c (rfl | rfl) <;> rfl
  have hfront : Plain (v ++ (d ++ w)) := hv.plain.append (hd.append hw.plain)
  have hcut : (v ++ (d ++ w)) ++ b :: x = v' ++ (t ++ (w' ++ b' :: x')) := by
    rw [← hr', ← heq, hr]
    simp only [List.append_assoc]
  rcases ht.isWord_or_ends with ⟨-, hword⟩ | ⟨c, s, e, rfl, hc, hcomma, hclose, -⟩
  · -- both sides end at their first mark
    have hfront' : Plain (v' ++ (t ++ w')) := hv'.plain.append (hword.plain.append hw'.plain)
    have hcut' : (v ++ (d ++ w)) ++ b :: x = (v' ++ (t ++ w')) ++ b' :: x' := by
      rw [hcut]
      simp only [List.append_assoc]
    have hsides := (hfront.append_cons_inj hfront' (hmark b hb) (hmark b' hb') hcut').1
    rw [← trim_append_blanks hv hw, hsides, trim_append ht.trimmed hv' hw']
  · -- no value begins with a mark that ends one
    have hfirst := (hfront.append_cons_inj hv'.plain (hmark b hb) hc hcut).2
    rcases hb with rfl | rfl
    · exact absurd hfirst.symm hcomma
    · exact absurd hfirst.symm hclose

/-- In a row that is read as a row of values, bytes without marks in the place of a value are one
between blanks. -/
theorem wellFormed_trim_of_rows (hd : Plain d) (hbefore : ∀ m ∈ before, WellFormed m.2)
    (hmembers : ∀ m ∈ members, WellFormed m.2)
    (hrow : Row (MemberText KeyText) first (before ++ (name, d) :: after) r)
    (hrow' : Row (MemberText KeyText) first members r) : WellFormed (trim d) := by
  induction before generalizing first r members with
  | nil =>
    obtain ⟨m', ms', v, v', s, s', rfl, -, hv, hv', hs, hs', heq⟩ := hrow.cut hrow'
    have hvalue := hmembers m' List.mem_cons_self
    rw [hd.trim_eq hvalue hv hv' hs hs' heq]
    exact hvalue
  | cons m before ih =>
    obtain ⟨m', ms', v, v', s, s', rfl, -, hv, hv', hs, hs', heq⟩ := hrow.cut hrow'
    rw [List.forall_mem_cons] at hbefore hmembers
    -- the values of the first members are the same, and so is what stands behind them
    have hrest := (reads_readRaw.unique hv hv' ⟨hbefore.1, rfl⟩ ⟨hmembers.1, rfl⟩
      (hs.stops rfl []) (hs'.stops rfl []) heq).2
    obtain rfl := List.append_cancel_right hrest
    exact ih hbefore.2 hmembers.2 hs hs'

theorem Row.blanks_append {α : Type} {Item : α → Bytes → Prop} {xs : List α} (hw : Blanks w)
    (h : Row Item false xs r) : Row Item false xs (w ++ r) := by
  cases h with
  | nil hr => exact .nil (hw.append hr)
  | @cons _ x xs _ t r hlead hx hrow =>
    cases hlead with
    | next hv hv' =>
      have hmoved := Row.cons (.next (hw.append hv) hv') hx hrow
      simpa only [List.append_assoc] using hmoved

theorem Row.trim (h : Row (MemberText KeyText) first (before ++ (name, d) :: after) r) :
    Row (MemberText KeyText) first (before ++ (name, trim d) :: after) r := by
  induction before generalizing first r with
  | nil =>
    cases h with
    | @cons _ _ _ w u r hlead hmember hrow =>
      obtain ⟨hkey, hw, hw'⟩ := hmember
      rename_i l w₁ w₂
      obtain ⟨v, v', hv, hv', hd⟩ := exists_eq_append_trim d
      have hmember : MemberText KeyText (name, Json.trim d)
          (l ++ (w₁ ++ Byte.colon :: ((w₂ ++ v) ++ Json.trim d))) :=
        .mk hkey hw (hw'.append hv)
      have hrow' := Row.cons hlead hmember (hrow.blanks_append hv')
      have htext : w ++ (l ++ (w₁ ++ Byte.colon :: (w₂ ++ d)) ++ r) =
          w ++ (l ++ (w₁ ++ Byte.colon :: ((w₂ ++ v) ++ Json.trim d)) ++ (v' ++ r)) := by
        conv_lhs => rw [hd]
        simp
      rw [htext]
      exact hrow'
  | cons m before ih =>
    cases h with
    | cons hlead hmember hrow => exact .cons hlead hmember (ih hrow)

/-! ## Records of such objects -/

section

variable {fs : Fields} {α : Type} {OfMembers OfElements : fs.Partial → α → Prop} {x : α}

theorem wellFormed_place (ht : WellFormed t) (hall : ∀ m ∈ before ++ after, WellFormed m.2) :
    ∀ m ∈ before ++ (name, t) :: after, WellFormed m.2 := by
  rw [List.forall_mem_append] at hall ⊢
  exact ⟨hall.1, List.forall_mem_cons.mpr ⟨ht, hall.2⟩⟩

/-- An object with bytes without marks in the place of a value is a text of a record if and only if
its members make one, the blanks around these bytes aside. -/
theorem recordText_iff_of_plain (h : ObjectText KeyText (before ++ (name, d) :: after) t)
    (hall : ∀ m ∈ before ++ after, WellFormed m.2) (hd : Plain d) :
    RecordText fs.Named fs.Listed OfMembers OfElements t x ↔
      ∃ p, fs.Named (before ++ (name, trim d) :: after) p ∧ OfMembers p x := by
  obtain ⟨r, rfl, hrow⟩ := h
  constructor
  · intro hrecord
    have hvalue : WellFormed (trim d) := by
      rcases hrecord with ⟨⟨r', heq, hrow'⟩, hnamed, -⟩ | ⟨htext, -, -⟩
      · obtain rfl := List.append_cancel_right (List.cons.inj heq).2
        exact wellFormed_trim_of_rows hd (fun m hm => hall m (List.mem_append_left after hm))
          (fs.wellFormed_members fs.valid hnamed) hrow hrow'
      · exact absurd htext (ObjectText.not_listText ⟨r, rfl, hrow⟩)
    exact (recordText_object_iff ⟨r, rfl, hrow.trim⟩ (wellFormed_place hvalue hall)).mp hrecord
  · rintro ⟨p, hnamed, hx⟩
    exact .object ⟨r, rfl, hrow.trim⟩ hnamed hx

end

/-! ## Fields in their places -/

/-- What is an image of something is, further on, an image of the same. -/
theorem exists_image_iff {α β γ : Type} {P : β → Prop} {Q : α → Prop} {f : α → β} {g : β → γ}
    {w : γ} (h : ∀ {x}, P x ↔ ∃ y, Q y ∧ x = f y) :
    (∃ x, P x ∧ w = g x) ↔ ∃ y, Q y ∧ w = g (f y) := by
  constructor
  · rintro ⟨x, hx, rfl⟩
    obtain ⟨y, hy, rfl⟩ := h.mp hx
    exact ⟨y, hy, rfl⟩
  · rintro ⟨y, hy, rfl⟩
    exact ⟨f y, h.mpr ⟨y, hy, rfl⟩, rfl⟩

/-- Where a field of a name and a shape stands among fields. -/
inductive Fields.Place (name : String) (s : Shape) : Fields → Type
  | here {fs : Fields} : Place name s (.cons name s fs)
  | there {other : String} {s' : Shape} {fs : Fields} : other ≠ name → Place name s fs →
      Place name s (.cons other s' fs)

variable {s : Shape}

namespace Fields.Place

/-- What is known, with the field given. -/
def put : {fs : Fields} → Place name s fs → fs.Partial → s.Carrier → fs.Partial
  | _, here, (_, p), x => (some x, p)
  | _, there _ i, (y, p), x => (y, i.put p x)

/-- A record with another value of the field. -/
def set : {fs : Fields} → Place name s fs → fs.Carrier → s.Carrier → fs.Carrier
  | _, here, (_, v), x => (x, v)
  | _, there _ i, (y, v), x => (y, i.set v x)

end Fields.Place

theorem without_place (h : key ≠ name) :
    without key (before ++ (name, t) :: after) =
      without key before ++ (name, t) :: without key after := by
  rw [without, List.filter_append, List.filter_cons_of_pos (by simpa using Ne.symm h)]
  rfl

theorem without_place_self :
    without name (before ++ (name, t) :: after) = without name before ++ without name after := by
  rw [without, List.filter_append, List.filter_cons_of_neg (by simp)]
  rfl

theorem valuesOf_place (h : key ≠ name) :
    valuesOf key (before ++ (name, t) :: after) = valuesOf key before ++ valuesOf key after := by
  rw [valuesOf_append, valuesOf_cons_of_ne h.symm]

theorem gives_place {x₀ x : Option s.Carrier} {t₀ : Bytes}
    (h : Gives s.Denotes (before ++ (name, t₀) :: after) name x₀) :
    Gives s.Denotes (before ++ (name, t) :: after) name x ↔ ∃ y, x = some y ∧ s.Denotes t y := by
  have hvalues : ∀ u, valuesOf name (before ++ (name, u) :: after) =
      valuesOf name before ++ u :: valuesOf name after := by
    intro u
    rw [valuesOf_append, valuesOf_cons_self]
  have halone : valuesOf name before = [] ∧ valuesOf name after = [] := by
    cases x₀ with
    | none =>
      rw [Gives, hvalues] at h
      simp at h
    | some y =>
      obtain ⟨u, hu, -⟩ := h
      rw [hvalues, List.append_eq_singleton_iff] at hu
      rcases hu with ⟨hbefore, hafter⟩ | ⟨-, hafter⟩
      · exact ⟨hbefore, (List.cons.inj hafter).2⟩
      · contradiction
  cases x with
  | none => simp [Gives, hvalues]
  | some y => simp [Gives, hvalues, halone]

namespace Fields.Place

/-- Another text in the place of a field changes that field and nothing else. -/
theorem named_iff : {fs : Fields} → (i : Place name s fs) →
    ∀ {before after : List (String × Bytes)} {t₀ t : Bytes} {p₀ p : fs.Partial},
    fs.Named (before ++ (name, t₀) :: after) p₀ →
    (fs.Named (before ++ (name, t) :: after) p ↔ ∃ x, s.Denotes t x ∧ p = i.put p₀ x)
  | .cons _ _ fs, here, before, after, t₀, t, (x₀, p₀), (x, p), ⟨hx₀, hp₀⟩ => by
    rw [without_place_self] at hp₀
    rw [Named, gives_place hx₀, without_place_self]
    constructor
    · rintro ⟨⟨y, rfl, hy⟩, hp⟩
      exact ⟨y, hy, by rw [fs.named_unique hp hp₀]; rfl⟩
    · rintro ⟨y, hy, heq⟩
      obtain ⟨rfl, rfl⟩ := Prod.mk.inj heq
      exact ⟨⟨y, rfl, hy⟩, hp₀⟩
  | .cons other s' fs, there hne i, before, after, t₀, t, (x₀, p₀), (x, p), ⟨hx₀, hp₀⟩ => by
    have hgives : ∀ {u y}, Gives s'.Denotes (before ++ (name, u) :: after) other y ↔
        Gives s'.Denotes (before ++ after) other y := by
      intro u y
      cases y <;> simp only [Gives, valuesOf_place hne, valuesOf_append]
    rw [without_place hne] at hp₀
    rw [hgives] at hx₀
    rw [Named, hgives, without_place hne, i.named_iff hp₀]
    constructor
    · rintro ⟨hx, y, hy, rfl⟩
      exact ⟨y, hy, by rw [hx.unique hx₀]; rfl⟩
    · rintro ⟨y, hy, heq⟩
      obtain ⟨rfl, rfl⟩ := Prod.mk.inj heq
      exact ⟨hx₀, y, hy, rfl⟩

theorem complete_put : {fs : Fields} → (i : Place name s fs) → ∀ {p : fs.Partial}
    {v : fs.Carrier} (x : s.Carrier), fs.complete p = .ok v →
    fs.complete (i.put p x) = .ok (i.set v x)
  | .cons _ _ _, here, (_, _), (_, _), _, h =>
    complete_cons_eq_ok.mpr ⟨rfl, (complete_cons_eq_ok.mp h).2⟩
  | .cons _ _ _, there _ i, (_, _), (_, _), x, h => by
    obtain ⟨hy, hv⟩ := complete_cons_eq_ok.mp h
    exact complete_cons_eq_ok.mpr ⟨hy, i.complete_put x hv⟩

section

variable {fs : Fields} (i : Place name s fs) {t₀ u₀ : Bytes}
  (hall : ∀ m ∈ before ++ after, WellFormed m.2) (hd : Plain d) (ht₀ : WellFormed t₀)
  (h₀ : ObjectText KeyText (before ++ (name, t₀) :: after) u₀)
  (h : ObjectText KeyText (before ++ (name, d) :: after) u)

include hall hd ht₀ h₀ h

/-- A record with bytes without marks in the place of a field is that record with the value that the
bytes stand for between blanks. -/
theorem text_iff {v₀ v : fs.Carrier} (hv₀ : fs.Text u₀ v₀) :
    fs.Text u v ↔ ∃ x, s.Denotes (trim d) x ∧ v = i.set v₀ x := by
  obtain ⟨p₀, hnamed₀, hcomplete₀⟩ := (text_object h₀ (wellFormed_place ht₀ hall)).mp hv₀
  rw [Text, recordText_iff_of_plain h hall hd]
  constructor
  · rintro ⟨p, hnamed, hcomplete⟩
    obtain ⟨x, hx, rfl⟩ := (i.named_iff hnamed₀).mp hnamed
    rw [i.complete_put x hcomplete₀, Except.ok.injEq] at hcomplete
    exact ⟨x, hx, hcomplete.symm⟩
  · rintro ⟨x, hx, rfl⟩
    exact ⟨_, (i.named_iff hnamed₀).mpr ⟨x, hx, rfl⟩, i.complete_put x hcomplete₀⟩

theorem settings_iff {p₀ p : fs.Partial} (hp₀ : RecordText fs.Named fs.Listed Eq Eq u₀ p₀) :
    RecordText fs.Named fs.Listed Eq Eq u p ↔ ∃ x, s.Denotes (trim d) x ∧ p = i.put p₀ x := by
  obtain ⟨_, hnamed₀, rfl⟩ := (recordText_object_iff h₀ (wellFormed_place ht₀ hall)).mp hp₀
  rw [recordText_iff_of_plain h hall hd]
  simp only [exists_eq_right]
  exact i.named_iff hnamed₀

end

end Fields.Place

end ProtectionDomain.Json
