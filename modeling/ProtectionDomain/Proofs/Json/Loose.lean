import ProtectionDomain.Proofs.Json.Quoted
import ProtectionDomain.Proofs.Json.Unique

/-!
# Documents before their literals are read

Where the parts of a document begin and end is settled before any of its literals is looked at.

* `QuotedKey`, `Loose`: values whose literals and keys are in quotes, whatever stands there;
  `WellFormed.loose`: values are among them;
* `Row.cut_all`: rows are cut into items in one way if the items are;
* `Cuts`, **`Loose.cuts`**: wherever it stands, a loose value ends in one place;
  `ListText.unique_loose`, `ObjectText.unique_quoted`: lists and objects of such values;
* `SpellsKeys`, `objectText_iff_spellsKeys`: the keys that quoted bytes spell;
  `ObjectText.iff_spellsKeys`, `ObjectText.unique_loose`: there is one way to read them;
* `recordText_object_loose`, `recordText_list_loose`: what records make of loose members and items.
-/

namespace ProtectionDomain.Json

variable {b b' : UInt8} {d r r' rest rest' t t' u u' w w' : Bytes} {first : Bool}

/-! ## Loose values -/

/-- A key in quotes. -/
def QuotedKey (k l : Bytes) : Prop := l = k ∧ Literal.Quoted l

/-- Values whose literals and keys are looked at no further than their quotes. -/
inductive Loose : Bytes → Prop
  | keyword {t : Bytes} {found : Found} : KeywordText t found → Loose t
  | numeral {t : Bytes} {x : Numeral} : Numeral.NumeralText t x → Loose t
  | literal {t : Bytes} : Literal.Quoted t → Loose t
  | list {t : Bytes} {items : List Bytes} : ListText items t → (∀ u ∈ items, Loose u) → Loose t
  | object {t : Bytes} {members : List (Bytes × Bytes)} : ObjectText QuotedKey members t →
      (∀ m ∈ members, Loose m.2) → Loose t

theorem MemberText.imp {κ : Type} {Key Key' : κ → Bytes → Prop} (hkey : ∀ k l, Key k l → Key' k l)
    {m : κ × Bytes} (h : MemberText Key m t) : MemberText Key' m t := by
  obtain ⟨hk, hw, hw'⟩ := h
  exact .mk (hkey _ _ hk) hw hw'

theorem Row.imp {α : Type} {Item Item' : α → Bytes → Prop} (hitem : ∀ x u, Item x u → Item' x u)
    {xs : List α} (h : Row Item first xs r) : Row Item' first xs r := by
  induction h with
  | nil hw => exact .nil hw
  | cons hlead hx _ ih => exact .cons hlead (hitem _ _ hx) ih

theorem WellFormed.loose (h : WellFormed t) : Loose t := by
  induction h with
  | keyword h => exact .keyword h
  | numeral h => exact .numeral h
  | literal h => exact .literal h.quoted
  | list h _ ih => exact .list h ih
  | object h _ ih =>
    obtain ⟨r, rfl, hrow⟩ := h
    have hkey : ∀ k l, KeyForm k l → QuotedKey k l := fun _ _ hform => ⟨hform.1, hform.2.quoted⟩
    exact .object ⟨r, rfl, hrow.imp fun _ _ hm => hm.imp hkey⟩ ih

/-- The first byte of a loose value tells what it is. -/
theorem Loose.head (h : Loose t) : ∃ b r, t = b :: r ∧ Byte.isBlank b = false ∧
    (isMark b = false ∧ WellFormed t ∨ b = Byte.quote ∧ Literal.Quoted t ∨
      b = Byte.openBracket ∧ (∃ items, ListText items t ∧ ∀ u ∈ items, Loose u) ∨
      b = Byte.openBrace ∧
        ∃ members, ObjectText QuotedKey members t ∧ ∀ m ∈ members, Loose m.2) := by
  have hword : IsWord t → WellFormed t → ∃ b r, t = b :: r ∧ Byte.isBlank b = false ∧
      isMark b = false := by
    intro hword hvalue
    obtain ⟨b, r, rfl, hblank, -⟩ := hvalue.solid
    exact ⟨b, r, rfl, hblank, (isWord_eq_true.mp (hword b List.mem_cons_self)).2⟩
  cases h with
  | keyword h =>
    obtain ⟨b, r, heq, hblank, hmark⟩ := hword h.isWord (.keyword h)
    exact ⟨b, r, heq, hblank, Or.inl ⟨hmark, .keyword h⟩⟩
  | numeral h =>
    obtain ⟨b, r, heq, hblank, hmark⟩ := hword h.isWord (.numeral h)
    exact ⟨b, r, heq, hblank, Or.inl ⟨hmark, .numeral h⟩⟩
  | literal h =>
    obtain ⟨r, rfl, hr⟩ := h
    exact ⟨_, _, rfl, rfl, Or.inr (Or.inl ⟨rfl, r, rfl, hr⟩)⟩
  | list h hall =>
    obtain ⟨r, rfl, hr⟩ := h
    exact ⟨_, _, rfl, rfl, Or.inr (Or.inr (Or.inl ⟨rfl, _, ⟨r, rfl, hr⟩, hall⟩))⟩
  | object h hall =>
    obtain ⟨r, rfl, hr⟩ := h
    exact ⟨_, _, rfl, rfl, Or.inr (Or.inr (Or.inr ⟨rfl, _, ⟨r, rfl, hr⟩, hall⟩))⟩

/-! ## Rows -/

theorem Blanks.cut (hw : Blanks w) (hw' : Blanks w') (hb : Byte.isBlank b = false)
    (hb' : Byte.isBlank b' = false) (heq : w ++ b :: rest = w' ++ b' :: rest') :
    b = b' ∧ rest = rest' := by
  have hskip := skipBlanks_append_cons hw hb rest
  rw [heq, skipBlanks_append_cons hw' hb'] at hskip
  exact ⟨(List.cons.inj hskip).1.symm, (List.cons.inj hskip).2.symm⟩

/-- The text begins with a byte that is no blank and does not close the row. -/
def Begins (close : UInt8) (t : Bytes) : Prop :=
  ∃ b r, t = b :: r ∧ Byte.isBlank b = false ∧ b ≠ close

theorem Lead.strip (hw : Lead first w) (hw' : Lead first w')
    (heq : w ++ (u ++ rest) = w' ++ (u' ++ rest')) :
    ∃ v v', Blanks v ∧ Blanks v' ∧ v ++ (u ++ rest) = v' ++ (u' ++ rest') := by
  cases hw with
  | first hw =>
    cases hw' with
    | first hw' => exact ⟨w, w', hw, hw', heq⟩
  | next hw hv =>
    cases hw' with
    | next hw' hv' =>
      rw [List.append_assoc, List.cons_append, List.append_assoc, List.cons_append] at heq
      exact ⟨_, _, hv, hv', (hw.cut hw' rfl rfl heq).2⟩

theorem Lead.ne_close {close : UInt8} (hclose : Byte.isBlank close = false)
    (hcomma : close ≠ Byte.comma) (hw : Lead first w) (hu : Begins close u) (hv : Blanks w') :
    w ++ (u ++ rest) ≠ w' ++ close :: rest' := by
  intro heq
  obtain ⟨b, r, rfl, hblank, hne⟩ := hu
  cases hw with
  | first hw => exact hne (hw.cut hv hblank hclose heq).1
  | next hw _ =>
    rw [List.append_assoc, List.cons_append] at heq
    exact hcomma (hw.cut hv rfl hclose heq).1.symm

/-- **Rows are cut into items in one way if the items are.** -/
theorem Row.cut_all {α : Type} {Item : α → Bytes → Prop} {xs ys : List α} {close : UInt8}
    (hblank : Byte.isBlank close = false) (hcomma : close ≠ Byte.comma)
    (hstops : extendsNumeral close = false)
    (hbegins : ∀ x ∈ xs, ∀ u, Item x u → Begins close u)
    (hbegins' : ∀ y ∈ ys, ∀ u, Item y u → Begins close u)
    (hcut : ∀ x ∈ xs, ∀ y ∈ ys, ∀ {w w' u u' rest rest'}, Item x u → Item y u' → Blanks w →
      Blanks w' → Stops rest → Stops rest' → w ++ (u ++ rest) = w' ++ (u' ++ rest') →
      x = y ∧ rest = rest')
    (h : Row Item first xs r) (h' : Row Item first ys r')
    (heq : r ++ close :: rest = r' ++ close :: rest') : xs = ys ∧ rest = rest' := by
  induction h generalizing ys r' with
  | nil hw =>
    cases h' with
    | nil hw' => exact ⟨rfl, (hw.cut hw' hblank hblank heq).2⟩
    | cons hlead hy _ =>
      rw [List.append_assoc, List.append_assoc] at heq
      exact absurd heq.symm
        (hlead.ne_close hblank hcomma (hbegins' _ List.mem_cons_self _ hy) hw)
  | cons hlead hx hrow ih =>
    rw [List.append_assoc, List.append_assoc] at heq
    cases h' with
    | nil hw' =>
      exact absurd heq (hlead.ne_close hblank hcomma (hbegins _ List.mem_cons_self _ hx) hw')
    | cons hlead' hy hrow' =>
      rw [List.append_assoc, List.append_assoc] at heq
      obtain ⟨v, v', hv, hv', heq⟩ := hlead.strip hlead' heq
      obtain ⟨rfl, htail⟩ := hcut _ List.mem_cons_self _ List.mem_cons_self hx hy hv hv'
        (hrow.stops hstops rest) (hrow'.stops hstops rest') heq
      obtain ⟨rfl, hrest⟩ := ih (fun x hx => hbegins x (List.mem_cons_of_mem _ hx))
        (fun y hy => hbegins' y (List.mem_cons_of_mem _ hy))
        (fun x hx y hy => hcut x (List.mem_cons_of_mem _ hx) y (List.mem_cons_of_mem _ hy))
        hrow' htail
      exact ⟨rfl, hrest⟩

/-! ## Where loose values end -/

theorem Loose.begins (h : Loose t) : Begins Byte.closeBracket t := by
  obtain ⟨b, r, rfl, hblank, hform⟩ := h.head
  refine ⟨b, r, rfl, hblank, ?_⟩
  rintro rfl
  rcases hform with ⟨hmark, -⟩ | ⟨hquote, -⟩ | ⟨hbracket, -⟩ | ⟨hbrace, -⟩ <;> contradiction

theorem Loose.trimmed (h : Loose t) : Trimmed t := by
  obtain ⟨_, _, -, -, ⟨-, ht⟩ | ⟨-, r, rfl, -⟩ | ⟨-, _, ⟨r, rfl, -⟩, -⟩ | ⟨-, _, ⟨r, rfl, -⟩, -⟩⟩ :=
    h.head
  · exact ht.trimmed
  · exact trimmed_of_ends rfl rfl
  · exact trimmed_of_ends rfl rfl
  · exact trimmed_of_ends rfl rfl

theorem QuotedKey.begins {m : Bytes × Bytes} (h : MemberText QuotedKey m t) :
    Begins Byte.closeBrace t := by
  obtain ⟨⟨rfl, l, rfl, -⟩, -, -⟩ := h
  exact ⟨Byte.quote, _, rfl, rfl, by decide⟩

/-- A member is cut off in one way if its value is. -/
theorem QuotedKey.cut {m m' : Bytes × Bytes} (h : MemberText QuotedKey m u)
    (h' : MemberText QuotedKey m' u') (hw : Blanks w) (hw' : Blanks w')
    (hvalue : ∀ {v v'}, Blanks v → Blanks v' → v ++ (m.2 ++ rest) = v' ++ (m'.2 ++ rest') →
      m.2 = m'.2 ∧ rest = rest')
    (heq : w ++ (u ++ rest) = w' ++ (u' ++ rest')) : m = m' ∧ rest = rest' := by
  obtain ⟨⟨rfl, l, rfl, hl⟩, hcolon, hv⟩ := h
  obtain ⟨⟨rfl, l', rfl, hl'⟩, hcolon', hv'⟩ := h'
  simp only [List.append_assoc, List.cons_append, List.nil_append] at heq
  obtain ⟨rfl, hrest⟩ := hl.cut hl' (hw.cut hw' rfl rfl heq).2
  obtain ⟨htext, hrest⟩ := hvalue hv hv' (hcolon.cut_colon hcolon' hrest)
  exact ⟨Prod.ext rfl htext, hrest⟩

theorem Loose.exists_eq_cons (h : Loose t) (heq : b :: r = t ++ rest) : ∃ r', t = b :: r' := by
  obtain ⟨b', r', rfl, -⟩ := h.head
  rw [List.cons_append] at heq
  exact ⟨r', by rw [(List.cons.inj heq).1]⟩

theorem Loose.wellFormed (h : Loose (b :: r)) (hb : isMark b = false) : WellFormed (b :: r) := by
  obtain ⟨_, _, heq, -, hform⟩ := h.head
  obtain ⟨rfl, rfl⟩ := List.cons.inj heq
  rcases hform with ⟨-, hvalue⟩ | ⟨rfl, -⟩ | ⟨rfl, -⟩ | ⟨rfl, -⟩
  · exact hvalue
  all_goals contradiction

theorem Loose.quoted (h : Loose (Byte.quote :: r)) : Literal.Quoted (Byte.quote :: r) := by
  obtain ⟨_, _, heq, -, hform⟩ := h.head
  obtain ⟨rfl, rfl⟩ := List.cons.inj heq
  rcases hform with ⟨hmark, -⟩ | ⟨-, hquoted⟩ | ⟨hb, -⟩ | ⟨hb, -⟩
  case inr.inl => exact hquoted
  all_goals contradiction

theorem Loose.listText (h : Loose (Byte.openBracket :: r)) :
    ∃ items, ListText items (Byte.openBracket :: r) ∧ ∀ u ∈ items, Loose u := by
  obtain ⟨_, _, heq, -, hform⟩ := h.head
  obtain ⟨rfl, rfl⟩ := List.cons.inj heq
  rcases hform with ⟨hmark, -⟩ | ⟨hb, -⟩ | ⟨-, hlist⟩ | ⟨hb, -⟩
  case inr.inr.inl => exact hlist
  all_goals contradiction

theorem Loose.objectText (h : Loose (Byte.openBrace :: r)) :
    ∃ members, ObjectText QuotedKey members (Byte.openBrace :: r) ∧ ∀ m ∈ members, Loose m.2 := by
  obtain ⟨_, _, heq, -, hform⟩ := h.head
  obtain ⟨rfl, rfl⟩ := List.cons.inj heq
  rcases hform with ⟨hmark, -⟩ | ⟨hb, -⟩ | ⟨hb, -⟩ | ⟨-, hobject⟩
  case inr.inr.inr => exact hobject
  all_goals contradiction

theorem Loose.strip (h : Loose t) (h' : Loose t') (hw : Blanks w) (hw' : Blanks w')
    (heq : w ++ (t ++ rest) = w' ++ (t' ++ rest')) : t ++ rest = t' ++ rest' := by
  obtain ⟨b, r, rfl, hblank, -⟩ := h.head
  obtain ⟨b', r', rfl, hblank', -⟩ := h'.head
  obtain ⟨rfl, htail⟩ := hw.cut hw' hblank hblank' heq
  exact congrArg _ htail

/-- Wherever it stands, a loose value ends in one place. -/
def Cuts (t : Bytes) : Prop :=
  ∀ ⦃t' rest rest' : Bytes⦄, Loose t' → Stops rest → Stops rest' → t ++ rest = t' ++ rest' →
    t = t' ∧ rest = rest'

theorem ListText.cut {items items' : List Bytes} (h : ListText items t) (h' : ListText items' t')
    (hall : ∀ u ∈ items, Loose u) (hall' : ∀ u ∈ items', Loose u) (hcuts : ∀ u ∈ items, Cuts u)
    (heq : t ++ rest = t' ++ rest') : items = items' ∧ rest = rest' := by
  obtain ⟨r, rfl, hr⟩ := h
  obtain ⟨r', rfl, hr'⟩ := h'
  have hrows : r ++ Byte.closeBracket :: rest = r' ++ Byte.closeBracket :: rest' := by
    simpa using heq
  refine Row.cut_all rfl (by decide) rfl ?_ ?_ ?_ hr hr' hrows
  · rintro u hu v rfl
    exact (hall v hu).begins
  · rintro u hu v rfl
    exact (hall' v hu).begins
  · rintro u hu u' hu' w w' _ _ rest rest' rfl rfl hw hw' hrest hrest' heq
    exact hcuts _ hu (hall' _ hu') hrest hrest' ((hall _ hu).strip (hall' _ hu') hw hw' heq)

theorem ObjectText.cut {members members' : List (Bytes × Bytes)}
    (h : ObjectText QuotedKey members t) (h' : ObjectText QuotedKey members' t')
    (hall : ∀ m ∈ members, Loose m.2) (hall' : ∀ m ∈ members', Loose m.2)
    (hcuts : ∀ m ∈ members, Cuts m.2) (heq : t ++ rest = t' ++ rest') :
    members = members' ∧ rest = rest' := by
  obtain ⟨r, rfl, hr⟩ := h
  obtain ⟨r', rfl, hr'⟩ := h'
  have hrows : r ++ Byte.closeBrace :: rest = r' ++ Byte.closeBrace :: rest' := by
    simpa using heq
  refine Row.cut_all rfl (by decide) rfl ?_ ?_ ?_ hr hr' hrows
  · exact fun _ _ _ hm => QuotedKey.begins hm
  · exact fun _ _ _ hm => QuotedKey.begins hm
  · intro m hm m' hm' w w' u u' rest rest' hu hu' hw hw' hrest hrest' heq
    refine QuotedKey.cut hu hu' hw hw' (fun hv hv' hvalues => ?_) heq
    exact hcuts m hm (hall' m' hm') hrest hrest' ((hall m hm).strip (hall' m' hm') hv hv' hvalues)

theorem IsWord.cuts (hword : IsWord t) (ht : WellFormed t) : Cuts t := by
  intro t' rest rest' h' hrest hrest' heq
  obtain ⟨b, r, rfl, -⟩ := ht.solid
  obtain ⟨r', rfl⟩ := h'.exists_eq_cons heq
  have ht' := h'.wellFormed (isWord_eq_true.mp (hword b List.mem_cons_self)).2
  exact ht.cut ht' Blanks.nil Blanks.nil (fun _ _ => hrest) (fun _ _ => hrest') heq

/-- **Loose values end in one place.** -/
theorem Loose.cuts (h : Loose t) : Cuts t := by
  induction h with
  | keyword h => exact h.isWord.cuts (.keyword h)
  | numeral h => exact h.isWord.cuts (.numeral h)
  | literal h =>
    intro t' rest rest' h' hrest hrest' heq
    obtain ⟨r, rfl, hr⟩ := h
    obtain ⟨r', rfl⟩ := h'.exists_eq_cons heq
    obtain ⟨s, hs, hr'⟩ := h'.quoted
    obtain rfl := (List.cons.inj hs).2
    obtain ⟨rfl, hrest⟩ := hr.cut hr' (show r ++ Byte.quote :: rest = s ++ Byte.quote :: rest' by
      simpa using heq)
    exact ⟨rfl, hrest⟩
  | list h hall ih =>
    intro t' rest rest' h' _ _ heq
    obtain ⟨r, rfl, -⟩ := id h
    obtain ⟨r', rfl⟩ := h'.exists_eq_cons heq
    obtain ⟨items', h', hall'⟩ := h'.listText
    obtain ⟨-, rfl⟩ := h.cut h' hall hall' ih heq
    exact ⟨List.append_cancel_right heq, rfl⟩
  | object h hall ih =>
    intro t' rest rest' h' _ _ heq
    obtain ⟨r, rfl, -⟩ := id h
    obtain ⟨r', rfl⟩ := h'.exists_eq_cons heq
    obtain ⟨members', h', hall'⟩ := h'.objectText
    obtain ⟨-, rfl⟩ := h.cut h' hall hall' ih heq
    exact ⟨List.append_cancel_right heq, rfl⟩

theorem ListText.unique_loose {items items' : List Bytes} (h : ListText items t)
    (h' : ListText items' t) (hall : ∀ u ∈ items, Loose u) (hall' : ∀ u ∈ items', Loose u) :
    items = items' :=
  (h.cut h' hall hall' (fun u hu => (hall u hu).cuts) (rfl : t ++ [] = t ++ [])).1

theorem ObjectText.unique_quoted {members members' : List (Bytes × Bytes)}
    (h : ObjectText QuotedKey members t) (h' : ObjectText QuotedKey members' t)
    (hall : ∀ m ∈ members, Loose m.2) (hall' : ∀ m ∈ members', Loose m.2) : members = members' :=
  (h.cut h' hall hall' (fun m hm => (hall m hm).cuts) (rfl : t ++ [] = t ++ [])).1

/-! ## Keys -/

/-- Quoted keys spell the keys of these members, one by one. -/
def SpellsKeys (raws : List (Bytes × Bytes)) (members : List (String × Bytes)) : Prop :=
  List.Forall₂ (fun raw m => KeyText m.1 raw.1 ∧ raw.2 = m.2) raws members

section

variable {raws : List (Bytes × Bytes)} {members members' : List (String × Bytes)}

theorem SpellsKeys.unique (h : SpellsKeys raws members) (h' : SpellsKeys raws members') :
    members = members' := by
  induction h generalizing members' with
  | nil =>
    cases h'
    rfl
  | cons hm _ ih =>
    obtain _ | ⟨hm', h'⟩ := h'
    rw [Prod.ext (hm.1.unique hm'.1) (hm.2.symm.trans hm'.2), ih h']

theorem SpellsKeys.map_snd (h : SpellsKeys raws members) : raws.map (·.2) = members.map (·.2) := by
  induction h with
  | nil => rfl
  | cons hm _ ih => rw [List.map_cons, List.map_cons, hm.2, ih]

theorem SpellsKeys.loose_iff (h : SpellsKeys raws members) :
    (∀ m ∈ raws, Loose m.2) ↔ ∀ m ∈ members, Loose m.2 := by
  rw [← List.forall_mem_map (f := fun m : Bytes × Bytes => m.2) (P := Loose), h.map_snd,
    List.forall_mem_map]

theorem row_iff_spellsKeys : Row (MemberText KeyText) first members r ↔
    ∃ raws, Row (MemberText QuotedKey) first raws r ∧ SpellsKeys raws members := by
  constructor
  · intro h
    induction h with
    | nil hw => exact ⟨[], .nil hw, .nil⟩
    | cons hlead hm _ ih =>
      obtain ⟨raws, hrow, hspelled⟩ := ih
      obtain ⟨hkey, hw, hw'⟩ := hm
      rename_i l t _ _
      exact ⟨(l, t) :: raws,
        .cons hlead (.mk ⟨rfl, (Literal.LiteralText.form hkey).quoted⟩ hw hw') hrow,
        .cons ⟨hkey, rfl⟩ hspelled⟩
  · rintro ⟨raws, hrow, hspelled⟩
    induction hspelled generalizing first r with
    | nil =>
      cases hrow with
      | nil hw => exact .nil hw
    | cons hm _ ih =>
      cases hrow with
      | cons hlead hraw hrow =>
        obtain ⟨⟨rfl, -⟩, hw, hw'⟩ := hraw
        obtain ⟨hkey, rfl⟩ := hm
        exact .cons hlead (.mk hkey hw hw') (ih hrow)

theorem objectText_iff_spellsKeys : ObjectText KeyText members t ↔
    ∃ raws, ObjectText QuotedKey raws t ∧ SpellsKeys raws members := by
  constructor
  · rintro ⟨r, rfl, hrow⟩
    obtain ⟨raws, hrow, hspelled⟩ := row_iff_spellsKeys.mp hrow
    exact ⟨raws, ⟨r, rfl, hrow⟩, hspelled⟩
  · rintro ⟨raws, ⟨r, rfl, hrow⟩, hspelled⟩
    exact ⟨r, rfl, row_iff_spellsKeys.mpr ⟨raws, hrow, hspelled⟩⟩

/-- **An object has the members whose keys are spelled, and no others.** -/
theorem ObjectText.iff_spellsKeys (h : ObjectText QuotedKey raws t) (hall : ∀ m ∈ raws, Loose m.2)
    (hmembers : ∀ m ∈ members, Loose m.2) :
    ObjectText KeyText members t ↔ SpellsKeys raws members := by
  constructor
  · intro htext
    obtain ⟨raws', h', hspelled⟩ := objectText_iff_spellsKeys.mp htext
    rwa [h.unique_quoted h' hall (hspelled.loose_iff.mpr hmembers)]
  · exact fun hspelled => objectText_iff_spellsKeys.mpr ⟨raws, h, hspelled⟩

/-- A text is the object of one row of members, as far as its keys are spelled. -/
theorem ObjectText.unique_loose (h : ObjectText KeyText members t)
    (h' : ObjectText KeyText members' t) (hall : ∀ m ∈ members, Loose m.2)
    (hall' : ∀ m ∈ members', Loose m.2) : members = members' := by
  obtain ⟨raws, h, hspelled⟩ := objectText_iff_spellsKeys.mp h
  exact hspelled.unique ((h.iff_spellsKeys (hspelled.loose_iff.mpr hall) hall').mp h')

theorem ObjectText.loose (h : ObjectText KeyText members t) (hall : ∀ m ∈ members, Loose m.2) :
    Loose t := by
  obtain ⟨raws, h, hspelled⟩ := objectText_iff_spellsKeys.mp h
  exact .object h (hspelled.loose_iff.mpr hall)

end

/-! ## Records -/

section

variable {fs : Fields} {α : Type} {OfMembers OfElements : fs.Partial → α → Prop} {v : α}

/-- An object of loose values is a text of a record if and only if its quoted keys spell those of
members that make one. -/
theorem recordText_quoted {raws : List (Bytes × Bytes)} (h : ObjectText QuotedKey raws t)
    (hall : ∀ m ∈ raws, Loose m.2) :
    RecordText fs.Named fs.Listed OfMembers OfElements t v ↔
      ∃ members, SpellsKeys raws members ∧ ∃ p, fs.Named members p ∧ OfMembers p v := by
  constructor
  · rintro (⟨htext, hnamed, hv⟩ | ⟨htext, -, -⟩)
    · have hmembers := fs.wellFormed_members fs.valid hnamed
      exact ⟨_, (h.iff_spellsKeys hall fun m hm => (hmembers m hm).loose).mp htext, _, hnamed, hv⟩
    · exact absurd htext h.not_listText
  · rintro ⟨members, hspelled, p, hnamed, hv⟩
    exact .object (objectText_iff_spellsKeys.mpr ⟨raws, h, hspelled⟩) hnamed hv

theorem recordText_object_loose {members : List (String × Bytes)}
    (h : ObjectText KeyText members t) (hall : ∀ m ∈ members, Loose m.2) :
    RecordText fs.Named fs.Listed OfMembers OfElements t v ↔
      ∃ p, fs.Named members p ∧ OfMembers p v := by
  obtain ⟨raws, h, hspelled⟩ := objectText_iff_spellsKeys.mp h
  rw [recordText_quoted h (hspelled.loose_iff.mpr hall)]
  constructor
  · rintro ⟨members', hspelled', hp⟩
    rwa [hspelled.unique hspelled']
  · exact fun hp => ⟨members, hspelled, hp⟩

theorem recordText_list_loose {items : List Bytes} (h : ListText items t)
    (hall : ∀ u ∈ items, Loose u) :
    RecordText fs.Named fs.Listed OfMembers OfElements t v ↔
      ∃ p, fs.Listed items p ∧ OfElements p v := by
  constructor
  · rintro (⟨htext, -, -⟩ | ⟨htext, hlisted, hv⟩)
    · exact absurd h htext.not_listText
    · have hitems := fs.wellFormed_items fs.valid hlisted
      obtain rfl := h.unique_loose htext hall fun u hu => (hitems u hu).loose
      exact ⟨_, hlisted, hv⟩
  · rintro ⟨p, hlisted, hv⟩
    exact .list h hlisted hv

end

end ProtectionDomain.Json
