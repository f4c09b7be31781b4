import Mathlib.Data.List.Sublists
import ProtectionDomain.Proofs.Json.Encode
import ProtectionDomain.Proofs.Json.Unique

/-!
# Outlines

The outline of a value is what can be said of it without a look at the fields: its form, or the
names in it. A shape writes values of a few outlines only, and the outline alone may rule out that
another shape reads the value.

* `Value.HasText.wellFormed`, `HasText.of_literalText`, `HasText.of_objectText` and the like: what a
  text says of the value that it was written for;
* `Outline`, `Outline.Fits`: outlines, and the values that have them;
* `Shape.outlines`, `Shape.exists_outline`: what a shape writes has one of its outlines;
* `Shape.mayRead`, **`Shape.mayRead_of_denotes`**: the outlines that a shape does not rule out, and
  what it reads has one of these;
* `Shape.denotes_unknown`: settings of other names are read as none.
-/

namespace ProtectionDomain.Json

namespace Value

/-! ## Values from their texts -/

mutual

theorem HasText.wellFormed : {v : Value} → {t : Bytes} → v.HasText t → WellFormed t
  | null, _, h => .keyword h
  | flag _, _, h => .keyword h
  | number n, _, h => h ▸ .numeral (Numeral.numeralText_digitsOf n)
  | text _, _, h => .literal (Literal.LiteralText.form h)
  | list items, _, ⟨texts, htext, htexts⟩ => .list htext (wellFormed_items items texts htexts)
  | object members, _, ⟨texts, htext, htexts⟩ =>
    wellFormed_object htext (wellFormed_members members texts htexts)

theorem wellFormed_items : (vs : List Value) → (ts : List Bytes) → ItemsHaveTexts vs ts →
    ∀ t ∈ ts, WellFormed t
  | [], [], _, t, ht => absurd ht List.not_mem_nil
  | [], _ :: _, h, _, _ => h.elim
  | _ :: _, [], h, _, _ => h.elim
  | v :: vs, t :: ts, ⟨hv, hvs⟩, u, hu => by
    rcases List.mem_cons.mp hu with rfl | hu
    · exact hv.wellFormed
    · exact wellFormed_items vs ts hvs u hu

theorem wellFormed_members : (ms : List (String × Value)) → (ts : List (String × Bytes)) →
    MembersHaveTexts ms ts → ∀ e ∈ ts, WellFormed e.2
  | [], [], _, e, he => absurd he List.not_mem_nil
  | [], _ :: _, h, _, _ => h.elim
  | _ :: _, [], h, _, _ => h.elim
  | (_, v) :: ms, (_, t) :: ts, ⟨⟨_, hv⟩, hms⟩, e, he => by
    rcases List.mem_cons.mp he with rfl | he
    · exact hv.wellFormed
    · exact wellFormed_members ms ts hms e he

end

section

variable {v : Value} {t : Bytes} (h : v.HasText t)

include h

theorem HasText.of_nullText (ht : NullText t) : v.form = .null := by
  cases ht
  exact h.form_eq rfl

theorem HasText.of_flagText {b : Bool} (ht : FlagText t b) : v.form = .flag := by
  cases ht <;> exact h.form_eq rfl

theorem HasText.of_digits {n : Nat} (ht : t = Numeral.digitsOf n) : v.form = .number := by
  obtain ⟨d, ds, hds, hd⟩ := Numeral.digitsOf_cons n
  have hnumber : (number n).HasText (d :: ds) := hds.symm
  rw [ht, hds] at h
  exact h.form_eq hnumber.ofByte?_eq

theorem HasText.of_listText {items : List Bytes} (ht : ListText items t) : v.form = .list := by
  obtain ⟨r, rfl, -⟩ := ht
  exact h.form_eq rfl

theorem HasText.of_literalText {s : String} (ht : Literal.LiteralText t s) : v = text s := by
  have hform : v.form = .text := by
    obtain ⟨r, rfl, -⟩ := ht
    exact h.form_eq rfl
  cases v with
  | text s' =>
    rw [((Literal.reads_readTextFor .text).unique Blanks.nil Blanks.nil h ht Stops.nil Stops.nil
      rfl).1]
  | null | flag | number | list | object => contradiction

theorem HasText.of_objectText {members : List (String × Bytes)}
    (ht : ObjectText KeyText members t) (hall : ∀ m ∈ members, WellFormed m.2) :
    ∃ ms, v = object ms ∧ MembersHaveTexts ms members := by
  have hform : v.form = .object := by
    obtain ⟨r, rfl, -⟩ := ht
    exact h.form_eq rfl
  cases v with
  | object ms =>
    obtain ⟨texts, htext, htexts⟩ := h
    rw [ht.unique htext hall (wellFormed_members ms texts htexts)]
    exact ⟨ms, rfl, htexts⟩
  | null | flag | number | text | list => contradiction

end

end Value

/-! ## Outlines -/

/-- What can be said of a value without a look at the fields. -/
inductive Outline
  /-- Any value of a form. -/
  | form (f : Value.Form)
  /-- The text of an id. -/
  | id
  /-- The text that is this name. -/
  | name (s : String)
  /-- An object with these keys. -/
  | object (keys : List String)
  /-- An object with a single key, and under it an object with these keys. -/
  | case (s : String) (keys : List String)
  deriving DecidableEq

namespace Outline

/-- The values that have an outline. -/
inductive Fits : Outline → Value → Prop
  | form (v : Value) : Fits (.form v.form) v
  | id (u : Uuid) : Fits .id (.text u.text)
  | name (s : String) : Fits (.name s) (.text s)
  | object (ms : List (String × Value)) : Fits (.object (ms.map (·.1))) (.object ms)
  | case (s : String) (ms : List (String × Value)) :
      Fits (.case s (ms.map (·.1))) (.object [(s, .object ms)])

end Outline

/-- The outlines of what is written for the cases of a choice. -/
def Cases.outlines : Cases → List Outline
  | .nil => []
  | .plain name cs => .name name :: cs.outlines
  | .record name fs cs => .case name fs.names :: cs.outlines

/-- The outlines of what is written for the values of a shape. -/
def Shape.outlines : Shape → List Outline
  | .unsigned _ => [.form .number]
  | .flag => [.form .flag]
  | .text => [.form .text]
  | .uuid => [.id]
  | .list _ => [.form .list]
  | .optional s => .form .null :: s.outlines
  | .record _ fs => [.object fs.names]
  | .settings _ fs => fs.names.sublists.map .object
  | .choice _ cs => cs.outlines

theorem Fields.map_toMembers : (fs : Fields) → (v : fs.Carrier) →
    (fs.toMembers v).map (·.1) = fs.names
  | .nil, () => rfl
  | .cons name _ fs, (_, v) => congrArg (name :: ·) (fs.map_toMembers v)

theorem Cases.exists_outline : (cs : Cases) → (v : cs.Carrier) →
    ∃ o ∈ cs.outlines, o.Fits (cs.toJson v)
  | .nil, v => nomatch v
  | .plain name cs, .inl () => ⟨_, List.mem_cons_self, .name name⟩
  | .record name fs cs, .inl v =>
    ⟨_, List.mem_cons_self, fs.map_toMembers v ▸ .case name (fs.toMembers v)⟩
  | .plain name cs, .inr v => by
    obtain ⟨o, ho, hfits⟩ := cs.exists_outline v
    exact ⟨o, List.mem_cons_of_mem _ ho, hfits⟩
  | .record name fs cs, .inr v => by
    obtain ⟨o, ho, hfits⟩ := cs.exists_outline v
    exact ⟨o, List.mem_cons_of_mem _ ho, hfits⟩

/-- What is written for a value of a shape has one of its outlines. -/
theorem Shape.exists_outline : (s : Shape) → (v : s.Carrier) →
    ∃ o ∈ s.outlines, o.Fits (s.toJson v)
  | .unsigned _, n => ⟨_, List.mem_singleton_self _, .form (.number _)⟩
  | .flag, b => ⟨_, List.mem_singleton_self _, .form (.flag b)⟩
  | .text, s => ⟨_, List.mem_singleton_self _, .form (.text s)⟩
  | .uuid, u => ⟨_, List.mem_singleton_self _, .id u⟩
  | .list _, xs => ⟨_, List.mem_singleton_self _, .form (.list _)⟩
  | .optional s, none => ⟨_, List.mem_cons_self, .form .null⟩
  | .optional s, some x => by
    obtain ⟨o, ho, hfits⟩ := s.exists_outline x
    exact ⟨o, List.mem_cons_of_mem _ ho, hfits⟩
  | .record _ fs, v =>
    ⟨_, List.mem_singleton_self _, fs.map_toMembers v ▸ .object (fs.toMembers v)⟩
  | .settings _ fs, p =>
    ⟨_, List.mem_map_of_mem (List.mem_sublists.mpr (fs.map_knownMembers p)), .object _⟩
  | .choice _ cs, v => cs.exists_outline v

/-! ## What an outline rules out -/

/-- The names of the fields that may not be left out. -/
def Fields.required : Fields → List String
  | .nil => []
  | .cons name s fs => if s.isOptional then fs.required else name :: fs.required

namespace Outline

/-- The form of the values. -/
def shown : Outline → Value.Form
  | form f => f
  | id => .text
  | name _ => .text
  | object _ => .object
  | case _ _ => .object

/-- Some of the values may be the text of an id. -/
def mayBeId : Outline → Bool
  | form f => f == .text
  | id => true
  | name s => (Uuid.read? s.toList).isSome
  | _ => false

/-- Some of the values may be one of these names. -/
def mayName (names : List String) : Outline → Bool
  | form f => f == .text
  | id => names.any fun s => (Uuid.read? s.toList).isSome
  | name s => names.contains s
  | _ => false

/-- Some of the values may be an object with all of these keys. -/
def mayHave (keys : List String) : Outline → Bool
  | form f => f == .object
  | object keys' => keys.all keys'.contains
  | case s _ => keys.all [s].contains
  | _ => false

end Outline

/-- Some case has the name, and its fields may be those of an object with these keys. -/
def Cases.mayHold (name : String) (keys : List String) : Cases → Bool
  | .nil => false
  | .plain _ cs => cs.mayHold name keys
  | .record name' fs cs => (name' == name && fs.required.all keys.contains) || cs.mayHold name keys

/-- Some of the values of an outline may be an object with the name and the fields of a case. -/
def Cases.mayContain (cs : Cases) : Outline → Bool
  | .form f => f == .object
  | .object keys => keys.any cs.names.contains
  | .case s keys => cs.mayHold s keys
  | _ => false

/-- The shape may read some of the values of an outline. -/
def Shape.mayRead : Shape → Outline → Bool
  | .unsigned _, o => o.shown == .number
  | .flag, o => o.shown == .flag
  | .text, o => o.shown == .text
  | .uuid, o => o.mayBeId
  | .list _, o => o.shown == .list
  | .optional s, o => o.shown == .null || s.mayRead o
  | .record _ fs, o => o.shown == .list || o.mayHave fs.required
  | .settings _ _, o => o.shown == .list || o.shown == .object
  | .choice _ cs, o => o.mayName cs.names || cs.mayContain o

namespace Outline.Fits

variable {o : Outline}

theorem shown_eq {v : Value} (h : o.Fits v) : o.shown = v.form := by
  cases h <;> rfl

theorem mayBeId {s : String} {u : Uuid} (h : o.Fits (.text s)) (hs : Uuid.read? s.toList = some u) :
    o.mayBeId = true := by
  cases h with
  | form | id => rfl
  | name => simp [Outline.mayBeId, hs]

theorem mayName {s : String} {names : List String} (h : o.Fits (.text s)) (hs : s ∈ names) :
    o.mayName names = true := by
  cases h with
  | form => rfl
  | id u =>
    rw [Outline.mayName, List.any_eq_true]
    exact ⟨_, hs, by simp [u.read?_text]⟩
  | name => simpa [Outline.mayName] using hs

theorem mayHave {ms : List (String × Value)} {keys : List String} (h : o.Fits (.object ms))
    (hkeys : ∀ k ∈ keys, k ∈ ms.map (·.1)) : o.mayHave keys = true := by
  cases h with
  | form => rfl
  | object => simpa [Outline.mayHave] using hkeys
  | case s ms => simpa [Outline.mayHave] using hkeys

end Outline.Fits

theorem Fields.mem_of_required : (fs : Fields) → {members : List (String × Bytes)} →
    {p : fs.Partial} → {v : fs.Carrier} → fs.Named members p → fs.complete p = .ok v →
    ∀ k ∈ fs.required, k ∈ members.map (·.1)
  | .nil, _, _, _, _, _, k, hk => absurd hk List.not_mem_nil
  | .cons name s fs, members, (x, p), v, ⟨hgives, hnamed⟩, hcomplete, k, hk => by
    have hrest : ∃ v', fs.complete p = .ok v' := by
      rw [Fields.complete] at hcomplete
      split at hcomplete
      · contradiction
      · obtain ⟨v', hv', -⟩ := map_eq_ok.mp hcomplete
        exact ⟨v', hv'⟩
    obtain ⟨v', hv'⟩ := hrest
    have htail : k ∈ fs.required → k ∈ members.map (·.1) := by
      intro hk
      obtain ⟨m, hm, rfl⟩ := List.mem_map.mp (fs.mem_of_required hnamed hv' k hk)
      exact List.mem_map_of_mem (mem_without.mp hm).1
    rw [Fields.required] at hk
    split at hk
    · exact htail hk
    · next hs =>
      rcases List.mem_cons.mp hk with rfl | hk
      · cases x with
        | none =>
          cases s with
          | optional => exact absurd rfl hs
          | unsigned | flag | text | uuid | list | record | settings | choice => contradiction
        | some x =>
          obtain ⟨t, ht, -⟩ := hgives
          have hmem : t ∈ valuesOf k members := ht ▸ List.mem_singleton_self t
          obtain ⟨m, hm, -⟩ := List.mem_map.mp hmem
          obtain ⟨hm, hkey⟩ := List.mem_filter.mp hm
          exact of_decide_eq_true hkey ▸ List.mem_map_of_mem hm
      · exact htail hk

theorem Fields.mayHave_of_text {fs : Fields} {t : Bytes} {v : fs.Carrier} (ht : fs.Text t v)
    {j : Value} (hj : j.HasText t) :
    j.form = .list ∨ ∃ ms, j = .object ms ∧ ∀ k ∈ fs.required, k ∈ ms.map (·.1) := by
  cases ht with
  | list htext _ _ => exact .inl (hj.of_listText htext)
  | object htext hnamed hcomplete =>
    obtain ⟨ms, rfl, hms⟩ := hj.of_objectText htext (fs.wellFormed_members fs.valid hnamed)
    refine .inr ⟨ms, rfl, ?_⟩
    rw [← hms.keys]
    exact fs.mem_of_required hnamed hcomplete

theorem Cases.mem_names_of_holds : (cs : Cases) → {name : String} → {content : Option Bytes} →
    {v : cs.Carrier} → cs.Holds name content v → name ∈ cs.names
  | .plain _ _, _, _, .inl (), h => List.mem_cons.mpr (.inl h.1)
  | .plain _ cs, _, _, .inr _, h => List.mem_cons_of_mem _ (cs.mem_names_of_holds h.2)
  | .record _ _ _, _, _, .inl _, h => List.mem_cons.mpr (.inl h.1)
  | .record _ _ cs, _, _, .inr _, h => List.mem_cons_of_mem _ (cs.mem_names_of_holds h.2)

theorem Cases.mayHold_of_holds : (cs : Cases) → {name : String} → {t : Bytes} →
    {v : cs.Carrier} → cs.Holds name (some t) v → {ms : List (String × Value)} →
    (Value.object ms).HasText t → cs.mayHold name (ms.map (·.1)) = true
  -- a name alone has `null` under it, if anything
  | .plain _ _, _, t, .inl (), h, _, ht => nomatch ht.of_nullText (h.2 t rfl)
  | .plain _ cs, _, _, .inr _, h, _, ht => cs.mayHold_of_holds h.2 ht
  | .record _ _ cs, _, _, .inr _, h, _, ht => by
    rw [Cases.mayHold, cs.mayHold_of_holds h.2 ht, Bool.or_true]
  | .record name fs cs, _, t, .inl v, h, ms, ht => by
    obtain ⟨rfl, u, hu, htext⟩ := h
    obtain rfl := Option.some.inj hu
    obtain hlist | ⟨ms', heq, hkeys⟩ := Fields.mayHave_of_text htext ht
    · contradiction
    · cases heq
      have hall : fs.required.all (ms.map (·.1)).contains = true := by simpa using hkeys
      rw [Cases.mayHold, hall, beq_self_eq_true]
      rfl

theorem Shape.mayRead_of_caseText {choice name : String} {cs : Cases} {content : Option Bytes}
    {o : Outline} {j : Value} {t : Bytes} {v : cs.Carrier} (hfits : o.Fits j) (hj : j.HasText t)
    (hcase : CaseText t name content) (hholds : cs.Holds name content v) :
    (Shape.choice choice cs).mayRead o = true := by
  have hname := cs.mem_names_of_holds hholds
  rw [Shape.mayRead]
  cases hcase with
  | alone hkey =>
    rw [hj.of_literalText hkey] at hfits
    rw [hfits.mayName hname]
    rfl
  | content htext =>
    have hu := cs.wellFormed_content cs.valid hholds
    obtain ⟨ms, rfl, hms⟩ := hj.of_objectText htext (by simpa using hu)
    -- the object has one text, and so one member
    match ms, hms with
    | [(key, j')], ⟨⟨hkey, hj'⟩, _⟩ =>
      subst hkey
      have hcontain : cs.mayContain o = true := by
        cases hfits with
        | form => rfl
        | object => simpa [Cases.mayContain] using hname
        | case _ ms' => exact cs.mayHold_of_holds hholds hj'
      rw [hcontain, Bool.or_true]

theorem Shape.mayRead_of_settings {name : String} {fs : Fields} {o : Outline} {j : Value}
    {t : Bytes} {p : fs.Partial} (hfits : o.Fits j) (hj : j.HasText t)
    (ht : RecordText fs.Named fs.Listed Eq Eq t p) :
    (Shape.settings name fs).mayRead o = true := by
  rw [Shape.mayRead, hfits.shown_eq]
  cases ht with
  | list htext _ _ =>
    rw [hj.of_listText htext]
    rfl
  | object htext hnamed _ =>
    obtain ⟨ms, rfl, -⟩ := hj.of_objectText htext (fs.wellFormed_members fs.valid hnamed)
    rfl

/-- **What a shape reads has an outline that it does not rule out.** -/
theorem Shape.mayRead_of_denotes : (s : Shape) → {o : Outline} → {j : Value} → {t : Bytes} →
    {v : s.Carrier} → o.Fits j → j.HasText t → s.Denotes t v → s.mayRead o = true
  | .unsigned _, o, j, t, v, hfits, hj, ht => by
    rw [Shape.mayRead, hfits.shown_eq, hj.of_digits ht]
    rfl
  | .flag, o, j, t, v, hfits, hj, ht => by
    rw [Shape.mayRead, hfits.shown_eq, hj.of_flagText ht]
    rfl
  | .text, o, j, t, v, hfits, hj, ht => by
    rw [Shape.mayRead, hfits.shown_eq, hj.of_literalText ht]
    rfl
  | .uuid, o, j, t, v, hfits, hj, ht => by
    obtain ⟨s, hs, hread⟩ := ht
    rw [hj.of_literalText hs] at hfits
    exact hfits.mayBeId hread
  | .list _, o, j, t, v, hfits, hj, ht => by
    obtain ⟨items, htext, -⟩ := ht
    rw [Shape.mayRead, hfits.shown_eq, hj.of_listText htext]
    rfl
  | .optional s, o, j, t, none, hfits, hj, ht => by
    rw [Shape.mayRead, hfits.shown_eq, hj.of_nullText ht]
    rfl
  | .optional s, o, j, t, some x, hfits, hj, ht => by
    rw [Shape.mayRead, s.mayRead_of_denotes hfits hj ht.1, Bool.or_true]
  | .record _ fs, o, j, t, v, hfits, hj, ht => by
    obtain hlist | ⟨ms, rfl, hkeys⟩ := Fields.mayHave_of_text ht hj
    · rw [Shape.mayRead, hfits.shown_eq, hlist]
      rfl
    · rw [Shape.mayRead, hfits.mayHave hkeys, Bool.or_true]
  | .settings _ _, _, _, _, _, hfits, hj, ht => mayRead_of_settings hfits hj ht
  | .choice _ _, _, _, _, _, hfits, hj, ⟨_, _, hcase, hholds⟩ =>
    mayRead_of_caseText hfits hj hcase hholds

/-! ## Other settings -/

/-- Every key of the values is none of these names. -/
def Outline.avoids (names : List String) : Outline → Bool
  | .form f => f != .object
  | .object keys => keys.all fun k => !names.contains k
  | .case s _ => !names.contains s
  | _ => true

theorem Outline.Fits.not_mem {o : Outline} {ms : List (String × Value)} {names : List String}
    (h : o.Fits (.object ms)) (hnames : o.avoids names = true) : ∀ m ∈ ms, m.1 ∉ names := by
  cases h with
  | form => contradiction
  | object =>
    intro m hm
    have hall := List.all_eq_true.mp hnames m.1 (List.mem_map_of_mem hm)
    simpa using hall
  | case => simpa [Outline.avoids] using hnames

theorem Fields.named_unknown : (fs : Fields) → {members : List (String × Bytes)} →
    (∀ m ∈ members, WellFormed m.2) → (∀ m ∈ members, m.1 ∉ fs.names) →
    fs.Named members fs.unknown
  | .nil, _, hall, _ => hall
  | .cons name s fs, members, hall, hnames => by
    have hne : ∀ m ∈ members, m.1 ≠ name := by
      rintro m hm rfl
      exact hnames m hm List.mem_cons_self
    refine ⟨valuesOf_eq_nil hne, ?_⟩
    show fs.Named (without name members) fs.unknown
    rw [without_eq_self hne]
    exact fs.named_unknown hall fun m hm hmem => hnames m hm (List.mem_cons_of_mem name hmem)

/-- An object that has none of the settings stands for their defaults. -/
theorem Shape.denotes_unknown {name : String} {fs : Fields} {ms : List (String × Value)}
    {t : Bytes} (hms : ∀ m ∈ ms, m.1 ∉ fs.names) (ht : (Value.object ms).HasText t) :
    (Shape.settings name fs).Denotes t fs.unknown := by
  obtain ⟨texts, htext, htexts⟩ := ht
  have hall := Value.wellFormed_members ms texts htexts
  refine .object htext (fs.named_unknown hall fun e he => ?_) rfl
  have hkey : e.1 ∈ ms.map (·.1) := htexts.keys ▸ List.mem_map_of_mem he
  obtain ⟨m, hm, heq⟩ := List.mem_map.mp hkey
  exact heq ▸ hms m hm

end ProtectionDomain.Json
