import ProtectionDomain.Proofs.Json.Loose
import ProtectionDomain.Proofs.Json.Place

/-!
# One value of a document

A document that is valid but for the bytes in the place of one of its values is read if and only if
these stand for a value, and then as what that value makes of the rest.

* `Fields.Place.index`, `listed_iff`, `all?_put`: the place of a field in a list;
* `Fields.Place.Leaves`: a record that is valid but for the bytes in the place of one field;
  `Leaves.recordText_iff`: what these make of it;
* `Cases.Place`, `holds_iff`: the place of a case among cases;
* `Slot`: the place of a value at any depth of a document; **`Slot.denotes_iff`**: what the bytes
  there make of it;
* `objectBytes`, **`Shape.denotes_quoted`**: an object in any place, from the keys that it spells.
-/

namespace ProtectionDomain.Json

variable {name key : String} {s S : Shape} {fs : Fields} {t t₀ u T : Bytes}

/-! ## Fields in lists -/

theorem Fields.listed_unique : (fs : Fields) → ∀ {items p q}, fs.Listed items p →
    fs.Listed items q → p = q
  | .nil, _, (), (), _, _ => rfl
  | .cons _ _ _, [], _, _, hp, hq => hp.trans hq.symm
  | .cons _ _ fs, _ :: _, (_, _), (_, _), ⟨⟨_, rfl, hx⟩, hp⟩, ⟨⟨_, rfl, hy⟩, hq⟩ => by
    rw [Shape.denotes_unique hx hy, fs.listed_unique hp hq]

namespace Fields.Place

/-- How many fields stand in front of the field. -/
def index : {fs : Fields} → Place name s fs → Nat
  | _, here => 0
  | _, there _ i => i.index + 1

/-- Another item in the place of a field changes that field and nothing else. -/
theorem listed_iff : {fs : Fields} → (i : Place name s fs) →
    ∀ {before after : List Bytes} {t₀ t : Bytes} {p₀ p : fs.Partial}, before.length = i.index →
    fs.Listed (before ++ t₀ :: after) p₀ →
    (fs.Listed (before ++ t :: after) p ↔ ∃ x, s.Denotes t x ∧ p = i.put p₀ x)
  | .cons _ _ fs, here, before, after, t₀, t, (x₀, p₀), (x, p), hlength, h => by
    obtain rfl := List.length_eq_zero_iff.mp hlength
    obtain ⟨-, hp₀⟩ := h
    constructor
    · rintro ⟨⟨y, rfl, hy⟩, hp⟩
      exact ⟨y, hy, by rw [fs.listed_unique hp hp₀]; rfl⟩
    · rintro ⟨y, hy, heq⟩
      obtain ⟨rfl, rfl⟩ := Prod.mk.inj heq
      exact ⟨⟨y, rfl, hy⟩, hp₀⟩
  | .cons _ s' fs, there _ i, before, after, t₀, t, (x₀, p₀), (x, p), hlength, h => by
    obtain ⟨b, before, rfl⟩ := List.exists_cons_of_length_eq_add_one hlength
    obtain ⟨⟨z, rfl, hz⟩, hp₀⟩ := h
    rw [List.cons_append, Listed, i.listed_iff (Nat.succ.inj hlength) hp₀]
    constructor
    · rintro ⟨⟨z', rfl, hz'⟩, y, hy, rfl⟩
      exact ⟨y, hy, by rw [Shape.denotes_unique hz' hz]; rfl⟩
    · rintro ⟨y, hy, heq⟩
      obtain ⟨rfl, rfl⟩ := Prod.mk.inj heq
      exact ⟨⟨z, rfl, hz⟩, y, hy, rfl⟩

theorem all?_put : {fs : Fields} → (i : Place name s fs) → ∀ {p : fs.Partial} {v : fs.Carrier}
    (x : s.Carrier), fs.all? p = some v → fs.all? (i.put p x) = some (i.set v x)
  | .cons _ _ _, here, (_, _), (_, _), _, h =>
    all?_cons_eq_some.mpr ⟨rfl, (all?_cons_eq_some.mp h).2⟩
  | .cons _ _ _, there _ i, (_, _), (_, _), x, h => by
    obtain ⟨hy, hv⟩ := all?_cons_eq_some.mp h
    exact all?_cons_eq_some.mpr ⟨hy, i.all?_put x hv⟩

/-! ## Records -/

section

variable {α : Type} {OfMembers OfElements : fs.Partial → α → Prop} {v₀ v : α}

/-- A text that is one of a record but for the bytes in the place of one field. With other bytes
there it would stand for this record. -/
inductive Leaves (i : Place name s fs) (OfMembers OfElements : fs.Partial → α → Prop) (t : Bytes) :
    Bytes → α → Prop
  | member {before after : List (String × Bytes)} {t₀ T : Bytes} {p₀ : fs.Partial} {v₀ : α} :
      fs.Named (before ++ (name, t₀) :: after) p₀ → OfMembers p₀ v₀ →
      ObjectText KeyText (before ++ (name, t) :: after) T → Leaves i OfMembers OfElements t T v₀
  | element {before after : List Bytes} {t₀ T : Bytes} {p₀ : fs.Partial} {v₀ : α} :
      fs.Listed (before ++ t₀ :: after) p₀ → OfElements p₀ v₀ → before.length = i.index →
      ListText (before ++ t :: after) T → Leaves i OfMembers OfElements t T v₀

variable {i : Place name s fs}

theorem loose_members {before after : List (String × Bytes)} {p₀ : fs.Partial} (ht : Loose t)
    (h : fs.Named (before ++ (name, t₀) :: after) p₀) :
    ∀ m ∈ before ++ (name, t) :: after, Loose m.2 := by
  have hall := fs.wellFormed_members fs.valid h
  rw [List.forall_mem_append, List.forall_mem_cons] at hall ⊢
  exact ⟨fun m hm => (hall.1 m hm).loose, ht, fun m hm => (hall.2.2 m hm).loose⟩

theorem loose_items {before after : List Bytes} {p₀ : fs.Partial} (ht : Loose t)
    (h : fs.Listed (before ++ t₀ :: after) p₀) : ∀ u ∈ before ++ t :: after, Loose u := by
  have hall := fs.wellFormed_items fs.valid h
  rw [List.forall_mem_append, List.forall_mem_cons] at hall ⊢
  exact ⟨fun u hu => (hall.1 u hu).loose, ht, fun u hu => (hall.2.2 u hu).loose⟩

theorem Leaves.loose (h : i.Leaves OfMembers OfElements t T v₀) (ht : Loose t) : Loose T := by
  cases h with
  | member hnamed _ htext => exact htext.loose (loose_members ht hnamed)
  | element hlisted _ _ htext => exact .list htext (loose_items ht hlisted)

/-- Bytes in the place of a field make the record with the value that they stand for. -/
theorem Leaves.recordText_iff (h : i.Leaves OfMembers OfElements t T v₀) (ht : Loose t)
    {set : α → s.Carrier → α}
    (hmembers : ∀ {p v w x}, OfMembers p v → (OfMembers (i.put p x) w ↔ w = set v x))
    (helements : ∀ {p v w x}, OfElements p v → (OfElements (i.put p x) w ↔ w = set v x)) :
    RecordText fs.Named fs.Listed OfMembers OfElements T v ↔
      ∃ x, s.Denotes t x ∧ v = set v₀ x := by
  cases h with
  | member hnamed hv₀ htext =>
    rw [recordText_object_loose htext (loose_members ht hnamed)]
    constructor
    · rintro ⟨p, hp, hv⟩
      obtain ⟨x, hx, rfl⟩ := (i.named_iff hnamed).mp hp
      exact ⟨x, hx, (hmembers hv₀).mp hv⟩
    · rintro ⟨x, hx, hv⟩
      exact ⟨_, (i.named_iff hnamed).mpr ⟨x, hx, rfl⟩, (hmembers hv₀).mpr hv⟩
  | element hlisted hv₀ hindex htext =>
    rw [recordText_list_loose htext (loose_items ht hlisted)]
    constructor
    · rintro ⟨p, hp, hv⟩
      obtain ⟨x, hx, rfl⟩ := (i.listed_iff hindex hlisted).mp hp
      exact ⟨x, hx, (helements hv₀).mp hv⟩
    · rintro ⟨x, hx, hv⟩
      exact ⟨_, (i.listed_iff hindex hlisted).mpr ⟨x, hx, rfl⟩, (helements hv₀).mpr hv⟩

end

/-- A record that is valid but for one field. -/
abbrev LeavesRecord (i : Place name s fs) : Bytes → Bytes → fs.Carrier → Prop :=
  i.Leaves (fun p v => fs.complete p = .ok v) fun p v => fs.all? p = some v

/-- Settings that are valid but for one of them. -/
abbrev LeavesSettings (i : Place name s fs) : Bytes → Bytes → fs.Partial → Prop :=
  i.Leaves Eq Eq

theorem LeavesRecord.text_iff {i : Place name s fs} {v₀ v : fs.Carrier}
    (h : i.LeavesRecord t T v₀) (ht : Loose t) :
    fs.Text T v ↔ ∃ x, s.Denotes t x ∧ v = i.set v₀ x := by
  refine Leaves.recordText_iff h ht (fun hp => ?_) fun hp => ?_
  · rw [i.complete_put _ hp, Except.ok.injEq, eq_comm]
  · rw [i.all?_put _ hp, Option.some.injEq, eq_comm]

theorem LeavesSettings.text_iff {i : Place name s fs} {p₀ p : fs.Partial}
    (h : i.LeavesSettings t T p₀) (ht : Loose t) :
    RecordText fs.Named fs.Listed Eq Eq T p ↔ ∃ x, s.Denotes t x ∧ p = i.put p₀ x := by
  refine Leaves.recordText_iff h ht (fun hp => ?_) fun hp => ?_
  · rw [hp, eq_comm]
  · rw [hp, eq_comm]

end Fields.Place

/-! ## Cases -/

/-- Where a case with a name and fields stands among cases. -/
inductive Cases.Place (name : String) (fs : Fields) : Cases → Type
  | here {cs : Cases} : Place name fs (.record name fs cs)
  | plain {other : String} {cs : Cases} : other ≠ name → Place name fs cs →
      Place name fs (.plain other cs)
  | record {other : String} {fs' : Fields} {cs : Cases} : other ≠ name → Place name fs cs →
      Place name fs (.record other fs' cs)

namespace Cases.Place

/-- The case with these fields. -/
def make : {cs : Cases} → Place name fs cs → fs.Carrier → cs.Carrier
  | _, here, x => .inl x
  | _, plain _ i, x => .inr (i.make x)
  | _, record _ i, x => .inr (i.make x)

theorem holds_iff : {cs : Cases} → (i : Place name fs cs) → ∀ {t : Bytes} {v : cs.Carrier},
    cs.Holds name (some t) v ↔ ∃ x, fs.Text t x ∧ v = i.make x
  | .record _ _ _, here, t, .inl x => by
    constructor
    · rintro ⟨-, u, hu, hx⟩
      obtain rfl := Option.some.inj hu
      exact ⟨x, hx, rfl⟩
    · rintro ⟨y, hy, heq⟩
      obtain rfl := Sum.inl.inj heq
      exact ⟨rfl, t, rfl, hy⟩
  | .record _ _ _, here, _, .inr _ => iff_of_false (fun h => h.1 rfl) (by simp [make])
  | .plain _ _, plain hne _, _, .inl _ => iff_of_false (fun h => hne h.1.symm) (by simp [make])
  | .plain _ _, plain hne i, _, .inr _ => by
    rw [Holds, i.holds_iff, and_iff_right hne.symm]
    simp only [make, Sum.inr.injEq]
  | .record _ _ _, record hne _, _, .inl _ => iff_of_false (fun h => hne h.1.symm) (by simp [make])
  | .record _ _ _, record hne i, _, .inr _ => by
    rw [Holds, i.holds_iff, and_iff_right hne.symm]
    simp only [make, Sum.inr.injEq]

end Cases.Place

/-! ## Documents -/

/-- A text of a shape but for the bytes in the place of one value, at any depth, with what a value
there makes of the rest. -/
inductive Slot (s : Shape) (u : Bytes) : (S : Shape) → Bytes → (s.Carrier → S.Carrier) → Prop
  | whole : Slot s u s u id
  | item {S : Shape} {before after : List Bytes} {xs ys : List S.Carrier} {t T : Bytes}
      {fill : s.Carrier → S.Carrier} : List.Forall₂ S.Denotes before xs →
      List.Forall₂ S.Denotes after ys → ListText (before ++ t :: after) T → Slot s u S t fill →
      Slot s u (.list S) T fun y => xs ++ fill y :: ys
  | field {S : Shape} {name record : String} {fs : Fields} {i : fs.Place name S} {t T : Bytes}
      {v₀ : fs.Carrier} {fill : s.Carrier → S.Carrier} : i.LeavesRecord t T v₀ →
      Slot s u S t fill → Slot s u (.record record fs) T fun y => i.set v₀ (fill y)
  | setting {S : Shape} {name record : String} {fs : Fields} {i : fs.Place name S} {t T : Bytes}
      {p₀ : fs.Partial} {fill : s.Carrier → S.Carrier} : i.LeavesSettings t T p₀ →
      Slot s u S t fill → Slot s u (.settings record fs) T fun y => i.put p₀ (fill y)
  | content {name record choice : String} {fs : Fields} {cs : Cases} {i : cs.Place name fs}
      {t T : Bytes} {fill : s.Carrier → fs.Carrier} : ObjectText KeyText [(name, t)] T →
      Slot s u (.record record fs) t fill → Slot s u (.choice choice cs) T fun y => i.make (fill y)

theorem wellFormed_of_forall₂ {items : List Bytes} {xs : List S.Carrier}
    (h : List.Forall₂ S.Denotes items xs) : ∀ u ∈ items, WellFormed u := by
  have hvalues := h.imp fun u x hx => (⟨S.wellFormed u x hx, hx⟩ : _ ∧ S.Denotes u x)
  exact ((List.forall₂_and_left _ _).mp hvalues).1

theorem forall₂_denotes_unique {items : List Bytes} {xs ys : List S.Carrier}
    (h : List.Forall₂ S.Denotes items xs) (h' : List.Forall₂ S.Denotes items ys) : xs = ys := by
  induction h generalizing ys with
  | nil =>
    cases h'
    rfl
  | cons hx _ ih =>
    obtain _ | ⟨hy, h'⟩ := h'
    rw [Shape.denotes_unique hx hy, ih h']

theorem forall₂_place_iff {before after : List Bytes} {xs ys zs : List S.Carrier}
    (hbefore : List.Forall₂ S.Denotes before xs) (hafter : List.Forall₂ S.Denotes after ys) :
    List.Forall₂ S.Denotes (before ++ t :: after) zs ↔ ∃ y, S.Denotes t y ∧ zs = xs ++ y :: ys := by
  constructor
  · intro h
    induction hbefore generalizing zs with
    | nil =>
      obtain _ | ⟨hy, h⟩ := h
      exact ⟨_, hy, by rw [forall₂_denotes_unique h hafter]; rfl⟩
    | cons hx _ ih =>
      obtain _ | ⟨hx', h⟩ := h
      obtain ⟨y, hy, rfl⟩ := ih h
      exact ⟨y, hy, by rw [Shape.denotes_unique hx' hx]; rfl⟩
  · rintro ⟨y, hy, rfl⟩
    exact List.rel_append hbefore (.cons hy hafter)

theorem loose_place {before after : List Bytes} {xs ys : List S.Carrier}
    (hbefore : List.Forall₂ S.Denotes before xs) (hafter : List.Forall₂ S.Denotes after ys)
    (ht : Loose t) : ∀ u ∈ before ++ t :: after, Loose u := by
  rw [List.forall_mem_append, List.forall_mem_cons]
  exact ⟨fun u hu => (wellFormed_of_forall₂ hbefore u hu).loose, ht,
    fun u hu => (wellFormed_of_forall₂ hafter u hu).loose⟩

theorem Slot.loose {fill : s.Carrier → S.Carrier} (h : Slot s u S t fill) (hu : Loose u) :
    Loose t := by
  induction h with
  | whole => exact hu
  | item hbefore hafter htext _ ih =>
    exact .list htext (loose_place hbefore hafter ih)
  | field h _ ih => exact h.loose ih
  | setting h _ ih => exact h.loose ih
  | content htext _ ih =>
    refine htext.loose fun m hm => ?_
    rw [List.mem_singleton.mp hm]
    exact ih

theorem denotes_list_iff {before after : List Bytes} {xs ys zs : List S.Carrier}
    (hbefore : List.Forall₂ S.Denotes before xs) (hafter : List.Forall₂ S.Denotes after ys)
    (htext : ListText (before ++ t :: after) T) (ht : Loose t) :
    (Shape.list S).Denotes T zs ↔ ∃ y, S.Denotes t y ∧ zs = xs ++ y :: ys := by
  rw [← forall₂_place_iff hbefore hafter]
  constructor
  · rintro ⟨items, htext', hitems⟩
    rwa [htext.unique_loose htext' (loose_place hbefore hafter ht) fun u hu =>
      (wellFormed_of_forall₂ hitems u hu).loose]
  · exact fun hitems => ⟨_, htext, hitems⟩

/-- **The bytes in the place of a value make of a document what they stand for.** -/
theorem Slot.denotes_iff {fill : s.Carrier → S.Carrier} (h : Slot s u S t fill) (hu : Loose u)
    {v : S.Carrier} : S.Denotes t v ↔ ∃ y, s.Denotes u y ∧ v = fill y := by
  induction h with
  | whole => simp
  | item hbefore hafter htext hslot ih =>
    exact (denotes_list_iff hbefore hafter htext (hslot.loose hu)).trans (exists_image_iff ih)
  | field h hslot ih => exact (h.text_iff (hslot.loose hu)).trans (exists_image_iff ih)
  | setting h hslot ih => exact (h.text_iff (hslot.loose hu)).trans (exists_image_iff ih)
  | @content _ _ _ _ _ i _ _ _ htext hslot ih =>
    exact (Cases.text_content htext (hslot.loose hu).trimmed).trans
      (i.holds_iff.trans (exists_image_iff ih))

/-! ## Objects -/

/-- The object of members without blanks and with as few escapes in its keys as JSON allows. -/
def objectBytes (members : List (String × Bytes)) : Bytes :=
  Byte.openBrace :: (commas (members.map (memberBytes [])) ++ [Byte.closeBrace])

theorem objectText_objectBytes (members : List (String × Bytes)) :
    ObjectText KeyText members (objectBytes members) := by
  have htext : ObjectText KeyText members _ := objectText_commas Blanks.nil Blanks.nil Blanks.nil
  simpa [objectBytes, Function.comp_def] using htext

section

variable {raws : List (Bytes × Bytes)}

theorem objectText_quoted (h : ∀ m ∈ raws, Literal.Quoted m.1) : ObjectText QuotedKey raws
    (Byte.openBrace ::
      (commas (raws.map fun m => m.1 ++ Byte.colon :: m.2) ++ [Byte.closeBrace])) := by
  have hitems : List.Forall₂ (MemberText QuotedKey) raws
      (raws.map fun m => m.1 ++ Byte.colon :: m.2) := by
    rw [List.forall₂_map_right_iff, List.forall₂_same]
    exact fun m hm => .mk ⟨rfl, h m hm⟩ Blanks.nil Blanks.nil
  have hrow := row_commas Blanks.nil Blanks.nil hitems
  simp only [List.nil_append, List.map_id_fun', id_eq, List.append_nil] at hrow
  exact ⟨_, rfl, hrow⟩

theorem denotes_quoted_of_not {y : s.Carrier} (hnot : ∀ r, ¬ s.Denotes (Byte.openBrace :: r) y)
    (h : ObjectText QuotedKey raws u) :
    s.Denotes u y ↔ ∃ members, SpellsKeys raws members ∧ s.Denotes (objectBytes members) y := by
  obtain ⟨r, rfl, -⟩ := h
  refine iff_of_false (hnot _) ?_
  rintro ⟨members, -, hy⟩
  exact hnot _ hy

theorem denotes_choice_quoted {cs : Cases} {v : cs.Carrier} {choice : String}
    (h : ObjectText QuotedKey raws u) (hall : ∀ m ∈ raws, Loose m.2) :
    (Shape.choice choice cs).Denotes u v ↔
      ∃ members, SpellsKeys raws members ∧
        (Shape.choice choice cs).Denotes (objectBytes members) v := by
  have hloose : ∀ {name t}, cs.Holds name (some t) v → ∀ m ∈ [(name, t)], Loose m.2 := by
    intro name t hholds m hm
    rw [List.mem_singleton.mp hm]
    exact (cs.wellFormed_content cs.valid hholds).loose
  constructor
  · rintro ⟨name, content, hcase, hholds⟩
    cases hcase with
    | alone hkey =>
      obtain ⟨_, rfl, -⟩ := h
      obtain ⟨_, heq, -⟩ := hkey
      exact absurd (List.cons.inj heq).1 (by decide)
    | content htext =>
      exact ⟨_, (h.iff_spellsKeys hall (hloose hholds)).mp htext, name, _,
        .content (objectText_objectBytes _), hholds⟩
  · rintro ⟨members, hspelled, name, content, hcase, hholds⟩
    cases hcase with
    | alone hkey => exact absurd hkey (objectText_objectBytes members).not_keyText
    | content htext =>
      obtain rfl := htext.unique_loose (objectText_objectBytes members) (hloose hholds)
        (hspelled.loose_iff.mp hall)
      exact ⟨name, _, .content (objectText_iff_spellsKeys.mpr ⟨raws, h, hspelled⟩), hholds⟩

theorem denotes_record_quoted {α : Type} {OfMembers OfElements : fs.Partial → α → Prop} {v : α}
    (h : ObjectText QuotedKey raws u) (hall : ∀ m ∈ raws, Loose m.2) :
    RecordText fs.Named fs.Listed OfMembers OfElements u v ↔ ∃ members, SpellsKeys raws members ∧
      RecordText fs.Named fs.Listed OfMembers OfElements (objectBytes members) v := by
  rw [recordText_quoted h hall]
  refine exists_congr fun members => and_congr_right fun hspelled => ?_
  rw [recordText_object_loose (objectText_objectBytes members) (hspelled.loose_iff.mp hall)]

/-- **An object is read from the keys that it spells.** If one of its keys spells nothing, the
object is not read. -/
theorem Shape.denotes_quoted (h : ObjectText QuotedKey raws u) (hall : ∀ m ∈ raws, Loose m.2) :
    (s : Shape) → {y : s.Carrier} →
    (s.Denotes u y ↔ ∃ members, SpellsKeys raws members ∧ s.Denotes (objectBytes members) y)
  | .unsigned z, n => by
    refine denotes_quoted_of_not (fun r hr => ?_) h
    obtain ⟨d, ds, hds, hd⟩ := Numeral.digitsOf_cons (z.toNumber n)
    have heq : Byte.openBrace :: r = d :: ds := Eq.trans hr hds
    rw [← (List.cons.inj heq).1] at hd
    contradiction
  | .flag, _ => denotes_quoted_of_not (fun _ hr => nomatch hr) h
  | .text, _ => denotes_quoted_of_not (fun _ ⟨_, heq, _⟩ => nomatch heq) h
  | .uuid, _ => denotes_quoted_of_not (fun _ ⟨_, ⟨_, heq, _⟩, _⟩ => nomatch heq) h
  | .list _, _ => denotes_quoted_of_not (fun _ ⟨_, ⟨_, heq, _⟩, _⟩ => nomatch heq) h
  | .optional _, none => denotes_quoted_of_not (fun _ hr => nomatch hr) h
  | .optional s, some x => by
    have hnull : ∀ r : Bytes, (Byte.openBrace :: r).head? ≠ some Byte.letterN :=
      fun r heq => absurd (Option.some.inj heq) (by decide)
    have hsome : ∀ r, (Shape.optional s).Denotes (Byte.openBrace :: r) (some x) ↔
        s.Denotes (Byte.openBrace :: r) x := fun r => and_iff_left (hnull r)
    obtain ⟨r, hu, -⟩ := id h
    have hinside := Shape.denotes_quoted h hall s (y := x)
    rw [hu, hsome, ← hu, hinside]
    exact exists_congr fun members => and_congr_right fun _ => (hsome _).symm
  | .record _ _, _ => denotes_record_quoted h hall
  | .settings _ _, _ => denotes_record_quoted h hall
  | .choice _ _, _ => denotes_choice_quoted h hall

end

end ProtectionDomain.Json
