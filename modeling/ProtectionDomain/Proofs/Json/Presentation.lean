import ProtectionDomain.Proofs.Json.Encode
import ProtectionDomain.Proofs.Json.Unique

/-!
# How documents present records

A document may give the fields of a record in any order, under keys in any spelling and among any
other members.

* `Field`: a field of a record with the spellings of its value;
* `Presents`, `RecordOf`: the members of an object and the texts that present given fields;
* `Fields.given`: the fields of a shape with given values;
* `presents_iff_named`, `forall₂_iff_listed`, `Fields.text_iff_recordOf`: these are what the shape
  makes the record of;
* `Presents.not_without`, `Presents.not_insert`: no record is presented with a required member
  removed or with a field given again;
* `Carries`: documents that are a text, or have it as a case.
-/

namespace ProtectionDomain.Json

/-! ## Fields -/

/-- A field of a record that has a value. -/
structure Field where
  name : String
  /-- An object of the record has to give the field. -/
  isRequired : Bool
  /-- The spellings of the value. -/
  Text : Bytes → Prop
  /-- An object that leaves the field out says the same. -/
  Unset : Prop

/-- A field that is always given. -/
def Field.required (name : String) (Text : Bytes → Prop) : Field := ⟨name, true, Text, False⟩

/-- What members say of a field: a spelling of its value, once, or nothing if that says the same. -/
def Field.GivenBy (f : Field) (members : List (String × Bytes)) : Prop :=
  (∃ t, valuesOf f.name members = [t] ∧ f.Text t) ∨ f.Unset ∧ valuesOf f.name members = []

/-- The members present the fields, in any order. Under all other names they may have values of any
form. -/
structure Presents (fields : List Field) (members : List (String × Bytes)) : Prop where
  given : ∀ f ∈ fields, f.GivenBy members
  others : ∀ m ∈ members, m.1 ∉ fields.map Field.name → WellFormed m.2

/-- The texts of a record: an object that presents its fields, or a list of them in order. -/
def RecordOf (fields : List Field) (t : Bytes) : Prop :=
  (∃ members, ObjectText KeyText members t ∧ Presents fields members) ∨
    ∃ items, ListText items t ∧ List.Forall₂ Field.Text fields items

theorem presents_nil {members : List (String × Bytes)} :
    Presents [] members ↔ ∀ m ∈ members, WellFormed m.2 :=
  ⟨fun h m hm => h.others m hm List.not_mem_nil, fun h => ⟨by simp, fun m hm _ => h m hm⟩⟩

theorem presents_cons {f : Field} {fields : List Field} {members : List (String × Bytes)}
    (hname : f.name ∉ fields.map Field.name) :
    Presents (f :: fields) members ↔
      f.GivenBy members ∧ Presents fields (without f.name members) := by
  have hgiven : ∀ g ∈ fields, g.GivenBy (without f.name members) ↔ g.GivenBy members := by
    intro g hg
    have hne : g.name ≠ f.name := fun heq => hname (heq ▸ List.mem_map_of_mem hg)
    rw [Field.GivenBy, Field.GivenBy, valuesOf_without hne]
  constructor
  · intro h
    refine ⟨h.given f List.mem_cons_self, ?_, ?_⟩
    · intro g hg
      exact (hgiven g hg).mpr (h.given g (List.mem_cons_of_mem f hg))
    · intro m hm hother
      obtain ⟨hm, hne⟩ := mem_without.mp hm
      refine h.others m hm ?_
      rw [List.map_cons, List.mem_cons]
      exact not_or.mpr ⟨hne, hother⟩
  · rintro ⟨hf, h⟩
    refine ⟨?_, ?_⟩
    · intro g hg
      rcases List.mem_cons.mp hg with rfl | hg
      · exact hf
      · exact (hgiven g hg).mp (h.given g hg)
    · intro m hm hother
      rw [List.map_cons, List.mem_cons, not_or] at hother
      exact h.others m (mem_without.mpr ⟨hm, hother.1⟩) hother.2

/-! ## The fields of a shape -/

/-- The fields of a shape with given values. -/
def Fields.given : (fs : Fields) → fs.Carrier → List Field
  | .nil, () => []
  | .cons name s fs, (x, v) =>
    ⟨name, !s.isOptional, (s.Denotes · x), s.whenLeftOut? = some x⟩ :: fs.given v

theorem Fields.map_name_given : (fs : Fields) → (v : fs.Carrier) →
    (fs.given v).map Field.name = fs.names
  | .nil, () => rfl
  | .cons name _ fs, (_, v) => by rw [given, names, List.map_cons, fs.map_name_given v]

theorem Fields.exists_given : (fs : Fields) → ∀ {v f}, f ∈ fs.given v → ∀ v',
    ∃ g ∈ fs.given v', g.name = f.name ∧ g.isRequired = f.isRequired
  | .nil, (), _, hf, _ => absurd hf List.not_mem_nil
  | .cons _ _ fs, (_, _), _, hf, (_, v') => by
    rcases List.mem_cons.mp hf with rfl | hf
    · exact ⟨_, List.mem_cons_self, rfl, rfl⟩
    · obtain ⟨g, hg, hsame⟩ := fs.exists_given hf v'
      exact ⟨g, List.mem_cons_of_mem _ hg, hsame⟩

theorem Fields.not_unset : (fs : Fields) → ∀ {v f}, f ∈ fs.given v → f.isRequired = true →
    ¬ f.Unset
  | .nil, (), _, hf, _ => absurd hf List.not_mem_nil
  | .cons _ s fs, (_, _), _, hf, hrequired => by
    rcases List.mem_cons.mp hf with rfl | hf
    · cases s with
      | optional => contradiction
      | _ => exact fun hunset => nomatch hunset
    · exact fs.not_unset hf hrequired

section

variable {name : String} {s : Shape} {fs : Fields} {y : Option s.Carrier} {p : fs.Partial}
  {x : s.Carrier} {v : fs.Carrier}

theorem Fields.complete_cons_eq_ok :
    (Fields.cons name s fs).complete (y, p) = .ok (x, v) ↔
      (y <|> s.whenLeftOut?) = some x ∧ fs.complete p = .ok v := by
  rw [Fields.complete]
  cases hy : y <|> s.whenLeftOut? with
  | none => simp
  | some z =>
    simp only [map_eq_ok, Prod.mk.injEq, Option.some.injEq]
    constructor
    · rintro ⟨w, hw, rfl, rfl⟩
      exact ⟨rfl, hw⟩
    · rintro ⟨rfl, hv⟩
      exact ⟨v, hv, rfl, rfl⟩

theorem Fields.all?_cons_eq_some :
    (Fields.cons name s fs).all? (y, p) = some (x, v) ↔ y = some x ∧ fs.all? p = some v := by
  rw [Fields.all?]
  cases y <;> cases fs.all? p <;> simp [bind, Option.bind, pure]

theorem givenBy_iff {isRequired : Bool} {members : List (String × Bytes)} :
    (Field.mk name isRequired (s.Denotes · x) (s.whenLeftOut? = some x)).GivenBy members ↔
      ∃ y, Gives s.Denotes members name y ∧ (y <|> s.whenLeftOut?) = some x := by
  constructor
  · rintro (⟨t, hvalues, ht⟩ | ⟨hunset, hvalues⟩)
    · exact ⟨some x, ⟨t, hvalues, ht⟩, rfl⟩
    · exact ⟨none, hvalues, hunset⟩
  · rintro ⟨y, hgives, hy⟩
    cases y with
    | none => exact Or.inr ⟨hy, hgives⟩
    | some z =>
      obtain rfl := Option.some.inj hy
      exact Or.inl hgives

end

/-- **Members present the fields of a record if and only if the record is made of them.** -/
theorem presents_iff_named : (fs : Fields) → fs.isProper = true → ∀ {members v},
    Presents (fs.given v) members ↔ ∃ p, fs.Named members p ∧ fs.complete p = .ok v
  | .nil, _, members, () => by
    rw [Fields.given, presents_nil]
    exact ⟨fun h => ⟨(), h, rfl⟩, fun ⟨_, h, _⟩ => h⟩
  | .cons name s fs, hproper, members, (x, v) => by
    obtain ⟨hname, -, hrest⟩ := Fields.isProper_cons.mp hproper
    rw [← fs.map_name_given v] at hname
    rw [Fields.given, presents_cons hname, givenBy_iff, presents_iff_named fs hrest]
    constructor
    · rintro ⟨⟨y, hgives, hy⟩, p, hnamed, hp⟩
      exact ⟨(y, p), ⟨hgives, hnamed⟩, Fields.complete_cons_eq_ok.mpr ⟨hy, hp⟩⟩
    · rintro ⟨⟨y, p⟩, ⟨hgives, hnamed⟩, hcomplete⟩
      obtain ⟨hy, hp⟩ := Fields.complete_cons_eq_ok.mp hcomplete
      exact ⟨⟨y, hgives, hy⟩, p, hnamed, hp⟩

/-- **Items are the fields of a record in order if and only if the record is made of them.** -/
theorem forall₂_iff_listed : (fs : Fields) → ∀ {items v},
    List.Forall₂ Field.Text (fs.given v) items ↔ ∃ p, fs.Listed items p ∧ fs.all? p = some v
  | .nil, items, () => by
    rw [Fields.given, List.forall₂_nil_left_iff]
    exact ⟨fun h => ⟨(), h, rfl⟩, fun ⟨_, h, _⟩ => h⟩
  | .cons name s fs, [], (x, v) => by
    rw [Fields.given]
    constructor
    · rintro ⟨⟩
    · rintro ⟨p, hp, hall⟩
      rw [show p = (none, fs.unknown) from hp, Fields.all?_cons_eq_some] at hall
      exact absurd hall.1 (by simp)
  | .cons name s fs, t :: items, (x, v) => by
    rw [Fields.given, List.forall₂_cons, forall₂_iff_listed fs]
    constructor
    · rintro ⟨ht, p, hlisted, hall⟩
      exact ⟨(some x, p), ⟨⟨x, rfl, ht⟩, hlisted⟩, Fields.all?_cons_eq_some.mpr ⟨rfl, hall⟩⟩
    · rintro ⟨⟨y, p⟩, ⟨⟨z, rfl, hz⟩, hlisted⟩, hall⟩
      obtain ⟨hzx, hp⟩ := Fields.all?_cons_eq_some.mp hall
      obtain rfl := Option.some.inj hzx
      exact ⟨hz, p, hlisted, hp⟩

theorem Fields.text_iff_recordOf {fs : Fields} (hproper : fs.isProper = true) {t : Bytes}
    {v : fs.Carrier} : fs.Text t v ↔ RecordOf (fs.given v) t := by
  constructor
  · rintro (⟨htext, hnamed, hv⟩ | ⟨htext, hlisted, hv⟩)
    · exact Or.inl ⟨_, htext, (presents_iff_named fs hproper).mpr ⟨_, hnamed, hv⟩⟩
    · exact Or.inr ⟨_, htext, (forall₂_iff_listed fs).mpr ⟨_, hlisted, hv⟩⟩
  · rintro (⟨members, htext, hpresents⟩ | ⟨items, htext, hitems⟩)
    · obtain ⟨p, hnamed, hp⟩ := (presents_iff_named fs hproper).mp hpresents
      exact .object htext hnamed hp
    · obtain ⟨p, hlisted, hp⟩ := (forall₂_iff_listed fs).mp hitems
      exact .list htext hlisted hp

/-! ## Members removed and repeated -/

theorem valuesOf_without_self (name : String) (members : List (String × Bytes)) :
    valuesOf name (without name members) = [] :=
  valuesOf_eq_nil fun _ hm => (mem_without.mp hm).2

theorem valuesOf_append (name : String) (before after : List (String × Bytes)) :
    valuesOf name (before ++ after) = valuesOf name before ++ valuesOf name after := by
  rw [valuesOf, List.filter_append, List.map_append]
  rfl

/-- Without a required member no record is presented. -/
theorem Presents.not_without {fields : List Field} {f : Field} (hf : f ∈ fields)
    (hset : ¬ f.Unset) (members : List (String × Bytes)) :
    ¬ Presents fields (without f.name members) := by
  intro h
  rcases h.given f hf with ⟨t, hvalues, -⟩ | ⟨hunset, -⟩
  · rw [valuesOf_without_self] at hvalues
    contradiction
  · exact hset hunset

/-- With a field given again no record is presented. -/
theorem Presents.not_insert {fields : List Field} {f : Field} (hf : f ∈ fields)
    {before after : List (String × Bytes)} (hgiven : valuesOf f.name (before ++ after) ≠ [])
    (t : Bytes) : ¬ Presents fields (before ++ (f.name, t) :: after) := by
  intro h
  -- Two texts stand under the name: neither one alone nor none.
  have htwo : 2 ≤ (valuesOf f.name (before ++ (f.name, t) :: after)).length := by
    have hpos := List.length_pos_iff.mpr hgiven
    rw [valuesOf_append, List.length_append] at hpos
    rw [valuesOf_append, valuesOf_cons_self, List.length_append, List.length_cons]
    omega
  rcases h.given f hf with ⟨u, hvalues, -⟩ | ⟨-, hvalues⟩
  · rw [hvalues, List.length_singleton] at htwo
    omega
  · rw [hvalues, List.length_nil] at htwo
    omega

/-! ## Documents -/

/-- The documents that are a text, or an object with the text under the name of a case, between
blanks. -/
inductive Carries : Option String → Bytes → Bytes → Prop
  | bare {u w w' : Bytes} : Blanks w → Blanks w' → Carries none u (w ++ (u ++ w'))
  | case {key : String} {u t w w' : Bytes} : ObjectText KeyText [(key, u)] t → Blanks w →
      Blanks w' → Carries (some key) u (w ++ (t ++ w'))

theorem Carries.self (t : Bytes) : Carries none t t := by
  simpa using Carries.bare Blanks.nil Blanks.nil

theorem Shape.decode_of_carries {s : Shape} {u document : Bytes} (hu : Trimmed u)
    (h : Carries none u document) (v : s.Carrier) :
    s.decode document = .ok v ↔ s.Denotes u v := by
  cases h with
  | bare hw hw' => exact Shape.decode_between hw hw' hu

theorem decode_case {name key : String} {cs : Cases} {u document : Bytes} (hu : Trimmed u)
    (h : Carries (some key) u document) (v : cs.Carrier) :
    (Shape.choice name cs).decode document = .ok v ↔ cs.Holds key (some u) v := by
  cases h with
  | case htext hw hw' =>
    exact (Shape.decode_between hw hw' htext.trimmed).trans (Cases.text_content htext hu)

end ProtectionDomain.Json
