import ProtectionDomain.Proofs.Json.WellFormed

/-!
# The texts of a shape

* `Gives`: what an object says of a name: nothing, or a value that it gives once;
* `RecordText`, `CaseText`: records as objects or lists, cases as names or objects;
* `Shape.Denotes`: which texts stand for which values of a shape;
* `Fields.Named`, `Fields.Listed`: the fields of a record from the members of an object, in any
  order and among any others, or from the items of a list;
* `Fields.chain_iff_named`: taking members one by one comes to the same as looking at all of them.
-/

namespace ProtectionDomain.Json

/-! ## Members -/

/-- The texts that an object has under a name. -/
def valuesOf (name : String) (members : List (String × Bytes)) : List Bytes :=
  (members.filter fun m => m.1 = name).map (·.2)

/-- The members under other names. -/
def without (name : String) (members : List (String × Bytes)) : List (String × Bytes) :=
  members.filter fun m => m.1 ≠ name

/-- An object gives no value under a name, or this value and gives it once. -/
def Gives {α : Type} (Denotes : Bytes → α → Prop) (members : List (String × Bytes))
    (name : String) : Option α → Prop
  | none => valuesOf name members = []
  | some x => ∃ t, valuesOf name members = [t] ∧ Denotes t x

section

variable {name key : String} {t : Bytes} {members : List (String × Bytes)}

theorem valuesOf_cons_self : valuesOf name ((name, t) :: members) = t :: valuesOf name members := by
  simp [valuesOf]

theorem valuesOf_cons_of_ne (h : key ≠ name) :
    valuesOf name ((key, t) :: members) = valuesOf name members := by
  simp [valuesOf, h]

theorem without_cons_self : without name ((name, t) :: members) = without name members := by
  simp [without]

theorem without_cons_of_ne (h : key ≠ name) :
    without name ((key, t) :: members) = (key, t) :: without name members := by
  simp [without, h]

theorem valuesOf_without (h : key ≠ name) :
    valuesOf key (without name members) = valuesOf key members := by
  rw [valuesOf, without, List.filter_filter, valuesOf]
  congr 1
  refine List.filter_congr fun m _ => ?_
  by_cases hm : m.1 = key
  · simp [hm, h]
  · simp [hm]

theorem mem_without {m : String × Bytes} :
    m ∈ without name members ↔ m ∈ members ∧ m.1 ≠ name := by
  simp [without]

end

/-! ## Records and cases -/

/-- The texts of a record: an object or a list, what these say of the fields, and what the fields
amount to. -/
inductive RecordText {σ α : Type} (Named : List (String × Bytes) → σ → Prop)
    (Listed : List Bytes → σ → Prop) (OfMembers OfElements : σ → α → Prop) : Bytes → α → Prop
  | object {members : List (String × Bytes)} {t : Bytes} {p : σ} {v : α} :
      ObjectText KeyText members t → Named members p → OfMembers p v →
      RecordText Named Listed OfMembers OfElements t v
  | list {items : List Bytes} {t : Bytes} {p : σ} {v : α} :
      ListText items t → Listed items p → OfElements p v →
      RecordText Named Listed OfMembers OfElements t v

/-- A name alone, or as the only key of an object. -/
inductive CaseText : Bytes → String → Option Bytes → Prop
  | alone {t : Bytes} {name : String} : KeyText name t → CaseText t name none
  | content {t u : Bytes} {name : String} : ObjectText KeyText [(name, u)] t →
      CaseText t name (some u)

mutual

/-- The texts of the values of a shape. -/
def Shape.Denotes : (s : Shape) → Bytes → s.Carrier → Prop
  | .unsigned z => UnsignedText z
  | .flag => FlagText
  | .text => Literal.LiteralText
  | .uuid => UuidText
  | .list s => ListOf s.Denotes
  | .optional s => OptionalText s.Denotes
  | .record _ fs =>
    RecordText fs.Named fs.Listed (fun p v => fs.complete p = .ok v) fun p v => fs.all? p = some v
  | .settings _ fs => RecordText fs.Named fs.Listed Eq Eq
  | .choice _ cs => fun t v => ∃ name content, CaseText t name content ∧ cs.Holds name content v

/-- The fields that the members of an object give. Members that no field is named after have values
of any form. -/
def Fields.Named : (fs : Fields) → List (String × Bytes) → fs.Partial → Prop
  | .nil, members, _ => ∀ m ∈ members, WellFormed m.2
  | .cons name s fs, members, (x, p) =>
    Gives s.Denotes members name x ∧ fs.Named (without name members) p

/-- The fields that the items of a list give, as far as there are any. -/
def Fields.Listed : (fs : Fields) → List Bytes → fs.Partial → Prop
  | .nil, items, _ => items = []
  | .cons name s fs, [], p => p = Fields.unknown (.cons name s fs)
  | .cons _ s fs, t :: items, (x, p) => (∃ y, x = some y ∧ s.Denotes t y) ∧ fs.Listed items p

/-- The case that has a name, with what an object has under it. -/
def Cases.Holds : (cs : Cases) → String → Option Bytes → cs.Carrier → Prop
  | .nil, _, _, _ => False
  | .plain name _, key, content, .inl () => key = name ∧ ∀ t ∈ content, NullText t
  | .plain name cs, key, content, .inr v => key ≠ name ∧ cs.Holds key content v
  | .record name fs _, key, content, .inl v => key = name ∧ ∃ t ∈ content,
      RecordText fs.Named fs.Listed (fun p v => fs.complete p = .ok v)
        (fun p v => fs.all? p = some v) t v
  | .record name _ cs, key, content, .inr v => key ≠ name ∧ cs.Holds key content v

end

/-! ## Members one by one -/

/-- What one more member changes. A known field may not come again. -/
def Fields.Adds : (fs : Fields) → String → Bytes → fs.Partial → fs.Partial → Prop
  | .nil, _, t, _, _ => WellFormed t
  | .cons name s fs, key, t, (x, p), (y, q) =>
    if key = name then x = none ∧ (∃ v, y = some v ∧ s.Denotes t v) ∧ q = p
    else y = x ∧ fs.Adds key t p q

theorem Fields.adds_cons_self {name : String} {s : Shape} {fs : Fields} {t : Bytes}
    {x y : Option s.Carrier} {p q : fs.Partial} :
    (Fields.cons name s fs).Adds name t (x, p) (y, q) ↔
      x = none ∧ (∃ v, y = some v ∧ s.Denotes t v) ∧ q = p := by
  rw [Fields.Adds, if_pos rfl]

theorem Fields.adds_cons_of_ne {name key : String} {s : Shape} {fs : Fields} {t : Bytes}
    {x y : Option s.Carrier} {p q : fs.Partial} (h : key ≠ name) :
    (Fields.cons name s fs).Adds key t (x, p) (y, q) ↔ y = x ∧ fs.Adds key t p q := by
  rw [Fields.Adds, if_neg h]

/-- What all members together make of one field. -/
def Settles {α : Type} (Denotes : Bytes → α → Prop) (members : List (String × Bytes))
    (name : String) : Option α → Option α → Prop
  | none, y => Gives Denotes members name y
  | some x, y => valuesOf name members = [] ∧ y = some x

theorem chain_cons_iff {σ : Type} {Adds : String → Bytes → σ → σ → Prop} {key : String} {t : Bytes}
    {members : List (String × Bytes)} {p q : σ} :
    Chain Adds ((key, t) :: members) p q ↔ ∃ p', Adds key t p p' ∧ Chain Adds members p' q := by
  constructor
  · rintro (_ | ⟨h, hs⟩)
    exact ⟨_, h, hs⟩
  · rintro ⟨p', h, hs⟩
    exact .cons h hs

theorem chain_nil_iff {σ : Type} {Adds : String → Bytes → σ → σ → Prop} {p q : σ} :
    Chain Adds [] p q ↔ p = q := by
  constructor
  · rintro ⟨⟩
    rfl
  · rintro rfl
    exact .nil

theorem settles_nil {α : Type} {Denotes : Bytes → α → Prop} {name : String} {x y : Option α} :
    Settles Denotes [] name x y ↔ x = y := by
  cases x with
  | none => cases y <;> simp [Settles, Gives, valuesOf]
  | some x => simp [Settles, valuesOf, eq_comm]

theorem settles_cons_of_ne {α : Type} {Denotes : Bytes → α → Prop} {name key : String} {t : Bytes}
    {members : List (String × Bytes)} {x y : Option α} (h : key ≠ name) :
    Settles Denotes ((key, t) :: members) name x y ↔ Settles Denotes members name x y := by
  cases x with
  | none => cases y <;> simp [Settles, Gives, valuesOf_cons_of_ne h]
  | some x => simp [Settles, valuesOf_cons_of_ne h]

theorem settles_cons_self {α : Type} {Denotes : Bytes → α → Prop} {name : String} {t : Bytes}
    {members : List (String × Bytes)} {x y : Option α} :
    Settles Denotes ((name, t) :: members) name x y ↔
      x = none ∧ ∃ v, Denotes t v ∧ Settles Denotes members name (some v) y := by
  cases x with
  | some x => simp [Settles, valuesOf_cons_self]
  | none =>
    cases y with
    | none => simp [Settles, Gives, valuesOf_cons_self]
    | some y =>
      simp only [Settles, Gives, valuesOf_cons_self, List.cons.injEq, true_and, Option.some.injEq]
      constructor
      · rintro ⟨u, ⟨rfl, hnone⟩, hy⟩
        exact ⟨y, hy, hnone, rfl⟩
      · rintro ⟨v, hv, hnone, rfl⟩
        exact ⟨t, ⟨rfl, hnone⟩, hv⟩

/-- Members settle one field, and those under other names the rest. -/
theorem Fields.chain_cons_fields {name : String} {s : Shape} {fs : Fields}
    {members : List (String × Bytes)} {x y : Option s.Carrier} {p q : fs.Partial} :
    Chain (Fields.cons name s fs).Adds members (x, p) (y, q) ↔
      Settles s.Denotes members name x y ∧ Chain fs.Adds (without name members) p q := by
  induction members generalizing x p with
  | nil =>
    rw [chain_nil_iff, settles_nil, without, List.filter_nil, chain_nil_iff, Prod.mk.injEq]
  | cons m members ih =>
    obtain ⟨key, t⟩ := m
    rw [chain_cons_iff, Prod.exists]
    by_cases hkey : key = name
    · subst hkey
      rw [settles_cons_self, without_cons_self]
      simp only [Fields.adds_cons_self, ih]
      constructor
      · rintro ⟨x', p', ⟨hx, ⟨v, rfl, hv⟩, rfl⟩, hsettles, hchain⟩
        exact ⟨⟨hx, v, hv, hsettles⟩, hchain⟩
      · rintro ⟨⟨hx, v, hv, hsettles⟩, hchain⟩
        exact ⟨some v, p, ⟨hx, ⟨v, rfl, hv⟩, rfl⟩, hsettles, hchain⟩
    · rw [settles_cons_of_ne hkey, without_cons_of_ne hkey, chain_cons_iff]
      simp only [Fields.adds_cons_of_ne hkey, ih]
      constructor
      · rintro ⟨x', p', ⟨rfl, hadds⟩, hsettles, hchain⟩
        exact ⟨hsettles, p', hadds, hchain⟩
      · rintro ⟨hsettles, p', hadds, hchain⟩
        exact ⟨x, p', ⟨rfl, hadds⟩, hsettles, hchain⟩

theorem Fields.chain_nil_fields {members : List (String × Bytes)} {p q : Fields.nil.Partial} :
    Chain Fields.nil.Adds members p q ↔ ∀ m ∈ members, WellFormed m.2 := by
  induction members generalizing p with
  | nil => simp [chain_nil_iff]
  | cons m members ih =>
    rw [chain_cons_iff, List.forall_mem_cons]
    constructor
    · rintro ⟨p', hm, hchain⟩
      exact ⟨hm, ih.mp hchain⟩
    · rintro ⟨hm, hall⟩
      exact ⟨p, hm, ih.mpr hall⟩

/-- **Members taken one by one make what they say together.** -/
theorem Fields.chain_iff_named : (fs : Fields) → {members : List (String × Bytes)} →
    {p : fs.Partial} → (Chain fs.Adds members fs.unknown p ↔ fs.Named members p)
  | .nil, _, _ => Fields.chain_nil_fields
  | .cons name s fs, members, (x, p) => by
    rw [Fields.Named, ← fs.chain_iff_named]
    exact Fields.chain_cons_fields

end ProtectionDomain.Json
