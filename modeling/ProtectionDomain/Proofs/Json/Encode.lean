import ProtectionDomain.Json.Shape.Write
import ProtectionDomain.Proofs.Json.Decode
import ProtectionDomain.Proofs.Json.Value
import ProtectionDomain.Proofs.Uuid.Text

/-!
# Written values are texts of their shape

* `Fields.named_knownMembers`: the members that are written for fields give them;
* `Cases.exists_caseText`: what is written for a case is its name, alone or as a key;
* **`Shape.denotes_of_hasText`**: the value that is written for a value of a proper shape has only
  texts of it.
-/

namespace ProtectionDomain.Json

/-! ## Fields and cases -/

section

variable {name : String} {members : List (String × Bytes)} (h : ∀ m ∈ members, m.1 ≠ name)

include h

theorem valuesOf_eq_nil : valuesOf name members = [] := by
  rw [valuesOf, List.map_eq_nil_iff, List.filter_eq_nil_iff]
  intro m hm
  simpa using h m hm

theorem without_eq_self : without name members = members := by
  rw [without, List.filter_eq_self]
  intro m hm
  simpa using h m hm

end

section

variable {name : String} {s : Shape} {fs : Fields} {cs : Cases}

theorem Fields.isProper_cons : (Fields.cons name s fs).isProper = true ↔
    name ∉ fs.names ∧ s.isProper = true ∧ fs.isProper = true := by
  simp [Fields.isProper, and_assoc]

theorem Cases.isProper_plain : (Cases.plain name cs).isProper = true ↔
    name ∉ cs.names ∧ cs.isProper = true := by
  simp [Cases.isProper]

theorem Cases.isProper_record : (Cases.record name fs cs).isProper = true ↔
    name ∉ cs.names ∧ fs.isProper = true ∧ cs.isProper = true := by
  simp [Cases.isProper, and_assoc]

end

/-- What is written for the values of the fields has only texts of them. -/
def Fields.Writable : Fields → Prop
  | .nil => True
  | .cons _ s fs => (∀ v t, (s.toJson v).HasText t → s.Denotes t v) ∧ fs.Writable

/-- What is written for the values of the fields of the cases has only texts of them. -/
def Cases.Writable : Cases → Prop
  | .nil => True
  | .plain _ cs => cs.Writable
  | .record _ fs cs => fs.isProper = true ∧ fs.Writable ∧ cs.Writable

/-- All fields are known. -/
def Fields.full : (fs : Fields) → fs.Carrier → fs.Partial
  | .nil, () => ()
  | .cons _ _ fs, (x, v) => (some x, fs.full v)

theorem Fields.complete_full : (fs : Fields) → (v : fs.Carrier) → fs.complete (fs.full v) = .ok v
  | .nil, () => rfl
  | .cons name s fs, (x, v) => by
    show (fs.complete (fs.full v)).map (x, ·) = _
    rw [fs.complete_full v]
    rfl

theorem Fields.toMembers_eq : (fs : Fields) → (v : fs.Carrier) →
    fs.toMembers v = fs.knownMembers (fs.full v)
  | .nil, () => rfl
  | .cons name s fs, (x, v) => by
    rw [Fields.toMembers, fs.toMembers_eq v]
    rfl

theorem Fields.map_knownMembers : (fs : Fields) → (p : fs.Partial) →
    ((fs.knownMembers p).map (·.1)).Sublist fs.names
  | .nil, () => .slnil
  | .cons name _ fs, (some _, p) => (fs.map_knownMembers p).cons_cons name
  | .cons name _ fs, (none, p) => (fs.map_knownMembers p).cons name

theorem Fields.mem_names (fs : Fields) {p : fs.Partial} {texts : List (String × Bytes)}
    (h : Value.MembersHaveTexts (fs.knownMembers p) texts) : ∀ e ∈ texts, e.1 ∈ fs.names := by
  intro e he
  have hkey : e.1 ∈ (fs.knownMembers p).map (·.1) := h.keys ▸ List.mem_map_of_mem he
  exact (fs.map_knownMembers p).subset hkey

theorem Fields.named_knownMembers : (fs : Fields) → fs.isProper = true → fs.Writable →
    (p : fs.Partial) → (texts : List (String × Bytes)) →
    Value.MembersHaveTexts (fs.knownMembers p) texts → fs.Named texts p
  | .nil, _, _, (), [], _ => by
    intro m hm
    exact absurd hm List.not_mem_nil
  | .nil, _, _, (), _ :: _, h => h.elim
  | .cons name s fs, hproper, hwritable, (none, p), texts, h => by
    obtain ⟨hname, -, hrest⟩ := Fields.isProper_cons.mp hproper
    have hne : ∀ e ∈ texts, e.1 ≠ name := fun e he heq => hname (heq ▸ fs.mem_names h e he)
    refine ⟨valuesOf_eq_nil hne, ?_⟩
    show fs.Named (without name texts) p
    rw [without_eq_self hne]
    exact fs.named_knownMembers hrest hwritable.2 p texts h
  | .cons _ _ _, _, _, (some _, _), [], h => h.elim
  | .cons name s fs, hproper, hwritable, (some x, p), (key, t) :: texts, h => by
    obtain ⟨hname, -, hrest⟩ := Fields.isProper_cons.mp hproper
    obtain ⟨⟨hkey, ht⟩, htexts⟩ := h
    subst hkey
    have hne : ∀ e ∈ texts, e.1 ≠ key := fun e he heq => hname (heq ▸ fs.mem_names htexts e he)
    refine ⟨⟨t, ?_, hwritable.1 x t ht⟩, ?_⟩
    · rw [valuesOf_cons_self, valuesOf_eq_nil hne]
    · show fs.Named (without key ((key, t) :: texts)) p
      rw [without_cons_self, without_eq_self hne]
      exact fs.named_knownMembers hrest hwritable.2 p texts htexts

theorem Fields.text_toMembers {fs : Fields} (hproper : fs.isProper = true) (h : fs.Writable)
    (v : fs.Carrier) {t : Bytes} (ht : (Value.object (fs.toMembers v)).HasText t) :
    fs.Text t v := by
  rw [fs.toMembers_eq] at ht
  obtain ⟨texts, htext, htexts⟩ := ht
  exact .object htext (fs.named_knownMembers hproper h (fs.full v) texts htexts)
    (fs.complete_full v)

/-- What is written for a case is its name, or an object with its name as the only key. -/
theorem Cases.exists_caseText : (cs : Cases) → cs.isProper = true → cs.Writable →
    (v : cs.Carrier) → (t : Bytes) → (cs.toJson v).HasText t →
    ∃ name u, name ∈ cs.names ∧ CaseText t name u ∧ cs.Holds name u v
  | .nil, _, _, v, _, _ => nomatch v
  | .plain name cs, _, _, .inl (), t, ht =>
    ⟨name, none, List.mem_cons_self, .alone ht, rfl, by simp⟩
  | .record name fs cs, _, h, .inl v, t, ⟨texts, htext, htexts⟩ => by
    match texts, htexts with
    | [(key, u)], ⟨⟨hkey, hu⟩, _⟩ =>
      subst hkey
      exact ⟨key, some u, List.mem_cons_self, .content htext, rfl, u, rfl,
        Fields.text_toMembers h.1 h.2.1 v hu⟩
  | .plain name cs, hproper, h, .inr v, t, ht => by
    obtain ⟨hname, hrest⟩ := Cases.isProper_plain.mp hproper
    obtain ⟨key, u, hkey, htext, hholds⟩ := cs.exists_caseText hrest h v t ht
    refine ⟨key, u, List.mem_cons_of_mem name hkey, htext, ?_, hholds⟩
    rintro rfl
    exact hname hkey
  | .record name fs cs, hproper, h, .inr v, t, ht => by
    obtain ⟨hname, -, hrest⟩ := Cases.isProper_record.mp hproper
    obtain ⟨key, u, hkey, htext, hholds⟩ := cs.exists_caseText hrest h.2.2 v t ht
    refine ⟨key, u, List.mem_cons_of_mem name hkey, htext, ?_, hholds⟩
    rintro rfl
    exact hname hkey

theorem Cases.toJson_ne_null : (cs : Cases) → (v : cs.Carrier) → cs.toJson v ≠ .null
  | .nil, v => nomatch v
  | .plain _ _, .inl () => nofun
  | .plain _ cs, .inr v => cs.toJson_ne_null v
  | .record _ _ _, .inl _ => nofun
  | .record _ _ cs, .inr v => cs.toJson_ne_null v

theorem Shape.toJson_ne_null : {s : Shape} → s.isOptional = false → (v : s.Carrier) →
    s.toJson v ≠ .null
  | .unsigned _, _, _ => nofun
  | .flag, _, _ => nofun
  | .text, _, _ => nofun
  | .uuid, _, _ => nofun
  | .list _, _, _ => nofun
  | .record _ _, _, _ => nofun
  | .settings _ _, _, _ => nofun
  | .choice _ cs, _, v => cs.toJson_ne_null v

/-! ## Shapes -/

theorem forall₂_of_itemsHaveTexts {s : Shape}
    (h : ∀ x t, (s.toJson x).HasText t → s.Denotes t x) : (xs : List s.Carrier) →
    (texts : List Bytes) → Value.ItemsHaveTexts (xs.map s.toJson) texts →
    List.Forall₂ s.Denotes texts xs
  | [], [], _ => .nil
  | [], _ :: _, hall => hall.elim
  | _ :: _, [], hall => hall.elim
  | x :: xs, t :: texts, ⟨ht, htexts⟩ =>
    .cons (h x t ht) (forall₂_of_itemsHaveTexts h xs texts htexts)

mutual

/-- **What is written for a value of a proper shape has only texts of it,** whatever the blanks. -/
theorem Shape.denotes_of_hasText : (s : Shape) → s.isProper = true → (v : s.Carrier) →
    (t : Bytes) → (s.toJson v).HasText t → s.Denotes t v
  | .unsigned _, _, _, _, ht => ht
  | .flag, _, _, _, ht => ht
  | .text, _, _, _, ht => ht
  | .uuid, _, u, _, ht => ⟨u.text, ht, u.read?_text⟩
  | .list s, hproper, xs, _, ⟨texts, htext, htexts⟩ =>
    ⟨texts, htext, forall₂_of_itemsHaveTexts (s.denotes_of_hasText hproper) xs texts htexts⟩
  | .optional s, _, none, _, ht => ht
  | .optional s, hproper, some x, t, ht => by
    simp only [Shape.isProper, Bool.and_eq_true, Bool.not_eq_true'] at hproper
    exact ⟨s.denotes_of_hasText hproper.2 x t ht, ht.head?_ne (Shape.toJson_ne_null hproper.1 x)⟩
  | .record _ fs, hproper, v, _, ht => Fields.text_toMembers hproper (fs.writable hproper) v ht
  | .settings _ fs, hproper, p, _, ⟨texts, htext, htexts⟩ =>
    .object htext (fs.named_knownMembers hproper (fs.writable hproper) p texts htexts) rfl
  | .choice _ cs, hproper, v, t, ht => by
    obtain ⟨name, u, -, htext, hholds⟩ := cs.exists_caseText hproper (cs.writable hproper) v t ht
    exact ⟨name, u, htext, hholds⟩

theorem Fields.writable : (fs : Fields) → fs.isProper = true → fs.Writable
  | .nil, _ => trivial
  | .cons _ s fs, hproper => by
    obtain ⟨-, hs, hrest⟩ := Fields.isProper_cons.mp hproper
    exact ⟨s.denotes_of_hasText hs, fs.writable hrest⟩

theorem Cases.writable : (cs : Cases) → cs.isProper = true → cs.Writable
  | .nil, _ => trivial
  | .plain _ cs, hproper => cs.writable (Cases.isProper_plain.mp hproper).2
  | .record _ fs cs, hproper => by
    obtain ⟨-, hfs, hrest⟩ := Cases.isProper_record.mp hproper
    exact ⟨hfs, fs.writable hfs, cs.writable hrest⟩

end

end ProtectionDomain.Json
