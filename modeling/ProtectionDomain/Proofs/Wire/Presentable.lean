import ProtectionDomain.Proofs.Json.Presentation
import ProtectionDomain.Wire

/-!
# Types whose documents present records

* `Presentable`: however a document presents the fields of a value, it is read as the value, and
  with a field missing or repeated it is not read;
* `ReadsRecord`: what the documents of a type carry is a record of its shape;
* `refuses_object`, `refuses_list`: objects and lists that present no record are refused;
* **`presentable`**: a type that reads a record is presentable;
* `readsRecord_bare`, `readsRecord_case`: a type whose shape is a record, or a choice with a case
  that has fields.
-/

namespace ProtectionDomain.Wire

open Json

/-! ## Presentations -/

section

variable {α ι : Type} [Wire α]

variable (α) in
/-- The document is not read. -/
def Refuses (document : Bytes) : Prop := ∃ fault, decode α document = .error fault

/-- However a document presents the fields, by itself or under the name of a case, it is read as the
value that they make, and nothing else is read. -/
structure Presentable (case : Option String) (fields : ι → List Field) (make : ι → α) : Prop where
  /-- An object may have the fields in any order and any members between them. -/
  object {i : ι} {members : List (String × Bytes)} {u document : Bytes} :
    Presents (fields i) members → ObjectText KeyText members u → Carries case u document →
    decode α document = .ok (make i)
  /-- A list has the fields in order. -/
  list {i : ι} {items : List Bytes} {u document : Bytes} :
    List.Forall₂ Field.Text (fields i) items → ListText items u → Carries case u document →
    decode α document = .ok (make i)
  /-- Whatever is read presents the fields of what it is read as. -/
  only {u document : Bytes} {a : α} : WellFormed u → Carries case u document →
    decode α document = .ok a → ∃ i, RecordOf (fields i) u ∧ make i = a
  /-- A list has all fields and no others. -/
  length {i : ι} {items : List Bytes} {u document : Bytes} :
    items.length ≠ (fields i).length → (∀ t ∈ items, WellFormed t) → ListText items u →
    Carries case u document → Refuses α document
  /-- No required member may be removed. -/
  missing {i : ι} {members : List (String × Bytes)} {f : Field} {u document : Bytes} :
    Presents (fields i) members → f ∈ fields i → f.isRequired = true →
    ObjectText KeyText (without f.name members) u → Carries case u document → Refuses α document
  /-- No field that is there may come again, wherever it does and whatever it says. -/
  repeated {i : ι} {before after : List (String × Bytes)} {f : Field} {t u document : Bytes} :
    Presents (fields i) (before ++ after) → f ∈ fields i →
    valuesOf f.name (before ++ after) ≠ [] → WellFormed t →
    ObjectText KeyText (before ++ (f.name, t) :: after) u → Carries case u document →
    Refuses α document

/-- What the documents of a type carry is a record. -/
def ReadsRecord (case : Option String) (fs : Fields) (make : fs.Carrier → α) : Prop :=
  ∀ {u document : Bytes}, WellFormed u → Carries case u document → ∀ a,
    decode α document = .ok a ↔ ∃ v, fs.Text u v ∧ make v = a

theorem refuses_of_ne_ok {document : Bytes} (h : ∀ a, decode α document ≠ .ok a) :
    Refuses α document := by
  cases hdecode : decode α document with
  | error fault => exact ⟨fault, hdecode⟩
  | ok a => exact absurd hdecode (h a)

section

variable {case : Option String} {fs : Fields} {make : fs.Carrier → α}
  (h : ReadsRecord case fs make) (hproper : fs.isProper = true)

include h hproper

theorem refuses_object {members : List (String × Bytes)} {u document : Bytes}
    (hall : ∀ m ∈ members, WellFormed m.2) (hnone : ∀ v, ¬ Presents (fs.given v) members)
    (htext : ObjectText KeyText members u) (hcarries : Carries case u document) :
    Refuses α document := by
  refine refuses_of_ne_ok fun a ha => ?_
  obtain ⟨v, hv, -⟩ := (h (wellFormed_object htext hall) hcarries a).mp ha
  exact hnone v ((presents_iff_named fs hproper).mpr ((Fields.text_object htext hall).mp hv))

omit hproper in
theorem refuses_list {items : List Bytes} {u document : Bytes}
    (hall : ∀ t ∈ items, WellFormed t)
    (hnone : ∀ v, ¬ List.Forall₂ Field.Text (fs.given v) items) (htext : ListText items u)
    (hcarries : Carries case u document) : Refuses α document := by
  refine refuses_of_ne_ok fun a ha => ?_
  obtain ⟨v, hv, -⟩ := (h (.list htext hall) hcarries a).mp ha
  exact hnone v ((forall₂_iff_listed fs).mpr ((Fields.text_list htext hall).mp hv))

/-- **Where documents carry a record, it does not matter how they present it.** -/
theorem presentable (give : ι → fs.Carrier) (hgive : ∀ v, ∃ i, give i = v) :
    Presentable case (fun i => fs.given (give i)) fun i => make (give i) where
  object {i members u document} hpresents htext hcarries := by
    have hu : fs.Text u (give i) :=
      (Fields.text_iff_recordOf hproper).mpr (Or.inl ⟨members, htext, hpresents⟩)
    exact (h (RecordText.wellFormed fs.valid hu) hcarries _).mpr ⟨give i, hu, rfl⟩
  list {i items u document} hitems htext hcarries := by
    have hu : fs.Text u (give i) :=
      (Fields.text_iff_recordOf hproper).mpr (Or.inr ⟨items, htext, hitems⟩)
    exact (h (RecordText.wellFormed fs.valid hu) hcarries _).mpr ⟨give i, hu, rfl⟩
  only {u document a} hu hcarries ha := by
    obtain ⟨v, hv, rfl⟩ := (h hu hcarries a).mp ha
    obtain ⟨i, rfl⟩ := hgive v
    exact ⟨i, (Fields.text_iff_recordOf hproper).mp hv, rfl⟩
  length {i items u document} hlength hall htext hcarries := by
    refine refuses_list h hall (fun v hv => hlength ?_) htext hcarries
    have hsize := (List.Forall₂.length_eq hv).symm
    have hnames := congrArg List.length
      ((fs.map_name_given v).trans (fs.map_name_given (give i)).symm)
    rw [List.length_map, List.length_map] at hnames
    exact hsize.trans hnames
  missing {i members f u document} hpresents hf hrequired htext hcarries := by
    obtain ⟨p, hnamed, -⟩ := (presents_iff_named fs hproper).mp hpresents
    have hall := fs.wellFormed_members fs.valid hnamed
    refine refuses_object h hproper (fun m hm => hall m (mem_without.mp hm).1) (fun v hv => ?_)
      htext hcarries
    obtain ⟨g, hg, hname, hsame⟩ := fs.exists_given hf v
    rw [← hname] at hv
    exact Presents.not_without hg (fs.not_unset hg (hsame.trans hrequired)) members hv
  repeated {i before after f t u document} hpresents hf hgiven ht htext hcarries := by
    obtain ⟨p, hnamed, -⟩ := (presents_iff_named fs hproper).mp hpresents
    have hall := fs.wellFormed_members fs.valid hnamed
    have hinserted : ∀ m ∈ before ++ (f.name, t) :: after, WellFormed m.2 := by
      intro m hm
      rw [List.mem_append, List.mem_cons] at hm
      rcases hm with hm | rfl | hm
      · exact hall m (List.mem_append_left after hm)
      · exact ht
      · exact hall m (List.mem_append_right before hm)
    refine refuses_object h hproper hinserted (fun v hv => ?_) htext hcarries
    obtain ⟨g, hg, hname, -⟩ := fs.exists_given hf v
    rw [← hname] at hv hgiven
    exact Presents.not_insert hg hgiven t hv

theorem presentable_of_fields {fields : ι → List Field} {make' : ι → α} (give : ι → fs.Carrier)
    (hgive : ∀ v, ∃ i, give i = v) (hfields : ∀ i, fields i = fs.given (give i))
    (hmake : ∀ i, make (give i) = make' i) : Presentable case fields make' := by
  obtain rfl : fields = fun i => fs.given (give i) := funext hfields
  obtain rfl : (fun i => make (give i)) = make' := funext hmake
  exact presentable h hproper give hgive

end

/-! ## Types that are records -/

theorem readsRecord_bare {name : String} {fs : Fields} {make : fs.Carrier → α}
    (hdecode : ∀ document, decode α document = ((Shape.record name fs).decode document).map make) :
    ReadsRecord none fs make := by
  intro u document hu hcarries a
  rw [hdecode, map_eq_ok]
  exact exists_congr fun v => and_congr_left fun _ =>
    Shape.decode_of_carries (s := .record name fs) hu.trimmed hcarries v

theorem readsRecord_case {name key : String} {cs : Cases} {fs : Fields} {make : fs.Carrier → α}
    {ofCase : cs.Carrier → α}
    (hdecode : ∀ document, decode α document = ((Shape.choice name cs).decode document).map ofCase)
    (hholds : ∀ u a, (∃ c, cs.Holds key (some u) c ∧ ofCase c = a) ↔
      ∃ v, fs.Text u v ∧ make v = a) : ReadsRecord (some key) fs make := by
  intro u document hu hcarries a
  rw [hdecode, map_eq_ok, ← hholds]
  exact exists_congr fun c => and_congr_left fun _ => decode_case hu.trimmed hcarries c

end

section

variable {α : Type} {key name : String} {cs : Cases} {fs : Fields} {u : Bytes} {a : α}

theorem exists_holds_record {ofCase : (Cases.record key fs cs).Carrier → α} :
    (∃ c, (Cases.record key fs cs).Holds key (some u) c ∧ ofCase c = a) ↔
      ∃ v, fs.Text u v ∧ ofCase (.inl v) = a := by
  rw [Sum.exists]
  simp [Cases.Holds, Fields.Text]

theorem exists_holds_plain {ofCase : (Cases.plain name cs).Carrier → α} (hne : key ≠ name) :
    (∃ c, (Cases.plain name cs).Holds key (some u) c ∧ ofCase c = a) ↔
      ∃ c, cs.Holds key (some u) c ∧ ofCase (.inr c) = a := by
  rw [Sum.exists]
  simp [Cases.Holds, hne]

end

end ProtectionDomain.Wire
