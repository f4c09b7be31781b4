import ProtectionDomain.Config
import ProtectionDomain.Proofs.Json.Decode

/-!
# Which documents are configurations

* `Setting`: what is given for a setting, or else its default;
* `SessionConfig.Text`, `SessionConfig.Document`: the documents of a configuration;
* `SessionConfig.decode_eq_ok`: these are what is decoded;
* **`SessionConfig.ofJson_document`**: a configuration is loaded if and only if the document is one
  of it and the version can be loaded, and the refusals tell the two apart.
-/

namespace ProtectionDomain

open Json

/-! ## The documents -/

/-- The value of a setting for which these texts are given: its default, if there are none. -/
inductive Setting {α : Type} (Denotes : Bytes → α → Prop) (unset : α) : List Bytes → α → Prop
  | default : Setting Denotes unset [] unset
  | given {t : Bytes} {v : α} : Denotes t v → Setting Denotes unset [t] v

namespace SessionConfig

/-- The names of the settings. -/
def settingNames : List String := ["version", "allow_pci_assignment", "pci_allowed_labels"]

/-- The texts of a configuration: an object that gives each setting at most once, or a list that
gives them in order. -/
inductive Text : Bytes → SessionConfig → Prop
  | object {members : List (String × Bytes)} {t : Bytes} {c : SessionConfig} :
      ObjectText KeyText members t →
      Setting (UnsignedText .word32) 1 (valuesOf "version" members) c.version →
      Setting FlagText false (valuesOf "allow_pci_assignment" members) c.allowPciAssignment →
      Setting (ListOf Literal.LiteralText) [] (valuesOf "pci_allowed_labels" members)
        c.pciAllowedLabels →
      (∀ m ∈ members, m.1 ∉ settingNames → WellFormed m.2) → Text t c
  | list {items : List Bytes} {t : Bytes} {c : SessionConfig} :
      ListText items t → items.length ≤ 3 →
      Setting (UnsignedText .word32) 1 items[0]?.toList c.version →
      Setting FlagText false items[1]?.toList c.allowPciAssignment →
      Setting (ListOf Literal.LiteralText) [] items[2]?.toList c.pciAllowedLabels → Text t c

/-- The documents of a configuration. -/
def Document (document : Bytes) (c : SessionConfig) : Prop :=
  ∃ w t w', document = w ++ (t ++ w') ∧ Blanks w ∧ Blanks w' ∧ Text t c

/-! ## What is decoded -/

theorem setting_iff_gives {α : Type} {Denotes : Bytes → α → Prop} {unset v : α}
    {members : List (String × Bytes)} {name : String} :
    Setting Denotes unset (valuesOf name members) v ↔
      ∃ x, Gives Denotes members name x ∧ x.getD unset = v := by
  constructor
  · intro h
    generalize htexts : valuesOf name members = texts at h
    cases h with
    | default => exact ⟨none, htexts, rfl⟩
    | given ht => exact ⟨some v, ⟨_, htexts, ht⟩, rfl⟩
  · rintro ⟨x, hx, rfl⟩
    cases x with
    | none =>
      rw [show valuesOf name members = [] from hx]
      exact .default
    | some x =>
      obtain ⟨t, htexts, ht⟩ := hx
      rw [htexts]
      exact .given ht

theorem gives_without {α : Type} {Denotes : Bytes → α → Prop} {members : List (String × Bytes)}
    {key name : String} (h : key ≠ name) {x : Option α} :
    Gives Denotes (without name members) key x ↔ Gives Denotes members key x := by
  cases x <;> simp only [Gives, valuesOf_without h]

/-- The item at a place of a list gives a value, or there is no such item. -/
def Stands {α : Type} (Denotes : Bytes → α → Prop) : Option Bytes → Option α → Prop
  | none, x => x = none
  | some t, x => ∃ y, x = some y ∧ Denotes t y

theorem setting_iff_stands {α : Type} {Denotes : Bytes → α → Prop} {unset v : α}
    {item : Option Bytes} :
    Setting Denotes unset item.toList v ↔ ∃ x, Stands Denotes item x ∧ x.getD unset = v := by
  cases item with
  | none =>
    constructor
    · rintro ⟨⟩
      exact ⟨none, rfl, rfl⟩
    · rintro ⟨x, rfl, rfl⟩
      exact .default
  | some t =>
    constructor
    · rintro (_ | ht)
      exact ⟨some v, ⟨v, rfl, ht⟩, rfl⟩
    · rintro ⟨x, ⟨y, rfl, hy⟩, rfl⟩
      exact .given hy

theorem listed_nil_iff : (fs : Fields) → {p : fs.Partial} → (fs.Listed [] p ↔ p = fs.unknown)
  | .nil, () => by simp [Fields.Listed, Fields.unknown]
  | .cons _ _ _, _ => Iff.rfl

theorem listed_cons_iff {name : String} {s : Shape} {fs : Fields} {items : List Bytes}
    {x : Option s.Carrier} {p : fs.Partial} :
    (Fields.cons name s fs).Listed items (x, p) ↔
      Stands s.Denotes items[0]? x ∧ fs.Listed items.tail p := by
  cases items with
  | nil =>
    rw [List.tail_nil, listed_nil_iff, listed_nil_iff, Fields.unknown, Prod.mk.injEq]
    rfl
  | cons t items => rfl

/-- The settings as the fields of a record. -/
abbrev fields : Fields :=
  .cons "version" (.unsigned .word32) (.cons "allow_pci_assignment" .flag
    (.cons "pci_allowed_labels" (.list .text) .nil))

theorem named_iff {members : List (String × Bytes)} {version : Option UInt32}
    {allow : Option Bool} {labels : Option (List String)} :
    fields.Named members (version, allow, labels, ()) ↔
      Gives (UnsignedText .word32) members "version" version ∧
      Gives FlagText members "allow_pci_assignment" allow ∧
      Gives (ListOf Literal.LiteralText) members "pci_allowed_labels" labels ∧
      ∀ m ∈ members, m.1 ∉ settingNames → WellFormed m.2 := by
  simp only [Fields.Named, Shape.Denotes, mem_without, settingNames]
  rw [gives_without (by decide), gives_without (by decide), gives_without (by decide)]
  refine and_congr_right fun _ => and_congr_right fun _ => and_congr_right fun _ => ?_
  refine forall_congr' fun m => ?_
  simp only [List.mem_cons, List.not_mem_nil, or_false, not_or]
  tauto

theorem listed_iff {items : List Bytes} {version : Option UInt32} {allow : Option Bool}
    {labels : Option (List String)} :
    fields.Listed items (version, allow, labels, ()) ↔
      items.length ≤ 3 ∧ Stands (UnsignedText .word32) items[0]? version ∧
      Stands FlagText items[1]? allow ∧
      Stands (ListOf Literal.LiteralText) items[2]? labels := by
  have hlength : Fields.nil.Listed items.tail.tail.tail () ↔ items.length ≤ 3 := by
    rw [Fields.Listed, ← List.length_eq_zero_iff]
    simp only [List.length_tail]
    omega
  rw [listed_cons_iff, listed_cons_iff, listed_cons_iff, hlength]
  simp only [List.getElem?_tail, Shape.Denotes]
  tauto

theorem ofCarrier_eq_iff {version : Option UInt32} {allow : Option Bool}
    {labels : Option (List String)} {c : SessionConfig} :
    (Wire.ofCarrier (version, allow, labels, ()) : SessionConfig) = c ↔
      version.getD 1 = c.version ∧ allow.getD false = c.allowPciAssignment ∧
        labels.getD [] = c.pciAllowedLabels := by
  obtain ⟨v, a, l⟩ := c
  show SessionConfig.mk _ _ _ = SessionConfig.mk _ _ _ ↔ _
  rw [SessionConfig.mk.injEq]

/-- The texts of a configuration are those of its shape. -/
theorem text_iff {t : Bytes} {c : SessionConfig} :
    Text t c ↔
      ∃ p, (Wire.shape SessionConfig).Denotes t p ∧ (Wire.ofCarrier p : SessionConfig) = c := by
  constructor
  · rintro (⟨htext, hversion, hallow, hlabels, hrest⟩ | ⟨htext, hlength, hversion, hallow, hlabels⟩)
    · obtain ⟨version, hversion, hv⟩ := setting_iff_gives.mp hversion
      obtain ⟨allow, hallow, ha⟩ := setting_iff_gives.mp hallow
      obtain ⟨labels, hlabels, hl⟩ := setting_iff_gives.mp hlabels
      refine ⟨(version, allow, labels, ()), ?_, ofCarrier_eq_iff.mpr ⟨hv, ha, hl⟩⟩
      exact .object htext (named_iff.mpr ⟨hversion, hallow, hlabels, hrest⟩) rfl
    · obtain ⟨version, hversion, hv⟩ := setting_iff_stands.mp hversion
      obtain ⟨allow, hallow, ha⟩ := setting_iff_stands.mp hallow
      obtain ⟨labels, hlabels, hl⟩ := setting_iff_stands.mp hlabels
      refine ⟨(version, allow, labels, ()), ?_, ofCarrier_eq_iff.mpr ⟨hv, ha, hl⟩⟩
      exact .list htext (listed_iff.mpr ⟨hlength, hversion, hallow, hlabels⟩) rfl
  · rintro ⟨⟨version, allow, labels, ⟨⟩⟩, ht, hc⟩
    obtain ⟨hv, ha, hl⟩ := ofCarrier_eq_iff.mp hc
    rcases ht with ⟨htext, hnamed, rfl⟩ | ⟨htext, hlisted, rfl⟩
    · obtain ⟨hversion, hallow, hlabels, hrest⟩ := named_iff.mp hnamed
      exact .object htext (setting_iff_gives.mpr ⟨version, hversion, hv⟩)
        (setting_iff_gives.mpr ⟨allow, hallow, ha⟩)
        (setting_iff_gives.mpr ⟨labels, hlabels, hl⟩) hrest
    · obtain ⟨hlength, hversion, hallow, hlabels⟩ := listed_iff.mp hlisted
      exact .list htext hlength (setting_iff_stands.mpr ⟨version, hversion, hv⟩)
        (setting_iff_stands.mpr ⟨allow, hallow, ha⟩)
        (setting_iff_stands.mpr ⟨labels, hlabels, hl⟩)

/-- Exactly the documents of a configuration are decoded as it. -/
theorem decode_eq_ok {document : Bytes} {c : SessionConfig} :
    Wire.decode SessionConfig document = .ok c ↔ Document document c := by
  rw [Wire.decode, map_eq_ok]
  constructor
  · rintro ⟨p, hp, hc⟩
    obtain ⟨w, t, w', hdocument, hw, hw', ht⟩ := Shape.decode_eq_ok.mp hp
    exact ⟨w, t, w', hdocument, hw, hw', text_iff.mpr ⟨p, ht, hc⟩⟩
  · rintro ⟨w, t, w', hdocument, hw, hw', ht⟩
    obtain ⟨p, hp, hc⟩ := text_iff.mp ht
    exact ⟨p, Shape.decode_eq_ok.mpr ⟨w, t, w', hdocument, hw, hw', hp⟩, hc⟩

/-! ## Loading -/

/-- **`ofJson` loads `c` if and only if the document is a `Document` of it and `c.version = 1`**;
with another version it is refused for that, and anything else with `parse`. -/
theorem ofJson_document (document : Bytes) :
    (∀ c, ofJson document = .ok c ↔ Document document c ∧ c.version = 1) ∧
    (∀ v, ofJson document = .error (.unsupportedVersion v) ↔
      v ≠ 1 ∧ ∃ c, Document document c ∧ c.version = v) ∧
    ((∃ reason, ofJson document = .error (.parse reason)) ↔ ¬ ∃ c, Document document c) := by
  have hdocument : ∀ c, Document document c ↔ Wire.decode SessionConfig document = .ok c :=
    fun c => decode_eq_ok.symm
  simp only [hdocument]
  unfold ofJson
  cases Wire.decode SessionConfig document with
  | error fault => simp
  | ok c =>
    have hcurrent : currentVersion = 1 := rfl
    simp only [Except.ok.injEq, exists_eq_left', hcurrent]
    split
    · next hversion =>
      refine ⟨fun d => ?_, fun v => ?_, by simp⟩
      · rw [Except.ok.injEq, and_iff_left_of_imp]
        rintro rfl
        exact hversion
      · simp only [reduceCtorEq, false_iff, hversion]
        rintro ⟨hv, rfl⟩
        exact hv rfl
    · next hversion =>
      refine ⟨fun d => ?_, fun v => ?_, by simp⟩
      · simp only [reduceCtorEq, false_iff]
        rintro ⟨rfl, hv⟩
        exact hversion hv
      · rw [Except.error.injEq, ConfigError.unsupportedVersion.injEq]
        constructor
        · rintro rfl
          exact ⟨hversion, rfl⟩
        · exact fun h => h.2

end SessionConfig

end ProtectionDomain
