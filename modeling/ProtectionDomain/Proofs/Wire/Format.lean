import ProtectionDomain.Proofs.Config.Load
import ProtectionDomain.Proofs.Json.Outline
import ProtectionDomain.Proofs.Wire.Presentable
import ProtectionDomain.Proofs.Wire.RoundTrip

/-!
# Formats apart

A document is read as a value of the format that it was written in, or not at all. Settings are the
exception: they take any object, and find nothing in one of another format.

* `refuses_encode`: the outlines of what is written may tell that it is not read;
* `decode_encode_of_avoids`: what is read from an object without any settings;
* `Format`, `HasFormat`: the formats of the wire, and the types that are written in them;
* `Format.mayRead_eq_false`, `Format.avoids_settings`: the outlines of the formats;
* **`formats_apart`**: no document of one format is read as one of another.
-/

namespace ProtectionDomain.Wire

open Json Policy

/-! ## Outlines of documents -/

section

variable {α β : Type} [Wire α] [Wire β]

theorem exists_outline (a : α) : ∃ o ∈ (shape α).outlines, o.Fits (toJson a) :=
  Shape.exists_outline (shape α) (toCarrier a)

/-- A type refuses the documents of another if it may read none of their outlines. -/
theorem refuses_encode (h : ∀ o ∈ (shape α).outlines, (shape β).mayRead o = false) (a : α) :
    Refuses β (Bytes.ofString (encode a)) := by
  have htext := hasText_encode a
  refine refuses_of_ne_ok fun b hb => ?_
  obtain ⟨x, hx, -⟩ := map_eq_ok.mp hb
  have hdenotes : (shape β).Denotes (Bytes.ofString (encode a)) x :=
    Shape.denotes_of_decode htext.wellFormed hx
  obtain ⟨o, ho, hfits⟩ := exists_outline a
  have hread := (shape β).mayRead_of_denotes hfits htext hdenotes
  exact Bool.false_ne_true ((h o ho).symm.trans hread)

/-- An object without any of the settings is read as the default configuration. -/
theorem decode_encode_of_avoids
    (h : ∀ o ∈ (shape α).outlines, o.avoids SessionConfig.settingNames = true) (a : α)
    {members : List (String × Bytes)}
    (hobject : ObjectText KeyText members (Bytes.ofString (encode a))) :
    decode SessionConfig (Bytes.ofString (encode a)) = .ok {} := by
  have htext := hasText_encode a
  have hform : (toJson a).form = .object := by
    obtain ⟨r, hr, -⟩ := hobject
    rw [hr] at htext
    exact htext.form_eq rfl
  obtain ⟨o, ho, hfits⟩ := exists_outline a
  generalize toJson a = j at htext hform hfits
  cases j with
  | null | flag | number | text | list => cases hform
  | object ms =>
    have hdenotes : (shape SessionConfig).Denotes (Bytes.ofString (encode a))
        SessionConfig.fields.unknown :=
      Shape.denotes_unknown (hfits.not_mem (h o ho)) htext
    rw [decode, Shape.decode_of_denotes hdenotes]
    rfl

end

/-! ## The formats -/

/-- The formats of the wire. -/
inductive Format
  | integer
  | id
  | width
  | signedness
  | kind
  | privilege
  | decision
  | context
  | evaluation
  | report
  | request
  | reply
  | settings
  deriving DecidableEq

/-- All formats. -/
def Format.all : List Format :=
  [.integer, .id, .width, .signedness, .kind, .privilege, .decision, .context, .evaluation, .report,
    .request, .reply, .settings]

theorem Format.mem_all (f : Format) : f ∈ all := by
  cases f <;> decide

/-- The types that are written in a format. Capabilities and handles are written alike. -/
inductive HasFormat : (α : Type) → [Wire α] → Format → Prop
  | cap (target : ObjectKind) : HasFormat (Cap target) .integer
  | handle (kind : HandleKind) : HasFormat (Handle kind) .integer
  | id : HasFormat SessionId .id
  | width : HasFormat IntWidth .width
  | signedness : HasFormat Signedness .signedness
  | kind : HasFormat IntKind .kind
  | privilege : HasFormat Privilege .privilege
  | decision : HasFormat Decision .decision
  | context : HasFormat Context .context
  | evaluation : HasFormat Evaluation .evaluation
  | report : HasFormat Report .report
  | request : HasFormat Request .request
  | reply : HasFormat Reply .reply
  | settings : HasFormat SessionConfig .settings

/-- The shape of a format. -/
def Format.shape : Format → Shape
  | integer => .unsigned .word64
  | id => Wire.shape SessionId
  | width => Wire.shape IntWidth
  | signedness => Wire.shape Signedness
  | kind => Wire.shape IntKind
  | privilege => Wire.shape Privilege
  | decision => Wire.shape Decision
  | context => Wire.shape Context
  | evaluation => Wire.shape Evaluation
  | report => Wire.shape Report
  | request => Wire.shape Request
  | reply => Wire.shape Reply
  | settings => Wire.shape SessionConfig

theorem HasFormat.shape_eq {α : Type} [Wire α] {f : Format} (h : HasFormat α f) :
    shape α = f.shape := by
  cases h <;> rfl

theorem Format.mayRead_eq_false {f g : Format} (hne : f ≠ g) (hg : g ≠ .settings) :
    ∀ o ∈ f.shape.outlines, g.shape.mayRead o = false := by
  have hall : ∀ f ∈ all, ∀ g ∈ all, f ≠ g → g ≠ .settings →
      ∀ o ∈ f.shape.outlines, g.shape.mayRead o = false := by
    decide
  exact hall f f.mem_all g g.mem_all hne hg

theorem Format.avoids_settings {f : Format} (hf : f ≠ .settings) :
    ∀ o ∈ f.shape.outlines, o.avoids SessionConfig.settingNames = true := by
  have hall : ∀ f ∈ all, f ≠ .settings →
      ∀ o ∈ f.shape.outlines, o.avoids SessionConfig.settingNames = true := by
    decide
  exact hall f f.mem_all hf

/-- **No type reads what `encode` wrote for one of another `Format`**, but for configurations: they
read any other object as `{}`, which allows nothing. -/
theorem formats_apart :
    (∀ {α β : Type} [Wire α] [Wire β] {f g : Format}, HasFormat α f → HasFormat β g → f ≠ g →
      g ≠ .settings → ∀ a : α, Refuses β (Bytes.ofString (encode a))) ∧
    (∀ {α : Type} [Wire α] {f : Format}, HasFormat α f → f ≠ .settings → ∀ a : α,
      (∃ members, ObjectText KeyText members (Bytes.ofString (encode a))) →
      decode SessionConfig (Bytes.ofString (encode a)) = .ok {}) ∧
    ∀ p x, (({} : SessionConfig).engine.evaluate p x).isAllow = false := by
  refine ⟨fun hα hβ hne hg a => ?_, fun hα hf a ⟨members, hobject⟩ => ?_, fun p x => rfl⟩
  · refine refuses_encode (fun o ho => ?_) a
    rw [hα.shape_eq] at ho
    rw [hβ.shape_eq]
    exact Format.mayRead_eq_false hne hg o ho
  · refine decode_encode_of_avoids (fun o ho => ?_) a hobject
    rw [hα.shape_eq] at ho
    exact Format.avoids_settings hf o ho

/-- A request is no reply and a reply is no request, though both have the same name. As a
configuration a request is the default. -/
theorem formats_apart_request :
    Refuses Reply (Bytes.ofString (encode (Request.assignPci 7))) ∧
    Refuses Request (Bytes.ofString (encode (Reply.assignPci true))) ∧
    decode SessionConfig (Bytes.ofString (encode (Request.assignPci 7))) = .ok {} := by
  obtain ⟨hrefuses, hdefault, -⟩ := formats_apart
  have hobject : ∃ members,
      ObjectText KeyText members (Bytes.ofString (encode (Request.assignPci 7))) := by
    rw [ofString_encode]
    exact ⟨_, Value.objectText_bytes [("AssignPci", .object [("addr", .number 7)])]⟩
  exact ⟨hrefuses .request .reply (by decide) (by decide) _,
    hrefuses .reply .request (by decide) (by decide) _,
    hdefault .request (by decide) _ hobject⟩

end ProtectionDomain.Wire
