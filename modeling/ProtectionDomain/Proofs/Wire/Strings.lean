import ProtectionDomain.Proofs.Json.Slot
import ProtectionDomain.Proofs.Wire.Integers

/-!
# Texts on the wire

* `decode_slot_iff`: a document from what its bytes in one place stand for;
* `ReadsStrings`, `readsStrings`: at any depth of a document of any type, literals are read as the
  texts that they spell, and objects from the keys that theirs do;
* `ReadsTextAt`, `readsTextAt`: what a type makes of a literal as the value of a member, or inside
  of it;
* **`strings_exact`**: a text is read from its spellings and from nothing else.
-/

namespace ProtectionDomain.Wire

open Json Policy

variable {α : Type} [Wire α] {a : α}

/-! ## Any place -/

/-- A document is read as what the bytes in one place make of the rest. -/
theorem decode_slot_iff {s : Shape} {u t document : Bytes} {fill : s.Carrier → (shape α).Carrier}
    (hslot : Slot s u (shape α) t fill) (hu : Loose u) (hdocument : Carries none t document) :
    decode α document = .ok a ↔ ∃ y, s.Denotes u y ∧ a = ofCarrier (fill y) := by
  rw [decode_iff_of_carries (hslot.loose hu).trimmed hdocument]
  simp only [eq_comm (b := a)]
  exact exists_image_iff (hslot.denotes_iff hu)

variable (α) in
/-- Texts and keys are read from their spellings, wherever they stand. -/
structure ReadsStrings : Prop where
  /-- In the place of a text stands a literal that spells it. With anything else there, a literal
  that spells nothing among it, the document is not read. -/
  literal {d t document : Bytes} {fill : String → (shape α).Carrier} : Loose d →
    Slot .text d (shape α) t fill → Carries none t document →
    ∀ a : α, decode α document = .ok a ↔ ∃ s, Literal.LiteralText d s ∧ a = ofCarrier (fill s)
  /-- An object stands for what it does with its keys as they are spelled, and if one of them spells
  nothing, the document is not read. -/
  keys {s : Shape} {raws : List (Bytes × Bytes)} {u t document : Bytes}
    {fill : s.Carrier → (shape α).Carrier} : ObjectText QuotedKey raws u →
    (∀ m ∈ raws, Loose m.2) → Slot s u (shape α) t fill → Carries none t document →
    ∀ a : α, decode α document = .ok a ↔ ∃ members, SpellsKeys raws members ∧
      ∃ y, s.Denotes (objectBytes members) y ∧ a = ofCarrier (fill y)

theorem readsStrings : ReadsStrings α where
  literal hd hslot hdocument _ := decode_slot_iff hslot hd hdocument
  keys {s raws u t document fill} hu hall hslot hdocument a := by
    rw [decode_slot_iff hslot (.object hu hall) hdocument]
    constructor
    · rintro ⟨y, hy, ha⟩
      obtain ⟨members, hspelled, hy⟩ := (Shape.denotes_quoted hu hall s).mp hy
      exact ⟨members, hspelled, y, hy, ha⟩
    · rintro ⟨members, hspelled, y, hy, ha⟩
      exact ⟨y, (Shape.denotes_quoted hu hall s).mpr ⟨members, hspelled, hy⟩, ha⟩

/-! ## Members -/

variable (α) in
/-- An otherwise valid document with any value as the value of a member, or inside of it, is read if
and only if that is a literal that spells a text, and then as what the text makes of the rest. -/
structure ReadsTextAt (case : Option String) (name : String) (Holds : Bytes → Bytes → Prop)
    (put : α → String → α) : Prop where
  decode_iff {before after : List (String × Bytes)} {t₀ u₀ document₀ d t u document : Bytes}
    {a₀ : α} : (∀ m ∈ before ++ after, WellFormed m.2) → WellFormed t₀ →
    ObjectText KeyText (before ++ (name, t₀) :: after) u₀ → Carries case u₀ document₀ →
    decode α document₀ = .ok a₀ → Loose d → Holds d t →
    ObjectText KeyText (before ++ (name, t) :: after) u → Carries case u document →
    ∀ a, decode α document = .ok a ↔ ∃ s, Literal.LiteralText d s ∧ a = put a₀ s

/-- A type that is read from a record with a text among its fields. -/
theorem readsTextAt {case : Option String} {name : String} {fs : Fields}
    (i : fs.Place name .text) {make : fs.Carrier → α} {put : α → String → α}
    (hread : ∀ {u document : Bytes} {a : α}, Trimmed u → Carries case u document →
      (decode α document = .ok a ↔ ∃ v, fs.Text u v ∧ make v = a))
    (hmake : ∀ v x, make (i.set v x) = put (make v) x) : ReadsTextAt α case name Eq put where
  decode_iff {before after t₀ u₀ document₀ d t u document a₀} hall ht₀ h₀ hc₀ hdecode₀ hd ht h hc
      a := by
    obtain rfl := ht
    obtain ⟨v₀, hv₀, rfl⟩ := (hread h₀.trimmed hc₀).mp hdecode₀
    obtain ⟨p₀, hnamed, hcomplete⟩ := (Fields.text_object h₀ (wellFormed_place ht₀ hall)).mp hv₀
    have hleaves : i.LeavesRecord d u v₀ := .member hnamed hcomplete h
    rw [hread h.trimmed hc]
    simp only [← hmake, eq_comm (a := make _)]
    exact exists_image_iff (hleaves.text_iff hd)

theorem readsTextAt_label :
    ReadsTextAt Context none "label" Eq fun x label => { x with label } := by
  let fields : Fields := .cons "session" .uuid (.cons "label" .text
    (.cons "address" (.optional (.unsigned .address)) .nil))
  let place : fields.Place "label" .text := .there (by decide) .here
  exact readsTextAt place decode_iff_of_carries fun _ _ => rfl

theorem readsTextAt_policyName :
    ReadsTextAt Evaluation none "policy_name" Eq fun e policyName => { e with policyName } := by
  let fields : Fields := .cons "policy_name" .text (.cons "decision" (shape Decision) .nil)
  let place : fields.Place "policy_name" .text := .here
  exact readsTextAt place decode_iff_of_carries fun _ _ => rfl

theorem readsTextAt_reason :
    ReadsTextAt Decision (some "Deny") "reason" Eq fun _ reason => .deny reason := by
  let fields : Fields := .cons "reason" .text .nil
  let place : fields.Place "reason" .text := .here
  let case : Cases.Place "Deny" fields (.plain "Allow" (.record "Deny" fields .nil)) :=
    .plain (by decide) .here
  have hread : ∀ {u document : Bytes} {d : Decision}, Trimmed u →
      Carries (some "Deny") u document →
      (decode Decision document = .ok d ↔ ∃ v, fields.Text u v ∧ .deny v.1 = d) := by
    intro u document d hu hc
    have himage := exists_image_iff (w := d) (g := ofCarrier) (case.holds_iff (t := u))
    simp only [eq_comm (a := d)] at himage
    rw [decode, map_eq_ok]
    refine Iff.trans (exists_congr fun v => and_congr_left fun _ => ?_) himage
    exact decode_case hu hc v
  exact readsTextAt place hread fun _ _ => rfl

theorem readsTextAt_allowedLabel {ls rs : List Bytes} {xs ys : List String}
    (hls : List.Forall₂ Literal.LiteralText ls xs) (hrs : List.Forall₂ Literal.LiteralText rs ys) :
    ReadsTextAt SessionConfig none "pci_allowed_labels" (fun d t => ListText (ls ++ d :: rs) t)
      fun c label => { c with pciAllowedLabels := xs ++ label :: ys } where
  decode_iff {before after t₀ u₀ document₀ d t u document a₀} hall ht₀ h₀ hc₀ hdecode₀ hd ht h hc
      a := by
    let place : SessionConfig.fields.Place "pci_allowed_labels" (.list .text) :=
      .there (by decide) (.there (by decide) .here)
    obtain ⟨p₀, hp₀, rfl⟩ := (decode_iff_of_carries h₀.trimmed hc₀).mp hdecode₀
    obtain ⟨_, hnamed, rfl⟩ := (recordText_object_iff h₀ (wellFormed_place ht₀ hall)).mp hp₀
    have hleaves : place.LeavesSettings t u _ := .member hnamed rfl h
    have hslot : Slot .text d (shape SessionConfig) u _ :=
      .setting hleaves (.item (S := .text) hls hrs ht .whole)
    exact decode_slot_iff hslot hd hc

/-! ## Exactness -/

/-- **Wherever a text or a key stands, `decode` reads it from the bytes that are a `LiteralText` of
it, and from no others**: quoted bytes spell one text, or are `Flawed` and spell none. -/
theorem strings_exact :
    (∀ {α : Type} [Wire α], ReadsStrings α) ∧
    ReadsTextAt Context none "label" Eq (fun x label => { x with label }) ∧
    ReadsTextAt Evaluation none "policy_name" Eq (fun e policyName => { e with policyName }) ∧
    ReadsTextAt Decision (some "Deny") "reason" Eq (fun _ reason => .deny reason) ∧
    (∀ {ls rs : List Bytes} {xs ys : List String}, List.Forall₂ Literal.LiteralText ls xs →
      List.Forall₂ Literal.LiteralText rs ys →
      ReadsTextAt SessionConfig none "pci_allowed_labels" (fun d t => ListText (ls ++ d :: rs) t)
        fun c label => { c with pciAllowedLabels := xs ++ label :: ys }) ∧
    (∀ {d}, Literal.Quoted d →
      Loose d ∧ ((∃ s, Literal.LiteralText d s) ↔ ¬ Literal.Flawed d)) ∧
    ∀ {d s}, Literal.LiteralText d s →
      Literal.Quoted d ∧ ∀ s', Literal.LiteralText d s' → s' = s := by
  refine ⟨readsStrings, readsTextAt_label, readsTextAt_policyName, readsTextAt_reason,
    readsTextAt_allowedLabel, fun hd => ⟨.literal hd, hd.exists_literalText_iff⟩,
    fun ht => ⟨ht.form.quoted, ?_⟩⟩
  exact fun _ ht' => ht'.unique ht

/-- A label by its codes, one of them in two halves, under a key with an escape. With only half of
the pair, or with a line break as it is, the document is refused. -/
theorem strings_exact_label :
    let id := (Value.text (Uuid.text ⟨10⟩)).bytes
    let null := Value.null.bytes
    let key (name : String) : Bytes := Bytes.ofChars (Literal.write name)
    let quoted (text : String) : Bytes := Byte.quote :: (Bytes.ofString text ++ [Byte.quote])
    let member (key value : Bytes) : Bytes := key ++ Byte.colon :: value
    let document (label value : Bytes) : Bytes := Byte.openBrace ::
      (commas [member (key "session") id, member label value, member (key "address") null] ++
        [Byte.closeBrace])
    decode Context (document (quoted "l\\u0061bel") (quoted "\\u0067\\uD83d\\ude00")) =
      .ok ⟨⟨⟨10⟩⟩, "g😀", none⟩ ∧
    Refuses Context (document (key "label") (quoted "g\\uD83d")) ∧
    Refuses Context (document (key "label") (quoted "g\n")) := by
  intro id null key quoted member document
  obtain ⟨hstrings, hlabel, -, -, -, hflawed, -⟩ := strings_exact
  have hid : UuidText id ⟨10⟩ := ⟨_, Literal.literalText_write _, Uuid.read?_text ⟨10⟩⟩
  have hvalues : WellFormed id ∧ WellFormed null :=
    ⟨Shape.wellFormed .uuid id _ hid, .keyword .null⟩
  have hkey : ∀ name, KeyText name (key name) := Literal.literalText_write
  have hraw : ∀ {label value : Bytes}, Literal.Quoted label → ObjectText QuotedKey
      [(key "session", id), (label, value), (key "address", null)] (document label value) := by
    intro label value hlabel
    refine objectText_quoted ?_
    simpa using ⟨(hkey "session").form.quoted, hlabel, (hkey "address").form.quoted⟩
  have hspells : ∀ {label value : Bytes}, KeyText "label" label →
      SpellsKeys [(key "session", id), (label, value), (key "address", null)]
        [("session", id), ("label", value), ("address", null)] :=
    fun hlabel => .cons ⟨hkey _, rfl⟩ (.cons ⟨hlabel, rfl⟩ (.cons ⟨hkey _, rfl⟩ .nil))
  have hdenotes : ∀ {t value : Bytes} {label : String},
      ObjectText KeyText [("session", id), ("label", value), ("address", null)] t →
      Literal.LiteralText value label → (shape Context).Denotes t (⟨10⟩, label, none, ()) := by
    intro t value label ht hvalue
    refine .object (p := (some ⟨10⟩, some label, some none, ())) ht ?_ rfl
    exact ⟨⟨_, rfl, hid⟩, ⟨_, rfl, hvalue⟩, ⟨_, rfl, .null⟩, by simp [without, Fields.Named]⟩
  have hrefused : ∀ {d : Bytes}, Literal.Quoted d → Literal.Flawed d →
      Refuses Context (document (key "label") d) := by
    intro d hd hflaw
    have hobject : ∀ value, ObjectText KeyText ([("session", id)] ++ ("label", value) ::
        [("address", null)]) (document (key "label") value) := fun value =>
      objectText_iff_spellsKeys.mpr ⟨_, hraw (hkey "label").form.quoted, hspells (hkey "label")⟩
    have hdecode : decode Context (document (key "label") (key "g")) = .ok ⟨⟨⟨10⟩⟩, "g", none⟩ := by
      rw [decode, Shape.decode_of_denotes (hdenotes (hobject _) (hkey "g"))]
      rfl
    refine refuses_of_ne_ok fun a ha => ?_
    obtain ⟨s, hs, -⟩ := (hlabel.decode_iff (by simpa using hvalues) (.literal (hkey "g").form)
      (hobject _) (.self _) hdecode (hflawed hd).1 rfl (hobject d) (.self _) a).mp ha
    exact (hflawed hd).2.mp ⟨s, hs⟩ hflaw
  refine ⟨?spelled, ?half, ?control⟩
  case spelled =>
    have htext : Literal.LiteralText (quoted "\\u0067\\uD83d\\ude00") "g😀" :=
      Literal.literalText_iff_read.mpr rfl
    have hlabel : KeyText "label" (quoted "l\\u0061bel") := Literal.literalText_iff_read.mpr rfl
    have hloose : ∀ m ∈ [(key "session", id), (quoted "l\\u0061bel",
        quoted "\\u0067\\uD83d\\ude00"), (key "address", null)], Loose m.2 := by
      simpa using ⟨hvalues.1.loose, .literal htext.form.quoted, hvalues.2.loose⟩
    exact (hstrings.keys (hraw hlabel.form.quoted) hloose .whole (.self _) _).mpr
      ⟨_, hspells hlabel, _, hdenotes (objectText_objectBytes _) htext, rfl⟩
  case half =>
    have hcode : Literal.CodeText (Bytes.ofString "D83d") 0xD83D :=
      .digits (i := 13) (j := 8) (k := 3) (l := 13) rfl rfl rfl rfl
    refine hrefused ⟨Bytes.ofString "g\\uD83d", rfl, ?_⟩ ⟨Bytes.ofString "g", ['g'],
      Bytes.ofString "\\uD83d\"", rfl, .cons (.raw (by decide) (by decide) (by decide)) .nil, ?_⟩
    · exact .byte (by decide) (by decide) (.escape hcode.quotedBody)
    · refine .leading (t := Bytes.ofString "D83d") hcode rfl fun _ _ _ _ _ heq => ?_
      exact absurd (List.cons.inj heq).1 (by decide)
  case control =>
    refine hrefused ⟨Bytes.ofString "g\n", rfl, ?_⟩ ⟨Bytes.ofString "g", ['g'],
      Bytes.ofString "\n\"", rfl, .cons (.raw (by decide) (by decide) (by decide)) .nil, ?_⟩
    · exact .byte (by decide) (by decide) (.byte (by decide) (by decide) .nil)
    · exact .control (by decide)

end ProtectionDomain.Wire
