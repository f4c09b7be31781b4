import ProtectionDomain.IntKind
import ProtectionDomain.Policy.Composed
import ProtectionDomain.Proofs.Wire.Presentable
import ProtectionDomain.Rpc

/-!
# The records of the wire format

* `IntKind.fields`, `Policy.Context.fields`, `Policy.Report.fields`, `Request.fields` and the like:
  what documents give of a value of each type;
* `Wire.required_cons`, `Wire.kind_fields` and the like: these are the fields of the shapes;
* `Wire.exists_kind` and the like: every record of a shape is one of a value;
* **`Wire.presentable_records`**: documents may present them in any way, but have to give each field
  that is required, and each once.
-/

namespace ProtectionDomain

open Json

/-! ## The fields -/

/-- The texts of a case without fields: its name, or an object with its name as the only key and
`null` under it. -/
def NameText (name : String) (t : Bytes) : Prop :=
  ∃ content, CaseText t name content ∧ ∀ u ∈ content, NullText u

/-- The texts of a device address, or of none. -/
def AddressText (t : Bytes) : Option UInt64 → Prop
  | none => NullText t
  | some address => UnsignedText .address t address

/-- The fields of a kind of integers. -/
def IntKind.fields (k : IntKind) : List Field :=
  [.required "width" (NameText k.width.name), .required "signedness" (NameText k.signedness.name)]

/-- The field of a request for a device. -/
def Request.fields (address : UInt64) : List Field :=
  [.required "addr" (UnsignedText .address · address)]

/-- The field of the answer to a request for a device. -/
def Reply.fields (granted : Bool) : List Field := [.required "granted" (FlagText · granted)]

/-- The texts of a privilege. -/
def Privilege.Text : Privilege → Bytes → Prop
  | .pciAssignment => NameText "pci_assignment"

namespace Policy

/-- The fields of a context. The address may be left out if there is none. -/
def Context.fields (x : Context) : List Field :=
  [.required "session" (UuidText · x.session.uuid),
    .required "label" (Literal.LiteralText · x.label),
    ⟨"address", false, (AddressText · x.address), x.address = none⟩]

/-- The field of a refusal. -/
def Decision.fields (reason : String) : List Field :=
  [.required "reason" (Literal.LiteralText · reason)]

/-- The texts of a decision. -/
def Decision.Text : Decision → Bytes → Prop
  | allow, t => NameText "Allow" t
  | deny reason, t => ∃ u, ObjectText KeyText [("Deny", u)] t ∧ RecordOf (fields reason) u

/-- The fields of what an engine said. -/
def Evaluation.fields (e : Evaluation) : List Field :=
  [.required "policy_name" (Literal.LiteralText · e.policyName),
    .required "decision" e.decision.Text]

/-- The fields of a report. -/
def Report.fields (r : Report) : List Field :=
  [.required "privilege" r.privilege.Text, .required "decision" r.decision.Text,
    .required "evaluated_policies" (ListOf (fun t e => RecordOf (Evaluation.fields e) t) ·
      r.evaluations)]

end Policy

namespace Wire

/-! ## The fields are those of the shapes -/

theorem required_cons {name : String} {Text : Bytes → Prop} {s : Shape} {x : s.Carrier}
    {fs : Fields} {v : fs.Carrier} {fields : List Field} (hs : s.isOptional = false)
    (h : ∀ t, Text t ↔ s.Denotes t x) (hfields : fields = fs.given v) :
    Field.required name Text :: fields = (Fields.cons name s fs).given (x, v) := by
  have hText : Text = (s.Denotes · x) := funext fun t => propext (h t)
  have hunset : (s.whenLeftOut? = some x) = False := by
    cases s with
    | optional => contradiction
    | _ => exact eq_false fun h => nomatch h
  rw [Fields.given, Field.required, hText, hs, hunset, hfields]
  rfl

/-- A case is nothing but its name. -/
def Spelled (cs : Cases) (v : cs.Carrier) (name : String) : Prop :=
  ∀ key content, cs.Holds key content v ↔ key = name ∧ ∀ u ∈ content, NullText u

theorem spelled_self {name : String} {cs : Cases} : Spelled (.plain name cs) (.inl ()) name :=
  fun _ _ => Iff.rfl

theorem Spelled.next {name other : String} {cs : Cases} {v : cs.Carrier} (h : Spelled cs v name)
    (hne : name ≠ other) : Spelled (.plain other cs) (.inr v) name := by
  intro key content
  rw [Cases.Holds, h key content]
  refine and_iff_right_of_imp ?_
  rintro ⟨rfl, -⟩
  exact hne

theorem Spelled.nameText_iff {name : String} {cs : Cases} {v : cs.Carrier} (h : Spelled cs v name)
    (t : Bytes) :
    NameText name t ↔ ∃ key content, CaseText t key content ∧ cs.Holds key content v := by
  constructor
  · rintro ⟨content, htext, hnull⟩
    exact ⟨name, content, htext, (h name content).mpr ⟨rfl, hnull⟩⟩
  · rintro ⟨key, content, htext, hholds⟩
    obtain ⟨rfl, hnull⟩ := (h key content).mp hholds
    exact ⟨content, htext, hnull⟩

theorem width_iff (w : IntWidth) :
    ∀ t, NameText w.name t ↔ (shape IntWidth).Denotes t (toCarrier w) := by
  cases w with
  | w8 => exact spelled_self.nameText_iff
  | w16 => exact (spelled_self.next (by decide)).nameText_iff
  | w32 => exact ((spelled_self.next (by decide)).next (by decide)).nameText_iff
  | w64 =>
    exact (((spelled_self.next (by decide)).next (by decide)).next (by decide)).nameText_iff

theorem signedness_iff (s : Signedness) :
    ∀ t, NameText s.name t ↔ (shape Signedness).Denotes t (toCarrier s) := by
  cases s with
  | signed => exact spelled_self.nameText_iff
  | unsigned => exact (spelled_self.next (by decide)).nameText_iff

theorem privilege_iff (p : Privilege) :
    ∀ t, p.Text t ↔ (shape Privilege).Denotes t (toCarrier p) := by
  cases p
  exact spelled_self.nameText_iff

theorem address_iff (address : Option UInt64) (t : Bytes) :
    AddressText t address ↔ OptionalText (UnsignedText .address) t address := by
  cases address with
  | none => rfl
  | some a =>
    refine (and_iff_left_of_imp fun ht => ?_).symm
    obtain ⟨d, ds, hdigits, hd⟩ := Numeral.digitsOf_cons (Size.address.toNumber a)
    rw [show t = Numeral.digitsOf (Size.address.toNumber a) from ht, hdigits]
    rintro ⟨⟩
    contradiction

open Policy

theorem refusal_fields (reason : String) :
    Decision.fields reason = Fields.given (.cons "reason" .text .nil) (reason, ()) :=
  required_cons rfl (fun _ => Iff.rfl) rfl

theorem decision_iff (d : Decision) :
    ∀ t, d.Text t ↔ (shape Decision).Denotes t (toCarrier d) := by
  cases d with
  | allow => exact spelled_self.nameText_iff
  | deny reason =>
    intro t
    have hrecord : ∀ u, RecordOf (Decision.fields reason) u ↔
        Fields.Text (.cons "reason" .text .nil) u (reason, ()) := by
      intro u
      rw [refusal_fields]
      exact (Fields.text_iff_recordOf rfl).symm
    constructor
    · rintro ⟨u, htext, hu⟩
      exact ⟨"Deny", some u, .content htext, by decide, rfl, u, rfl, (hrecord u).mp hu⟩
    · rintro ⟨_, _, htext, -, rfl, u, rfl, hu⟩
      cases htext with
      | content htext => exact ⟨u, htext, (hrecord u).mpr hu⟩

theorem evaluation_fields (e : Evaluation) :
    Evaluation.fields e = Fields.given _ (toCarrier e) :=
  required_cons rfl (fun _ => Iff.rfl) (required_cons rfl (decision_iff e.decision) rfl)

theorem evaluation_iff (e : Evaluation) (t : Bytes) :
    RecordOf (Evaluation.fields e) t ↔ (shape Evaluation).Denotes t (toCarrier e) := by
  rw [evaluation_fields]
  exact (Fields.text_iff_recordOf rfl).symm

theorem evaluations_iff (es : List Evaluation) (t : Bytes) :
    ListOf (fun t e => RecordOf (Evaluation.fields e) t) t es ↔
      (Shape.list (shape Evaluation)).Denotes t (es.map toCarrier) := by
  refine exists_congr fun items => and_congr_right fun _ => ?_
  rw [List.forall₂_map_right_iff]
  simp only [evaluation_iff]

theorem address_fields (address : Option UInt64) :
    [⟨"address", false, (AddressText · address), address = none⟩] =
      Fields.given (.cons "address" (.optional (.unsigned .address)) .nil) (address, ()) := by
  have hText : (AddressText · address) = (OptionalText (UnsignedText .address) · address) :=
    funext fun t => propext (address_iff address t)
  have hunset : (address = none) = (some none = some address) := by
    rw [Option.some.injEq]
    exact propext eq_comm
  rw [hText, hunset]
  rfl

theorem kind_fields (k : IntKind) : k.fields = Fields.given _ (toCarrier k) :=
  required_cons rfl (width_iff k.width) (required_cons rfl (signedness_iff k.signedness) rfl)

theorem context_fields (x : Context) : x.fields = Fields.given _ (toCarrier x) :=
  required_cons rfl (fun _ => Iff.rfl)
    (required_cons rfl (fun _ => Iff.rfl) (address_fields x.address))

theorem report_fields (r : Report) : r.fields = Fields.given _ (toCarrier r) :=
  required_cons rfl (privilege_iff r.privilege) (required_cons rfl (decision_iff r.decision)
    (required_cons rfl (evaluations_iff r.evaluations) rfl))

theorem request_fields (address : UInt64) :
    Request.fields address = Fields.given (.cons "addr" (.unsigned .address) .nil) (address, ()) :=
  required_cons rfl (fun _ => Iff.rfl) rfl

theorem reply_fields (granted : Bool) :
    Reply.fields granted = Fields.given (.cons "granted" .flag .nil) (granted, ()) :=
  required_cons rfl (fun _ => Iff.rfl) rfl

/-! ## Every record is one of a value -/

theorem exists_width (v : (shape IntWidth).Carrier) : ∃ w : IntWidth, toCarrier w = v := by
  rcases v with ⟨⟩ | ⟨⟩ | ⟨⟩ | ⟨⟩ | ⟨⟨⟩⟩
  · exact ⟨.w8, rfl⟩
  · exact ⟨.w16, rfl⟩
  · exact ⟨.w32, rfl⟩
  · exact ⟨.w64, rfl⟩

theorem exists_kind (v : (shape IntKind).Carrier) : ∃ k : IntKind, toCarrier k = v := by
  obtain ⟨w, s, ⟨⟩⟩ := v
  obtain ⟨w, rfl⟩ := exists_width w
  rcases s with ⟨⟩ | ⟨⟩ | ⟨⟨⟩⟩
  · exact ⟨⟨w, .signed⟩, rfl⟩
  · exact ⟨⟨w, .unsigned⟩, rfl⟩

theorem exists_context (v : (shape Context).Carrier) : ∃ x : Context, toCarrier x = v := by
  obtain ⟨id, label, address, ⟨⟩⟩ := v
  exact ⟨⟨⟨id⟩, label, address⟩, rfl⟩

theorem exists_decision (v : (shape Decision).Carrier) : ∃ d : Decision, toCarrier d = v := by
  rcases v with ⟨⟩ | ⟨reason, ⟨⟩⟩ | ⟨⟨⟩⟩
  · exact ⟨.allow, rfl⟩
  · exact ⟨.deny reason, rfl⟩

theorem exists_evaluation (v : (shape Evaluation).Carrier) :
    ∃ e : Evaluation, toCarrier e = v := by
  obtain ⟨name, d, ⟨⟩⟩ := v
  obtain ⟨d, rfl⟩ := exists_decision d
  exact ⟨⟨name, d⟩, rfl⟩

theorem exists_evaluations (vs : List (shape Evaluation).Carrier) :
    ∃ es : List Evaluation, es.map toCarrier = vs := by
  induction vs with
  | nil => exact ⟨[], rfl⟩
  | cons v vs ih =>
    obtain ⟨es, rfl⟩ := ih
    obtain ⟨e, rfl⟩ := exists_evaluation v
    exact ⟨e :: es, rfl⟩

theorem exists_report (v : (shape Report).Carrier) : ∃ r : Report, toCarrier r = v := by
  obtain ⟨p, d, es, ⟨⟩⟩ := v
  obtain ⟨d, rfl⟩ := exists_decision d
  obtain ⟨es, rfl⟩ := exists_evaluations es
  rcases p with ⟨⟩ | ⟨⟨⟩⟩
  exact ⟨⟨.pciAssignment, d, es⟩, rfl⟩

/-! ## The types -/

/-- **For every type of the format with required fields it does not matter how documents present
them.** Of the fields only the address of a context may be left out, if there is none. -/
theorem presentable_records :
    Presentable none IntKind.fields id ∧
    Presentable none Context.fields id ∧
    Presentable none Evaluation.fields id ∧
    Presentable none Report.fields id ∧
    Presentable (some "AssignPci") Request.fields Request.assignPci ∧
    Presentable (some "AssignPci") Reply.fields Reply.assignPci ∧
    Presentable (some "Deny") Decision.fields Decision.deny := by
  refine ⟨?kind, ?context, ?evaluation, ?report, ?request, ?reply, ?refusal⟩
  case kind =>
    exact presentable_of_fields (readsRecord_bare fun _ => rfl) rfl _ exists_kind kind_fields
      ofCarrier_toCarrier
  case context =>
    exact presentable_of_fields (readsRecord_bare fun _ => rfl) rfl _ exists_context context_fields
      ofCarrier_toCarrier
  case evaluation =>
    exact presentable_of_fields (readsRecord_bare fun _ => rfl) rfl _ exists_evaluation
      evaluation_fields ofCarrier_toCarrier
  case report =>
    exact presentable_of_fields (readsRecord_bare fun _ => rfl) rfl _ exists_report report_fields
      ofCarrier_toCarrier
  case request =>
    exact presentable_of_fields (readsRecord_case (fun _ => rfl) fun _ _ => exists_holds_record)
      rfl _ (fun v : UInt64 × Unit => ⟨v.1, rfl⟩) request_fields fun _ => rfl
  case reply =>
    exact presentable_of_fields (readsRecord_case (fun _ => rfl) fun _ _ => exists_holds_record)
      rfl _ (fun v : Bool × Unit => ⟨v.1, rfl⟩) reply_fields fun _ => rfl
  case refusal =>
    exact presentable_of_fields (readsRecord_case (fun _ => rfl) fun _ _ =>
      (exists_holds_plain (by decide)).trans exists_holds_record) rfl _
      (fun v : String × Unit => ⟨v.1, rfl⟩) refusal_fields fun _ => rfl

/-- A context without an address, as an object out of order with an unknown member and as a list;
and documents that lack its label, give it twice or lack the `null`. -/
theorem presentable_records_context :
    decode Context (Value.object [("label", .text "guest"), ("note", .list [.null]),
      ("session", .text (Uuid.text ⟨7⟩))]).bytes = .ok ⟨⟨⟨7⟩⟩, "guest", none⟩ ∧
    Refuses Context (Value.object [("note", .list [.null]),
      ("session", .text (Uuid.text ⟨7⟩))]).bytes ∧
    Refuses Context (Value.object [("label", .text "guest"), ("note", .list [.null]),
      ("label", .null), ("session", .text (Uuid.text ⟨7⟩))]).bytes ∧
    decode Context (Value.list [.text (Uuid.text ⟨7⟩), .text "guest", .null]).bytes =
      .ok ⟨⟨⟨7⟩⟩, "guest", none⟩ ∧
    Refuses Context (Value.list [.text (Uuid.text ⟨7⟩), .text "guest"]).bytes := by
  have hnull : WellFormed Value.null.bytes := .keyword .null
  have hnote : WellFormed (Value.list [.null]).bytes :=
    .list (Value.listText_bytes [.null]) (by simpa using hnull)
  have hlabel : Literal.LiteralText (Value.text "guest").bytes "guest" :=
    Literal.literalText_write "guest"
  have hsession : UuidText (Value.text (Uuid.text ⟨7⟩)).bytes ⟨7⟩ :=
    ⟨_, Literal.literalText_write (Uuid.text ⟨7⟩), Uuid.read?_text ⟨7⟩⟩
  have hpresents : Presents (Context.fields ⟨⟨⟨7⟩⟩, "guest", none⟩)
      (texts [("label", .text "guest"), ("note", .list [.null]),
        ("session", .text (Uuid.text ⟨7⟩))]) := by
    constructor
    · intro f hf
      simp only [Context.fields, List.mem_cons, List.not_mem_nil, or_false] at hf
      rcases hf with rfl | rfl | rfl
      · exact Or.inl ⟨_, rfl, hsession⟩
      · exact Or.inl ⟨_, rfl, hlabel⟩
      · exact Or.inr ⟨trivial, rfl⟩
    · intro m hm hother
      simp only [texts, List.map_cons, List.map_nil, List.mem_cons, List.not_mem_nil,
        or_false] at hm
      rcases hm with rfl | rfl | rfl
      · exact absurd hother (by simp [Context.fields, Field.required])
      · exact hnote
      · exact absurd hother (by simp [Context.fields, Field.required])
  obtain ⟨-, hcontext, -⟩ := presentable_records
  refine ⟨?_, ?_, ?_, ?_, ?_⟩
  · exact hcontext.object hpresents (Value.objectText_bytes _) (.self _)
  · exact hcontext.missing hpresents (List.mem_cons_of_mem _ List.mem_cons_self) rfl
      (Value.objectText_bytes [("note", .list [.null]), ("session", .text (Uuid.text ⟨7⟩))])
      (.self _)
  · have hsplit : Presents (Context.fields ⟨⟨⟨7⟩⟩, "guest", none⟩)
        (texts [("label", .text "guest"), ("note", .list [.null])] ++
          texts [("session", .text (Uuid.text ⟨7⟩))]) := hpresents
    have hgiven : valuesOf "label" (texts [("label", .text "guest"), ("note", .list [.null])] ++
        texts [("session", .text (Uuid.text ⟨7⟩))]) = [(Value.text "guest").bytes] := rfl
    exact hcontext.repeated hsplit (List.mem_cons_of_mem _ List.mem_cons_self)
      (hgiven ▸ List.cons_ne_nil _ _) hnull
      (Value.objectText_bytes [("label", .text "guest"), ("note", .list [.null]),
        ("label", .null), ("session", .text (Uuid.text ⟨7⟩))]) (.self _)
  · have hitems : List.Forall₂ Field.Text (Context.fields ⟨⟨⟨7⟩⟩, "guest", none⟩)
        ([Value.text (Uuid.text ⟨7⟩), .text "guest", .null].map Value.bytes) :=
      .cons hsession (.cons hlabel (.cons .null .nil))
    exact hcontext.list hitems (Value.listText_bytes _) (.self _)
  · have hlength : ([Value.text (Uuid.text ⟨7⟩), .text "guest"].map Value.bytes).length ≠
        (Context.fields ⟨⟨⟨7⟩⟩, "guest", none⟩).length := by
      simp [Context.fields]
    refine hcontext.length hlength (fun u hu => ?_) (Value.listText_bytes _) (.self _)
    simp only [List.map_cons, List.map_nil, List.mem_cons, List.not_mem_nil, or_false] at hu
    rcases hu with rfl | rfl
    · exact Shape.wellFormed .uuid _ _ hsession
    · exact Shape.wellFormed .text _ _ hlabel

end Wire

end ProtectionDomain
