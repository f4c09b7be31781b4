import ProtectionDomain.Contract
import ProtectionDomain.Proofs.Wire.RoundTrip

/-!
# Contracts are exact

A contract holds for one document only. That the golden document is read, and as the value itself,
need not be looked at once it is the document that is written.

* `check_eq`: what a contract comes to;
* `decode_padded`: every value has other documents that are read as it;
* `Exact`, `exact_of_wire`: contracts of a type hold for the documents that are written, and fail in
  one way for all others;
* **`check_exact`**: all of this for each of the types that have contracts.
-/

namespace ProtectionDomain.Contract

open Json Policy Wire

variable {α : Type} [Wire α]

/-! ## Other documents of a value -/

theorem decode_padded (a : α) {before after : String} (hbefore : Blanks (Bytes.ofString before))
    (hafter : Blanks (Bytes.ofString after)) :
    decode α (Bytes.ofString (before ++ encode a ++ after)) = .ok a := by
  have htext : (shape α).Denotes (Bytes.ofString (encode a)) (toCarrier a) :=
    Shape.denotes_of_hasText (shape α) isProper_shape (toCarrier a) _ (hasText_encode a)
  have hbytes : Bytes.ofString (before ++ encode a ++ after) =
      Bytes.ofString before ++ (Bytes.ofString (encode a) ++ Bytes.ofString after) := by
    simp [Bytes.ofString]
  have hdecode : (shape α).decode (Bytes.ofString (before ++ encode a ++ after)) =
      .ok (toCarrier a) :=
    Shape.decode_eq_ok.mpr ⟨_, _, _, hbytes, hbefore, hafter, htext⟩
  rw [decode, hdecode]
  exact congrArg Except.ok (ofCarrier_toCarrier a)

theorem padded_ne {s before after : String} (h : before ++ after ≠ "") :
    before ++ s ++ after ≠ s := by
  intro heq
  have hlength := congrArg String.length heq
  simp only [String.length_append] at hlength
  refine h (String.length_eq_zero_iff.mp ?_)
  rw [String.length_append]
  omega

/-! ## Exactness -/

variable [Inspect α] [DecidableEq α]

/-- A contract is nothing but a comparison with what is written: the document that passes it is read
back as the value. -/
theorem check_eq (a : α) (golden : String) :
    check a golden =
      if golden = encode a then .ok () else .error (.formatChanged (encode a) golden) := by
  by_cases h : golden = encode a
  · rw [if_pos h, check, if_neg (not_not.mpr h.symm), h, decode_encode]
    exact if_pos rfl
  · rw [if_neg h, check, if_pos (Ne.symm h)]

variable (α) in
/-- The contracts of a type hold for one document of each value. -/
structure Exact : Prop where
  /-- They hold for what is written, byte for byte, and for nothing else. -/
  passes (a : α) (golden : String) :
    check a golden = .ok () ↔ Bytes.ofString golden = Bytes.ofString (encode a)
  /-- They fail in no other way than that something else is written. -/
  fails (a : α) (golden : String) (violation : Violation) :
    check a golden = .error violation → violation = .formatChanged (encode a) golden
  /-- It is not enough that the golden document is read as the value. -/
  written (a : α) (golden : String) :
    decode α (Bytes.ofString golden) = .ok a → golden ≠ encode a →
      check a golden = .error (.formatChanged (encode a) golden)
  /-- Every value has documents of this kind. -/
  padded (a : α) (before after : String) :
    Blanks (Bytes.ofString before) → Blanks (Bytes.ofString after) → before ++ after ≠ "" →
      decode α (Bytes.ofString (before ++ encode a ++ after)) = .ok a ∧
      check a (before ++ encode a ++ after) =
        .error (.formatChanged (encode a) (before ++ encode a ++ after))

theorem exact_of_wire : Exact α where
  passes a golden := by
    rw [check_eq, Bytes.ofString_inj]
    split
    · next h => exact iff_of_true rfl h
    · next h => exact iff_of_false nofun h
  fails a golden violation h := by
    rw [check_eq] at h
    split at h
    · contradiction
    · exact (Except.error.inj h).symm
  written a golden _ hne := by rw [check_eq, if_neg hne]
  padded a before after hbefore hafter hne :=
    ⟨decode_padded a hbefore hafter, by rw [check_eq, if_neg (padded_ne hne)]⟩

/-- **`check a golden` holds if and only if `golden` is `encode a`**, and whenever it fails it is
with `formatChanged`, for each type that has contracts. -/
theorem check_exact :
    (∀ target, Exact (Cap target)) ∧ Exact SessionId ∧ Exact IntWidth ∧ Exact Signedness ∧
    Exact IntKind ∧ (∀ kind, Exact (Handle kind)) ∧ Exact Privilege ∧ Exact Decision ∧
    Exact Context ∧ Exact Request ∧ Exact Reply ∧ Exact SessionConfig :=
  ⟨fun _ => exact_of_wire, exact_of_wire, exact_of_wire, exact_of_wire, exact_of_wire,
    fun _ => exact_of_wire, exact_of_wire, exact_of_wire, exact_of_wire, exact_of_wire,
    exact_of_wire, exact_of_wire⟩

/-- A list, an object with its members out of order and an id in upper case, and a document between
blanks: all three are read as the context, and none is its golden document. -/
theorem check_exact_context :
    let x : Context := ⟨⟨⟨10⟩⟩, "guest", none⟩
    let id := "00000000-0000-0000-0000-00000000000A"
    let listed := String.ofList (Value.list [.text id, .text "guest", .null]).compact
    let unordered := String.ofList (Value.object
      [("label", .text "guest"), ("address", .null), ("session", .text id)]).compact
    check x (encode x) = .ok () ∧
    (decode Context (Bytes.ofString listed) = .ok x ∧
      check x listed = .error (.formatChanged (encode x) listed)) ∧
    (decode Context (Bytes.ofString unordered) = .ok x ∧
      check x unordered = .error (.formatChanged (encode x) unordered)) ∧
    (decode Context (Bytes.ofString ("\t" ++ encode x ++ "\n")) = .ok x ∧
      check x ("\t" ++ encode x ++ "\n") =
        .error (.formatChanged (encode x) ("\t" ++ encode x ++ "\n"))) := by
  intro x id listed unordered
  obtain ⟨-, -, -, -, -, -, -, -, hcontext, -⟩ := check_exact
  have hid : UuidText (Value.text id).bytes ⟨10⟩ :=
    ⟨id, Literal.literalText_write id, by decide⟩
  have hlabel : Literal.LiteralText (Value.text "guest").bytes "guest" :=
    Literal.literalText_write "guest"
  have hread : ∀ v : Value, (shape Context).Denotes v.bytes (⟨10⟩, "guest", none, ()) →
      decode Context (Bytes.ofString (String.ofList v.compact)) = .ok x := by
    intro v hv
    rw [Bytes.ofString_ofList, ← Value.bytes, decode, Shape.decode_of_denotes hv]
    rfl
  have hlisted : decode Context (Bytes.ofString listed) = .ok x := by
    refine hread _ (.list (p := (some ⟨10⟩, some "guest", some none, ()))
      (Value.listText_bytes _) ?_ rfl)
    exact ⟨⟨_, rfl, hid⟩, ⟨_, rfl, hlabel⟩, ⟨_, rfl, .null⟩, rfl⟩
  have hunordered : decode Context (Bytes.ofString unordered) = .ok x := by
    refine hread _ (.object (p := (some ⟨10⟩, some "guest", some none, ()))
      (Value.objectText_bytes _) ?_ rfl)
    exact ⟨⟨_, rfl, hid⟩, ⟨_, rfl, hlabel⟩, ⟨_, rfl, .null⟩, by simp [without, texts, Fields.Named]⟩
  refine ⟨(hcontext.passes x _).mpr rfl, ⟨hlisted, ?_⟩, ⟨hunordered, ?_⟩, ?_⟩
  · exact hcontext.written x listed hlisted (by decide)
  · exact hcontext.written x unordered hunordered (by decide)
  · exact hcontext.padded x "\t" "\n" (by decide) (by decide) (by decide)

end ProtectionDomain.Contract
