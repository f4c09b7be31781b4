import ProtectionDomain.Cap
import ProtectionDomain.Config
import ProtectionDomain.Handle
import ProtectionDomain.IntKind
import ProtectionDomain.Proofs.Json.Encode
import ProtectionDomain.Proofs.Json.Squeeze
import ProtectionDomain.Rpc

/-!
# Round trips over the wire

* `Wire.decode_of_hasText`: a value of any type of the format is read back from all texts of its
  JSON value; `Wire.decode_encode`, `Wire.decode_encodePretty`: its documents are among these;
* `Wire.withoutLayout_encodePretty`: they are the same apart from their layout;
* `Wire.le_of_mem_encode`: its document is a single line;
* **`Wire.roundTrips`**: the two for each of the types.
-/

namespace ProtectionDomain

open Json Policy

namespace Wire

variable {α : Type} [Wire α]

theorem ofString_encode (a : α) : Bytes.ofString (encode a) = (toJson a).bytes :=
  Bytes.ofString_ofList (toJson a).compact

theorem hasText_encode (a : α) : (toJson a).HasText (Bytes.ofString (encode a)) := by
  rw [ofString_encode]
  exact Value.hasText_bytes (toJson a)

/-- A value is read back from every text of the JSON value that stands for it. -/
theorem decode_of_hasText (a : α) {t : Bytes} (ht : (toJson a).HasText t) :
    decode α t = .ok a := by
  have htext : (shape α).Denotes t (toCarrier a) :=
    Shape.denotes_of_hasText (shape α) isProper_shape (toCarrier a) t ht
  rw [decode, Shape.decode_of_denotes htext]
  exact congrArg Except.ok (ofCarrier_toCarrier a)

theorem decode_encode (a : α) : decode α (Bytes.ofString (encode a)) = .ok a :=
  decode_of_hasText a (hasText_encode a)

theorem ofString_encodePretty (a : α) :
    Bytes.ofString (encodePretty a) = (toJson a).prettyBytes 0 :=
  Bytes.ofString_ofList ((toJson a).pretty 0)

theorem decode_encodePretty (a : α) : decode α (Bytes.ofString (encodePretty a)) = .ok a := by
  rw [ofString_encodePretty]
  exact decode_of_hasText a (Value.hasText_prettyBytes (toJson a) 0)

theorem withoutLayout_encodePretty (a : α) :
    withoutLayout (Bytes.ofString (encodePretty a)) = Bytes.ofString (encode a) := by
  rw [ofString_encodePretty, ofString_encode]
  exact Value.withoutLayout_prettyBytes (toJson a) 0

theorem le_of_mem_encode (a : α) {b : UInt8} (hb : b ∈ Bytes.ofString (encode a)) : 0x20 ≤ b := by
  rw [ofString_encode] at hb
  exact Value.le_of_mem_bytes hb

variable (α) in
/-- Every value is read back from its document, which is a single line. -/
def RoundTrips : Prop :=
  ∀ a : α, decode α (Bytes.ofString (encode a)) = .ok a ∧
    ∀ b ∈ Bytes.ofString (encode a), 0x20 ≤ b

theorem roundTrips_of_wire : RoundTrips α :=
  fun a => ⟨decode_encode a, fun _ => le_of_mem_encode a⟩

/-- **All values of the format make the round trip.** -/
theorem roundTrips :
    (∀ target, RoundTrips (Cap target)) ∧ RoundTrips SessionId ∧ RoundTrips IntWidth ∧
    RoundTrips Signedness ∧ RoundTrips IntKind ∧ (∀ kind, RoundTrips (Handle kind)) ∧
    RoundTrips Privilege ∧ RoundTrips Decision ∧ RoundTrips Context ∧ RoundTrips Evaluation ∧
    RoundTrips Report ∧ RoundTrips Request ∧ RoundTrips Reply ∧ RoundTrips SessionConfig :=
  ⟨fun _ => roundTrips_of_wire, roundTrips_of_wire, roundTrips_of_wire, roundTrips_of_wire,
    roundTrips_of_wire, fun _ => roundTrips_of_wire, roundTrips_of_wire, roundTrips_of_wire,
    roundTrips_of_wire, roundTrips_of_wire, roundTrips_of_wire, roundTrips_of_wire,
    roundTrips_of_wire, roundTrips_of_wire⟩

end Wire

end ProtectionDomain
