import ProtectionDomain.Json.Shape.Read
import ProtectionDomain.Json.Shape.Write

/-!
# The wire format

* `Wire`: the types whose values travel as JSON documents, each with its shape;
* `encode`: the compact document of a value;
* `decode`: the value of a document.
-/

namespace ProtectionDomain

open Json

/-- Types whose values travel as JSON documents. Nothing of a value is lost on the way into its
shape, and there no two values have one text. -/
class Wire (α : Type) where
  shape : Shape
  isProper_shape : shape.isProper = true := by exact Eq.refl true
  toCarrier : α → shape.Carrier
  ofCarrier : shape.Carrier → α
  ofCarrier_toCarrier : ∀ a, ofCarrier (toCarrier a) = a

namespace Wire

variable {α : Type} [Wire α]

/-- The JSON value that stands for a value. -/
def toJson (a : α) : Json.Value := (shape α).toJson (toCarrier a)

/-- The compact document of a value. -/
def encode (a : α) : String := String.ofList (toJson a).compact

/-- The document of a value with one item or member a line. -/
def encodePretty (a : α) : String := String.ofList ((toJson a).pretty 0)

variable (α) in
/-- The value of a document. -/
def decode (document : Bytes) : Except Fault α := ((shape α).decode document).map ofCarrier

end Wire

end ProtectionDomain
