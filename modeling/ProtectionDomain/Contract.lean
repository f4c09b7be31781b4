import ProtectionDomain.Text.Inspect
import ProtectionDomain.Wire

/-!
# Wire contracts

A contract pins the document of a value, so that the format cannot change unnoticed.

* `Contract.check`: a value is written as the golden document and read back from it;
* `Contract.Violation`: how that can fail.
-/

namespace ProtectionDomain.Contract

/-- How a contract fails, with the texts to be compared. -/
inductive Violation
  | formatChanged (got expected : String)
  | unreadable (fault : Json.Fault)
  | readsDifferently (got expected : String)
  deriving DecidableEq

/-- A failed comparison of two texts that are shown as they are. -/
def comparison (note left right : String) : String :=
  "assertion `left == right` failed: " ++ note ++ "\n  left: " ++ left ++ "\n right: " ++ right

/-- The wording of a violation. -/
def Violation.message : Violation → String
  | formatChanged got expected =>
    comparison ("Wire format changed: expected '" ++ expected ++ "', got '" ++ got ++ "'")
      (inspect got) (inspect expected)
  | unreadable fault => "Failed to parse golden payload: " ++ fault.message
  | readsDifferently got expected =>
    comparison "Golden payload decodes differently" got expected

variable {α : Type} [Wire α] [Inspect α] [DecidableEq α]

/-- Demands that a value is written as exactly the golden document, and that the document is read
as exactly that value. -/
def check (a : α) (golden : String) : Except Violation Unit :=
  if Wire.encode a ≠ golden then .error (.formatChanged (Wire.encode a) golden)
  else match Wire.decode α (Bytes.ofString golden) with
    | .error fault => .error (.unreadable fault)
    | .ok b => if b = a then .ok () else .error (.readsDifferently (inspect b) (inspect a))

end ProtectionDomain.Contract
