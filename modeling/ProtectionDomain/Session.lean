import ProtectionDomain.Policy.Engine

/-!
# Sessions

* `Session`: a protection-domain session with its id, its label and the engine it asks;
* `Session.decide`: the engine's decision on a device;
* `Session.mayAssign`: whether the device at an address may be assigned.
-/

namespace ProtectionDomain

open Policy

/-- A protection-domain session. -/
structure Session where
  id : SessionId
  label : String
  engine : Engine

namespace Session

/-- The decision on the device at an address. The address is handed to the engine as it is. -/
def decide (s : Session) (address : UInt64) : Decision :=
  s.engine.evaluate .pciAssignment
    (Context.withAddress { session := s.id, label := s.label } address)

/-- The device at an address may be assigned to the session. -/
def mayAssign (s : Session) (address : UInt64) : Bool := (s.decide address).isAllow

end Session

instance : Inspect Session :=
  ⟨fun s => Text.inspectRecord "PdSession"
    [("id", inspect s.id), ("label", inspect s.label), ("policy", inspect s.engine.name)]⟩

end ProtectionDomain
