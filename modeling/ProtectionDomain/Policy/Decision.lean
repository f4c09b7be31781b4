import ProtectionDomain.SessionId

/-!
# Privileges and decisions

* `Privilege`: what a session may ask for;
* `Policy.Context`: who asks, and for which device;
* `Policy.Decision`: the answer, with the reason of a refusal.
-/

namespace ProtectionDomain

/-- What a session may ask for. -/
inductive Privilege
  /-- Direct access to a PCI device. -/
  | pciAssignment
  deriving DecidableEq, Hashable, Ord

namespace Privilege

/-- All privileges. -/
def all : List Privilege := [.pciAssignment]

/-- The name of a privilege. -/
def display : Privilege → String
  | pciAssignment => "PciAssignment"

end Privilege

namespace Policy

/-- Who asks for a privilege, and for what. -/
structure Context where
  session : SessionId
  label : String
  /-- The address of the device, if the privilege is one for a device. -/
  address : Option UInt64 := none
  deriving DecidableEq

/-- The context of a request for the device at an address. -/
def Context.withAddress (x : Context) (address : UInt64) : Context :=
  { x with address := some address }

/-- The answer to a request for a privilege. -/
inductive Decision
  | allow
  | deny (reason : String)
  deriving DecidableEq

namespace Decision

/-- The privilege is granted. -/
def isAllow : Decision → Bool
  | allow => true
  | deny _ => false

/-- The privilege is refused. -/
def isDeny : Decision → Bool
  | allow => false
  | deny _ => true

/-- The text of a decision. -/
def display : Decision → String
  | allow => "Allow"
  | deny reason => "Deny: " ++ reason

end Decision

end Policy

/-! ## Texts -/

instance : Inspect Privilege := ⟨Privilege.display⟩

instance : Inspect Policy.Context :=
  ⟨fun x => Text.inspectRecord "PolicyContext"
    [("session", inspect x.session), ("label", inspect x.label), ("address", inspect x.address)]⟩

instance : Inspect Policy.Decision where
  inspect
    | .allow => "Allow"
    | .deny reason => Text.inspectRecord "Deny" [("reason", inspect reason)]

instance : Wire Privilege where
  shape := .choice "Privilege" (.plain "pci_assignment" .nil)
  toCarrier
    | .pciAssignment => .inl ()
  ofCarrier
    | .inl () => .pciAssignment
  ofCarrier_toCarrier _ := rfl

instance : Wire Policy.Context where
  shape := .record "PolicyContext" (.cons "session" (Wire.shape SessionId)
    (.cons "label" .text (.cons "address" (.optional (.unsigned .address)) .nil)))
  toCarrier x := (Wire.toCarrier x.session, x.label, x.address, ())
  ofCarrier := fun (session, label, address, ()) => ⟨Wire.ofCarrier session, label, address⟩
  ofCarrier_toCarrier _ := rfl

instance : Wire Policy.Decision where
  shape := .choice "PolicyDecision"
    (.plain "Allow" (.record "Deny" (.cons "reason" .text .nil) .nil))
  toCarrier
    | .allow => .inl ()
    | .deny reason => .inr (.inl (reason, ()))
  ofCarrier
    | .inl () => .allow
    | .inr (.inl (reason, ())) => .deny reason
  ofCarrier_toCarrier d := by cases d <;> rfl

end ProtectionDomain
