import ProtectionDomain.Text.Inspect
import ProtectionDomain.Wire

/-!
# Remote calls on sessions

* `Request`: what a client asks of its session;
* `Reply`: the answer. A refusal is a reply and no error.
-/

namespace ProtectionDomain

/-- What a client asks of its session. -/
inductive Request
  /-- May the device at this address be assigned? -/
  | assignPci (address : UInt64)
  deriving DecidableEq

/-- The answer to a request. -/
inductive Reply
  | assignPci (granted : Bool)
  deriving DecidableEq

instance : Inspect Request :=
  ⟨fun | .assignPci address => Text.inspectRecord "AssignPci" [("addr", inspect address)]⟩

instance : Inspect Reply :=
  ⟨fun | .assignPci granted => Text.inspectRecord "AssignPci" [("granted", inspect granted)]⟩

instance : Wire Request where
  shape := .choice "PdRequest"
    (.record "AssignPci" (.cons "addr" (.unsigned .address) .nil) .nil)
  toCarrier
    | .assignPci address => .inl (address, ())
  ofCarrier
    | .inl (address, ()) => .assignPci address
  ofCarrier_toCarrier _ := rfl

instance : Wire Reply where
  shape := .choice "PdReply" (.record "AssignPci" (.cons "granted" .flag .nil) .nil)
  toCarrier
    | .assignPci granted => .inl (granted, ())
  ofCarrier
    | .inl (granted, ()) => .assignPci granted
  ofCarrier_toCarrier _ := rfl

end ProtectionDomain
