import ProtectionDomain.Text.Inspect
import ProtectionDomain.Wire

/-!
# Capabilities

A capability is a 64-bit id whose type says what kind of object it names.

* `ObjectKind`: what a capability names;
* `Cap`: a capability for objects of a kind;
* `Cap.cast`: a capability is never one for another kind.
-/

namespace ProtectionDomain

/-- What a capability names. -/
inductive ObjectKind
  | session
  | root
  | sessionId
  | channel
  | uint8
  | uint32
  | cap (target : ObjectKind)
  deriving DecidableEq

/-- The full name of a kind of object. -/
def ObjectKind.path : ObjectKind → String
  | session => "pd_session::session::PdSession"
  | root => "pd_session::root::PdRoot"
  | sessionId => "core_types::ids::SessionId"
  | channel => "sc_ipc::handle::ScIpc"
  | uint8 => "u8"
  | uint32 => "u32"
  | cap target => "core_types::capability::Cap<" ++ target.path ++ ">"

/-- A capability for objects of a kind. -/
structure Cap (target : ObjectKind) where
  id : UInt64
  deriving DecidableEq, Hashable

/-- Why a capability is not given. -/
inductive CapError
  | invalidCast
  | exhausted
  deriving DecidableEq

/-- The wording of an error. -/
def CapError.message : CapError → String
  | invalidCast => "Invalid capability cast"
  | exhausted => "Capability ids exhausted"

namespace Cap

variable {target : ObjectKind}

/-- A capability for another kind of object: there is none. -/
def cast (_ : Cap target) (other : ObjectKind) : Except CapError (Cap other) :=
  .error .invalidCast

/-- The text with the kind of object. -/
def display (c : Cap target) : String :=
  "Cap<" ++ target.path ++ ">(" ++ toString c.id.toNat ++ ")"

/-- The inspection text over several lines. -/
def inspectLong (c : Cap target) : String := "Cap(\n    " ++ inspect c.id ++ ",\n)"

end Cap

instance {target : ObjectKind} : Inspect (Cap target) :=
  ⟨fun c => Text.inspectTuple "Cap" (inspect c.id)⟩

instance : Inspect CapError :=
  ⟨fun | .invalidCast => "InvalidCast" | .exhausted => "Exhausted"⟩

instance {target : ObjectKind} : Wire (Cap target) where
  shape := .unsigned .word64
  toCarrier c := c.id
  ofCarrier n := ⟨n⟩
  ofCarrier_toCarrier _ := rfl

end ProtectionDomain
