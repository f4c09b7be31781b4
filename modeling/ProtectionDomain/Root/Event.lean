import ProtectionDomain.Cap
import ProtectionDomain.Policy.Decision
import ProtectionDomain.Rpc

/-!
# The log of a session root

* `RootError`: why an operation of the root fails;
* `Event`: what is logged;
* `Event.level`, `Event.message`, `Event.line`: how it is logged.
-/

namespace ProtectionDomain

open Policy

/-- Why an operation of the session root fails. A refused privilege is no failure. -/
inductive RootError
  /-- The capability names no live session. -/
  | invalidSession (id : UInt64)
  /-- There is no capability for a new session. -/
  | capability (error : CapError)
  deriving DecidableEq

/-- The wording of an error. -/
def RootError.message : RootError → String
  | invalidSession id => "Invalid session capability: " ++ toString id.toNat
  | capability error => error.message

instance : Inspect RootError where
  inspect
    | .invalidSession id => Text.inspectTuple "InvalidSession" (inspect id)
    | .capability error => Text.inspectTuple "Capability" (inspect error)

/-- The weight of a log line. -/
inductive Level
  | debug
  | info
  | warn
  deriving DecidableEq

/-- The name of a level. -/
def Level.display : Level → String
  | debug => "DEBUG"
  | info => "INFO"
  | warn => "WARN"

/-- What is logged. -/
inductive Event
  | created (id : SessionId) (label : String) (cap : Cap .session) (engine : String)
      (issued : UInt64)
  | closed (id : SessionId) (label : String)
  | decided (id : SessionId) (label : String) (address : UInt64) (decision : Decision)
      (engine : String)
  | rejected (request : Request) (error : RootError)
  deriving DecidableEq

namespace Event

/-- The level of an event. -/
def level : Event → Level
  | created .. => .info
  | closed .. => .info
  | decided .. => .debug
  | rejected .. => .warn

/-- The wording of an event. -/
def message : Event → String
  | created id label cap engine issued =>
    "created " ++ id.display ++ " '" ++ label ++ "' as cap " ++ toString cap.id.toNat ++
      " under " ++ engine ++ " (" ++ toString issued.toNat ++ " caps issued)"
  | closed id label => "closed " ++ id.display ++ " '" ++ label ++ "'"
  | decided id label address decision engine =>
    id.display ++ " (" ++ label ++ "): assign_pci(0x" ++
      String.ofList (Text.hexNumber address.toNat) ++ ") -> " ++ decision.display ++
      " [" ++ engine ++ "]"
  | rejected request error => "rejected " ++ inspect request ++ ": " ++ error.message

/-- The log line of an event. -/
def line (e : Event) : String := e.level.display ++ " " ++ e.message

end Event

end ProtectionDomain
