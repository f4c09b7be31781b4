import ProtectionDomain.Cap.Allocator
import ProtectionDomain.Root.Event
import ProtectionDomain.Session.Table

/-!
# The session root

The root hosts sessions that share its policy engine. Clients hold capabilities only.

* `Root`: the engine, the live sessions and the issuer of capabilities;
* `create`, `close`, `session`, `invoke`, `count`: its operations, each with the events that it
  logs and, where it changes anything, the root after it;
* `assignPci`: asking a session whether a device may be assigned.
-/

namespace ProtectionDomain

open Policy

/-- A host of sessions. -/
structure Root where
  engine : Engine
  sessions : SessionTable := {}
  caps : Cap.Allocator := {}

/-- Asks whether the device at an address may be assigned to a session. -/
def Session.assignPci (s : Session) (address : UInt64) : Bool × List Event :=
  (s.mayAssign address,
    [.decided s.id s.label address (s.decide address) s.engine.name])

namespace Root

variable (r : Root)

/-- Opens a session with the id that was drawn for it. -/
def create (id : SessionId) (label : String) :
    Except RootError (Cap .session) × Root × List Event :=
  match r.caps.allocate .session with
  | .error e => (.error (.capability e), r, [])
  | .ok (cap, caps) =>
    (.ok cap, { r with sessions := r.sessions.insert cap ⟨id, label, r.engine⟩, caps },
      [.created id label cap r.engine.name caps.issued])

/-- Closes a session. Its capability names none from then on. -/
def close (cap : Cap .session) : Except RootError Unit × Root × List Event :=
  match r.sessions.get? cap with
  | none => (.error (.invalidSession cap.id), r, [])
  | some s => (.ok (), { r with sessions := r.sessions.erase cap }, [.closed s.id s.label])

/-- The session that a capability names. -/
def session (cap : Cap .session) : Except RootError Session :=
  match r.sessions.get? cap with
  | none => .error (.invalidSession cap.id)
  | some s => .ok s

/-- Serves a request to the session that a capability names. -/
def invoke (cap : Cap .session) (request : Request) : Except RootError Reply × List Event :=
  match r.session cap, request with
  | .error e, _ => (.error e, [.rejected request e])
  | .ok s, .assignPci address =>
    let (granted, events) := s.assignPci address
    (.ok (.assignPci granted), events)

/-- The number of live sessions. -/
def count : Nat := r.sessions.size

end Root

end ProtectionDomain
