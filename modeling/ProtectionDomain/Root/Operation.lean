import ProtectionDomain.Config
import ProtectionDomain.Root

/-!
# Runs of a session root

* `Root.ofConfig`: the root that a configuration describes;
* `Root.Operation`, `Root.Outcome`: the operations as data, and what they return;
* `Root.perform`, `Root.run`: one operation, and one after the other.
-/

namespace ProtectionDomain.Root

/-- The root that a configuration describes. -/
def ofConfig (c : SessionConfig) : Root := { engine := c.engine }

/-- An operation of the root. A new session brings the id that was drawn for it. -/
inductive Operation
  | create (id : SessionId) (label : String)
  | close (cap : Cap .session)
  | session (cap : Cap .session)
  | invoke (cap : Cap .session) (request : Request)
  | count
  deriving DecidableEq

/-- What an operation returns. -/
inductive Outcome
  | created (cap : Cap .session)
  | closed
  | session (s : Session)
  | replied (reply : Reply)
  | counted (n : Nat)
  | failed (error : RootError)

/-- The outcome of an operation that may fail. -/
def Outcome.ofExcept {α : Type} (f : α → Outcome) : Except RootError α → Outcome
  | .ok a => f a
  | .error e => .failed e

/-- One operation: what it returns, the root after it and the events that it logs. -/
def perform (r : Root) : Operation → Outcome × Root × List Event
  | .create id label =>
    let (result, r, events) := r.create id label
    (.ofExcept .created result, r, events)
  | .close cap =>
    let (result, r, events) := r.close cap
    (.ofExcept (fun _ => .closed) result, r, events)
  | .session cap => (.ofExcept .session (r.session cap), r, [])
  | .invoke cap request =>
    let (result, events) := r.invoke cap request
    (.ofExcept .replied result, r, events)
  | .count => (.counted r.count, r, [])

/-- Operations one after the other: what they return, the root after them and the log. -/
def run (r : Root) : List Operation → List Outcome × Root × List Event
  | [] => ([], r, [])
  | op :: ops =>
    let (outcome, r, events) := r.perform op
    let (outcomes, r, log) := run r ops
    (outcome :: outcomes, r, events ++ log)

end ProtectionDomain.Root
