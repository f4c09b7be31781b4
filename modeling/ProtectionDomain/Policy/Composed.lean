import ProtectionDomain.Policy.Engine

/-!
# Composed policies

Several engines in a row. The first to refuse decides.

* `Composed`, `Composed.add`: the engines, in order;
* `firstRefusal`, `Composed.evaluate`: the first refusal, without asking any further;
* `Composed.report`: what every engine says, with the same decision;
* `Report.deniedBy`: the engines that refuse.
-/

namespace ProtectionDomain.Policy

/-- What one engine says to a request. -/
structure Evaluation where
  policyName : String
  decision : Decision
  deriving DecidableEq

/-- What each of several engines says to a request, and what they decide together. -/
structure Report where
  privilege : Privilege
  decision : Decision
  evaluations : List Evaluation
  deriving DecidableEq

/-- The names of the engines that refuse. -/
def Report.deniedBy (r : Report) : List String :=
  (r.evaluations.filter fun e => e.decision.isDeny).map fun e => e.policyName

/-- The first refusal of engines that are asked one after the other. -/
def firstRefusal (p : Privilege) (x : Context) : List Engine → Decision
  | [] => .allow
  | e :: es =>
    match e.evaluate p x with
    | .allow => firstRefusal p x es
    | .deny reason => .deny reason

theorem firstRefusal_cons_of_allow {p : Privilege} {x : Context} {e : Engine} {es : List Engine}
    (h : e.evaluate p x = .allow) : firstRefusal p x (e :: es) = firstRefusal p x es := by
  rw [firstRefusal, h]

theorem firstRefusal_singleton (p : Privilege) (x : Context) (e : Engine) :
    firstRefusal p x [e] = e.evaluate p x := by
  rw [firstRefusal]
  cases e.evaluate p x <;> rfl

/-- Engines in a row. -/
structure Composed where
  engines : List Engine := []

namespace Composed

/-- The engines with one more at the end. -/
def add (c : Composed) (e : Engine) : Composed := ⟨c.engines ++ [e]⟩

/-- The number of engines. -/
def size (c : Composed) : Nat := c.engines.length

/-- There are no engines. -/
def isEmpty (c : Composed) : Bool := c.engines.isEmpty

/-- The first refusal, if there is one. Without engines everything is granted. -/
def evaluate (c : Composed) (p : Privilege) (x : Context) : Decision :=
  firstRefusal p x c.engines

/-- What each engine says to a request, and the first refusal among it. -/
def report (c : Composed) (p : Privilege) (x : Context) : Report :=
  let evaluations := c.engines.map fun e => ⟨e.name, e.evaluate p x⟩
  let refusal := evaluations.find? fun e => e.decision.isDeny
  ⟨p, (refusal.map fun e => e.decision).getD .allow, evaluations⟩

/-- The composition as an engine. -/
def engine (c : Composed) : Engine where
  name := "ComposedPolicy"
  evaluate := c.evaluate

end Composed

/-! ## Texts -/

instance : Inspect Evaluation :=
  ⟨fun e => Text.inspectRecord "PolicyEvaluation"
    [("policy_name", inspect e.policyName), ("decision", inspect e.decision)]⟩

instance : Inspect Report :=
  ⟨fun r => Text.inspectRecord "PolicyDecisionReport"
    [("privilege", inspect r.privilege), ("decision", inspect r.decision),
      ("evaluated_policies", inspect r.evaluations)]⟩

instance : Wire Evaluation where
  shape := .record "PolicyEvaluation"
    (.cons "policy_name" .text (.cons "decision" (Wire.shape Decision) .nil))
  toCarrier e := (e.policyName, Wire.toCarrier e.decision, ())
  ofCarrier := fun (name, decision, ()) => ⟨name, Wire.ofCarrier decision⟩
  ofCarrier_toCarrier e := by simp [Wire.ofCarrier_toCarrier]

instance : Wire Report where
  shape := .record "PolicyDecisionReport"
    (.cons "privilege" (Wire.shape Privilege) (.cons "decision" (Wire.shape Decision)
      (.cons "evaluated_policies" (.list (Wire.shape Evaluation)) .nil)))
  toCarrier r := (Wire.toCarrier r.privilege, Wire.toCarrier r.decision,
    r.evaluations.map Wire.toCarrier, ())
  ofCarrier := fun (privilege, decision, evaluations, ()) =>
    ⟨Wire.ofCarrier privilege, Wire.ofCarrier decision, evaluations.map Wire.ofCarrier⟩
  ofCarrier_toCarrier r := by simp [Wire.ofCarrier_toCarrier, Function.comp_def]

end ProtectionDomain.Policy
