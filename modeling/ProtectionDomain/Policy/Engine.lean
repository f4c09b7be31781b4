import ProtectionDomain.Policy.Decision

/-!
# Policy engines

* `Engine`: a named function from requests to decisions;
* `Engine.denyAll`, `Engine.allowAll`: the two constant ones;
* `Flags`: grants the privileges that are switched on;
* `LabelList`: grants a privilege to the sessions with a listed label.
-/

namespace ProtectionDomain.Policy

/-- A policy engine. -/
structure Engine where
  name : String
  evaluate : Privilege → Context → Decision

namespace Engine

/-- Refuses everything. -/
def denyAll : Engine where
  name := "DenyAllPolicy"
  evaluate p _ := .deny (p.display ++ " is disabled")

/-- Grants everything. -/
def allowAll : Engine where
  name := "AllowAllPolicy"
  evaluate _ _ := .allow

end Engine

/-! ## Flags -/

/-- A switch for each privilege, all of them off at first. -/
structure Flags where
  isEnabled : Privilege → Bool := fun _ => false

namespace Flags

instance : DecidableEq Flags := fun ⟨f⟩ ⟨g⟩ =>
  decidable_of_iff (f .pciAssignment = g .pciAssignment) <| by
    rw [mk.injEq]
    exact ⟨fun h => funext fun | .pciAssignment => h, fun h => congrFun h _⟩

/-- The flags with one switch moved. -/
def set (f : Flags) (p : Privilege) (on : Bool) : Flags :=
  ⟨fun q => if q = p then on else f.isEnabled q⟩

/-- The flags with one switch turned on. -/
def withEnabled (f : Flags) (p : Privilege) : Flags := f.set p true

/-- Grants the privileges that are switched on. -/
def engine (f : Flags) : Engine where
  name := "PrivilegeFlagsPolicy"
  evaluate p _ := if f.isEnabled p then .allow else .deny (p.display ++ " is not enabled")

end Flags

instance : Inspect Flags :=
  ⟨fun f => Text.inspectRecord "PrivilegeFlagsPolicy"
    [("enabled", Text.inspectSet ((Privilege.all.filter f.isEnabled).map inspect))]⟩

/-! ## Labels -/

/-- The labels of the sessions that may have a privilege. -/
structure LabelList where
  privilege : Privilege
  labels : List String

/-- Refuses a privilege to the sessions without a listed label. Other privileges are none of its
business. -/
def LabelList.engine (l : LabelList) : Engine where
  name := "LabelPolicy"
  evaluate p x :=
    if p ≠ l.privilege ∨ x.label ∈ l.labels then .allow
    else .deny ("session '" ++ x.label ++ "' is not permitted " ++ p.display)

end ProtectionDomain.Policy
