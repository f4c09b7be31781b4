import ProtectionDomain.Policy.Composed

/-!
# Configurations

A configuration says which privileges the hosted sessions may have. It is stored as JSON, and
each of its fields may be left out.

* `SessionConfig`: the settings, with PCI assignment off unless it is switched on;
* `SessionConfig.ofJson`, `SessionConfig.toJson`: loading and storing;
* `SessionConfig.engine`: the policy engine that the settings describe.
-/

namespace ProtectionDomain

open Policy

/-- The settings of a session root. -/
structure SessionConfig where
  /-- The version of the format. -/
  version : UInt32 := 1
  /-- Whether sessions may have direct access to PCI devices. -/
  allowPciAssignment : Bool := false
  /-- If there are any, only sessions with one of these labels may. -/
  pciAllowedLabels : List String := []
  deriving DecidableEq

/-- Why a configuration is not loaded or stored. -/
inductive ConfigError
  /-- The reason is the wording of the fault, without its place in the document. -/
  | parse (reason : String)
  | serialize (reason : String)
  | unsupportedVersion (version : UInt32)
  deriving DecidableEq

/-- The wording of an error. -/
def ConfigError.message : ConfigError → String
  | parse reason => "Failed to parse PD session config: " ++ reason
  | serialize reason => "Failed to serialize PD session config: " ++ reason
  | unsupportedVersion version =>
    "Unsupported PD session config version: " ++ toString version.toNat

instance : Inspect ConfigError where
  inspect
    | .parse reason => Text.inspectTuple "Parse" (inspect reason)
    | .serialize reason => Text.inspectTuple "Serialize" (inspect reason)
    | .unsupportedVersion version => Text.inspectTuple "UnsupportedVersion" (inspect version)

instance : Inspect SessionConfig :=
  ⟨fun c => Text.inspectRecord "PdSessionConfig"
    [("version", inspect c.version), ("allow_pci_assignment", inspect c.allowPciAssignment),
      ("pci_allowed_labels", inspect c.pciAllowedLabels)]⟩

instance : Wire SessionConfig where
  shape := .settings "PdSessionConfig" (.cons "version" (.unsigned .word32)
    (.cons "allow_pci_assignment" .flag (.cons "pci_allowed_labels" (.list .text) .nil)))
  toCarrier c := (some c.version, some c.allowPciAssignment, some c.pciAllowedLabels, ())
  ofCarrier := fun (version, allow, labels, ()) =>
    let unset : SessionConfig := {}
    ⟨version.getD unset.version, allow.getD unset.allowPciAssignment,
      labels.getD unset.pciAllowedLabels⟩
  ofCarrier_toCarrier _ := rfl

namespace SessionConfig

/-- The version of the format that can be loaded. -/
def currentVersion : UInt32 := 1

/-- The settings with PCI assignment switched on or off. -/
def withPciAssignment (c : SessionConfig) (allow : Bool) : SessionConfig :=
  { c with allowPciAssignment := allow }

/-- The settings with one more label. -/
def withPciLabel (c : SessionConfig) (label : String) : SessionConfig :=
  { c with pciAllowedLabels := c.pciAllowedLabels ++ [label] }

/-- Loads a configuration. -/
def ofJson (document : Bytes) : Except ConfigError SessionConfig :=
  match Wire.decode SessionConfig document with
  | .error fault => .error (.parse fault.message)
  | .ok c => if c.version = currentVersion then .ok c else .error (.unsupportedVersion c.version)

/-- Stores a configuration, one setting or label a line. The version is not looked at. -/
def toJson (c : SessionConfig) : Except ConfigError String := .ok (Wire.encodePretty c)

/-- The policy engine that the settings describe. -/
def engine (c : SessionConfig) : Engine :=
  let flags := Flags.engine (Flags.withEnabled {} .pciAssignment)
  if !c.allowPciAssignment then .denyAll
  else if c.pciAllowedLabels.isEmpty then flags
  else
    let labels := LabelList.engine ⟨.pciAssignment, c.pciAllowedLabels⟩
    (Composed.mk [] |>.add flags |>.add labels).engine

end SessionConfig

end ProtectionDomain
