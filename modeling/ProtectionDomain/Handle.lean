import ProtectionDomain.Text.Inspect
import ProtectionDomain.Wire

/-!
# Firmware handles

Opaque 64-bit handles of the interprocess communication with the system-control firmware.

* `HandleKind`, `Handle`: handles of channels and of the messages in them, kept apart by their
  types;
* `Handle.bytes`, `Handle.ofBytes`: a handle as it lies in memory, low byte first;
* `Handle.display`: its text, always of sixteen digits.
-/

namespace ProtectionDomain

/-- What a handle stands for. -/
inductive HandleKind
  | channel
  | message
  deriving DecidableEq

/-- The name of a kind of handle. -/
def HandleKind.name : HandleKind → String
  | channel => "ScIpc"
  | message => "ScIpcId"

/-- A handle issued by the firmware. -/
structure Handle (kind : HandleKind) where
  raw : UInt64
  deriving DecidableEq, Hashable

namespace Handle

variable {kind : HandleKind}

instance : Ord (Handle kind) := ⟨fun a b => compare a.raw b.raw⟩

instance : Coe UInt64 (Handle kind) := ⟨fun raw => ⟨raw⟩⟩

/-- The bytes of a handle, low byte first. -/
def bytes (h : Handle kind) : Vector UInt8 8 :=
  Vector.ofFn fun i => (h.raw >>> (8 * UInt64.ofNat i)).toUInt8

/-- The handle with the given bytes, low byte first. -/
def ofBytes (bs : Vector UInt8 8) : Handle kind :=
  ⟨bs.toList.foldr (fun b n => n <<< 8 ||| b.toUInt64) 0⟩

/-- The text of a handle. -/
def display (h : Handle kind) : String :=
  kind.name ++ "(0x" ++ String.ofList (Text.hexDigits 16 h.raw.toNat) ++ ")"

end Handle

instance {kind : HandleKind} : Inspect (Handle kind) :=
  ⟨fun h => Text.inspectTuple kind.name (inspect h.raw)⟩

instance {kind : HandleKind} : Wire (Handle kind) where
  shape := .unsigned .word64
  toCarrier h := h.raw
  ofCarrier n := ⟨n⟩
  ofCarrier_toCarrier _ := rfl

end ProtectionDomain
