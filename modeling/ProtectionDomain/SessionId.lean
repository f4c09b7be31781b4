import ProtectionDomain.Text.Inspect
import ProtectionDomain.Wire

/-!
# Session ids

* `SessionId`: the unique id that a session keeps for as long as it lives;
* `SessionId.ofRandom`: the id made of 128 drawn bits;
* `SessionId.display`: its text in logs.
-/

namespace ProtectionDomain

/-- The id of a session. -/
structure SessionId where
  uuid : Uuid
  deriving DecidableEq, Hashable

namespace SessionId

/-- The id made of 128 drawn bits. -/
def ofRandom (drawn : BitVec 128) : SessionId := ⟨Uuid.ofRandom drawn⟩

/-- The text in logs. -/
def display (id : SessionId) : String := "Session(" ++ id.uuid.text ++ ")"

end SessionId

instance : Inspect SessionId := ⟨fun id => Text.inspectTuple "SessionId" id.uuid.text⟩

instance : Wire SessionId where
  shape := .uuid
  toCarrier id := id.uuid
  ofCarrier u := ⟨u⟩
  ofCarrier_toCarrier _ := rfl

end ProtectionDomain
