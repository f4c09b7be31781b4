import ProtectionDomain.Json.Shape
import ProtectionDomain.Json.Value

/-!
# Values of shapes as JSON

* `Shape.toJson`: the JSON value that stands for a value of a shape. Records become objects with
  the fields in order, cases become their name or an object with their name as key.
-/

namespace ProtectionDomain.Json

mutual

/-- The JSON value of a value of a shape. -/
def Shape.toJson : (s : Shape) → s.Carrier → Value
  | .unsigned z, n => .number (z.toNumber n)
  | .flag, b => .flag b
  | .text, s => .text s
  | .uuid, u => .text u.text
  | .list s, xs => .list (xs.map s.toJson)
  | .optional _, none => .null
  | .optional s, some x => s.toJson x
  | .record _ fs, v => .object (fs.toMembers v)
  | .settings _ fs, p => .object (fs.knownMembers p)
  | .choice _ cs, case => cs.toJson case

/-- The members of a record. -/
def Fields.toMembers : (fs : Fields) → fs.Carrier → List (String × Value)
  | .nil, () => []
  | .cons name s fs, (x, v) => (name, s.toJson x) :: fs.toMembers v

/-- The members of the fields that are known. -/
def Fields.knownMembers : (fs : Fields) → fs.Partial → List (String × Value)
  | .nil, () => []
  | .cons name s fs, (some x, p) => (name, s.toJson x) :: fs.knownMembers p
  | .cons _ _ fs, (none, p) => fs.knownMembers p

/-- The JSON value of a case. -/
def Cases.toJson : (cs : Cases) → cs.Carrier → Value
  | .nil, case => nomatch case
  | .plain name _, .inl () => .text name
  | .plain _ cs, .inr case => cs.toJson case
  | .record name fs _, .inl v => .object [(name, .object (fs.toMembers v))]
  | .record _ _ cs, .inr case => cs.toJson case

end

end ProtectionDomain.Json
