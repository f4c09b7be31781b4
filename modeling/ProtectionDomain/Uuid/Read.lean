import ProtectionDomain.Uuid

/-!
# Reading ids

* `Uuid.read?`: the id of a text in one of the accepted forms, in digits of either case: 32
  digits, or the hyphenated groups, bare, in braces or after `urn:uuid:`;
* `Uuid.Malformed`, `Uuid.diagnose`: what is wrong with any other text;
* `Uuid.ofText`: one or the other.
-/

namespace ProtectionDomain.Uuid

/-- The id that 32 digits spell. -/
def ofDigits? (cs : List Char) : Option Uuid :=
  if cs.length = 32 then (Text.ofHexDigits? cs).map fun n => ⟨BitVec.ofNat 128 n⟩ else none

/-- Where the hyphens stand in the grouped form. -/
def hyphenPlaces : List Nat := [8, 13, 18, 23]

/-- The id that a grouped text spells. -/
def ofHyphenated? (cs : List Char) : Option Uuid :=
  if cs.length = 36 ∧ hyphenPlaces.all (fun i => cs[i]? == some '-') then
    ofDigits? (cs.extract 0 8 ++ cs.extract 9 13 ++ cs.extract 14 18 ++ cs.extract 19 23 ++
      cs.extract 24 36)
  else none

/-- What stands between braces. -/
def unbrace? : List Char → Option (List Char)
  | '{' :: cs => if cs.getLast? = some '}' then some cs.dropLast else none
  | _ => none

/-- What stands after `urn:uuid:`, in letters of either case. -/
def unurn? (cs : List Char) : Option (List Char) :=
  if (cs.take 9).map Char.toLower = "urn:uuid:".toList then some (cs.drop 9) else none

/-- The id of a text in one of the accepted forms. -/
def read? (cs : List Char) : Option Uuid :=
  ofDigits? cs <|> ofHyphenated? cs <|> (unbrace? cs).bind ofHyphenated? <|>
    (unurn? cs).bind ofHyphenated?

/-- What is wrong with a text that is no id. -/
inductive Malformed
  | length (found : Nat)
  | character (c : Char) (offset : Nat)
  | groupCount (found : Nat)
  | groupLength (group expected found : Nat)
  deriving DecidableEq

/-- The wording of a complaint. -/
def Malformed.message : Malformed → String
  | length n => "invalid length: found " ++ toString n
  | character c i => "invalid character: found `" ++ c.toString ++ "` at " ++ toString i
  | groupCount n => "invalid group count: expected 5, found " ++ toString n
  | groupLength g e n =>
    "invalid group length in group " ++ toString g ++ ": expected " ++ toString e ++
      ", found " ++ toString n

/-- The part of a text that should hold the groups. -/
structure Body where
  chars : List Char
  /-- Its offset in the text that complaints speak of. -/
  start : Nat
  /-- The length of that text in bytes. -/
  size : Nat
  /-- It may be a bare row of digits. -/
  bare : Bool

/-- The part of a text of `size` bytes that should hold the groups. A text of the right length
for its form is judged without its braces or its `urn:uuid:`, any other with them. -/
def Body.ofText (cs : List Char) (size : Nat) : Body :=
  if size = 36 then ⟨cs, 0, size, false⟩
  else match unbrace? cs, unurn? cs with
    | some inner, _ => if size = 38 then ⟨inner, 0, 36, false⟩ else ⟨inner, 1, size, false⟩
    | none, some inner => if size = 45 then ⟨inner, 0, 36, false⟩ else ⟨inner, 9, size, false⟩
    | none, none => ⟨cs, 0, size, true⟩

/-- The character belongs in a grouped text. -/
def inGroups (c : Char) : Bool := c == '-' || (Text.hexValue? c).isSome

/-- The first of the four groups before a hyphen that has the wrong length, given the places of
the hyphens, or else the last group. -/
def wrongGroup (size : Nat) (hyphens : List Nat) : Malformed :=
  let groups := [(0, 8, 0), (1, 4, 9), (2, 4, 14), (3, 4, 19)]
  let wrong := (groups.zip hyphens).find? fun ((_, expected, start), i) => i != start + expected
  match wrong with
  | some ((group, expected, start), i) => .groupLength group expected (i - start)
  | none => .groupLength 4 12 (size - 24)

/-- The complaint about a body. -/
def Body.diagnose (b : Body) : Malformed :=
  let fine := b.chars.takeWhile inGroups
  match b.chars.drop fine.length with
  | c :: _ => .character c (b.start + fine.length)
  | [] =>
    let hyphens := (List.range b.chars.length).filter fun i => b.chars[i]? == some '-'
    if b.bare && hyphens.isEmpty then .length b.size
    else if hyphens.length != 4 then .groupCount (hyphens.length + 1)
    else wrongGroup b.size hyphens

/-- The complaint about a text that is no id. Lengths and offsets count bytes. -/
def diagnose (s : String) : Malformed :=
  if s.utf8ByteSize = 0 ∨ 45 < s.utf8ByteSize then .length s.utf8ByteSize
  else (Body.ofText s.toList s.utf8ByteSize).diagnose

/-- The id that a text spells, or the complaint about it. -/
def ofText (s : String) : Except Malformed Uuid :=
  match read? s.toList with
  | some u => .ok u
  | none => .error (diagnose s)

end ProtectionDomain.Uuid
