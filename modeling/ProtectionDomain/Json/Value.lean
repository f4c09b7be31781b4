import ProtectionDomain.Json.Literal

/-!
# Writing JSON

* `Value`: the values that documents are made from;
* `Value.compact`: the text without blanks;
* `Value.pretty`: the text with one item or member a line.
-/

namespace ProtectionDomain.Json

/-- A JSON value. All numbers of the format are natural. -/
inductive Value
  | null
  | flag (b : Bool)
  | number (n : Nat)
  | text (s : String)
  | list (items : List Value)
  | object (members : List (String × Value))

namespace Value

/-- The text of a value that holds no other. -/
def scalar : Value → List Char
  | null => "null".toList
  | flag b => (if b then "true" else "false").toList
  | number n => Nat.toDigits 10 n
  | text s => Literal.write s
  | list _ => []
  | object _ => []

/-! ## Compact -/

mutual

/-- The text without blanks. -/
def compact : Value → List Char
  | list items => '[' :: compactItems items ++ [']']
  | object members => '{' :: compactMembers members ++ ['}']
  | v => scalar v

/-- The items of a list, with commas between them. -/
def compactItems : List Value → List Char
  | [] => []
  | [v] => compact v
  | v :: vs => compact v ++ ',' :: compactItems vs

/-- The members of an object, with commas between them. -/
def compactMembers : List (String × Value) → List Char
  | [] => []
  | [(k, v)] => Literal.write k ++ ':' :: compact v
  | (k, v) :: ms => Literal.write k ++ ':' :: compact v ++ ',' :: compactMembers ms

end

/-! ## Pretty -/

/-- The start of a line at a depth: two blanks for each level. -/
def line (depth : Nat) : List Char := '\n' :: List.replicate (2 * depth) ' '

mutual

/-- The text with one item or member a line, inside `depth` levels. -/
def pretty (depth : Nat) : Value → List Char
  | list [] => ['[', ']']
  | list items => '[' :: prettyItems (depth + 1) items ++ line depth ++ [']']
  | object [] => ['{', '}']
  | object members => '{' :: prettyMembers (depth + 1) members ++ line depth ++ ['}']
  | v => scalar v

/-- The items of a list, each on a line of its own. -/
def prettyItems (depth : Nat) : List Value → List Char
  | [] => []
  | [v] => line depth ++ pretty depth v
  | v :: vs => line depth ++ pretty depth v ++ ',' :: prettyItems depth vs

/-- The members of an object, each on a line of its own. -/
def prettyMembers (depth : Nat) : List (String × Value) → List Char
  | [] => []
  | [(k, v)] => line depth ++ Literal.write k ++ ':' :: ' ' :: pretty depth v
  | (k, v) :: ms =>
    line depth ++ Literal.write k ++ ':' :: ' ' :: pretty depth v ++ ',' :: prettyMembers depth ms

end

end Value

end ProtectionDomain.Json
