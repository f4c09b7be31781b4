import ProtectionDomain.Text.Quoted

/-!
# Inspection texts

The text that shows a value with all its parts, for logs and failure reports.

* `Inspect`: the types that have one;
* `inspectRecord`, `inspectTuple`: the shape of records and of single-field wrappers;
* `inspectSet`: the members of a set between braces.
-/

namespace ProtectionDomain

/-- Values with an inspection text. -/
class Inspect (α : Type) where
  inspect : α → String

export Inspect (inspect)

namespace Text

/-- A record: its name and its fields with their texts. -/
def inspectRecord (name : String) (fields : List (String × String)) : String :=
  name ++ " \x7b " ++ ", ".intercalate (fields.map fun f => f.1 ++ ": " ++ f.2) ++ " \x7d"

/-- A name around one text. -/
def inspectTuple (name text : String) : String := name ++ "(" ++ text ++ ")"

/-- The texts of the members of a set. -/
def inspectSet (members : List String) : String :=
  "\x7b" ++ ", ".intercalate members ++ "\x7d"

end Text

instance : Inspect String := ⟨Text.quoted⟩

instance : Inspect Bool := ⟨fun b => if b then "true" else "false"⟩

instance : Inspect UInt32 := ⟨fun n => toString n.toNat⟩

instance : Inspect UInt64 := ⟨fun n => toString n.toNat⟩

instance {α : Type} [Inspect α] : Inspect (Option α) :=
  ⟨fun | none => "None" | some a => Text.inspectTuple "Some" (inspect a)⟩

instance {α : Type} [Inspect α] : Inspect (List α) :=
  ⟨fun xs => "[" ++ ", ".intercalate (xs.map inspect) ++ "]"⟩

end ProtectionDomain
