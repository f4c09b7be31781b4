import ProtectionDomain.Json.Fault

/-!
# Shapes

A shape says which documents a place of the wire format takes, and which values they stand for.

* `Shape`, `Fields`, `Cases`: the shapes, the fields of a record and the cases of a choice;
* `Shape.Carrier`: the values of a shape;
* `Fields.Partial`: the fields of a record that are known so far;
* `Shape.isProper`: no value has the text of another.
-/

namespace ProtectionDomain.Json

mutual

/-- What a place of the wire format holds. -/
inductive Shape
  | unsigned (size : Size)
  | flag
  | text
  | uuid
  | list (item : Shape)
  /-- A value or `null`. As a field it may be left out. -/
  | optional (inner : Shape)
  /-- All of the fields. -/
  | record (name : String) (fields : Fields)
  /-- Any of the fields. -/
  | settings (name : String) (fields : Fields)
  /-- One of the cases. -/
  | choice (name : String) (cases : Cases)

/-- The fields of a record, in order. -/
inductive Fields
  | nil
  | cons (name : String) (shape : Shape) (rest : Fields)

/-- The cases of a choice, in order. -/
inductive Cases
  | nil
  /-- A case that is nothing but its name. -/
  | plain (name : String) (rest : Cases)
  /-- A case with fields. -/
  | record (name : String) (fields : Fields) (rest : Cases)

end

/-- The number of bits of a size. -/
def Size.bits : Size → Nat
  | word32 => 32
  | word64 => 64
  | address => 64

/-- The integers of a size. -/
@[reducible] def Size.Carrier : Size → Type
  | word32 => UInt32
  | word64 => UInt64
  | address => UInt64

/-- The integer of a size that a number is, up to multiples of `2 ^ bits`. -/
def Size.ofNumber : (z : Size) → Nat → z.Carrier
  | word32, n => UInt32.ofNat n
  | word64, n => UInt64.ofNat n
  | address, n => UInt64.ofNat n

/-- The number that an integer is. -/
def Size.toNumber : (z : Size) → z.Carrier → Nat
  | word32, n => UInt32.toNat n
  | word64, n => UInt64.toNat n
  | address, n => UInt64.toNat n

mutual

/-- The fields of a record of which any may be missing. -/
@[reducible] def Fields.Partial : Fields → Type
  | .nil => Unit
  | .cons _ s fs => Option s.Carrier × fs.Partial

/-- The fields of a record. -/
@[reducible] def Fields.Carrier : Fields → Type
  | .nil => Unit
  | .cons _ s fs => s.Carrier × fs.Carrier

/-- The cases of a choice. -/
@[reducible] def Cases.Carrier : Cases → Type
  | .nil => Empty
  | .plain _ cs => Unit ⊕ cs.Carrier
  | .record _ fs cs => fs.Carrier ⊕ cs.Carrier

/-- The values of a shape. -/
@[reducible] def Shape.Carrier : Shape → Type
  | .unsigned z => z.Carrier
  | .flag => Bool
  | .text => String
  | .uuid => Uuid
  | .list s => List s.Carrier
  | .optional s => Option s.Carrier
  | .record _ fs => fs.Carrier
  | .settings _ fs => fs.Partial
  | .choice _ cs => cs.Carrier

end

namespace Fields

/-- The number of fields. -/
def size : Fields → Nat
  | nil => 0
  | cons _ _ fs => fs.size + 1

/-- No field is known. -/
def unknown : (fs : Fields) → fs.Partial
  | nil => ()
  | cons _ _ fs => (none, fs.unknown)

/-- The number of fields that are known. -/
def count : (fs : Fields) → fs.Partial → Nat
  | nil, () => 0
  | cons _ _ fs, (v, p) => fs.count p + (if v.isSome then 1 else 0)

/-- The record, if every field is known. -/
def all? : (fs : Fields) → fs.Partial → Option fs.Carrier
  | nil, () => some ()
  | cons _ _ fs, (v, p) => do return (← v, ← fs.all? p)

end Fields

/-- What a field stands for that an object leaves out. -/
def Shape.whenLeftOut? : (s : Shape) → Option s.Carrier
  | .optional _ => some none
  | _ => none

/-- The record, if the fields that are not known may be left out; else the first that may not. -/
def Fields.complete : (fs : Fields) → fs.Partial → Except Fault fs.Carrier
  | .nil, () => .ok ()
  | .cons name s fs, (v, p) =>
    match v <|> s.whenLeftOut? with
    | none => .error (.missingField name)
    | some x => (fs.complete p).map (x, ·)

/-- The names of the cases. -/
def Cases.names : Cases → List String
  | .nil => []
  | .plain name cs => name :: cs.names
  | .record name _ cs => name :: cs.names

/-- The names of the fields. -/
def Fields.names : Fields → List String
  | .nil => []
  | .cons name _ fs => name :: fs.names

/-- The shape has `null` among its texts. -/
def Shape.isOptional : Shape → Bool
  | .optional _ => true
  | _ => false

mutual

/-- No name stands twice among the fields of a record or the cases of a choice, and `null` stands
for one value only. -/
def Shape.isProper : Shape → Bool
  | .unsigned _ => true
  | .flag => true
  | .text => true
  | .uuid => true
  | .list s => s.isProper
  | .optional s => !s.isOptional && s.isProper
  | .record _ fs => fs.isProper
  | .settings _ fs => fs.isProper
  | .choice _ cs => cs.isProper

/-- All fields are proper and have different names. -/
def Fields.isProper : Fields → Bool
  | .nil => true
  | .cons name s fs => !fs.names.contains name && s.isProper && fs.isProper

/-- All cases are proper and have different names. -/
def Cases.isProper : Cases → Bool
  | .nil => true
  | .plain name cs => !cs.names.contains name && cs.isProper
  | .record name fs cs => !cs.names.contains name && fs.isProper && cs.isProper

end

end ProtectionDomain.Json
