import ProtectionDomain.Json.Literal
import ProtectionDomain.Json.Numeral

/-!
# Skipping values

A value that nobody asked for is only checked for its form.

* `keyword?`, `scanLetters`: `null`, `true` and `false`;
* `skipValue`: the bytes after a value of any form and any depth.
-/

namespace ProtectionDomain.Json

/-! ## Keywords -/

/-- The keyword that a byte begins: the rest of its letters, and what it stands for. -/
def keyword? (b : UInt8) : Option (Bytes × Found) :=
  if b = 0x6E then some (Bytes.ofString "ull", .null)
  else if b = 0x74 then some (Bytes.ofString "rue", .flag true)
  else if b = 0x66 then some (Bytes.ofString "alse", .flag false)
  else none

/-- What follows the given letters. -/
def scanLetters : Bytes → Bytes → Except Fault Bytes
  | [], bs => .ok bs
  | _ :: _, [] => .error .endInValue
  | w :: ws, b :: bs => if b = w then scanLetters ws bs else .error .noIdent

/-! ## Values -/

/-- The byte begins a numeral. -/
def beginsNumeral (b : UInt8) : Bool := b == Byte.minus || Byte.isDigit b

/-- What follows the colon after a key. -/
def readColon (bs : Bytes) : Except Fault Bytes :=
  match skipBlanks bs with
  | [] => .error .endInObject
  | b :: rest => if b = Byte.colon then .ok rest else .error .noColon

/-- The rest of a list or an object, whose items are passed over by `item`. There are no more items
than `bound` has bytes: every item takes one or more, so that the document bounds itself. -/
def skipRow (close : UInt8) (atEnd noComma : Fault) (item : Bytes → Except Fault Bytes)
    (bound : Bytes) (first : Bool) (bs : Bytes) : Except Fault Bytes :=
  match bound, skipBlanks bs with
  | [], _ => .error atEnd
  | _, [] => .error atEnd
  | _ :: bound, b :: rest =>
    if b = close then .ok rest
    else if first then (item (b :: rest)).bind (skipRow close atEnd noComma item bound false)
    else if b = Byte.comma then
      (item rest).bind (skipRow close atEnd noComma item bound false)
    else .error noComma

section

variable (skip : Bytes → Except Fault Bytes)

/-- The rest of a list whose items are passed over by `skip`. -/
def skipItems (bs : Bytes) : Except Fault Bytes :=
  skipRow Byte.closeBracket .endInList .noCommaOrBracket skip bs true bs

/-- One member of an object. -/
def skipMember (bs : Bytes) : Except Fault Bytes :=
  match skipBlanks bs with
  | [] => .error .endInObject
  | b :: rest =>
    if b = Byte.quote then ((Literal.skip rest).bind readColon).bind skip
    else .error .keyNotText

/-- The rest of an object whose values are passed over by `skip`. -/
def skipMembers (bs : Bytes) : Except Fault Bytes :=
  skipRow Byte.closeBrace .endInObject .noCommaOrBrace (skipMember skip) bs true bs

end

/-- The bytes after a value, no deeper than `bound` has bytes: every level takes one or more, so
that the document bounds itself. -/
def skipNested (bound bs : Bytes) : Except Fault Bytes :=
  match bound, skipBlanks bs with
  | [], _ => .error .endInValue
  | _, [] => .error .endInValue
  | _ :: bound, b :: rest =>
    match keyword? b with
    | some (letters, _) => scanLetters letters rest
    | none =>
      if beginsNumeral b then (Numeral.scan .badNumeral (b :: rest)).map (·.2)
      else if b = Byte.quote then Literal.skip rest
      else if b = Byte.openBracket then skipItems (skipNested bound) rest
      else if b = Byte.openBrace then skipMembers (skipNested bound) rest
      else .error .noValue

/-- The bytes after a value of any form. -/
def skipValue (bs : Bytes) : Except Fault Bytes := skipNested bs bs

end ProtectionDomain.Json
