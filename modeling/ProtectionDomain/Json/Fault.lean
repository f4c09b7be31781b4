import ProtectionDomain.Decimal.Shortest
import ProtectionDomain.Text.Quoted
import ProtectionDomain.Uuid.Read

/-!
# Faults of documents

Why a document is not read as the wanted type. A reader reports the first fault that it meets
from left to right. A fault says what is wrong and not where: the line and the column are no part
of its wording.

* `Expected`: what a place of a document should hold;
* `Number`, `Found`: what it holds instead;
* `Fault`, `Fault.message`: the causes and their wording.
-/

namespace ProtectionDomain.Json

/-- The sizes of unsigned integers. -/
inductive Size
  | word32
  | word64
  | address
  deriving DecidableEq

/-- What a place of a document should hold. -/
inductive Expected
  | unsigned (size : Size)
  | flag
  | text
  | uuid
  | list
  | record (name : String)
  | caseRecord (choice case : String)
  | anyCaseRecord
  | unit
  deriving DecidableEq

/-- The wording of an expectation. -/
def Expected.describe : Expected → String
  | unsigned .word32 => "u32"
  | unsigned .word64 => "u64"
  | unsigned .address => "usize"
  | flag => "a boolean"
  | text => "a string"
  | uuid => "a formatted UUID string"
  | list => "a sequence"
  | record name => "struct " ++ name
  | caseRecord choice case => "struct variant " ++ choice ++ "::" ++ case
  | anyCaseRecord => "struct variant"
  | unit => "unit"

/-- The value of a numeral: an integer as long as it fits 64 bits, and a float beyond. -/
inductive Number
  | integer (n : Int)
  | float (x : Decimal.Binary64)
  deriving DecidableEq

/-- What a place of a document holds. -/
inductive Found
  | null
  | flag (b : Bool)
  | number (n : Number)
  | text (s : String)
  | list
  | object
  | plainCase
  deriving DecidableEq

/-- The wording of what is found. -/
def Found.describe : Found → String
  | null => "null"
  | flag b => "boolean `" ++ (if b then "true" else "false") ++ "`"
  | number (.integer n) => "integer `" ++ toString n ++ "`"
  | number (.float x) => "floating point `" ++ x.text ++ "`"
  | text s => "string " ++ Text.quoted s
  | list => "sequence"
  | object => "map"
  | plainCase => "unit variant"

/-- Why a document is not read. -/
inductive Fault
  | endInValue
  | endInList
  | endInObject
  | endInText
  | noValue
  | noIdent
  | noColon
  | noCommaOrBracket
  | noCommaOrBrace
  | trailingComma
  | trailingCharacters
  | keyNotText
  | badNumeral
  | tooLarge
  | badEscape
  | loneSurrogate
  | brokenSurrogatePair
  | controlCharacter
  | notUtf8
  | badUuid (complaint : Uuid.Malformed)
  | wrongType (found : Found) (expected : Expected)
  | wrongValue (found : Found) (expected : Expected)
  | wrongLength (found : Nat) (expected : Expected) (size : Nat)
  | missingField (name : String)
  | duplicateField (name : String)
  | unknownCase (name : String) (known : List String)
  deriving DecidableEq

namespace Fault

/-- A name between backticks. -/
def ticked (name : String) : String := "`" ++ name ++ "`"

/-- The wording of a list of alternatives. -/
def alternatives (names : List String) : String :=
  match names with
  | [a] => ticked a
  | [a, b] => ticked a ++ " or " ++ ticked b
  | _ => "one of " ++ ", ".intercalate (names.map ticked)

/-- The wording of a fault. -/
def message : Fault → String
  | endInValue => "EOF while parsing a value"
  | endInList => "EOF while parsing a list"
  | endInObject => "EOF while parsing an object"
  | endInText => "EOF while parsing a string"
  | noValue => "expected value"
  | noIdent => "expected ident"
  | noColon => "expected `:`"
  | noCommaOrBracket => "expected `,` or `]`"
  | noCommaOrBrace => "expected `,` or `\x7d`"
  | trailingComma => "trailing comma"
  | trailingCharacters => "trailing characters"
  | keyNotText => "key must be a string"
  | badNumeral => "invalid number"
  | tooLarge => "number out of range"
  | badEscape => "invalid escape"
  | loneSurrogate => "lone leading surrogate in hex escape"
  | brokenSurrogatePair => "unexpected end of hex escape"
  | controlCharacter => "control character (\\u0000-\\u001F) found while parsing a string"
  | notUtf8 => "invalid unicode code point"
  | badUuid complaint => "UUID parsing failed: " ++ complaint.message
  | wrongType found expected =>
    "invalid type: " ++ found.describe ++ ", expected " ++ expected.describe
  | wrongValue found expected =>
    "invalid value: " ++ found.describe ++ ", expected " ++ expected.describe
  | wrongLength found expected size =>
    "invalid length " ++ toString found ++ ", expected " ++ expected.describe ++ " with " ++
      toString size ++ (if size = 1 then " element" else " elements")
  | missingField name => "missing field " ++ ticked name
  | duplicateField name => "duplicate field " ++ ticked name
  | unknownCase name known =>
    "unknown variant " ++ ticked name ++ ", expected " ++ alternatives known

end Fault

end ProtectionDomain.Json
