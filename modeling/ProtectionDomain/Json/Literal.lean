import ProtectionDomain.Json.Byte
import ProtectionDomain.Json.Fault

/-!
# String literals

* `Literal.read`: the text of a literal, after its opening quote;
* `Literal.skip`: the bytes after a literal whose text does not matter, where escapes need not
  form characters and raw bytes need not be UTF-8;
* `Literal.write`: the literal of a text, with as few escapes as JSON allows.
-/

namespace ProtectionDomain.Json.Literal

/-! ## Escapes -/

/-- The four hexadecimal digits of a `\u` escape. -/
def readCode (bs : Bytes) : Except Fault (Nat × Bytes) :=
  match bs with
  | a :: b :: c :: d :: rest =>
    match Byte.hexValue? a, Byte.hexValue? b, Byte.hexValue? c, Byte.hexValue? d with
    | some a, some b, some c, some d => .ok (4096 * a + 256 * b + 16 * c + d, rest)
    | _, _, _, _ => .error .badEscape
  | _ => .error .endInText

/-- The code is the first of a surrogate pair. -/
def isLeading (n : Nat) : Bool := 0xD800 ≤ n && n ≤ 0xDBFF

/-- The code is the second of a surrogate pair. -/
def isTrailing (n : Nat) : Bool := 0xDC00 ≤ n && n ≤ 0xDFFF

/-- The character of a surrogate pair. -/
def ofPair (leading trailing : Nat) : Char :=
  Char.ofNat (0x10000 + 1024 * (leading - 0xD800) + (trailing - 0xDC00))

/-- The second escape of a surrogate pair. -/
def readTrailing (leading : Nat) (bs : Bytes) : Except Fault (Char × Bytes) :=
  match bs with
  | [] => .error .endInText
  | [a] => .error (if a = Byte.backslash then .endInText else .brokenSurrogatePair)
  | a :: b :: rest =>
    if a = Byte.backslash ∧ b = Byte.letterU then do
      let (n, rest) ← readCode rest
      if isTrailing n then return (ofPair leading n, rest) else throw .loneSurrogate
    else .error .brokenSurrogatePair

/-- The character of a `\u` escape, or of two that form a surrogate pair. -/
def readUnicode (bs : Bytes) : Except Fault (Char × Bytes) := do
  let (n, rest) ← readCode bs
  if isTrailing n then throw .loneSurrogate
  else if isLeading n then readTrailing n rest
  else return (Char.ofNat n, rest)

/-- The escapes of one byte after the backslash: `"`, `\`, `/`, `b`, `f`, `n`, `r` and `t`. -/
def shortEscapes : List (UInt8 × Char) :=
  [(0x22, '"'), (0x5C, '\\'), (0x2F, '/'), (0x62, '\x08'), (0x66, '\x0c'), (0x6E, '\n'),
    (0x72, '\r'), (0x74, '\t')]

/-- The character that a backslash and this byte stand for. -/
def shortEscape? (b : UInt8) : Option Char := shortEscapes.lookup b

/-- The character of the escape after a backslash. -/
def readEscape (bs : Bytes) : Except Fault (Char × Bytes) :=
  match bs with
  | [] => .error .endInText
  | b :: rest =>
    if b = Byte.letterU then readUnicode rest
    else match shortEscape? b with
      | some c => .ok (c, rest)
      | none => .error .badEscape

/-- What follows the escape after a backslash. -/
def skipEscape (bs : Bytes) : Except Fault Bytes :=
  match bs with
  | [] => .error .endInText
  | b :: rest =>
    if b = Byte.letterU then (readCode rest).map (·.2)
    else if (shortEscape? b).isSome then .ok rest
    else .error .badEscape

/-! ## Reading -/

/-- What comes next in a literal. -/
inductive Piece
  | close (rest : Bytes)
  | char (c : Char) (rest : Bytes)
  /-- A byte that is no part of a character. -/
  | stray (rest : Bytes)
  deriving DecidableEq

/-- The next piece of a literal. -/
def next (bs : Bytes) : Except Fault Piece :=
  match bs with
  | [] => .error .endInText
  | b :: rest =>
    if b = Byte.quote then .ok (.close rest)
    else if b = Byte.backslash then (readEscape rest).map fun (c, rest) => .char c rest
    else if b < 0x20 then .error .controlCharacter
    else match Bytes.nextChar? bs with
      | some (c, rest) => .ok (.char c rest)
      | none => .ok (.stray rest)

/-- The characters up to the closing quote, or nothing if a stray byte is among them. There are no
more pieces than `bound` has bytes: every piece takes one or more, so that the document bounds
itself. -/
def readPieces (bound bs : Bytes) : Except Fault (Option (List Char) × Bytes) :=
  match bound with
  | [] => .error .endInText
  | _ :: bound => do
    match ← next bs with
    | .close rest => return (some [], rest)
    | .char c rest =>
      let (cs?, rest) ← readPieces bound rest
      return (cs?.map (c :: ·), rest)
    | .stray rest =>
      let (_, rest) ← readPieces bound rest
      return (none, rest)

/-- The text of a literal, after its opening quote. -/
def read (bs : Bytes) : Except Fault (String × Bytes) := do
  match ← readPieces bs bs with
  | (some cs, rest) => return (String.ofList cs, rest)
  | (none, _) => throw .notUtf8

/-! ## Skipping -/

/-- The bytes after the closing quote, with no more pieces before it than `bound` has bytes. -/
def skipPieces (bound bs : Bytes) : Except Fault Bytes :=
  match bound, bs with
  | [], _ => .error .endInText
  | _, [] => .error .endInText
  | _ :: bound, b :: rest =>
    if b = Byte.quote then .ok rest
    else if b = Byte.backslash then (skipEscape rest).bind (skipPieces bound)
    else if b < 0x20 then .error .controlCharacter
    else skipPieces bound rest

/-- The bytes after a literal, from its opening quote on. -/
def skip (bs : Bytes) : Except Fault Bytes := skipPieces bs bs

/-! ## Writing -/

/-- A character inside a literal. -/
def escape (c : Char) : List Char :=
  if c = '"' then ['\\', '"']
  else if c = '\\' then ['\\', '\\']
  else if c = '\x08' then ['\\', 'b']
  else if c = '\x0c' then ['\\', 'f']
  else if c = '\n' then ['\\', 'n']
  else if c = '\r' then ['\\', 'r']
  else if c = '\t' then ['\\', 't']
  else if c.toNat < 0x20 then '\\' :: 'u' :: Text.hexDigits 4 c.toNat
  else [c]

/-- The literal of a text. -/
def write (s : String) : List Char := '"' :: s.toList.flatMap escape ++ ['"']

end ProtectionDomain.Json.Literal
