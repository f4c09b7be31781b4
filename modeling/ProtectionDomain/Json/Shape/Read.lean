import ProtectionDomain.Json.Shape
import ProtectionDomain.Json.Skip

/-!
# Reading documents

* `Reader`: a value of the wanted type from the front of a document;
* `readItems`, `readMembers`, `readFields`, `readChoice`: lists, objects, records and choices over
  given readers of their parts;
* `Shape.read`: the values of a shape;
* `Shape.decode`: a whole document.
-/

namespace ProtectionDomain.Json

/-- Takes a value from the front of a document. -/
abbrev Reader (α : Type) := Bytes → Except Fault (α × Bytes)

/-- A function on what is read. -/
def Reader.map {α β : Type} (f : α → β) (r : Reader α) : Reader β :=
  fun bs => (r bs).map fun (a, rest) => (f a, rest)

/-! ## Scalars -/

/-- What begins a document that holds something else than wanted. Scalars are read to their end,
lists and objects are not looked into. -/
def found (bs : Bytes) : Except Fault Found :=
  match bs with
  | [] => .error .endInValue
  | b :: rest =>
    match keyword? b with
    | some (letters, found) => (scanLetters letters rest).map fun _ => found
    | none =>
      if beginsNumeral b then do
        let (numeral, _) ← Numeral.scan .endInValue bs
        return .number (← numeral.value)
      else if b = Byte.quote then (Literal.read rest).map fun (s, _) => .text s
      else if b = Byte.openBracket then .ok .list
      else if b = Byte.openBrace then .ok .object
      else .error .noValue

/-- The fault of a place that holds something else than wanted. -/
def mismatch (expected : Expected) (bs : Bytes) : Fault :=
  match found bs with
  | .ok found => .wrongType found expected
  | .error fault => fault

/-- An unsigned integer. -/
def readUnsigned (z : Size) : Reader z.Carrier := fun bs =>
  match skipBlanks bs with
  | [] => .error .endInValue
  | b :: rest =>
    if beginsNumeral b then do
      let (numeral, rest) ← Numeral.scan .endInValue (b :: rest)
      match ← numeral.value with
      | .integer n =>
        if 0 ≤ n ∧ n.toNat < 1 <<< z.bits then return (z.ofNumber n.toNat, rest)
        else throw (.wrongValue (.number (.integer n)) (.unsigned z))
      | .float x => throw (.wrongType (.number (.float x)) (.unsigned z))
    else .error (mismatch (.unsigned z) (b :: rest))

/-- A flag. -/
def readFlag : Reader Bool := fun bs =>
  match skipBlanks bs with
  | [] => .error .endInValue
  | b :: rest =>
    match keyword? b with
    | some (letters, .flag v) => (scanLetters letters rest).map (v, ·)
    | _ => .error (mismatch .flag (b :: rest))

/-- A text, where the given thing is wanted. -/
def readTextFor (expected : Expected) : Reader String := fun bs =>
  match skipBlanks bs with
  | [] => .error .endInValue
  | b :: rest =>
    if b = Byte.quote then Literal.read rest else .error (mismatch expected (b :: rest))

/-- A text. -/
def readText : Reader String := readTextFor .text

/-- An id. -/
def readUuid : Reader Uuid := fun bs => do
  let (s, rest) ← readTextFor .uuid bs
  match Uuid.ofText s with
  | .ok u => return (u, rest)
  | .error complaint => throw (.badUuid complaint)

/-- `null`, where the given thing is wanted. -/
def readNullFor (expected : Expected) : Reader Unit := fun bs =>
  match skipBlanks bs with
  | [] => .error .endInValue
  | b :: rest =>
    match keyword? b with
    | some (letters, .null) => (scanLetters letters rest).map ((), ·)
    | _ => .error (mismatch expected (b :: rest))

/-- `null` or a value. -/
def readOptional {α : Type} (read : Reader α) : Reader (Option α) := fun bs =>
  match (skipBlanks bs).head?.bind keyword? with
  | some (_, .null) => Reader.map (fun _ => none) (readNullFor .unit) bs
  | _ => read.map some bs

/-! ## Lists -/

/-- What a list or an object goes on with. -/
inductive Step
  | close (rest : Bytes)
  | item (rest : Bytes)
  deriving DecidableEq

/-- Whether a list goes on. -/
def nextItem (first : Bool) (bs : Bytes) : Except Fault Step :=
  match skipBlanks bs with
  | [] => .error .endInList
  | b :: rest =>
    if b = Byte.closeBracket then .ok (.close rest)
    else if first then .ok (.item (b :: rest))
    else if b = Byte.comma then
      match skipBlanks rest with
      | [] => .error .endInValue
      | c :: rest =>
        if c = Byte.closeBracket then .error .trailingComma else .ok (.item (c :: rest))
    else .error .noCommaOrBracket

/-- The rest of a list, with no more items than `bound` has bytes: every item takes one or more, so
that the document bounds itself. -/
def readItems {α : Type} (read : Reader α) (bound : Bytes) (first : Bool) : Reader (List α) :=
  fun bs =>
  match bound with
  | [] => .error .endInList
  | _ :: bound => do
    match ← nextItem first bs with
    | .close rest => return ([], rest)
    | .item rest =>
      let (x, rest) ← read rest
      let (xs, rest) ← readItems read bound false rest
      return (x :: xs, rest)

/-- A list. -/
def readList {α : Type} (read : Reader α) : Reader (List α) := fun bs =>
  match skipBlanks bs with
  | [] => .error .endInValue
  | b :: rest =>
    if b = Byte.openBracket then readItems read rest true rest
    else .error (mismatch .list (b :: rest))

/-- The end of a list that has all its items. -/
def closeItems (bs : Bytes) : Except Fault Bytes :=
  match skipBlanks bs with
  | [] => .error .endInList
  | b :: rest =>
    if b = Byte.closeBracket then .ok rest
    else if b = Byte.comma ∧ (skipBlanks rest).head? = some Byte.closeBracket then
      .error .trailingComma
    else .error .trailingCharacters

/-! ## Objects -/

/-- Whether an object goes on. A member begins after the opening quote of its key. -/
def nextMember (first : Bool) (bs : Bytes) : Except Fault Step :=
  match skipBlanks bs with
  | [] => .error .endInObject
  | b :: rest =>
    if b = Byte.closeBrace then .ok (.close rest)
    else if first then
      if b = Byte.quote then .ok (.item rest) else .error .keyNotText
    else if b = Byte.comma then
      match skipBlanks rest with
      | [] => .error .endInValue
      | c :: rest =>
        if c = Byte.quote then .ok (.item rest)
        else if c = Byte.closeBrace then .error .trailingComma
        else .error .keyNotText
    else .error .noCommaOrBrace

/-- The rest of an object, with no more members than `bound` has bytes. A key and what is known from
the members before it give the reader of its value. -/
def readMembers {σ : Type} (member : String → σ → Except Fault (Reader σ)) (bound : Bytes)
    (first : Bool) (known : σ) : Reader σ := fun bs =>
  match bound with
  | [] => .error .endInObject
  | _ :: bound => do
    match ← nextMember first bs with
    | .close rest => return (known, rest)
    | .item rest =>
      let (key, rest) ← Literal.read rest
      let read ← member key known
      let rest ← readColon rest
      let (known, rest) ← read rest
      readMembers member bound false known rest

/-- The fields of a record, from an object that names them or from a list that has them in order,
and what they amount to. -/
def readFields {σ α : Type} (expected : Expected) (unknown : σ)
    (member : String → σ → Except Fault (Reader σ)) (elements : Reader σ)
    (ofMembers ofElements : σ → Except Fault α) : Reader α := fun bs =>
  match skipBlanks bs with
  | [] => .error .endInValue
  | b :: rest =>
    if b = Byte.openBrace then do
      let (known, rest) ← readMembers member rest true unknown rest
      return (← ofMembers known, rest)
    else if b = Byte.openBracket then do
      let (known, rest) ← elements rest
      return (← ofElements known, rest)
    else .error (mismatch expected (b :: rest))

/-! ## Choices -/

/-- The end of an object with a single member. -/
def closeChoice (bs : Bytes) : Except Fault Bytes :=
  match skipBlanks bs with
  | [] => .error .endInObject
  | b :: rest => if b = Byte.closeBrace then .ok rest else .error .noValue

/-- A case of a choice: its name alone, or an object with its name as the only key. -/
def readChoice {α : Type} (names : List String) (alone : String → Option (Except Fault α))
    (content : String → Option (Reader α)) : Reader α := fun bs =>
  match skipBlanks bs with
  | [] => .error .endInValue
  | b :: rest =>
    if b = Byte.quote then do
      let (name, rest) ← Literal.read rest
      match alone name with
      | none => throw (.unknownCase name names)
      | some case => return (← case, rest)
    else if b = Byte.openBrace then
      match skipBlanks rest with
      | [] => .error .endInObject
      | c :: rest =>
        if c = Byte.quote then do
          let (name, rest) ← Literal.read rest
          match content name with
          | none => throw (.unknownCase name names)
          | some read =>
            let (case, rest) ← read (← readColon rest)
            return (case, ← closeChoice rest)
        else if c = Byte.closeBrace then .error .noValue
        else .error .keyNotText
    else .error .noValue

/-- A case that is named alone. One with fields cannot be. -/
def Cases.alone : (cs : Cases) → String → Option (Except Fault cs.Carrier)
  | .nil, _ => none
  | .plain name cs, key =>
    if key = name then some (.ok (.inl ()))
    else (cs.alone key).map fun case => case.map .inr
  | .record name _ cs, key =>
    if key = name then some (.error (.wrongType .plainCase .anyCaseRecord))
    else (cs.alone key).map fun case => case.map .inr

/-! ## Shapes -/

/-- A record from the elements of a list, of which none may be left out. -/
def Fields.ofElements (fs : Fields) (expected : Expected) (p : fs.Partial) :
    Except Fault fs.Carrier :=
  match fs.all? p with
  | some v => .ok v
  | none => .error (.wrongLength (fs.count p) expected fs.size)

mutual

/-- A value of a shape. -/
def Shape.read : (s : Shape) → Reader s.Carrier
  | .unsigned z => readUnsigned z
  | .flag => readFlag
  | .text => readText
  | .uuid => readUuid
  | .list s => readList s.read
  | .optional s => readOptional s.read
  | .record name fs =>
    readFields (.record name) fs.unknown fs.member (fs.elements true) fs.complete
      (fs.ofElements (.record name))
  | .settings name fs =>
    readFields (.record name) fs.unknown fs.member (fs.elements true) .ok .ok
  | .choice name cs => readChoice cs.names cs.alone (cs.content name)

/-- The reader of the value under a key. A known field may not come again, and a key that names no
field is passed over with its value. -/
def Fields.member : (fs : Fields) → String → fs.Partial → Except Fault (Reader fs.Partial)
  | .nil, _, () => .ok fun bs => (skipValue bs).map ((), ·)
  | .cons name s fs, key, (v, p) =>
    if key = name then
      if v.isSome then .error (.duplicateField name)
      else .ok (s.read.map fun x => (some x, p))
    else (fs.member key p).map fun read => read.map fun p => (v, p)

/-- The elements of a list as fields, as far as there are any. -/
def Fields.elements : (fs : Fields) → Bool → Reader fs.Partial
  | .nil, _ => fun bs => (closeItems bs).map ((), ·)
  | .cons name s fs, first => fun bs => do
    match ← nextItem first bs with
    | .close rest => return (Fields.unknown (.cons name s fs), rest)
    | .item rest =>
      let (x, rest) ← s.read rest
      let (p, rest) ← fs.elements false rest
      return ((some x, p), rest)

/-- The reader of what an object has under the name of a case. -/
def Cases.content (choice : String) : (cs : Cases) → String → Option (Reader cs.Carrier)
  | .nil, _ => none
  | .plain name cs, key =>
    if key = name then some ((readNullFor .unit).map .inl)
    else (cs.content choice key).map fun read => read.map .inr
  | .record name fs cs, key =>
    if key = name then
      some ((readFields (.caseRecord choice name) fs.unknown fs.member (fs.elements true)
        fs.complete (fs.ofElements (.caseRecord choice name))).map .inl)
    else (cs.content choice key).map fun read => read.map .inr

end

/-- The value of a whole document, which only blanks may follow. -/
def Shape.decode (s : Shape) (bs : Bytes) : Except Fault s.Carrier := do
  let (v, rest) ← s.read bs
  if (skipBlanks rest).isEmpty then return v else throw .trailingCharacters

end ProtectionDomain.Json
