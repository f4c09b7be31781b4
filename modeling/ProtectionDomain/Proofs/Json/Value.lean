import ProtectionDomain.Json.Value
import ProtectionDomain.Proofs.Json.WellFormed

/-!
# Texts of values

A value has many texts. They differ in the blanks between their parts and in the spelling of their
literals. Each way to write a value comes to one of them.

* `Literal.literalText_write`: the written literal spells its text;
* `Value.HasText`: the texts of a value; `HasText.ofByte?_eq`: their first byte tells its form;
* `commas`, `ofChars_eq_commas`: what is written with commas between the items; `listText_commas`,
  `objectText_commas`: lists and objects with the same blanks in front of each item;
* `Value.bytes`, **`Value.hasText_bytes`**: the text without blanks;
* `Value.prettyBytes`, **`Value.hasText_prettyBytes`**: the text with one item or member a line;
* `Value.le_of_mem_bytes`: nothing below the blank is written without blanks.
-/

namespace ProtectionDomain.Json

/-! ## Literals -/

namespace Literal

theorem hexDigit_spec {d : Nat} (h : d < 16) :
    ∃ b, String.utf8EncodeChar (Nat.digitChar d) = [b] ∧ Byte.hexValue? b = some d := by
  have hall : ∀ d < 16, (Nat.digitChar d).toNat < 0x80 ∧
      Byte.hexValue? (UInt8.ofNat (Nat.digitChar d).toNat) = some d := by decide
  obtain ⟨hlt, hvalue⟩ := hall d h
  exact ⟨_, Bytes.utf8EncodeChar_of_lt hlt, hvalue⟩

theorem codeText_hexDigits {n : Nat} (h : n < 0x10000) :
    CodeText (Bytes.ofChars (Text.hexDigits 4 n)) n := by
  obtain ⟨a, ha, hi⟩ := hexDigit_spec (Nat.mod_lt (n >>> 12) (by decide : 0 < 16))
  obtain ⟨b, hb, hj⟩ := hexDigit_spec (Nat.mod_lt (n >>> 8) (by decide : 0 < 16))
  obtain ⟨c, hc, hk⟩ := hexDigit_spec (Nat.mod_lt (n >>> 4) (by decide : 0 < 16))
  obtain ⟨d, hd, hl⟩ := hexDigit_spec (Nat.mod_lt (n >>> 0) (by decide : 0 < 16))
  have hbytes : Bytes.ofChars (Text.hexDigits 4 n) = [a, b, c, d] := by
    simp only [Text.hexDigits_succ, Bytes.ofChars_cons, ha, hb, hc, hd]
    rfl
  have hn : 4096 * (n >>> 12 % 16) + 256 * (n >>> 8 % 16) + 16 * (n >>> 4 % 16) +
      n >>> 0 % 16 = n := by
    omega
  rw [hbytes]
  exact hn ▸ .digits hi hj hk hl

/-- A character is written as a short escape, by its code, or as it is. -/
theorem escape_cases (c : Char) :
    (∃ b, (b, c) ∈ shortEscapes ∧ escape c = ['\\', Char.ofUInt8 b]) ∨
      (c.toNat < 0x20 ∧ escape c = '\\' :: 'u' :: Text.hexDigits 4 c.toNat) ∨
      ((0x20 ≤ c.toNat ∧ c ≠ '"' ∧ c ≠ '\\') ∧ escape c = [c]) := by
  unfold escape
  split
  · next h => exact .inl ⟨0x22, by rw [h]; decide, rfl⟩
  split
  · next h => exact .inl ⟨0x5C, by rw [h]; decide, rfl⟩
  split
  · next h => exact .inl ⟨0x62, by rw [h]; decide, rfl⟩
  split
  · next h => exact .inl ⟨0x66, by rw [h]; decide, rfl⟩
  split
  · next h => exact .inl ⟨0x6E, by rw [h]; decide, rfl⟩
  split
  · next h => exact .inl ⟨0x72, by rw [h]; decide, rfl⟩
  split
  · next h => exact .inl ⟨0x74, by rw [h]; decide, rfl⟩
  split
  · next h => exact .inr (.inl ⟨h, rfl⟩)
  · next hquote hslash _ _ _ _ _ h20 =>
    exact .inr (.inr ⟨⟨Nat.not_lt.mp h20, hquote, hslash⟩, rfl⟩)

theorem shortEscapes_spec {b : UInt8} {c : Char} (h : (b, c) ∈ shortEscapes) :
    String.utf8EncodeChar (Char.ofUInt8 b) = [b] ∧ 0x20 ≤ (Char.ofUInt8 b).toNat := by
  have hall : ∀ e ∈ shortEscapes,
      String.utf8EncodeChar (Char.ofUInt8 e.1) = [e.1] ∧ 0x20 ≤ (Char.ofUInt8 e.1).toNat := by
    decide
  exact hall _ h

theorem charText_escape (c : Char) : CharText (Bytes.ofChars (escape c)) c := by
  rcases escape_cases c with ⟨b, hb, hescape⟩ | ⟨h20, hescape⟩ | ⟨⟨h20, hquote, hslash⟩, hescape⟩
  · have hbytes : Bytes.ofChars (escape c) = [Byte.backslash, b] := by
      rw [hescape, Bytes.ofChars_cons, Bytes.ofChars_cons, (shortEscapes_spec hb).1]
      rfl
    rw [hbytes]
    exact .escape (.short hb)
  · rw [hescape]
    exact .escape (.code (codeText_hexDigits (by omega)))
  · rw [hescape, Bytes.ofChars_cons, Bytes.ofChars_nil, List.append_nil]
    exact .raw h20 hquote hslash

theorem bodyText_escape (cs : List Char) : BodyText (Bytes.ofChars (cs.flatMap escape)) cs := by
  induction cs with
  | nil => exact .nil
  | cons c cs ih =>
    rw [List.flatMap_cons, Bytes.ofChars_append]
    exact .cons (charText_escape c) ih

theorem literalText_write (s : String) : LiteralText (Bytes.ofChars (write s)) s := by
  refine ⟨Bytes.ofChars (s.toList.flatMap escape), ?_, bodyText_escape s.toList⟩
  rw [write, List.cons_append, Bytes.ofChars_cons, Bytes.ofChars_append]
  rfl

theorem le_of_mem_hexDigits {width n : Nat} {c : Char} (hc : c ∈ Text.hexDigits width n) :
    0x20 ≤ c.toNat := by
  have hall : ∀ d < 16, 0x20 ≤ (Nat.digitChar d).toNat := by decide
  obtain ⟨i, -, rfl⟩ := List.mem_map.mp hc
  exact hall _ (Nat.mod_lt _ (by decide))

theorem le_of_mem_escape {c d : Char} (hd : d ∈ escape c) : 0x20 ≤ d.toNat := by
  rcases escape_cases c with ⟨b, hb, hescape⟩ | ⟨-, hescape⟩ | ⟨⟨h20, -, -⟩, hescape⟩
  · rw [hescape] at hd
    rcases List.mem_cons.mp hd with rfl | hd
    · decide
    · rw [List.mem_singleton.mp hd]
      exact (shortEscapes_spec hb).2
  · rw [hescape] at hd
    rcases List.mem_cons.mp hd with rfl | hd
    · decide
    · rcases List.mem_cons.mp hd with rfl | hd
      · decide
      · exact le_of_mem_hexDigits hd
  · rw [hescape] at hd
    rw [List.mem_singleton.mp hd]
    exact h20

theorem le_of_mem_write {s : String} {c : Char} (hc : c ∈ write s) : 0x20 ≤ c.toNat := by
  simp only [write, List.cons_append, List.mem_cons, List.mem_append, List.mem_flatMap,
    List.not_mem_nil, or_false] at hc
  rcases hc with rfl | ⟨d, -, hd⟩ | rfl
  · decide
  · exact le_of_mem_escape hd
  · decide

end Literal

/-! ## The texts of a value -/

namespace Value

mutual

/-- The texts of a value, with any blanks and with its literals in any spelling. -/
def HasText : Value → Bytes → Prop
  | null, t => NullText t
  | flag b, t => FlagText t b
  | number n, t => t = Numeral.digitsOf n
  | text s, t => Literal.LiteralText t s
  | list items, t => ∃ texts, ListText texts t ∧ ItemsHaveTexts items texts
  | object members, t => ∃ texts, ObjectText KeyText texts t ∧ MembersHaveTexts members texts

/-- The texts of the items of a list, one by one. -/
def ItemsHaveTexts : List Value → List Bytes → Prop
  | [], [] => True
  | v :: vs, t :: ts => v.HasText t ∧ ItemsHaveTexts vs ts
  | _, _ => False

/-- The texts of the members of an object, one by one and under the same keys. -/
def MembersHaveTexts : List (String × Value) → List (String × Bytes) → Prop
  | [], [] => True
  | (k, v) :: ms, (key, t) :: ts => (key = k ∧ v.HasText t) ∧ MembersHaveTexts ms ts
  | _, _ => False

end

theorem MembersHaveTexts.keys : {ms : List (String × Value)} → {ts : List (String × Bytes)} →
    MembersHaveTexts ms ts → ts.map (·.1) = ms.map (·.1)
  | [], [], _ => rfl
  | (_, _) :: _, (_, _) :: _, ⟨⟨hkey, _⟩, h⟩ => by
    rw [List.map_cons, List.map_cons, h.keys, hkey]

/-! ## First bytes -/

/-- The forms of values. -/
inductive Form
  | null
  | flag
  | number
  | text
  | list
  | object
  deriving DecidableEq

/-- The form of a value. -/
def form : Value → Form
  | null => .null
  | flag _ => .flag
  | number _ => .number
  | text _ => .text
  | list _ => .list
  | object _ => .object

/-- The form of the values whose texts begin with a byte. -/
def Form.ofByte? (b : UInt8) : Option Form :=
  if b = Byte.letterN then some .null
  else if b = 0x74 ∨ b = 0x66 then some .flag
  else if Byte.isDigit b then some .number
  else if b = Byte.quote then some .text
  else if b = Byte.openBracket then some .list
  else if b = Byte.openBrace then some .object
  else none

/-- The first byte of a text tells the form of the value. -/
theorem HasText.ofByte?_eq {v : Value} {b : UInt8} {r : Bytes} (h : v.HasText (b :: r)) :
    Form.ofByte? b = some v.form := by
  cases v with
  | null =>
    cases h
    rfl
  | flag _ =>
    rw [HasText] at h
    cases h <;> rfl
  | number n =>
    obtain ⟨d, ds, hds, hd⟩ := Numeral.digitsOf_cons n
    rw [HasText, hds] at h
    obtain ⟨rfl, -⟩ := List.cons.inj h
    -- all letters come after the digits
    have hrange := Numeral.isDigit_iff.mp hd
    have hletter : ∀ c : UInt8, 0x39 < c.toNat → b ≠ c := by
      rintro c hc rfl
      omega
    rw [Form.ofByte?, if_neg (hletter _ (by decide)), if_neg, if_pos hd]
    · rfl
    · exact not_or.mpr ⟨hletter _ (by decide), hletter _ (by decide)⟩
  | text s =>
    obtain ⟨_, heq, -⟩ := h
    obtain ⟨rfl, -⟩ := List.cons.inj heq
    rfl
  | list items =>
    obtain ⟨_, ⟨_, heq, -⟩, -⟩ := h
    obtain ⟨rfl, -⟩ := List.cons.inj heq
    rfl
  | object members =>
    obtain ⟨_, ⟨_, heq, -⟩, -⟩ := h
    obtain ⟨rfl, -⟩ := List.cons.inj heq
    rfl

theorem HasText.form_eq {v : Value} {b : UInt8} {r : Bytes} {f : Form} (h : v.HasText (b :: r))
    (hb : Form.ofByte? b = some f) : v.form = f :=
  Option.some.inj (h.ofByte?_eq.symm.trans hb)

theorem HasText.head?_ne {v : Value} {t : Bytes} (ht : v.HasText t) (h : v ≠ null) :
    t.head? ≠ some Byte.letterN := by
  intro hhead
  obtain ⟨r, rfl⟩ := List.head?_eq_some_iff.mp hhead
  have hform : v.form = .null := ht.form_eq rfl
  cases v with
  | null => exact h rfl
  | flag | number | text | list | object => contradiction

end Value

/-! ## Rows -/

/-- Texts with commas between them and no blanks. -/
def commas : List Bytes → Bytes
  | [] => []
  | t :: ts => t ++ ts.flatMap (Byte.comma :: ·)

/-- Any way to write items with commas between them comes to the texts of the items. -/
theorem ofChars_eq_commas {α : Type} {one : α → List Char} {all : List α → List Char}
    (hnil : all [] = []) (hone : ∀ x, all [x] = one x)
    (hcons : ∀ x y xs, all (x :: y :: xs) = one x ++ ',' :: all (y :: xs)) (xs : List α) :
    Bytes.ofChars (all xs) = commas (xs.map fun x => Bytes.ofChars (one x)) := by
  induction xs with
  | nil =>
    rw [hnil]
    rfl
  | cons x xs ih =>
    cases xs with
    | nil =>
      rw [hone, List.map_cons, commas]
      exact (List.append_nil _).symm
    | cons y ys =>
      rw [hcons, Bytes.ofChars_append, Bytes.ofChars_cons, ih,
        Bytes.utf8EncodeChar_of_lt (by decide)]
      rfl

section

variable {α : Type} {Item : α → Bytes → Prop} {xs : List α} {ts : List Bytes} {lead tail : Bytes}

theorem Row.append_blanks {first : Bool} {r : Bytes} (h : Row Item first xs r)
    (htail : Blanks tail) : Row Item first xs (r ++ tail) := by
  induction h with
  | nil hw => exact .nil (hw.append htail)
  | cons hlead hx _ ih =>
    rw [List.append_assoc, List.append_assoc]
    exact .cons hlead hx ih

theorem row_flatMap (hlead : Blanks lead) (h : List.Forall₂ Item xs ts) :
    Row Item false xs ((ts.map (lead ++ ·)).flatMap (Byte.comma :: ·)) := by
  induction h with
  | nil => exact .nil Blanks.nil
  | cons hx _ ih =>
    rw [List.map_cons, List.flatMap_cons, List.cons_append, List.append_assoc]
    exact .cons (.next Blanks.nil hlead) hx ih

theorem row_commas (hlead : Blanks lead) (htail : Blanks tail) (h : List.Forall₂ Item xs ts) :
    Row Item true xs (commas (ts.map (lead ++ ·)) ++ tail) := by
  refine Row.append_blanks ?_ htail
  cases h with
  | nil => exact .nil Blanks.nil
  | cons hx h =>
    rw [List.map_cons, commas, List.append_assoc]
    exact .cons (.first hlead) hx (row_flatMap hlead h)

theorem listText_commas (hlead : Blanks lead) (htail : Blanks tail) :
    ListText ts (Byte.openBracket :: (commas (ts.map (lead ++ ·)) ++ tail ++
      [Byte.closeBracket])) := by
  refine ⟨_, rfl, row_commas hlead htail ?_⟩
  rw [List.forall₂_same]
  exact fun _ _ => rfl

/-- The text of a member, with blanks between the colon and the value. -/
def memberBytes (gap : Bytes) (m : String × Bytes) : Bytes :=
  Bytes.ofChars (Literal.write m.1) ++ Byte.colon :: (gap ++ m.2)

theorem objectText_commas {gap : Bytes} {members : List (String × Bytes)} (hlead : Blanks lead)
    (htail : Blanks tail) (hgap : Blanks gap) :
    ObjectText KeyText members (Byte.openBrace ::
      (commas ((members.map (memberBytes gap)).map (lead ++ ·)) ++ tail ++
        [Byte.closeBrace])) := by
  refine ⟨_, rfl, row_commas hlead htail ?_⟩
  rw [List.forall₂_map_right_iff, List.forall₂_same]
  intro m _
  exact .mk (Literal.literalText_write m.1) Blanks.nil hgap

end

namespace Value

/-! ## Without blanks -/

/-- The bytes of a value without blanks. -/
def bytes (v : Value) : Bytes := Bytes.ofChars v.compact

end Value

/-- The members of an object as texts. -/
def texts (members : List (String × Value)) : List (String × Bytes) :=
  members.map fun m => (m.1, m.2.bytes)

namespace Value

theorem ofChars_compactItems (vs : List Value) :
    Bytes.ofChars (compactItems vs) = commas (vs.map bytes) :=
  ofChars_eq_commas rfl (fun _ => rfl) (fun _ _ _ => rfl) vs

theorem ofChars_compactMembers (ms : List (String × Value)) :
    Bytes.ofChars (compactMembers ms) = commas ((texts ms).map (memberBytes [])) := by
  have hmember : ∀ m : String × Value,
      Bytes.ofChars (Literal.write m.1 ++ ':' :: m.2.compact) =
        memberBytes [] (m.1, m.2.bytes) := by
    intro m
    rw [Bytes.ofChars_append, Bytes.ofChars_cons]
    rfl
  rw [texts, List.map_map, ofChars_eq_commas rfl (fun _ => rfl) (fun _ _ _ => rfl) ms]
  exact congrArg commas (List.map_congr_left fun m _ => hmember m)

theorem bytes_list (items : List Value) : (list items).bytes =
    Byte.openBracket :: (commas (items.map bytes) ++ [Byte.closeBracket]) := by
  rw [bytes, compact, Bytes.ofChars_append, Bytes.ofChars_cons, ofChars_compactItems]
  rfl

theorem bytes_object (members : List (String × Value)) : (object members).bytes =
    Byte.openBrace :: (commas ((texts members).map (memberBytes [])) ++ [Byte.closeBrace]) := by
  rw [bytes, compact, Bytes.ofChars_append, Bytes.ofChars_cons, ofChars_compactMembers]
  rfl

theorem listText_bytes (items : List Value) : ListText (items.map bytes) (list items).bytes := by
  rw [bytes_list]
  simpa using listText_commas Blanks.nil Blanks.nil

theorem objectText_bytes (members : List (String × Value)) :
    ObjectText KeyText (texts members) (object members).bytes := by
  rw [bytes_object]
  simpa [Function.comp_def] using objectText_commas Blanks.nil Blanks.nil Blanks.nil

mutual

/-- **What is written without blanks is a text of the value.** -/
theorem hasText_bytes : (v : Value) → v.HasText v.bytes
  | null => .null
  | flag true => .true
  | flag false => .false
  | number _ => rfl
  | text s => Literal.literalText_write s
  | list items => ⟨_, listText_bytes items, itemsHaveTexts_bytes items⟩
  | object members => ⟨_, objectText_bytes members, membersHaveTexts_bytes members⟩

theorem itemsHaveTexts_bytes : (vs : List Value) → ItemsHaveTexts vs (vs.map bytes)
  | [] => trivial
  | v :: vs => ⟨v.hasText_bytes, itemsHaveTexts_bytes vs⟩

theorem membersHaveTexts_bytes : (ms : List (String × Value)) → MembersHaveTexts ms (texts ms)
  | [] => trivial
  | (_, v) :: ms => ⟨⟨rfl, v.hasText_bytes⟩, membersHaveTexts_bytes ms⟩

end

/-! ## One item or member a line -/

/-- The bytes of a value with one item or member a line. -/
def prettyBytes (depth : Nat) (v : Value) : Bytes := Bytes.ofChars (v.pretty depth)

/-- The members of an object as texts with one item or member a line. -/
def prettyTexts (depth : Nat) (members : List (String × Value)) : List (String × Bytes) :=
  members.map fun m => (m.1, m.2.prettyBytes depth)

/-- The bytes at the start of a line. -/
def lineBytes (depth : Nat) : Bytes := Bytes.ofChars (line depth)

theorem blanks_lineBytes (depth : Nat) : Blanks (lineBytes depth) := by
  intro b hb
  obtain ⟨c, hc, hbc⟩ := List.mem_flatMap.mp hb
  rcases List.mem_cons.mp hc with rfl | hc
  · rw [Bytes.utf8EncodeChar_of_lt (by decide), List.mem_singleton] at hbc
    rw [hbc]
    rfl
  · obtain ⟨-, rfl⟩ := List.mem_replicate.mp hc
    rw [Bytes.utf8EncodeChar_of_lt (by decide), List.mem_singleton] at hbc
    rw [hbc]
    rfl

theorem blanks_gap : Blanks [0x20] := by simp [Blanks, Byte.isBlank]

theorem ofChars_prettyItems (depth : Nat) (vs : List Value) :
    Bytes.ofChars (prettyItems depth vs) =
      commas ((vs.map (prettyBytes depth)).map (lineBytes depth ++ ·)) := by
  have hitem : ∀ v : Value, Bytes.ofChars (line depth ++ v.pretty depth) =
      lineBytes depth ++ v.prettyBytes depth := fun v => Bytes.ofChars_append _ _
  rw [List.map_map, ofChars_eq_commas rfl (fun _ => rfl) (fun _ _ _ => rfl) vs]
  exact congrArg commas (List.map_congr_left fun v _ => hitem v)

theorem ofChars_prettyMembers (depth : Nat) (ms : List (String × Value)) :
    Bytes.ofChars (prettyMembers depth ms) =
      commas (((prettyTexts depth ms).map (memberBytes [0x20])).map (lineBytes depth ++ ·)) := by
  have hmember : ∀ m : String × Value,
      Bytes.ofChars (line depth ++ Literal.write m.1 ++ ':' :: ' ' :: m.2.pretty depth) =
        lineBytes depth ++ memberBytes [0x20] (m.1, m.2.prettyBytes depth) := by
    intro m
    rw [Bytes.ofChars_append, Bytes.ofChars_append, Bytes.ofChars_cons, Bytes.ofChars_cons,
      List.append_assoc]
    rfl
  rw [prettyTexts, List.map_map, List.map_map,
    ofChars_eq_commas rfl (fun _ => rfl) (fun _ _ _ => rfl) ms]
  exact congrArg commas (List.map_congr_left fun m _ => hmember m)

theorem prettyBytes_list (depth : Nat) (v : Value) (vs : List Value) :
    (list (v :: vs)).prettyBytes depth = Byte.openBracket ::
      (commas (((v :: vs).map (prettyBytes (depth + 1))).map (lineBytes (depth + 1) ++ ·)) ++
        lineBytes depth ++ [Byte.closeBracket]) := by
  rw [← ofChars_prettyItems, prettyBytes, pretty, Bytes.ofChars_append, Bytes.ofChars_append,
    Bytes.ofChars_cons]
  · rfl
  · simp

theorem prettyBytes_object (depth : Nat) (m : String × Value) (ms : List (String × Value)) :
    (object (m :: ms)).prettyBytes depth = Byte.openBrace ::
      (commas (((prettyTexts (depth + 1) (m :: ms)).map (memberBytes [0x20])).map
        (lineBytes (depth + 1) ++ ·)) ++ lineBytes depth ++ [Byte.closeBrace]) := by
  rw [← ofChars_prettyMembers, prettyBytes, pretty, Bytes.ofChars_append, Bytes.ofChars_append,
    Bytes.ofChars_cons]
  · rfl
  · simp

theorem listText_prettyBytes (depth : Nat) (items : List Value) :
    ListText (items.map (prettyBytes (depth + 1))) ((list items).prettyBytes depth) := by
  cases items with
  | nil => exact listText_commas Blanks.nil Blanks.nil
  | cons v vs =>
    rw [prettyBytes_list]
    exact listText_commas (blanks_lineBytes _) (blanks_lineBytes _)

theorem objectText_prettyBytes (depth : Nat) (members : List (String × Value)) :
    ObjectText KeyText (prettyTexts (depth + 1) members) ((object members).prettyBytes depth) := by
  cases members with
  | nil => exact objectText_commas Blanks.nil Blanks.nil Blanks.nil
  | cons m ms =>
    rw [prettyBytes_object]
    exact objectText_commas (blanks_lineBytes _) (blanks_lineBytes _) blanks_gap

mutual

/-- **What is written line by line is a text of the value.** -/
theorem hasText_prettyBytes : (v : Value) → (depth : Nat) → v.HasText (v.prettyBytes depth)
  | null, _ => .null
  | flag true, _ => .true
  | flag false, _ => .false
  | number _, _ => rfl
  | text s, _ => Literal.literalText_write s
  | list items, depth =>
    ⟨_, listText_prettyBytes depth items, itemsHaveTexts_prettyBytes items (depth + 1)⟩
  | object members, depth =>
    ⟨_, objectText_prettyBytes depth members, membersHaveTexts_prettyBytes members (depth + 1)⟩

theorem itemsHaveTexts_prettyBytes : (vs : List Value) → (depth : Nat) →
    ItemsHaveTexts vs (vs.map (prettyBytes depth))
  | [], _ => trivial
  | v :: vs, depth => ⟨v.hasText_prettyBytes depth, itemsHaveTexts_prettyBytes vs depth⟩

theorem membersHaveTexts_prettyBytes : (ms : List (String × Value)) → (depth : Nat) →
    MembersHaveTexts ms (prettyTexts depth ms)
  | [], _ => trivial
  | (_, v) :: ms, depth =>
    ⟨⟨rfl, v.hasText_prettyBytes depth⟩, membersHaveTexts_prettyBytes ms depth⟩

end

/-! ## Characters -/

mutual

/-- **Nothing below the blank is written.** -/
theorem le_of_mem_compact : (v : Value) → ∀ c ∈ v.compact, 0x20 ≤ c.toNat
  | list items, c, hc => by
    simp only [compact, List.mem_append, List.mem_cons, List.not_mem_nil, or_false] at hc
    rcases hc with (rfl | hc) | rfl
    · decide
    · exact le_of_mem_compactItems items c hc
    · decide
  | object members, c, hc => by
    simp only [compact, List.mem_append, List.mem_cons, List.not_mem_nil, or_false] at hc
    rcases hc with (rfl | hc) | rfl
    · decide
    · exact le_of_mem_compactMembers members c hc
    · decide
  | null, c, hc => by
    have hall : "null".toList.all (0x20 ≤ ·.toNat) = true := rfl
    exact of_decide_eq_true (List.all_eq_true.mp hall c hc)
  | flag b, c, hc => by
    have hall : (if b then "true" else "false").toList.all (0x20 ≤ ·.toNat) = true := by
      cases b <;> rfl
    exact of_decide_eq_true (List.all_eq_true.mp hall c hc)
  | number n, c, hc => by
    have hdigit : c.isDigit = true := Nat.isDigit_of_mem_toDigits (by decide) (by decide) hc
    exact Nat.le_trans (by decide) (Char.isDigit_iff_toNat.mp hdigit).1
  | text s, c, hc => Literal.le_of_mem_write hc

theorem le_of_mem_compactItems : (vs : List Value) → ∀ c ∈ compactItems vs, 0x20 ≤ c.toNat
  | [], c, hc => absurd hc List.not_mem_nil
  | [v], c, hc => le_of_mem_compact v c hc
  | v :: v' :: vs, c, hc => by
    simp only [compactItems, List.mem_append, List.mem_cons] at hc
    rcases hc with hc | rfl | hc
    · exact le_of_mem_compact v c hc
    · decide
    · exact le_of_mem_compactItems (v' :: vs) c hc

theorem le_of_mem_compactMembers : (ms : List (String × Value)) →
    ∀ c ∈ compactMembers ms, 0x20 ≤ c.toNat
  | [], c, hc => absurd hc List.not_mem_nil
  | [(k, v)], c, hc => by
    simp only [compactMembers, List.mem_append, List.mem_cons] at hc
    rcases hc with hc | rfl | hc
    · exact Literal.le_of_mem_write hc
    · decide
    · exact le_of_mem_compact v c hc
  | (k, v) :: m :: ms, c, hc => by
    simp only [compactMembers, List.mem_append, List.mem_cons] at hc
    rcases hc with (hc | rfl | hc) | rfl | hc
    · exact Literal.le_of_mem_write hc
    · decide
    · exact le_of_mem_compact v c hc
    · decide
    · exact le_of_mem_compactMembers (m :: ms) c hc

end

theorem le_of_mem_bytes {v : Value} {b : UInt8} (hb : b ∈ v.bytes) : 0x20 ≤ b := by
  obtain ⟨c, hc, hbc⟩ := List.mem_flatMap.mp hb
  have h20 := le_of_mem_compact v c hc
  rw [UInt8.le_iff_toNat_le]
  show 0x20 ≤ b.toNat
  by_cases hascii : c.toNat < 0x80
  · rw [Bytes.utf8EncodeChar_of_lt hascii, List.mem_singleton] at hbc
    rw [hbc, UInt8.toNat_ofNat']
    omega
  · have h80 := Bytes.le_of_mem_utf8EncodeChar (Nat.not_lt.mp hascii) hbc
    omega

end Value

end ProtectionDomain.Json
