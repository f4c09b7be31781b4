/-!
# UTF-8

Documents are lists of bytes.

* `Bytes.ofChars`, `Bytes.ofString`: the bytes of a text;
* `Bytes.nextChar?`: the character that a list of bytes begins with, and the bytes after it;
* `nextChar?_append`, `eq_append_of_nextChar?`: the second undoes the first, and accepts nothing
  else;
* `ofChars_injective`, `ofString_inj`: texts with the same bytes are the same;
* `utf8EncodeChar_of_lt`, `le_of_mem_utf8EncodeChar`: ASCII characters are single bytes, all others
  stay clear of these.
-/

namespace ProtectionDomain

/-- A document before anything is known of it. -/
abbrev Bytes := List UInt8

namespace Bytes

/-- The bytes of a list of characters. -/
def ofChars (cs : List Char) : Bytes := cs.flatMap String.utf8EncodeChar

/-- The bytes of a text. -/
def ofString (s : String) : Bytes := ofChars s.toList

/-- The character at the front, if the bytes begin with one, and what follows it. No character
takes more than four bytes. -/
def nextChar? (bs : Bytes) : Option (Char × Bytes) :=
  ((bs.take 4).toByteArray.utf8DecodeChar? 0).map fun c => (c, bs.drop c.utf8Size)

@[simp] theorem ofChars_nil : ofChars [] = [] := rfl

@[simp] theorem ofChars_cons (c : Char) (cs : List Char) :
    ofChars (c :: cs) = String.utf8EncodeChar c ++ ofChars cs := rfl

@[simp] theorem ofChars_append (cs ds : List Char) :
    ofChars (cs ++ ds) = ofChars cs ++ ofChars ds := by
  simp [ofChars]

@[simp] theorem ofString_ofList (cs : List Char) : ofString (String.ofList cs) = ofChars cs := by
  rw [ofString, String.toList_ofList]

/-- A character written in front of any bytes is read back. -/
theorem nextChar?_append (c : Char) (rest : Bytes) :
    nextChar? (String.utf8EncodeChar c ++ rest) = some (c, rest) := by
  have hlen : (String.utf8EncodeChar c).length = c.utf8Size := String.length_utf8EncodeChar c
  have htake : (String.utf8EncodeChar c ++ rest).take 4 =
      String.utf8EncodeChar c ++ rest.take (4 - c.utf8Size) := by
    rw [List.take_append, hlen, List.take_of_length_le (by have := c.utf8Size_le_four; omega)]
  have hdrop : (String.utf8EncodeChar c ++ rest).drop c.utf8Size = rest := by
    rw [← hlen, List.drop_left]
  rw [nextChar?, htake, List.toByteArray_append, ByteArray.utf8DecodeChar?_utf8EncodeChar_append,
    Option.map_some, hdrop]

theorem eq_append_of_nextChar? {bs rest : Bytes} {c : Char} (h : nextChar? bs = some (c, rest)) :
    bs = String.utf8EncodeChar c ++ rest := by
  obtain ⟨d, hd, hrest⟩ := Option.map_eq_some_iff.mp h
  obtain ⟨rfl, rfl⟩ := Prod.mk.inj hrest
  have hext := congrArg (·.data.toList)
    (String.toByteArray_utf8EncodeChar_of_utf8DecodeChar?_eq_some hd)
  have hmin : min d.utf8Size 4 = d.utf8Size := Nat.min_eq_left d.utf8Size_le_four
  simp only [List.data_toByteArray, ByteArray.data_extract, Array.toList_extract,
    List.extract_eq_take_drop, List.drop_zero, Nat.sub_zero, List.take_take, hmin] at hext
  rw [hext, List.take_append_drop]

theorem ofChars_injective : Function.Injective ofChars := by
  intro cs
  induction cs with
  | nil =>
    intro ds h
    cases ds with
    | nil => rfl
    | cons d ds =>
      exact absurd (List.append_eq_nil_iff.mp h.symm).1 String.utf8EncodeChar_ne_nil
  | cons c cs ih =>
    intro ds h
    cases ds with
    | nil => exact absurd (List.append_eq_nil_iff.mp h).1 String.utf8EncodeChar_ne_nil
    | cons d ds =>
      have hnext : some (c, ofChars cs) = some (d, ofChars ds) := by
        rw [← nextChar?_append c, ← nextChar?_append d, ← ofChars_cons, h, ofChars_cons]
      obtain ⟨rfl, htail⟩ := Prod.mk.inj (Option.some.inj hnext)
      rw [ih htail]

theorem ofString_inj {s t : String} : ofString s = ofString t ↔ s = t := by
  rw [ofString, ofString, ofChars_injective.eq_iff, String.toList_inj]

theorem utf8EncodeChar_of_lt {c : Char} (h : c.toNat < 0x80) :
    String.utf8EncodeChar c = [UInt8.ofNat c.toNat] :=
  if_pos (Nat.le_of_lt_succ h)

theorem le_of_mem_utf8EncodeChar {c : Char} {b : UInt8} (h : 0x80 ≤ c.toNat)
    (hb : b ∈ String.utf8EncodeChar c) : 0x80 ≤ b.toNat := by
  have hc : ¬ c.val.toNat ≤ 0x7F := Nat.not_le.mpr h
  simp only [String.utf8EncodeChar, hc, if_false] at hb
  split at hb
  · simp only [List.mem_cons, List.not_mem_nil, or_false] at hb
    rcases hb with rfl | rfl <;> rw [UInt8.toNat_ofNat'] <;> omega
  · split at hb
    · simp only [List.mem_cons, List.not_mem_nil, or_false] at hb
      rcases hb with rfl | rfl | rfl <;> rw [UInt8.toNat_ofNat'] <;> omega
    · simp only [List.mem_cons, List.not_mem_nil, or_false] at hb
      rcases hb with rfl | rfl | rfl | rfl <;> rw [UInt8.toNat_ofNat'] <;> omega

end Bytes

end ProtectionDomain
