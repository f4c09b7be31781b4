import Mathlib.Data.List.TakeWhile
import ProtectionDomain.Json.Shape.Read

/-!
# Texts and their readers

A grammar says which texts stand for which values. A reader of it takes blanks and then such a
text from the front of a document.

* `pure_eq_ok`, `bind_eq_ok`, `map_eq_ok`: steps that succeed;
* `Blanks`, `skipBlanks_append`, `eq_append_of_skipBlanks`: the blanks in front of a token;
* `Stops`: no numeral goes on into these bytes;
* `Reads`: a reader takes exactly the texts of a grammar, each as its value;
* `Reads.map`: a function on what is read.
-/

namespace ProtectionDomain.Json

/-! ## Steps -/

theorem pure_eq_ok {ε α : Type} {x y : α} : (pure x : Except ε α) = .ok y ↔ x = y := by
  show Except.ok x = .ok y ↔ x = y
  rw [Except.ok.injEq]

theorem bind_eq_ok {ε α β : Type} {x : Except ε α} {f : α → Except ε β} {b : β} :
    x >>= f = .ok b ↔ ∃ a, x = .ok a ∧ f a = .ok b := by
  cases x with
  | error e => simp [bind, Except.bind]
  | ok a => simp [bind, Except.bind]

theorem map_eq_ok {ε α β : Type} {x : Except ε α} {f : α → β} {b : β} :
    x.map f = .ok b ↔ ∃ a, x = .ok a ∧ f a = b := by
  cases x <;> simp [Except.map]

/-! ## Blanks -/

/-- Nothing but blanks. -/
def Blanks (w : Bytes) : Prop := ∀ b ∈ w, Byte.isBlank b = true

-- the bytes of the text are looked at, not all bytes that there are
instance : DecidablePred Blanks := List.decidableBAll (Byte.isBlank · = true)

theorem Blanks.nil : Blanks [] := by simp [Blanks]

theorem Blanks.append {w w' : Bytes} (h : Blanks w) (h' : Blanks w') : Blanks (w ++ w') := by
  intro b hb
  rcases List.mem_append.mp hb with hb | hb
  · exact h b hb
  · exact h' b hb

theorem skipBlanks_append {w : Bytes} (h : Blanks w) (bs : Bytes) :
    skipBlanks (w ++ bs) = skipBlanks bs := by
  induction w with
  | nil => rfl
  | cons b w ih =>
    rw [List.cons_append, skipBlanks, List.dropWhile_cons_of_pos (h b List.mem_cons_self)]
    exact ih fun c hc => h c (List.mem_cons_of_mem b hc)

theorem skipBlanks_cons {b : UInt8} (h : Byte.isBlank b = false) (bs : Bytes) :
    skipBlanks (b :: bs) = b :: bs :=
  List.dropWhile_cons_of_neg (by simp [h])

theorem skipBlanks_eq_nil {bs : Bytes} : skipBlanks bs = [] ↔ Blanks bs :=
  List.dropWhile_eq_nil_iff

theorem skipBlanks_append_cons {w : Bytes} (h : Blanks w) {b : UInt8}
    (hb : Byte.isBlank b = false) (bs : Bytes) : skipBlanks (w ++ b :: bs) = b :: bs := by
  rw [skipBlanks_append h, skipBlanks_cons hb]

theorem eq_append_of_skipBlanks {bs : Bytes} {b : UInt8} {rest : Bytes}
    (h : skipBlanks bs = b :: rest) :
    ∃ w, bs = w ++ b :: rest ∧ Blanks w ∧ Byte.isBlank b = false := by
  refine ⟨bs.takeWhile Byte.isBlank, ?_, fun c hc => List.mem_takeWhile_imp hc, ?_⟩
  · rw [← h, skipBlanks, List.takeWhile_append_dropWhile]
  · have hhead := List.head?_dropWhile_not Byte.isBlank bs
    rw [show bs.dropWhile Byte.isBlank = b :: rest from h] at hhead
    simpa using hhead

/-! ## Readers -/

/-- A numeral would go on with this byte. -/
def extendsNumeral (b : UInt8) : Bool :=
  Byte.isDigit b || b == Byte.point || Numeral.isExponentSign b

/-- No numeral goes on into these bytes. -/
def Stops (bs : Bytes) : Prop := ∀ b ∈ bs.head?, extendsNumeral b = false

theorem Stops.nil : Stops [] := by simp [Stops]

theorem Stops.cons {b : UInt8} (h : extendsNumeral b = false) (bs : Bytes) : Stops (b :: bs) := by
  simpa [Stops] using h

theorem Stops.blanks {w bs : Bytes} (hw : Blanks w) (h : Stops bs) : Stops (w ++ bs) := by
  cases w with
  | nil => exact h
  | cons b w =>
    refine Stops.cons ?_ _
    have hb := hw b List.mem_cons_self
    simp only [Byte.isBlank, Bool.or_eq_true, beq_iff_eq] at hb
    rcases hb with ((rfl | rfl) | rfl) | rfl <;> rfl

/-- The text begins with a byte that is no blank and closes no list. -/
def Solid (t : Bytes) : Prop :=
  ∃ b rest, t = b :: rest ∧ Byte.isBlank b = false ∧ b ≠ Byte.closeBracket

/-- The reader takes blanks and then exactly the texts of a grammar, each as its value. -/
structure Reads {α : Type} (read : Reader α) (Denotes : Bytes → α → Prop) : Prop where
  sound {bs rest : Bytes} {v : α} : read bs = .ok (v, rest) →
    ∃ w t, bs = w ++ (t ++ rest) ∧ Blanks w ∧ Denotes t v
  complete {w t rest : Bytes} {v : α} : Blanks w → Denotes t v → Stops rest →
    read (w ++ (t ++ rest)) = .ok (v, rest)
  solid {t : Bytes} {v : α} : Denotes t v → Solid t

theorem Reads.map {α β : Type} {read : Reader α} {Denotes : Bytes → α → Prop}
    (h : Reads read Denotes) (f : α → β) :
    Reads (read.map f) fun t y => ∃ x, Denotes t x ∧ f x = y where
  sound hread := by
    obtain ⟨⟨x, rest⟩, hx, heq⟩ := map_eq_ok.mp hread
    obtain ⟨rfl, rfl⟩ := Prod.mk.inj heq
    obtain ⟨w, t, hbs, hw, ht⟩ := h.sound hx
    exact ⟨w, t, hbs, hw, x, ht, rfl⟩
  complete hw ht hrest := by
    obtain ⟨x, hx, rfl⟩ := ht
    rw [Reader.map, h.complete hw hx hrest]
    rfl
  solid ht := by
    obtain ⟨x, hx, -⟩ := ht
    exact h.solid hx

theorem Reads.congr {α : Type} {read : Reader α} {D E : Bytes → α → Prop} (h : Reads read D)
    (hiff : ∀ t v, D t v ↔ E t v) : Reads read E := by
  have heq : D = E := funext fun t => funext fun v => propext (hiff t v)
  exact heq ▸ h

end ProtectionDomain.Json
