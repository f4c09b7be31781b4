import ProtectionDomain.Proofs.Json.Quoted
import ProtectionDomain.Proofs.Json.Trim
import ProtectionDomain.Proofs.Json.Value

/-!
# Documents without their layout

Blanks between the parts of a document are layout. The same bytes inside a literal belong to the
text that it spells. One pass over a document that follows its quotes and backslashes tells the two
apart.

* `Zone`, `Zone.next`: where a byte stands, and where the byte after it stands;
* `squeeze`, `withoutLayout`: a document without the blanks that stand outside of literals;
* `Squeezes`: what a part of a document becomes, and where it leads; `Squeezes.append`: parts one
  after the other;
* `Squeezes.literal`: literals are left as they are; `Squeezes.commas`: items one by one;
* **`Value.withoutLayout_prettyBytes`**: the text with one item or member a line is, apart from its
  layout, the text without blanks.
-/

namespace ProtectionDomain.Json

/-! ## The pass -/

/-- Where a byte of a document stands. -/
inductive Zone
  | layout
  | literal
  /-- Right after a backslash in a literal. -/
  | escape
  deriving DecidableEq

/-- Where the byte after a byte stands. -/
def Zone.next : Zone → UInt8 → Zone
  | layout, b => if b = Byte.quote then literal else layout
  | literal, b => if b = Byte.quote then layout else if b = Byte.backslash then escape else literal
  | escape, _ => literal

/-- Where the bytes of a document lead. -/
def Zone.after (zone : Zone) (bs : Bytes) : Zone := bs.foldl Zone.next zone

/-- The bytes without the blanks that stand outside of literals. -/
def squeeze : Zone → Bytes → Bytes
  | _, [] => []
  | zone, b :: bs =>
    if zone = .layout ∧ Byte.isBlank b = true then squeeze (zone.next b) bs
    else b :: squeeze (zone.next b) bs

/-- A document without the blanks that stand outside of its literals. -/
def withoutLayout (document : Bytes) : Bytes := squeeze .layout document

variable {zone zone' zone'' : Zone} {s s' t t' u u' : Bytes}

-- what looks like layout in a literal is none, also behind an escaped quote
example : withoutLayout (Bytes.ofString "[ \"a \\\" b\" ,\n 1 ]") =
    Bytes.ofString "[\"a \\\" b\",1]" := by decide

theorem squeeze_append (zone : Zone) (s t : Bytes) :
    squeeze zone (s ++ t) = squeeze zone s ++ squeeze (zone.after s) t := by
  induction s generalizing zone with
  | nil => rfl
  | cons b s ih =>
    rw [List.cons_append, squeeze, squeeze, ih]
    split <;> rfl

/-! ## Parts of documents -/

/-- What the bytes of a part become, and where they lead. -/
structure Squeezes (zone : Zone) (t u : Bytes) (zone' : Zone) : Prop where
  squeeze_eq : squeeze zone t = u
  after_eq : zone.after t = zone'

namespace Squeezes

theorem nil (zone : Zone) : Squeezes zone [] [] zone := ⟨rfl, rfl⟩

theorem append (h : Squeezes zone t u zone') (h' : Squeezes zone' t' u' zone'') :
    Squeezes zone (t ++ t') (u ++ u') zone'' where
  squeeze_eq := by rw [squeeze_append, h.squeeze_eq, h.after_eq, h'.squeeze_eq]
  after_eq := by
    rw [← h'.after_eq, ← h.after_eq]
    exact List.foldl_append

theorem cons {b : UInt8} (hb : ¬ (zone = .layout ∧ Byte.isBlank b = true))
    (h : Squeezes (zone.next b) t u zone') : Squeezes zone (b :: t) (b :: u) zone' where
  squeeze_eq := by rw [squeeze, if_neg hb, h.squeeze_eq]
  after_eq := h.after_eq

theorem cons_literal {b : UInt8} (h : Squeezes (Zone.literal.next b) t u zone') :
    Squeezes .literal (b :: t) (b :: u) zone' := h.cons fun hzone => nomatch hzone.1

theorem blanks (h : Blanks t) : Squeezes .layout t [] .layout := by
  induction t with
  | nil => exact nil .layout
  | cons b t ih =>
    have hb : Byte.isBlank b = true := h b List.mem_cons_self
    have hnext : Zone.layout.next b = .layout := if_neg (by rintro rfl; contradiction)
    obtain ⟨hsqueeze, hafter⟩ := ih fun c hc => h c (List.mem_cons_of_mem b hc)
    refine ⟨?_, ?_⟩
    · rw [squeeze, if_pos ⟨rfl, hb⟩, hnext, hsqueeze]
    · rw [Zone.after, List.foldl_cons, hnext]
      exact hafter

theorem sign {b : UInt8} (hblank : Byte.isBlank b = false) (hquote : b ≠ Byte.quote)
    (h : Squeezes .layout t u zone) : Squeezes .layout (b :: t) (b :: u) zone := by
  have hnext : Zone.layout.next b = .layout := if_neg hquote
  refine cons (by simp [hblank]) ?_
  rw [hnext]
  exact h

theorem word (h : IsWord t) : Squeezes .layout t t .layout := by
  induction t with
  | nil => exact nil .layout
  | cons b t ih =>
    obtain ⟨hblank, hmark⟩ := isWord_eq_true.mp (h b List.mem_cons_self)
    refine sign hblank (by rintro rfl; contradiction) ?_
    exact ih fun c hc => h c (List.mem_cons_of_mem b hc)

/-! ## Literals -/

theorem body (h : Literal.QuotedBody t) : Squeezes .literal t t .literal := by
  induction h with
  | nil => exact nil .literal
  | byte hquote hslash _ ih =>
    refine cons_literal ?_
    rw [Zone.next, if_neg hquote, if_neg hslash]
    exact ih
  | escape _ ih => exact cons_literal (cons (fun hzone => nomatch hzone.1) ih)

/-- **A literal stays as it is**, and the bytes after it are layout again. -/
theorem literal (h : Literal.Quoted t) : Squeezes .layout t t .layout := by
  obtain ⟨r, rfl, hr⟩ := h
  refine cons (fun hblank => nomatch hblank.2) ?_
  exact (body hr).append (cons_literal (nil .layout))

theorem write (s : String) :
    Squeezes .layout (Bytes.ofChars (Literal.write s)) (Bytes.ofChars (Literal.write s)) .layout :=
  literal (Literal.literalText_write s).form.quoted

/-! ## Rows -/

theorem lead {w : Bytes} (hw : Blanks w) (h : Squeezes .layout t u zone) :
    Squeezes .layout (w ++ t) u zone := (blanks hw).append h

/-- Items one by one, each behind blanks of its own. -/
theorem commas {w : Bytes} (hw : Blanks w) {ts us : List Bytes}
    (h : List.Forall₂ (Squeezes .layout · · .layout) ts us) :
    Squeezes .layout (commas (ts.map (w ++ ·))) (commas us) .layout := by
  have htail : ∀ {ts us : List Bytes}, List.Forall₂ (Squeezes .layout · · .layout) ts us →
      Squeezes .layout ((ts.map (w ++ ·)).flatMap (Byte.comma :: ·))
        (us.flatMap (Byte.comma :: ·)) .layout := by
    intro ts us h
    induction h with
    | nil => exact nil .layout
    | cons ht _ ih => exact (sign rfl (by decide) (lead hw ht)).append ih
  cases h with
  | nil => exact nil .layout
  | cons ht h => exact (lead hw ht).append (htail h)

theorem enclosed {a b : UInt8} {w : Bytes} (ha : Byte.isBlank a = false ∧ a ≠ Byte.quote)
    (hb : Byte.isBlank b = false ∧ b ≠ Byte.quote) (hw : Blanks w)
    (h : Squeezes .layout t u .layout) :
    Squeezes .layout (a :: (t ++ w ++ [b])) (a :: (u ++ [b])) .layout := by
  have hclose : Squeezes .layout (w ++ [b]) [b] .layout :=
    lead hw (sign hb.1 hb.2 (nil .layout))
  rw [List.append_assoc]
  exact sign ha.1 ha.2 (h.append hclose)

end Squeezes

/-! ## Values -/

namespace Value

theorem squeezes_memberBytes {w : Bytes} (hw : Blanks w) {m m' : String × Bytes}
    (hkey : m.1 = m'.1) (h : Squeezes .layout m.2 m'.2 .layout) :
    Squeezes .layout (memberBytes w m) (memberBytes [] m') .layout := by
  rw [memberBytes, memberBytes, hkey]
  exact (Squeezes.write m'.1).append (.sign rfl (by decide) (.lead hw h))

mutual

/-- Apart from its layout, what is written line by line is what is written without blanks. -/
theorem squeezes_prettyBytes : (v : Value) → (depth : Nat) →
    Squeezes .layout (v.prettyBytes depth) v.bytes .layout
  | null, _ => .word (show IsWord null.bytes by decide)
  | flag true, _ => .word (show IsWord (flag true).bytes by decide)
  | flag false, _ => .word (show IsWord (flag false).bytes by decide)
  | number n, _ => .word (Numeral.digits_digitsOf n).isWord
  | text s, _ => .write s
  | list [], _ => .enclosed ⟨rfl, by decide⟩ ⟨rfl, by decide⟩ Blanks.nil (.nil .layout)
  | list (v :: vs), depth => by
    rw [prettyBytes_list, bytes_list]
    exact .enclosed ⟨rfl, by decide⟩ ⟨rfl, by decide⟩ (blanks_lineBytes depth)
      (.commas (blanks_lineBytes _) (squeezes_prettyItems (v :: vs) (depth + 1)))
  | object [], _ => .enclosed ⟨rfl, by decide⟩ ⟨rfl, by decide⟩ Blanks.nil (.nil .layout)
  | object (m :: ms), depth => by
    rw [prettyBytes_object, bytes_object]
    exact .enclosed ⟨rfl, by decide⟩ ⟨rfl, by decide⟩ (blanks_lineBytes depth)
      (.commas (blanks_lineBytes _) (squeezes_prettyMembers (m :: ms) (depth + 1)))

theorem squeezes_prettyItems : (vs : List Value) → (depth : Nat) →
    List.Forall₂ (Squeezes .layout · · .layout) (vs.map (prettyBytes depth)) (vs.map bytes)
  | [], _ => .nil
  | v :: vs, depth => .cons (v.squeezes_prettyBytes depth) (squeezes_prettyItems vs depth)

theorem squeezes_prettyMembers : (ms : List (String × Value)) → (depth : Nat) →
    List.Forall₂ (Squeezes .layout · · .layout)
      ((prettyTexts depth ms).map (memberBytes [0x20])) ((texts ms).map (memberBytes []))
  | [], _ => .nil
  | (_, v) :: ms, depth => .cons
      (squeezes_memberBytes blanks_gap rfl (v.squeezes_prettyBytes depth))
      (squeezes_prettyMembers ms depth)

end

/-- **Two texts of a value differ in their layout only.** -/
theorem withoutLayout_prettyBytes (v : Value) (depth : Nat) :
    withoutLayout (v.prettyBytes depth) = v.bytes := (v.squeezes_prettyBytes depth).squeeze_eq

end Value

end ProtectionDomain.Json
