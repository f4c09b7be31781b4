import ProtectionDomain.Proofs.Json.Decode
import ProtectionDomain.Proofs.Json.Trim
import ProtectionDomain.Proofs.Json.Valid

/-!
# Documents are read in one way only

A grammar with a reader has no two readings of one text. What the bytes of an object or a list are
divided into is therefore settled before any shape is looked at.

* `Reads.unique`: a text with a reader has one value, and one place to end;
* `readRaw`: a value of any form, as its own text; `WellFormed.cut`: where a value ends;
* `LiteralText.unique`, `ListText.unique`, `ObjectText.unique`: what literals, lists and objects are
  made of;
* `MemberText.cut`, `Row.cut`: up to its value a member is read in one way;
* `Shape.denotes_unique`, `Fields.named_unique`: what texts stand for, and what members say;
* `recordText_object_iff`, `Fields.text_object`, `Fields.text_list`, `Cases.text_content`: what
  records and cases make of given members and items;
* `Shape.decode_iff_trim`, `Shape.decode_between`, `Shape.denotes_of_decode`: the same for whole
  documents.
-/

namespace ProtectionDomain.Json

/-! ## Readers are functions -/

/-- A text with a reader has one value, and one place to end. -/
theorem Reads.unique {α : Type} {read : Reader α} {Denotes : Bytes → α → Prop}
    (h : Reads read Denotes) {w w' t t' rest rest' : Bytes} {v v' : α} (hw : Blanks w)
    (hw' : Blanks w') (ht : Denotes t v) (ht' : Denotes t' v') (hrest : Stops rest)
    (hrest' : Stops rest') (heq : w ++ (t ++ rest) = w' ++ (t' ++ rest')) :
    v = v' ∧ rest = rest' := by
  have hread := h.complete hw ht hrest
  rw [heq, h.complete hw' ht' hrest', Except.ok.injEq, Prod.mk.injEq] at hread
  exact ⟨hread.1.symm, hread.2.symm⟩

/-- A value of any form, as its own text. -/
def readRaw : Reader Bytes := fun bs =>
  (skipValue bs).map fun rest =>
    ((skipBlanks bs).take ((skipBlanks bs).length - rest.length), rest)

/-- The text of a value of any form. -/
def RawText (t u : Bytes) : Prop := WellFormed t ∧ u = t

theorem WellFormed.skipBlanks {t : Bytes} (h : WellFormed t) {w : Bytes} (hw : Blanks w)
    (rest : Bytes) : skipBlanks (w ++ (t ++ rest)) = t ++ rest := by
  obtain ⟨b, t', rfl, hblank, -⟩ := h.solid
  rw [List.cons_append, skipBlanks_append_cons hw hblank]

theorem readRaw_append {t w rest : Bytes} (ht : WellFormed t) (hw : Blanks w)
    (hrest : ∀ x, Numeral.NumeralText t x → Stops rest) :
    readRaw (w ++ (t ++ rest)) = .ok (t, rest) := by
  have hskip : skipValue (w ++ (t ++ rest)) = .ok rest :=
    skipNested_complete ht (by simp; omega) hw hrest
  rw [readRaw, hskip, ht.skipBlanks hw]
  show Except.ok ((t ++ rest).take ((t ++ rest).length - rest.length), rest) = _
  rw [List.length_append, Nat.add_sub_cancel, List.take_left]

theorem reads_readRaw : Reads readRaw RawText where
  sound {bs rest u} h := by
    obtain ⟨rest', hskip, hpair⟩ := map_eq_ok.mp h
    obtain ⟨rfl, rfl⟩ := Prod.mk.inj hpair
    obtain ⟨w, t, rfl, hw, ht⟩ := skipNested_sound hskip
    refine ⟨w, t, rfl, hw, ht, ?_⟩
    rw [ht.skipBlanks hw, List.length_append, Nat.add_sub_cancel, List.take_left]
  complete {w t rest u} hw ht hrest := by
    obtain ⟨ht, rfl⟩ := ht
    exact readRaw_append ht hw fun _ _ => hrest
  solid ht := ht.1.solid

/-! ## Values, lists and objects -/

/-- A value is cut off in one way, if it is no numeral that goes on. -/
theorem WellFormed.cut {w w' t t' rest rest' : Bytes} (ht : WellFormed t) (ht' : WellFormed t')
    (hw : Blanks w) (hw' : Blanks w') (hrest : ∀ x, Numeral.NumeralText t x → Stops rest)
    (hrest' : ∀ x, Numeral.NumeralText t' x → Stops rest')
    (heq : w ++ (t ++ rest) = w' ++ (t' ++ rest')) : t = t' ∧ rest = rest' := by
  have hread := readRaw_append ht hw hrest
  rw [heq, readRaw_append ht' hw' hrest', Except.ok.injEq, Prod.mk.injEq] at hread
  exact ⟨hread.1.symm, hread.2.symm⟩

theorem Literal.LiteralText.unique {t : Bytes} {s s' : String} (h : LiteralText t s)
    (h' : LiteralText t s') : s = s' :=
  ((reads_readTextFor .text).unique Blanks.nil Blanks.nil h h' Stops.nil Stops.nil rfl).1

theorem listOf_raw {items : List Bytes} {t : Bytes} (h : ListText items t)
    (hall : ∀ u ∈ items, WellFormed u) : ListOf RawText t items := by
  refine ⟨items, h, ?_⟩
  rw [List.forall₂_same]
  exact fun u hu => ⟨hall u hu, rfl⟩

theorem ListText.unique {items items' : List Bytes} {t : Bytes} (h : ListText items t)
    (h' : ListText items' t) (hall : ∀ u ∈ items, WellFormed u)
    (hall' : ∀ u ∈ items', WellFormed u) : items = items' :=
  ((reads_readList reads_readRaw).unique Blanks.nil Blanks.nil (listOf_raw h hall)
    (listOf_raw h' hall') Stops.nil Stops.nil rfl).1

/-- One more member among those of an object. -/
def AddsRaw (key : String) (t : Bytes) (known known' : List (String × Bytes)) : Prop :=
  WellFormed t ∧ known' = known ++ [(key, t)]

/-- The reader of a value as the text of one more member. -/
def readMember (key : String) (known : List (String × Bytes)) :
    Except Fault (Reader (List (String × Bytes))) :=
  .ok (readRaw.map fun t => known ++ [(key, t)])

theorem reads_readMember (key : String) (known : List (String × Bytes))
    (read : Reader (List (String × Bytes))) (h : readMember key known = .ok read) :
    Reads read fun t known' => AddsRaw key t known known' := by
  cases h
  refine (reads_readRaw.map _).congr fun t known' => ?_
  constructor
  · rintro ⟨_, ⟨ht, rfl⟩, rfl⟩
    exact ⟨ht, rfl⟩
  · rintro ⟨ht, rfl⟩
    exact ⟨t, ⟨ht, rfl⟩, rfl⟩

theorem chain_raw {members : List (String × Bytes)} (hall : ∀ m ∈ members, WellFormed m.2)
    (known : List (String × Bytes)) : Chain AddsRaw members known (known ++ members) := by
  induction members generalizing known with
  | nil => exact chain_nil_iff.mpr (List.append_nil known).symm
  | cons m members ih =>
    rw [List.forall_mem_cons] at hall
    have htail := ih hall.2 (known ++ [m])
    rw [List.append_assoc] at htail
    exact .cons ⟨hall.1, rfl⟩ htail

theorem ObjectText.unique {members members' : List (String × Bytes)} {t : Bytes}
    (h : ObjectText KeyText members t) (h' : ObjectText KeyText members' t)
    (hall : ∀ m ∈ members, WellFormed m.2) (hall' : ∀ m ∈ members', WellFormed m.2) :
    members = members' := by
  obtain ⟨r, rfl, hrow⟩ := h
  obtain ⟨r', hr, hrow'⟩ := h'
  obtain rfl := List.append_cancel_right (List.cons.inj hr).2
  have hbound : r.length < (r ++ [Byte.closeBrace]).length := by simp
  have hread := readMembers_complete reads_readMember (fun _ _ _ _ _ => ⟨_, rfl⟩)
    (chain_raw hall []) hrow hbound []
  have hread' := readMembers_complete reads_readMember (fun _ _ _ _ _ => ⟨_, rfl⟩)
    (chain_raw hall' []) hrow' hbound []
  rw [hread, Except.ok.injEq, Prod.mk.injEq] at hread'
  exact hread'.1

theorem ObjectText.not_listText {κ : Type} {Key : κ → Bytes → Prop} {members : List (κ × Bytes)}
    {items : List Bytes} {t : Bytes} (h : ObjectText Key members t) : ¬ ListText items t := by
  rintro ⟨_, ht, -⟩
  obtain ⟨_, rfl, -⟩ := h
  exact absurd (List.cons.inj ht).1 (by decide)

theorem ObjectText.not_keyText {κ : Type} {Key : κ → Bytes → Prop} {members : List (κ × Bytes)}
    {name : String} {t : Bytes} (h : ObjectText Key members t) : ¬ KeyText name t := by
  rintro ⟨_, ht, -⟩
  obtain ⟨_, rfl, -⟩ := h
  exact absurd (List.cons.inj ht).1 (by decide)

/-! ## Members up to their values -/

section

variable {first : Bool} {w w' u u' r r' rest rest' t : Bytes} {m m' : String × Bytes}
  {key key' : String} {members : List (String × Bytes)}

theorem Lead.cut (hw : Lead first w) (hw' : Lead first w')
    (heq : w ++ Byte.quote :: rest = w' ++ Byte.quote :: rest') : rest = rest' := by
  have hstep : nextMember first (w ++ Byte.quote :: rest) = .ok (.item rest) :=
    nextMember_append hw
  rw [heq, nextMember_append hw', Except.ok.injEq, Step.item.injEq] at hstep
  exact hstep.symm

theorem Literal.BodyText.cut (hr : BodyText r key.toList) (hr' : BodyText r' key'.toList)
    (heq : r ++ Byte.quote :: rest = r' ++ Byte.quote :: rest') : key = key' ∧ rest = rest' := by
  have hread := read_complete hr rest
  rw [heq, read_complete hr' rest', Except.ok.injEq, Prod.mk.injEq] at hread
  exact ⟨hread.1.symm, hread.2.symm⟩

theorem Blanks.cut_colon (hw : Blanks w) (hw' : Blanks w')
    (heq : w ++ Byte.colon :: rest = w' ++ Byte.colon :: rest') : rest = rest' := by
  have hread := readColon_append hw rest
  rw [heq, readColon_append hw' rest', Except.ok.injEq] at hread
  exact hread.symm

/-- Up to its value a member is read in one way, whatever stands in the place of the value. -/
theorem MemberText.cut (hw : Lead first w) (hw' : Lead first w') (h : MemberText KeyText m u)
    (h' : MemberText KeyText m' u') (heq : w ++ (u ++ rest) = w' ++ (u' ++ rest')) :
    m.1 = m'.1 ∧
      ∃ v v', Blanks v ∧ Blanks v' ∧ v ++ (m.2 ++ rest) = v' ++ (m'.2 ++ rest') := by
  obtain ⟨⟨l, rfl, hl⟩, hcolon, hv⟩ := h
  obtain ⟨⟨l', rfl, hl'⟩, hcolon', hv'⟩ := h'
  simp only [List.append_assoc, List.cons_append, List.nil_append] at heq
  obtain ⟨hkey, hrest⟩ := hl.cut hl' (hw.cut hw' heq)
  exact ⟨hkey, _, _, hv, hv', hcolon.cut_colon hcolon' hrest⟩

theorem MemberText.quote_mem (h : MemberText KeyText m u) : Byte.quote ∈ u := by
  obtain ⟨⟨l, rfl, -⟩, -, -⟩ := h
  exact List.mem_append_left _ List.mem_cons_self

/-- Two rows of members with one text begin alike, up to the value of the first member. -/
theorem Row.cut {ms : List (String × Bytes)} (h : Row (MemberText KeyText) first (m :: ms) r)
    (h' : Row (MemberText KeyText) first members r) :
    ∃ m' ms' v v' s s', members = m' :: ms' ∧ m.1 = m'.1 ∧ Blanks v ∧ Blanks v' ∧
      Row (MemberText KeyText) false ms s ∧ Row (MemberText KeyText) false ms' s' ∧
      v ++ (m.2 ++ (s ++ [Byte.closeBrace])) = v' ++ (m'.2 ++ (s' ++ [Byte.closeBrace])) := by
  cases h with
  | @cons _ _ _ w u s hlead hmember hrow =>
    generalize htext : w ++ (u ++ s) = text at h'
    cases h' with
    | nil hblanks =>
      have hquote : Byte.quote ∈ text := by
        rw [← htext]
        exact List.mem_append_right w (List.mem_append_left s hmember.quote_mem)
      exact absurd (hblanks _ hquote) (by decide)
    | @cons _ m' ms' w' u' s' hlead' hmember' hrow' =>
      have hclosed : w ++ (u ++ (s ++ [Byte.closeBrace])) =
          w' ++ (u' ++ (s' ++ [Byte.closeBrace])) := by
        have happend := congrArg (· ++ [Byte.closeBrace]) htext
        simpa only [List.append_assoc] using happend
      obtain ⟨hkey, v, v', hv, hv', hvalues⟩ := hmember.cut hlead hlead' hmember' hclosed
      exact ⟨m', ms', v, v', s, s', rfl, hkey, hv, hv', hrow, hrow', hvalues⟩

theorem ObjectText.trimmed (h : ObjectText KeyText members t) : Trimmed t := by
  obtain ⟨r, rfl, -⟩ := h
  exact trimmed_of_ends rfl rfl

theorem ObjectText.unique_single (h : ObjectText KeyText [(key, u)] t)
    (h' : ObjectText KeyText [(key', u')] t) (hu : Trimmed u) (hu' : Trimmed u') :
    key = key' ∧ u = u' := by
  obtain ⟨r, rfl, hrow⟩ := h
  obtain ⟨r', heq, hrow'⟩ := h'
  obtain rfl := List.append_cancel_right (List.cons.inj heq).2
  obtain ⟨m, ms, v, v', s, s', hm, rfl, hv, hv', hs, hs', hvalues⟩ := hrow.cut hrow'
  obtain ⟨rfl, rfl⟩ := List.cons.inj hm
  cases hs with
  | nil hs =>
    cases hs' with
    | nil hs' =>
      simp only [← List.append_assoc] at hvalues
      have hsides := List.append_cancel_right hvalues
      simp only [List.append_assoc] at hsides
      exact ⟨rfl, hu.unique hu' hv hs hv' hs' hsides⟩

end

/-! ## Records and cases -/

/-- A text stands for one value of a shape. -/
theorem Shape.denotes_unique {s : Shape} {t : Bytes} {x y : s.Carrier} (hx : s.Denotes t x)
    (hy : s.Denotes t y) : x = y :=
  (s.reads.unique Blanks.nil Blanks.nil hx hy Stops.nil Stops.nil rfl).1

theorem Gives.unique {s : Shape} {members : List (String × Bytes)} {name : String}
    {x y : Option s.Carrier} (hx : Gives s.Denotes members name x)
    (hy : Gives s.Denotes members name y) : x = y := by
  cases x with
  | none =>
    cases y with
    | none => rfl
    | some y =>
      obtain ⟨u, hu, -⟩ := hy
      rw [show valuesOf name members = [] from hx] at hu
      contradiction
  | some x =>
    obtain ⟨t, ht, hx⟩ := hx
    cases y with
    | none =>
      rw [show valuesOf name members = [] from hy] at ht
      contradiction
    | some y =>
      obtain ⟨u, hu, hy⟩ := hy
      rw [ht, List.cons.injEq, and_iff_left rfl] at hu
      subst hu
      rw [Shape.denotes_unique hx hy]

theorem Fields.named_unique : (fs : Fields) → ∀ {members p q}, fs.Named members p →
    fs.Named members q → p = q
  | .nil, _, (), (), _, _ => rfl
  | .cons _ _ fs, _, (_, _), (_, _), hp, hq => by
    rw [hp.1.unique hq.1, fs.named_unique hp.2 hq.2]

/-- An object of values is a text of a record if and only if its members make one. -/
theorem recordText_object_iff {fs : Fields} {α : Type}
    {OfMembers OfElements : fs.Partial → α → Prop} {members : List (String × Bytes)} {t : Bytes}
    {v : α} (h : ObjectText KeyText members t) (hall : ∀ m ∈ members, WellFormed m.2) :
    RecordText fs.Named fs.Listed OfMembers OfElements t v ↔
      ∃ p, fs.Named members p ∧ OfMembers p v := by
  constructor
  · rintro (⟨htext, hnamed, hv⟩ | ⟨htext, -, -⟩)
    · obtain rfl := h.unique htext hall (fs.wellFormed_members fs.valid hnamed)
      exact ⟨_, hnamed, hv⟩
    · exact absurd htext h.not_listText
  · rintro ⟨p, hnamed, hv⟩
    exact .object h hnamed hv

theorem Fields.text_object {fs : Fields} {members : List (String × Bytes)} {t : Bytes}
    {v : fs.Carrier} (h : ObjectText KeyText members t) (hall : ∀ m ∈ members, WellFormed m.2) :
    fs.Text t v ↔ ∃ p, fs.Named members p ∧ fs.complete p = .ok v :=
  recordText_object_iff h hall

theorem Fields.text_list {fs : Fields} {items : List Bytes} {t : Bytes} {v : fs.Carrier}
    (h : ListText items t) (hall : ∀ u ∈ items, WellFormed u) :
    fs.Text t v ↔ ∃ p, fs.Listed items p ∧ fs.all? p = some v := by
  constructor
  · rintro (⟨htext, -, -⟩ | ⟨htext, hlisted, hv⟩)
    · exact absurd h htext.not_listText
    · obtain rfl := h.unique htext hall (fs.wellFormed_items fs.valid hlisted)
      exact ⟨_, hlisted, hv⟩
  · rintro ⟨p, hlisted, hv⟩
    exact .list h hlisted hv

theorem Cases.text_content {cs : Cases} {key : String} {u t : Bytes} {v : cs.Carrier}
    (h : ObjectText KeyText [(key, u)] t) (hu : Trimmed u) :
    (∃ name content, CaseText t name content ∧ cs.Holds name content v) ↔
      cs.Holds key (some u) v := by
  constructor
  · rintro ⟨name, content, hcase, hholds⟩
    cases hcase with
    | alone hkey => exact absurd hkey h.not_keyText
    | content htext =>
      have hu' := cs.wellFormed_content cs.valid hholds
      obtain ⟨rfl, rfl⟩ := h.unique_single htext hu hu'.trimmed
      exact hholds
  · exact fun hholds => ⟨key, some u, .content h, hholds⟩

/-! ## Documents -/

section

variable {s : Shape} {document w t w' : Bytes} {v : s.Carrier}

theorem Shape.decode_iff_trim : s.decode document = .ok v ↔ s.Denotes (trim document) v := by
  rw [Shape.decode_eq_ok]
  constructor
  · rintro ⟨w, t, w', rfl, hw, hw', ht⟩
    rwa [trim_append (s.wellFormed t v ht).trimmed hw hw']
  · intro h
    obtain ⟨w, w', hw, hw', heq⟩ := exists_eq_append_trim document
    exact ⟨w, trim document, w', heq, hw, hw', h⟩

theorem Shape.decode_between (hw : Blanks w) (hw' : Blanks w') (ht : Trimmed t) :
    s.decode (w ++ (t ++ w')) = .ok v ↔ s.Denotes t v := by
  rw [Shape.decode_iff_trim, trim_append ht hw hw']

theorem Shape.denotes_of_decode (ht : WellFormed t) (h : s.decode t = .ok v) : s.Denotes t v := by
  rwa [Shape.decode_iff_trim, ht.trimmed.trim_eq] at h

end

end ProtectionDomain.Json
