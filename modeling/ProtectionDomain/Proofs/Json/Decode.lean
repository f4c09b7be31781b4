import ProtectionDomain.Proofs.Json.Grammar

/-!
# Reading exactly the texts of a shape

* `readFields_brace`, `readFields_bracket`, `readChoice_quote`, `readChoice_brace`: what follows the
  mark that a record or a choice begins with;
* `reads_readFields`, `reads_readChoice`: records and choices over the readers of their parts;
* `Fields.member_reads`, `Fields.elements_sound`, `Fields.elements_complete`: the fields of a record
  in an object and in a list;
* `Shape.reads`: a shape is read from its texts, each as its value;
* **`Shape.decode_eq_ok`**: a document is decoded if and only if it is such a text between blanks.
-/

namespace ProtectionDomain.Json

/-! ## Records -/

section Records

variable {σ α : Type} {expected : Expected} {unknown : σ}
  {member : String → σ → Except Fault (Reader σ)} {elements : Reader σ}
  {ofMembers ofElements : σ → Except Fault α} {Named : List (String × Bytes) → σ → Prop}
  {Listed : List Bytes → σ → Prop} {Adds : String → Bytes → σ → σ → Prop}

theorem readFields_brace {w bs rest : Bytes} {v : α} (hw : Blanks w) :
    readFields expected unknown member elements ofMembers ofElements (w ++ Byte.openBrace :: bs) =
        .ok (v, rest) ↔
      ∃ p, readMembers member bs true unknown bs = .ok (p, rest) ∧ ofMembers p = .ok v := by
  rw [readFields, skipBlanks_append_cons hw rfl]
  constructor
  · intro h
    obtain ⟨⟨p, rest'⟩, hread, hafter⟩ := bind_eq_ok.mp h
    obtain ⟨v', hv, hpure⟩ := bind_eq_ok.mp hafter
    simp only [pure_eq_ok, Prod.mk.injEq] at hpure
    obtain ⟨rfl, rfl⟩ := hpure
    exact ⟨p, hread, hv⟩
  · rintro ⟨p, hread, hv⟩
    simp only [if_true, hread, bind, Except.bind, hv]
    rfl

theorem readFields_bracket {w bs rest : Bytes} {v : α} (hw : Blanks w) :
    readFields expected unknown member elements ofMembers ofElements (w ++ Byte.openBracket :: bs) =
        .ok (v, rest) ↔
      ∃ p, elements bs = .ok (p, rest) ∧ ofElements p = .ok v := by
  have hbrace : Byte.openBracket ≠ Byte.openBrace := by decide
  rw [readFields, skipBlanks_append_cons hw rfl]
  simp only [hbrace, if_false, if_true]
  constructor
  · intro h
    obtain ⟨⟨p, rest'⟩, hread, hafter⟩ := bind_eq_ok.mp h
    obtain ⟨v', hv, hpure⟩ := bind_eq_ok.mp hafter
    simp only [pure_eq_ok, Prod.mk.injEq] at hpure
    obtain ⟨rfl, rfl⟩ := hpure
    exact ⟨p, hread, hv⟩
  · rintro ⟨p, hread, hv⟩
    simp only [hread, bind, Except.bind, hv]
    rfl

theorem exists_open_of_readFields {bs rest : Bytes} {v : α}
    (h : readFields expected unknown member elements ofMembers ofElements bs = .ok (v, rest)) :
    ∃ w r, Blanks w ∧ (bs = w ++ Byte.openBrace :: r ∨ bs = w ++ Byte.openBracket :: r) := by
  unfold readFields at h
  split at h
  · contradiction
  · next b bs' hblanks =>
    obtain ⟨w, rfl, hw, -⟩ := eq_append_of_skipBlanks hblanks
    split at h
    · next hbrace => exact ⟨w, bs', hw, Or.inl (by rw [hbrace])⟩
    split at h
    · next hbracket => exact ⟨w, bs', hw, Or.inr (by rw [hbracket])⟩
    · contradiction

section

variable (hreads : ∀ key p read, member key p = .ok read → Reads read fun t q => Adds key t p q)
  (hnamed : ∀ members p, Chain Adds members unknown p ↔ Named members p)

include hreads hnamed

theorem readFields_sound
    (hsound : ∀ bs p rest, elements bs = .ok (p, rest) →
      ∃ items r, bs = r ++ Byte.closeBracket :: rest ∧ Items true items r ∧ Listed items p)
    {bs rest : Bytes} {v : α}
    (h : readFields expected unknown member elements ofMembers ofElements bs = .ok (v, rest)) :
    ∃ w t, bs = w ++ (t ++ rest) ∧ Blanks w ∧
      RecordText Named Listed (fun p v => ofMembers p = .ok v) (fun p v => ofElements p = .ok v)
        t v := by
  obtain ⟨w, r, hw, rfl | rfl⟩ := exists_open_of_readFields h
  · obtain ⟨p, hread, hv⟩ := (readFields_brace hw).mp h
    obtain ⟨members, r, rfl, hrow, hchain⟩ := readMembers_sound hreads hread
    refine ⟨w, Byte.openBrace :: (r ++ [Byte.closeBrace]), ?_, hw,
      .object ⟨r, rfl, hrow⟩ ((hnamed members p).mp hchain) hv⟩
    simp
  · obtain ⟨p, hread, hv⟩ := (readFields_bracket hw).mp h
    obtain ⟨items, r, rfl, hrow, hlisted⟩ := hsound _ _ _ hread
    refine ⟨w, Byte.openBracket :: (r ++ [Byte.closeBracket]), ?_, hw,
      .list ⟨r, rfl, hrow⟩ hlisted hv⟩
    simp

theorem readFields_complete
    (hok : ∀ key t p q, Adds key t p q → ∃ read, member key p = .ok read)
    (hcomplete : ∀ items r p rest, Items true items r → Listed items p →
      elements (r ++ Byte.closeBracket :: rest) = .ok (p, rest))
    {w t rest : Bytes} {v : α} (hw : Blanks w)
    (ht : RecordText Named Listed (fun p v => ofMembers p = .ok v) (fun p v => ofElements p = .ok v)
      t v) :
    readFields expected unknown member elements ofMembers ofElements (w ++ (t ++ rest)) =
      .ok (v, rest) := by
  cases ht with
  | @object members _ p _ htext hgiven hv =>
    obtain ⟨r, rfl, hrow⟩ := htext
    have hread := readMembers_complete hreads hok ((hnamed members p).mpr hgiven) hrow
      (by simp : r.length < (r ++ Byte.closeBrace :: rest).length) rest
    simp only [List.cons_append, List.append_assoc, List.nil_append]
    exact (readFields_brace hw).mpr ⟨p, hread, hv⟩
  | @list _ _ p _ htext hlisted hv =>
    obtain ⟨r, rfl, hrow⟩ := htext
    simp only [List.cons_append, List.append_assoc, List.nil_append]
    exact (readFields_bracket hw).mpr ⟨p, hcomplete _ r _ rest hrow hlisted, hv⟩

/-- A record is read from an object or from a list. -/
theorem reads_readFields
    (hok : ∀ key t p q, Adds key t p q → ∃ read, member key p = .ok read)
    (hsound : ∀ bs p rest, elements bs = .ok (p, rest) →
      ∃ items r, bs = r ++ Byte.closeBracket :: rest ∧ Items true items r ∧ Listed items p)
    (hcomplete : ∀ items r p rest, Items true items r → Listed items p →
      elements (r ++ Byte.closeBracket :: rest) = .ok (p, rest)) :
    Reads (readFields expected unknown member elements ofMembers ofElements)
      (RecordText Named Listed (fun p v => ofMembers p = .ok v)
        fun p v => ofElements p = .ok v) where
  sound h := readFields_sound hreads hnamed hsound h
  complete hw ht _ := readFields_complete hreads hnamed hok hcomplete hw ht
  solid ht := by
    cases ht with
    | object htext _ _ =>
      obtain ⟨r, rfl, -⟩ := htext
      exact ⟨Byte.openBrace, _, rfl, rfl, by decide⟩
    | list htext _ _ =>
      obtain ⟨r, rfl, -⟩ := htext
      exact ⟨Byte.openBracket, _, rfl, rfl, by decide⟩

end

end Records

/-! ## Choices -/

section Choices

variable {α : Type} {names : List String} {alone : String → Option (Except Fault α)}
  {content : String → Option (Reader α)} {Holds : String → Option Bytes → α → Prop}

theorem closeChoice_eq_ok {bs rest : Bytes} :
    closeChoice bs = .ok rest ↔ ∃ w, bs = w ++ Byte.closeBrace :: rest ∧ Blanks w := by
  constructor
  · intro h
    unfold closeChoice at h
    split at h
    · contradiction
    · next b bs' hblanks =>
      obtain ⟨w, rfl, hw, -⟩ := eq_append_of_skipBlanks hblanks
      split at h
      · next hb =>
        cases h
        exact ⟨w, by rw [hb], hw⟩
      · contradiction
  · rintro ⟨w, rfl, hw⟩
    rw [closeChoice, skipBlanks_append_cons hw rfl]
    rfl

theorem objectText_singleton {name : String} {u t : Bytes} :
    ObjectText KeyText [(name, u)] t ↔ ∃ w l w₁ w₂ w₃,
      t = Byte.openBrace :: (w ++ Byte.quote :: (l ++ Byte.quote ::
        (w₁ ++ Byte.colon :: (w₂ ++ (u ++ (w₃ ++ [Byte.closeBrace])))))) ∧
      (Blanks w ∧ Blanks w₁ ∧ Blanks w₂ ∧ Blanks w₃) ∧ Literal.BodyText l name.toList := by
  constructor
  · rintro ⟨r, rfl, hrow⟩
    cases hrow with
    | cons hlead hmem hnil =>
      obtain ⟨⟨l, rfl, hl⟩, hw₁, hw₂⟩ := hmem
      cases hlead with
      | first hw =>
        cases hnil with
        | nil hw₃ =>
          refine ⟨_, l, _, _, _, ?_, ⟨hw, hw₁, hw₂, hw₃⟩, hl⟩
          simp
  · rintro ⟨w, l, w₁, w₂, w₃, rfl, ⟨hw, hw₁, hw₂, hw₃⟩, hl⟩
    have hmem : MemberText KeyText (name, u)
        (Byte.quote :: (l ++ [Byte.quote]) ++ (w₁ ++ Byte.colon :: (w₂ ++ u))) :=
      .mk ⟨l, rfl, hl⟩ hw₁ hw₂
    refine ⟨_, ?_, .cons (.first hw) hmem (.nil hw₃)⟩
    simp

theorem readChoice_quote {w bs rest : Bytes} {v : α} (hw : Blanks w) :
    readChoice names alone content (w ++ Byte.quote :: bs) = .ok (v, rest) ↔
      ∃ name, Literal.read bs = .ok (name, rest) ∧ alone name = some (.ok v) := by
  rw [readChoice, skipBlanks_append_cons hw rfl]
  constructor
  · intro h
    obtain ⟨⟨name, rest'⟩, hname, hafter⟩ := bind_eq_ok.mp h
    cases hcase : alone name with
    | none =>
      simp only [hcase] at hafter
      contradiction
    | some case =>
      simp only [hcase] at hafter
      obtain ⟨v', rfl, hpure⟩ := bind_eq_ok.mp hafter
      simp only [pure_eq_ok, Prod.mk.injEq] at hpure
      obtain ⟨rfl, rfl⟩ := hpure
      exact ⟨name, hname, hcase⟩
  · rintro ⟨name, hname, hcase⟩
    simp only [if_true, bind, Except.bind, hname, hcase]
    rfl

theorem readChoice_brace {w w' bs rest : Bytes} {v : α} (hw : Blanks w) (hw' : Blanks w') :
    readChoice names alone content (w ++ Byte.openBrace :: (w' ++ Byte.quote :: bs)) =
        .ok (v, rest) ↔
      ∃ name read afterKey afterColon afterValue, Literal.read bs = .ok (name, afterKey) ∧
        content name = some read ∧ readColon afterKey = .ok afterColon ∧
        read afterColon = .ok (v, afterValue) ∧ closeChoice afterValue = .ok rest := by
  have hquote : Byte.openBrace ≠ Byte.quote := by decide
  rw [readChoice, skipBlanks_append_cons hw rfl]
  simp only [hquote, if_false, if_true]
  rw [skipBlanks_append_cons hw' rfl]
  constructor
  · intro h
    obtain ⟨⟨name, afterKey⟩, hname, hafter⟩ := bind_eq_ok.mp h
    cases hcase : content name with
    | none =>
      simp only [hcase] at hafter
      contradiction
    | some read =>
      simp only [hcase] at hafter
      obtain ⟨afterColon, hcolon, hafter⟩ := bind_eq_ok.mp hafter
      obtain ⟨⟨v', afterValue⟩, hvalue, hafter⟩ := bind_eq_ok.mp hafter
      obtain ⟨rest', hclose, hpure⟩ := bind_eq_ok.mp hafter
      simp only [pure_eq_ok, Prod.mk.injEq] at hpure
      obtain ⟨rfl, rfl⟩ := hpure
      exact ⟨name, read, afterKey, afterColon, afterValue, hname, hcase, hcolon, hvalue, hclose⟩
  · rintro ⟨name, read, afterKey, afterColon, afterValue, hname, hcase, hcolon, hvalue, hclose⟩
    simp only [if_true, bind, Except.bind, hname, hcase, hcolon, hvalue, hclose]
    rfl

/-- Only quotes begin a choice, the first one of an object among them. -/
theorem exists_quote_of_readChoice {bs rest : Bytes} {v : α}
    (h : readChoice names alone content bs = .ok (v, rest)) :
    ∃ w r, Blanks w ∧ (bs = w ++ Byte.quote :: r ∨
      ∃ w', Blanks w' ∧ bs = w ++ Byte.openBrace :: (w' ++ Byte.quote :: r)) := by
  unfold readChoice at h
  split at h
  · contradiction
  · next b bs' hblanks =>
    obtain ⟨w, rfl, hw, -⟩ := eq_append_of_skipBlanks hblanks
    split at h
    · next hquote => exact ⟨w, bs', hw, Or.inl (by rw [hquote])⟩
    split at h
    · next hbrace =>
      split at h
      · contradiction
      · next c r hblanks' =>
        obtain ⟨w', rfl, hw', -⟩ := eq_append_of_skipBlanks hblanks'
        split at h
        · next hquote => exact ⟨w, r, hw, Or.inr ⟨w', hw', by rw [hbrace, hquote]⟩⟩
        · split at h <;> contradiction
    · contradiction

theorem readChoice_sound
    (halone : ∀ name v, alone name = some (.ok v) ↔ Holds name none v)
    (hreads : ∀ name read, content name = some read →
      Reads read fun t v => Holds name (some t) v)
    {bs rest : Bytes} {v : α} (h : readChoice names alone content bs = .ok (v, rest)) :
    ∃ w t, bs = w ++ (t ++ rest) ∧ Blanks w ∧ ∃ name u, CaseText t name u ∧ Holds name u v := by
  obtain ⟨w, r, hw, rfl | ⟨w', hw', rfl⟩⟩ := exists_quote_of_readChoice h
  · obtain ⟨name, hname, hcase⟩ := (readChoice_quote hw).mp h
    obtain ⟨l, rfl, hl⟩ := Literal.read_sound hname
    refine ⟨w, Byte.quote :: (l ++ [Byte.quote]), ?_, hw, name, none, .alone ⟨l, rfl, hl⟩,
      (halone name v).mp hcase⟩
    simp
  · obtain ⟨name, read, afterKey, afterColon, afterValue, hname, hcase, hcolon, hvalue, hclose⟩ :=
      (readChoice_brace hw hw').mp h
    obtain ⟨l, rfl, hl⟩ := Literal.read_sound hname
    obtain ⟨w₁, rfl, hw₁⟩ := readColon_sound hcolon
    obtain ⟨w₂, u, rfl, hw₂, hu⟩ := (hreads name read hcase).sound hvalue
    obtain ⟨w₃, rfl, hw₃⟩ := closeChoice_eq_ok.mp hclose
    refine ⟨w, _, ?_, hw, name, some u, .content (objectText_singleton.mpr
      ⟨w', l, w₁, w₂, w₃, rfl, ⟨hw', hw₁, hw₂, hw₃⟩, hl⟩), hu⟩
    simp

theorem readChoice_complete
    (halone : ∀ name v, alone name = some (.ok v) ↔ Holds name none v)
    (hreads : ∀ name read, content name = some read →
      Reads read fun t v => Holds name (some t) v)
    (hsome : ∀ name t v, Holds name (some t) v → ∃ read, content name = some read)
    {w t rest : Bytes} {name : String} {u : Option Bytes} {v : α} (hw : Blanks w)
    (hcase : CaseText t name u) (hv : Holds name u v) :
    readChoice names alone content (w ++ (t ++ rest)) = .ok (v, rest) := by
  cases hcase with
  | alone hl =>
    obtain ⟨l, rfl, hl⟩ := hl
    simp only [List.cons_append, List.append_assoc, List.nil_append]
    exact (readChoice_quote hw).mpr ⟨name, Literal.read_complete hl rest, (halone name v).mpr hv⟩
  | @content u _ htext =>
    obtain ⟨w', l, w₁, w₂, w₃, rfl, ⟨hw', hw₁, hw₂, hw₃⟩, hl⟩ := objectText_singleton.mp htext
    obtain ⟨read, hread⟩ := hsome name u v hv
    have hstops : Stops (w₃ ++ Byte.closeBrace :: rest) := Stops.blanks hw₃ (Stops.cons rfl rest)
    simp only [List.cons_append, List.append_assoc, List.nil_append]
    exact (readChoice_brace hw hw').mpr ⟨name, read, _, _, _, Literal.read_complete hl _, hread,
      readColon_append hw₁ _, (hreads name read hread).complete hw₂ hv hstops,
      closeChoice_eq_ok.mpr ⟨w₃, rfl, hw₃⟩⟩

/-- A choice is read from a name alone or from an object with a name as its only key. -/
theorem reads_readChoice
    (halone : ∀ name v, alone name = some (.ok v) ↔ Holds name none v)
    (hreads : ∀ name read, content name = some read →
      Reads read fun t v => Holds name (some t) v)
    (hsome : ∀ name t v, Holds name (some t) v → ∃ read, content name = some read) :
    Reads (readChoice names alone content) fun t v =>
      ∃ name u, CaseText t name u ∧ Holds name u v where
  sound h := readChoice_sound halone hreads h
  complete hw ht _ := by
    obtain ⟨name, u, hcase, hv⟩ := ht
    exact readChoice_complete halone hreads hsome hw hcase hv
  solid ht := by
    obtain ⟨name, u, hcase, -⟩ := ht
    cases hcase with
    | alone hl => exact Literal.LiteralText.solid hl
    | content htext =>
      obtain ⟨r, rfl, -⟩ := htext
      exact ⟨Byte.openBrace, _, rfl, rfl, by decide⟩

end Choices

/-! ## Fields and cases -/

/-- Every field is read from its texts. -/
def Fields.Readable : Fields → Prop
  | .nil => True
  | .cons _ s fs => Reads s.read s.Denotes ∧ fs.Readable

/-- Every field of every case is read from its texts. -/
def Cases.Readable : Cases → Prop
  | .nil => True
  | .plain _ cs => cs.Readable
  | .record _ fs cs => fs.Readable ∧ cs.Readable

theorem Fields.member_reads : (fs : Fields) → fs.Readable → ∀ key p read,
    fs.member key p = .ok read → Reads read fun t q => fs.Adds key t p q
  | .nil, _, key, p, read, h => by
    cases h
    exact reads_skipValue
  | .cons name s fs, hfs, key, (x, p), read, h => by
    unfold Fields.member at h
    split at h
    · next hkey =>
      split at h
      · contradiction
      · next hx =>
        cases h
        refine (hfs.1.map _).congr fun t q => ?_
        obtain ⟨y, q⟩ := q
        rw [Option.not_isSome_iff_eq_none] at hx
        rw [hkey, adds_cons_self]
        simp only [Prod.mk.injEq]
        constructor
        · rintro ⟨v, hv, rfl, rfl⟩
          exact ⟨hx, ⟨v, rfl, hv⟩, rfl⟩
        · rintro ⟨-, ⟨v, rfl, hv⟩, rfl⟩
          exact ⟨v, hv, rfl, rfl⟩
    · next hkey =>
      obtain ⟨read', hread', rfl⟩ := map_eq_ok.mp h
      refine ((fs.member_reads hfs.2 key p read' hread').map _).congr fun t q => ?_
      obtain ⟨y, q⟩ := q
      rw [adds_cons_of_ne hkey]
      simp only [Prod.mk.injEq]
      constructor
      · rintro ⟨q', hq, rfl, rfl⟩
        exact ⟨rfl, hq⟩
      · rintro ⟨rfl, hq⟩
        exact ⟨q, hq, rfl, rfl⟩

theorem Fields.exists_member : (fs : Fields) → ∀ key t p q, fs.Adds key t p q →
    ∃ read, fs.member key p = .ok read
  | .nil, _, _, _, _, _ => ⟨_, rfl⟩
  | .cons name s fs, key, t, (x, p), (y, q), h => by
    by_cases hkey : key = name
    · subst hkey
      obtain ⟨rfl, -, -⟩ := adds_cons_self.mp h
      exact ⟨_, by rw [Fields.member, if_pos rfl]; rfl⟩
    · obtain ⟨read, hread⟩ := fs.exists_member key t p q ((adds_cons_of_ne hkey).mp h).2
      exact ⟨_, by rw [Fields.member, if_neg hkey, hread]; rfl⟩

theorem Fields.elements_sound : (fs : Fields) → fs.Readable → ∀ {first bs p rest},
    fs.elements first bs = .ok (p, rest) →
    ∃ items r, bs = r ++ Byte.closeBracket :: rest ∧ Items first items r ∧ fs.Listed items p
  | .nil, _, first, bs, p, rest, h => by
    obtain ⟨rest', hclose, hp⟩ := map_eq_ok.mp h
    obtain ⟨rfl, rfl⟩ := Prod.mk.inj hp
    obtain ⟨w, rfl, hw⟩ := closeItems_eq_ok.mp hclose
    exact ⟨[], w, rfl, .nil hw, rfl⟩
  | .cons name s fs, hfs, first, bs, (x, p), rest, h => by
    obtain ⟨step, hstep, hafter⟩ := bind_eq_ok.mp h
    cases step with
    | close rest' =>
      simp only [pure_eq_ok, Prod.mk.injEq] at hafter
      obtain ⟨hp, rfl⟩ := hafter
      obtain ⟨w, rfl, hw⟩ := nextItem_close hstep
      exact ⟨[], w, rfl, .nil hw, hp.symm⟩
    | item bs' =>
      obtain ⟨⟨y, rest₁⟩, hy, hafterItem⟩ := bind_eq_ok.mp hafter
      obtain ⟨⟨q, rest₂⟩, hq, hpure⟩ := bind_eq_ok.mp hafterItem
      simp only [pure_eq_ok, Prod.mk.injEq] at hpure
      obtain ⟨⟨rfl, rfl⟩, rfl⟩ := hpure
      obtain ⟨w, rfl, hw⟩ := nextItem_item hstep
      obtain ⟨w', t, rfl, hw', ht⟩ := hfs.1.sound hy
      obtain ⟨items, r, rfl, hrow, hlisted⟩ := fs.elements_sound hfs.2 hq
      refine ⟨t :: items, (w ++ w') ++ (t ++ r), ?_, .cons (hw.append hw') rfl hrow,
        ⟨y, rfl, ht⟩, hlisted⟩
      simp only [List.append_assoc]

theorem Fields.elements_complete : (fs : Fields) → fs.Readable → ∀ {first items r p} rest,
    Items first items r → fs.Listed items p →
    fs.elements first (r ++ Byte.closeBracket :: rest) = .ok (p, rest)
  | .nil, _, first, items, r, p, rest, hrow, h => by
    rw [Fields.Listed] at h
    subst h
    cases hrow with
    | nil hw =>
      rw [Fields.elements]
      beta_reduce
      rw [closeItems_eq_ok.mpr ⟨_, rfl, hw⟩]
      rfl
  | .cons name s fs, hfs, first, [], r, p, rest, hrow, h => by
    cases hrow with
    | nil hw =>
      rw [Fields.Listed] at h
      rw [Fields.elements]
      beta_reduce
      rw [nextItem_append_close hw, h]
      rfl
  | .cons name s fs, hfs, first, t :: items, r, (x, p), rest, hrow, h => by
    obtain ⟨⟨y, rfl, hy⟩, hlisted⟩ := h
    cases hrow with
    | @cons _ _ _ w _ r hlead heq hrow =>
      subst heq
      have hvalue := hfs.1.complete Blanks.nil hy (hrow.stops (b := Byte.closeBracket) rfl rest)
      have htail := fs.elements_complete hfs.2 rest hrow hlisted
      rw [List.nil_append] at hvalue
      rw [Fields.elements]
      beta_reduce
      rw [List.append_assoc, List.append_assoc, nextItem_append hlead (hfs.1.solid hy)]
      simp only [bind, Except.bind, hvalue, htail]
      rfl

theorem Fields.ofElements_eq_ok {fs : Fields} {expected : Expected} {p : fs.Partial}
    {v : fs.Carrier} : fs.ofElements expected p = .ok v ↔ fs.all? p = some v := by
  unfold Fields.ofElements
  cases fs.all? p <;> simp

/-- The texts of a record with all its fields. -/
def Fields.Text (fs : Fields) : Bytes → fs.Carrier → Prop :=
  RecordText fs.Named fs.Listed (fun p v => fs.complete p = .ok v) fun p v => fs.all? p = some v

theorem Fields.reads_record {fs : Fields} (h : fs.Readable) (expected : Expected) :
    Reads (readFields expected fs.unknown fs.member (fs.elements true) fs.complete
      (fs.ofElements expected)) fs.Text := by
  refine (reads_readFields (fs.member_reads h) (fun _ _ => fs.chain_iff_named) fs.exists_member
    (fun _ _ _ => fs.elements_sound h) fun _ _ _ rest => fs.elements_complete h rest).congr ?_
  intro t v
  simp only [Fields.ofElements_eq_ok, Fields.Text]

theorem Fields.reads_settings {fs : Fields} (h : fs.Readable) (expected : Expected) :
    Reads (readFields expected fs.unknown fs.member (fs.elements true) .ok .ok)
      (RecordText fs.Named fs.Listed Eq Eq) := by
  refine (reads_readFields (fs.member_reads h) (fun _ _ => fs.chain_iff_named) fs.exists_member
    (fun _ _ _ => fs.elements_sound h) fun _ _ _ rest => fs.elements_complete h rest).congr ?_
  intro t v
  have heq : (fun p v : fs.Partial => (Except.ok p : Except Fault _) = .ok v) = Eq := by
    funext p v
    rw [Except.ok.injEq]
  rw [heq]

theorem map_inr_eq_some {α β : Type} {x : Option (Except Fault β)} {v : α ⊕ β} :
    x.map (·.map Sum.inr) = some (.ok v) ↔ ∃ y, x = some (.ok y) ∧ .inr y = v := by
  rw [Option.map_eq_some_iff]
  constructor
  · rintro ⟨case, rfl, hcase⟩
    obtain ⟨y, rfl, hy⟩ := map_eq_ok.mp hcase
    exact ⟨y, rfl, hy⟩
  · rintro ⟨y, rfl, rfl⟩
    exact ⟨.ok y, rfl, rfl⟩

theorem Cases.alone_eq_some : (cs : Cases) → ∀ {name v},
    cs.alone name = some (.ok v) ↔ cs.Holds name none v
  | .nil, name, v => nomatch v
  | .plain name cs, key, v => by
    by_cases hkey : key = name
    · rw [Cases.alone, if_pos hkey]
      cases v with
      | inl u => simp [Cases.Holds, hkey]
      | inr v => simp [Cases.Holds, hkey]
    · rw [Cases.alone, if_neg hkey, map_inr_eq_some]
      cases v with
      | inl u => simp [Cases.Holds, hkey]
      | inr v => simp [Cases.Holds, hkey, cs.alone_eq_some]
  | .record name fs cs, key, v => by
    by_cases hkey : key = name
    · rw [Cases.alone, if_pos hkey]
      cases v with
      | inl u => simp [Cases.Holds]
      | inr v => simp [Cases.Holds, hkey]
    · rw [Cases.alone, if_neg hkey, map_inr_eq_some]
      cases v with
      | inl u => simp [Cases.Holds]
      | inr v => simp [Cases.Holds, hkey, cs.alone_eq_some]

theorem Cases.content_reads (choice : String) : (cs : Cases) → cs.Readable → ∀ name read,
    cs.content choice name = some read → Reads read fun t v => cs.Holds name (some t) v
  | .nil, _, name, read, h => by
    contradiction
  | .plain name cs, hcs, key, read, h => by
    unfold Cases.content at h
    split at h
    · next hkey =>
      cases h
      refine ((reads_readNullFor .unit).map _).congr fun t v => ?_
      cases v with
      | inl u => simp [Cases.Holds, hkey]
      | inr v => simp [Cases.Holds, hkey]
    · next hkey =>
      obtain ⟨read', hread', rfl⟩ := Option.map_eq_some_iff.mp h
      refine ((cs.content_reads choice hcs key read' hread').map _).congr fun t v => ?_
      cases v with
      | inl u => simp [Cases.Holds, hkey]
      | inr v => simp [Cases.Holds, hkey]
  | .record name fs cs, hcs, key, read, h => by
    unfold Cases.content at h
    split at h
    · next hkey =>
      cases h
      refine ((Fields.reads_record hcs.1 _).map _).congr fun t v => ?_
      cases v with
      | inl u => simp [Cases.Holds, hkey, Fields.Text]
      | inr v => simp [Cases.Holds, hkey]
    · next hkey =>
      obtain ⟨read', hread', rfl⟩ := Option.map_eq_some_iff.mp h
      refine ((cs.content_reads choice hcs.2 key read' hread').map _).congr fun t v => ?_
      cases v with
      | inl u => simp [Cases.Holds, hkey]
      | inr v => simp [Cases.Holds, hkey]

theorem Cases.exists_content (choice : String) : (cs : Cases) → ∀ name t v,
    cs.Holds name (some t) v → ∃ read, cs.content choice name = some read
  | .nil, _, _, v, _ => nomatch v
  | .plain name cs, key, t, v, h => by
    by_cases hkey : key = name
    · exact ⟨_, by rw [Cases.content, if_pos hkey]⟩
    · cases v with
      | inl u => exact absurd h.1 hkey
      | inr v =>
        obtain ⟨read, hread⟩ := cs.exists_content choice key t v h.2
        exact ⟨_, by rw [Cases.content, if_neg hkey, hread]; rfl⟩
  | .record name fs cs, key, t, v, h => by
    by_cases hkey : key = name
    · exact ⟨_, by rw [Cases.content, if_pos hkey]⟩
    · cases v with
      | inl u => exact absurd h.1 hkey
      | inr v =>
        obtain ⟨read, hread⟩ := cs.exists_content choice key t v h.2
        exact ⟨_, by rw [Cases.content, if_neg hkey, hread]; rfl⟩

/-! ## Shapes -/

mutual

/-- **A shape is read from its texts, each as its value, and from nothing else.** -/
theorem Shape.reads : (s : Shape) → Reads s.read s.Denotes
  | .unsigned z => reads_readUnsigned z
  | .flag => reads_readFlag
  | .text => Literal.reads_readTextFor .text
  | .uuid => reads_readUuid
  | .list s => reads_readList s.reads
  | .optional s => reads_readOptional s.reads
  | .record name fs => Fields.reads_record fs.readable (.record name)
  | .settings name fs => Fields.reads_settings fs.readable (.record name)
  | .choice name cs => reads_readChoice (fun _ _ => cs.alone_eq_some)
      (cs.content_reads name cs.readable) (cs.exists_content name)

theorem Fields.readable : (fs : Fields) → fs.Readable
  | .nil => trivial
  | .cons _ s fs => ⟨s.reads, fs.readable⟩

theorem Cases.readable : (cs : Cases) → cs.Readable
  | .nil => trivial
  | .plain _ cs => cs.readable
  | .record _ fs cs => ⟨fs.readable, cs.readable⟩

end

/-- **A document is decoded if and only if it is a text of its value between blanks.** -/
theorem Shape.decode_eq_ok {s : Shape} {bs : Bytes} {v : s.Carrier} :
    s.decode bs = .ok v ↔
      ∃ w t w', bs = w ++ (t ++ w') ∧ Blanks w ∧ Blanks w' ∧ s.Denotes t v := by
  constructor
  · intro h
    obtain ⟨⟨v', rest⟩, hread, hend⟩ := bind_eq_ok.mp h
    obtain ⟨w, t, rfl, hw, ht⟩ := s.reads.sound hread
    simp only at hend
    split at hend
    · next hrest =>
      rw [pure_eq_ok] at hend
      subst hend
      exact ⟨w, t, rest, rfl, hw, skipBlanks_eq_nil.mp (List.isEmpty_iff.mp hrest), ht⟩
    · contradiction
  · rintro ⟨w, t, w', rfl, hw, hw', ht⟩
    have hstops : Stops w' := by
      rw [← List.append_nil w']
      exact Stops.blanks hw' Stops.nil
    have hrest : (skipBlanks w').isEmpty = true := by rw [skipBlanks_eq_nil.mpr hw']; rfl
    rw [Shape.decode, s.reads.complete hw ht hstops]
    simp only [bind, Except.bind, hrest, if_true]
    rfl

theorem Shape.decode_of_denotes {s : Shape} {t : Bytes} {v : s.Carrier} (h : s.Denotes t v) :
    s.decode t = .ok v :=
  Shape.decode_eq_ok.mpr ⟨[], t, [], by simp, Blanks.nil, Blanks.nil, h⟩

end ProtectionDomain.Json
