import Mathlib.Data.List.Forall2
import ProtectionDomain.Proofs.Json.Literal

/-!
# Lists and objects as texts

* `Row`: items with commas between them and blanks around each;
* `ListText`, `MemberText`, `ObjectText`: a list of texts, a key with a text, an object of such;
* `nextItem_close`, `nextItem_item`, `nextMember_item`, `readColon_sound`: steps inside them;
* `readItems_sound`, `readItems_complete`: a list over a reader of its items;
* `readMembers_sound`, `readMembers_complete`: an object over the readers of its values;
* `skipItems_sound`, `skipMembers_sound` and their converses: the same without values.
-/

namespace ProtectionDomain.Json

/-! ## The grammar -/

/-- What stands in front of an item: blanks, and among them a comma unless the item comes first. -/
inductive Lead : Bool → Bytes → Prop
  | first {w : Bytes} : Blanks w → Lead true w
  | next {w w' : Bytes} : Blanks w → Blanks w' → Lead false (w ++ Byte.comma :: w')

/-- Items with commas between them. Without the first item, a comma stands in front of each. -/
inductive Row {α : Type} (Item : α → Bytes → Prop) : Bool → List α → Bytes → Prop
  | nil {first : Bool} {w : Bytes} : Blanks w → Row Item first [] w
  | cons {first : Bool} {x : α} {xs : List α} {w t r : Bytes} : Lead first w → Item x t →
      Row Item false xs r → Row Item first (x :: xs) (w ++ (t ++ r))

/-- Texts with commas between them. -/
abbrev Items : Bool → List Bytes → Bytes → Prop := Row fun t u => u = t

/-- A list of texts. -/
def ListText (items : List Bytes) (t : Bytes) : Prop :=
  ∃ r, t = Byte.openBracket :: (r ++ [Byte.closeBracket]) ∧ Items true items r

/-- A key, a colon and a text. -/
inductive MemberText {κ : Type} (Key : κ → Bytes → Prop) : κ × Bytes → Bytes → Prop
  | mk {k : κ} {l t w w' : Bytes} : Key k l → Blanks w → Blanks w' →
      MemberText Key (k, t) (l ++ (w ++ Byte.colon :: (w' ++ t)))

/-- An object of texts. -/
def ObjectText {κ : Type} (Key : κ → Bytes → Prop) (members : List (κ × Bytes)) (t : Bytes) :
    Prop :=
  ∃ r, t = Byte.openBrace :: (r ++ [Byte.closeBrace]) ∧ Row (MemberText Key) true members r

/-- A key in any of its spellings. -/
def KeyText (k : String) (l : Bytes) : Prop := Literal.LiteralText l k

/-! ## Leads and rows -/

theorem Lead.append {first : Bool} {w w' : Bytes} (h : Lead first w) (h' : Blanks w') :
    Lead first (w ++ w') := by
  cases h with
  | first h => exact .first (h.append h')
  | next h₁ h₂ =>
    rw [List.append_assoc, List.cons_append]
    exact .next h₁ (h₂.append h')

theorem Row.stops {α : Type} {Item : α → Bytes → Prop} {xs : List α} {r : Bytes}
    (h : Row Item false xs r) {b : UInt8} (hb : extendsNumeral b = false) (rest : Bytes) :
    Stops (r ++ b :: rest) := by
  cases h with
  | nil hw => exact Stops.blanks hw (Stops.cons hb rest)
  | cons hlead _ _ =>
    cases hlead with
    | next hw _ =>
      rw [List.append_assoc, List.append_assoc]
      exact Stops.blanks hw (Stops.cons rfl _)

/-! ## Steps in lists -/

section Lists

variable {first : Bool} {bs rest : Bytes}

theorem nextItem_close (h : nextItem first bs = .ok (.close rest)) :
    ∃ w, bs = w ++ Byte.closeBracket :: rest ∧ Blanks w := by
  unfold nextItem at h
  split at h
  · contradiction
  · next b bs' hskip =>
    obtain ⟨w, rfl, hw, -⟩ := eq_append_of_skipBlanks hskip
    split at h
    · next hb =>
      cases h
      exact ⟨w, by rw [hb], hw⟩
    · split at h
      · cases h
      · split at h
        · split at h
          · contradiction
          · split at h <;> cases h
        · contradiction

theorem nextItem_item (h : nextItem first bs = .ok (.item rest)) :
    ∃ w, bs = w ++ rest ∧ Lead first w := by
  unfold nextItem at h
  split at h
  · contradiction
  · next b bs' hskip =>
    obtain ⟨w, rfl, hw, -⟩ := eq_append_of_skipBlanks hskip
    split at h
    · cases h
    · split at h
      · next hfirst =>
        cases h
        exact ⟨w, rfl, hfirst ▸ .first hw⟩
      · next hfirst =>
        split at h
        · next hcomma =>
          split at h
          · contradiction
          · next c bs'' hskip' =>
            obtain ⟨w', rfl, hw', -⟩ := eq_append_of_skipBlanks hskip'
            split at h
            · contradiction
            · cases h
              refine ⟨w ++ Byte.comma :: w', ?_, ?_⟩
              · rw [hcomma, List.append_assoc, List.cons_append]
              · rw [Bool.not_eq_true] at hfirst
                exact hfirst ▸ .next hw hw'
        · contradiction

theorem nextItem_append_close {w : Bytes} (hw : Blanks w) :
    nextItem first (w ++ Byte.closeBracket :: rest) = .ok (.close rest) := by
  rw [nextItem, skipBlanks_append_cons hw rfl]
  rfl

theorem nextItem_append {w t : Bytes} (hw : Lead first w) (ht : Solid t) :
    nextItem first (w ++ (t ++ rest)) = .ok (.item (t ++ rest)) := by
  obtain ⟨b, t', rfl, hblank, hclose⟩ := ht
  cases hw with
  | first hw =>
    rw [nextItem, List.cons_append, skipBlanks_append_cons hw hblank]
    simp only [hclose, if_false, if_true]
  | next hw hw' =>
    rw [nextItem, List.append_assoc, List.cons_append, skipBlanks_append_cons hw rfl]
    have hcomma : Byte.comma ≠ Byte.closeBracket := by decide
    simp only [hcomma, if_false, if_true, Bool.false_eq_true]
    rw [List.cons_append, skipBlanks_append_cons hw' hblank]
    simp only [hclose, if_false]

theorem closeItems_eq_ok :
    closeItems bs = .ok rest ↔ ∃ w, bs = w ++ Byte.closeBracket :: rest ∧ Blanks w := by
  constructor
  · intro h
    unfold closeItems at h
    split at h
    · contradiction
    · next b bs' hskip =>
      obtain ⟨w, rfl, hw, -⟩ := eq_append_of_skipBlanks hskip
      split at h
      · next hb =>
        cases h
        exact ⟨w, by rw [hb], hw⟩
      · split at h <;> contradiction
  · rintro ⟨w, rfl, hw⟩
    rw [closeItems, skipBlanks_append_cons hw rfl]
    rfl

end Lists

/-! ## Steps in objects -/

section Objects

variable {first : Bool} {bs rest : Bytes}

theorem nextMember_close (h : nextMember first bs = .ok (.close rest)) :
    ∃ w, bs = w ++ Byte.closeBrace :: rest ∧ Blanks w := by
  unfold nextMember at h
  split at h
  · contradiction
  · next b bs' hskip =>
    obtain ⟨w, rfl, hw, -⟩ := eq_append_of_skipBlanks hskip
    split at h
    · next hb =>
      cases h
      exact ⟨w, by rw [hb], hw⟩
    · split at h
      · split at h <;> cases h
      · split at h
        · split at h
          · contradiction
          · split at h
            · cases h
            · split at h <;> contradiction
        · contradiction

theorem nextMember_item (h : nextMember first bs = .ok (.item rest)) :
    ∃ w, bs = w ++ Byte.quote :: rest ∧ Lead first w := by
  unfold nextMember at h
  split at h
  · contradiction
  · next b bs' hskip =>
    obtain ⟨w, rfl, hw, -⟩ := eq_append_of_skipBlanks hskip
    split at h
    · cases h
    · split at h
      · next hfirst =>
        split at h
        · next hquote =>
          cases h
          exact ⟨w, by rw [hquote], hfirst ▸ .first hw⟩
        · contradiction
      · next hfirst =>
        split at h
        · next hcomma =>
          split at h
          · contradiction
          · next c bs'' hskip' =>
            obtain ⟨w', rfl, hw', -⟩ := eq_append_of_skipBlanks hskip'
            split at h
            · next hquote =>
              cases h
              refine ⟨w ++ Byte.comma :: w', ?_, ?_⟩
              · rw [hcomma, hquote, List.append_assoc, List.cons_append]
              · rw [Bool.not_eq_true] at hfirst
                exact hfirst ▸ .next hw hw'
            · split at h <;> contradiction
        · contradiction

theorem nextMember_append_close {w : Bytes} (hw : Blanks w) :
    nextMember first (w ++ Byte.closeBrace :: rest) = .ok (.close rest) := by
  rw [nextMember, skipBlanks_append_cons hw rfl]
  rfl

theorem nextMember_append {w : Bytes} (hw : Lead first w) :
    nextMember first (w ++ Byte.quote :: rest) = .ok (.item rest) := by
  cases hw with
  | first hw =>
    rw [nextMember, skipBlanks_append_cons hw rfl]
    rfl
  | next hw hw' =>
    rw [nextMember, List.append_assoc, List.cons_append, skipBlanks_append_cons hw rfl]
    have hcomma : Byte.comma ≠ Byte.closeBrace := by decide
    simp only [hcomma, if_false, if_true, Bool.false_eq_true]
    rw [skipBlanks_append_cons hw' rfl]
    rfl

theorem readColon_sound (h : readColon bs = .ok rest) :
    ∃ w, bs = w ++ Byte.colon :: rest ∧ Blanks w := by
  unfold readColon at h
  split at h
  · contradiction
  · next b bs' hskip =>
    obtain ⟨w, rfl, hw, -⟩ := eq_append_of_skipBlanks hskip
    split at h
    · next hb =>
      cases h
      exact ⟨w, by rw [hb], hw⟩
    · contradiction

theorem readColon_append {w : Bytes} (hw : Blanks w) (rest : Bytes) :
    readColon (w ++ Byte.colon :: rest) = .ok rest := by
  rw [readColon, skipBlanks_append_cons hw rfl]
  rfl

end Objects

/-! ## Lists over a reader -/

theorem readItems_sound {α : Type} {read : Reader α} {Denotes : Bytes → α → Prop}
    (h : Reads read Denotes) {bound bs rest : Bytes} {first : Bool} {xs : List α}
    (hread : readItems read bound first bs = .ok (xs, rest)) :
    ∃ items r, bs = r ++ Byte.closeBracket :: rest ∧ Items first items r ∧
      List.Forall₂ Denotes items xs := by
  induction bound generalizing first bs xs with
  | nil => contradiction
  | cons _ bound ih =>
    obtain ⟨step, hstep, hread⟩ := bind_eq_ok.mp hread
    cases step with
    | close rest' =>
      simp only [pure_eq_ok, Prod.mk.injEq] at hread
      obtain ⟨rfl, rfl⟩ := hread
      obtain ⟨w, rfl, hw⟩ := nextItem_close hstep
      exact ⟨[], w, rfl, .nil hw, .nil⟩
    | item bs' =>
      obtain ⟨⟨x, rest'⟩, hx, htail⟩ := bind_eq_ok.mp hread
      obtain ⟨⟨xs', rest''⟩, hxs, hpure⟩ := bind_eq_ok.mp htail
      simp only [pure_eq_ok, Prod.mk.injEq] at hpure
      obtain ⟨rfl, rfl⟩ := hpure
      obtain ⟨w, rfl, hw⟩ := nextItem_item hstep
      obtain ⟨w', t, rfl, hw', ht⟩ := h.sound hx
      obtain ⟨items, r, rfl, hitems, hall⟩ := ih hxs
      refine ⟨t :: items, (w ++ w') ++ (t ++ r), ?_, .cons (hw.append hw') rfl hitems,
        .cons ht hall⟩
      simp only [List.append_assoc]

theorem readItems_complete {α : Type} {read : Reader α} {Denotes : Bytes → α → Prop}
    (h : Reads read Denotes) {items : List Bytes} {xs : List α}
    (hall : List.Forall₂ Denotes items xs) {bound r : Bytes} {first : Bool}
    (hrow : Items first items r) (hbound : r.length < bound.length) (rest : Bytes) :
    readItems read bound first (r ++ Byte.closeBracket :: rest) = .ok (xs, rest) := by
  induction hall generalizing bound r first with
  | nil =>
    cases hrow with
    | nil hw =>
      obtain ⟨b, bound, rfl⟩ := List.exists_cons_of_length_pos (by omega : 0 < bound.length)
      rw [readItems, nextItem_append_close hw]
      rfl
  | cons ht _ ih =>
    cases hrow with
    | @cons _ _ _ w t r hw heq hitems =>
      subst heq
      obtain ⟨b, bound, rfl⟩ := List.exists_cons_of_length_pos (by omega : 0 < bound.length)
      have hsolid := h.solid ht
      have hlt : r.length < bound.length := by
        obtain ⟨b, t', rfl, -⟩ := hsolid
        simp only [List.length_append, List.length_cons] at hbound
        omega
      have hx := h.complete Blanks.nil ht (hitems.stops (b := Byte.closeBracket) rfl rest)
      rw [List.nil_append] at hx
      rw [readItems, List.append_assoc, List.append_assoc, nextItem_append hw hsolid]
      simp only [bind, Except.bind, hx, ih hitems hlt]
      rfl

/-- The lists of values. -/
def ListOf {α : Type} (Denotes : Bytes → α → Prop) (t : Bytes) (xs : List α) : Prop :=
  ∃ items, ListText items t ∧ List.Forall₂ Denotes items xs

theorem reads_readList {α : Type} {read : Reader α} {Denotes : Bytes → α → Prop}
    (h : Reads read Denotes) : Reads (readList read) (ListOf Denotes) where
  sound {bs rest xs} hread := by
    unfold readList at hread
    split at hread
    · contradiction
    · next b bs' hskip =>
      obtain ⟨w, rfl, hw, -⟩ := eq_append_of_skipBlanks hskip
      split at hread
      · next hb =>
        obtain ⟨items, r, rfl, hitems, hall⟩ := readItems_sound h hread
        refine ⟨w, Byte.openBracket :: (r ++ [Byte.closeBracket]), ?_, hw, items,
          ⟨r, rfl, hitems⟩, hall⟩
        simp [hb]
      · contradiction
  complete {w t rest xs} hw ht _ := by
    obtain ⟨items, ⟨r, rfl, hitems⟩, hall⟩ := ht
    rw [readList, List.cons_append, skipBlanks_append_cons hw rfl]
    simp only [if_true, List.append_assoc, List.singleton_append]
    exact readItems_complete h hall hitems (by simp) rest
  solid {t xs} ht := by
    obtain ⟨items, ⟨r, rfl, -⟩, -⟩ := ht
    exact ⟨Byte.openBracket, _, rfl, rfl, by decide⟩

/-! ## Objects over the readers of their values -/

/-- Members taken one after the other, each of which changes what is known. -/
inductive Chain {σ : Type} (Adds : String → Bytes → σ → σ → Prop) :
    List (String × Bytes) → σ → σ → Prop
  | nil {p : σ} : Chain Adds [] p p
  | cons {k : String} {t : Bytes} {members : List (String × Bytes)} {p p' p'' : σ} :
      Adds k t p p' → Chain Adds members p' p'' → Chain Adds ((k, t) :: members) p p''

section

variable {σ : Type} {member : String → σ → Except Fault (Reader σ)}
  {Adds : String → Bytes → σ → σ → Prop}
  (hreads : ∀ key p read, member key p = .ok read → Reads read fun t p' => Adds key t p p')

include hreads

theorem readMembers_sound {bound bs rest : Bytes} {first : Bool} {p p' : σ}
    (hread : readMembers member bound first p bs = .ok (p', rest)) :
    ∃ members r, bs = r ++ Byte.closeBrace :: rest ∧ Row (MemberText KeyText) first members r ∧
      Chain Adds members p p' := by
  induction bound generalizing first bs p with
  | nil => contradiction
  | cons _ bound ih =>
    obtain ⟨step, hstep, hread⟩ := bind_eq_ok.mp hread
    cases step with
    | close rest' =>
      simp only [pure_eq_ok, Prod.mk.injEq] at hread
      obtain ⟨rfl, rfl⟩ := hread
      obtain ⟨w, rfl, hw⟩ := nextMember_close hstep
      exact ⟨[], w, rfl, .nil hw, .nil⟩
    | item bs' =>
      obtain ⟨⟨key, rest₁⟩, hkey, hafterKey⟩ := bind_eq_ok.mp hread
      obtain ⟨read, hmember, hafterMember⟩ := bind_eq_ok.mp hafterKey
      obtain ⟨rest₂, hcolon, hafterColon⟩ := bind_eq_ok.mp hafterMember
      obtain ⟨⟨p₁, rest₃⟩, hvalue, htail⟩ := bind_eq_ok.mp hafterColon
      obtain ⟨w, rfl, hw⟩ := nextMember_item hstep
      obtain ⟨l, rfl, hl⟩ := Literal.read_sound hkey
      obtain ⟨w₁, rfl, hw₁⟩ := readColon_sound hcolon
      obtain ⟨w₂, t, rfl, hw₂, ht⟩ := (hreads key p read hmember).sound hvalue
      obtain ⟨members, r, rfl, hrow, hchain⟩ := ih htail
      have hmem : MemberText KeyText (key, t)
          (Byte.quote :: (l ++ [Byte.quote]) ++ (w₁ ++ Byte.colon :: (w₂ ++ t))) :=
        .mk ⟨l, rfl, hl⟩ hw₁ hw₂
      refine ⟨(key, t) :: members, _, ?_, .cons hw hmem hrow, .cons ht hchain⟩
      simp

theorem readMembers_complete
    (hok : ∀ key t p p', Adds key t p p' → ∃ read, member key p = .ok read)
    {members : List (String × Bytes)} {p p' : σ} (hchain : Chain Adds members p p')
    {bound r : Bytes} {first : Bool} (hrow : Row (MemberText KeyText) first members r)
    (hbound : r.length < bound.length) (rest : Bytes) :
    readMembers member bound first p (r ++ Byte.closeBrace :: rest) = .ok (p', rest) := by
  induction hchain generalizing bound r first with
  | nil =>
    cases hrow with
    | nil hw =>
      obtain ⟨b, bound, rfl⟩ := List.exists_cons_of_length_pos (by omega : 0 < bound.length)
      rw [readMembers, nextMember_append_close hw]
      rfl
  | @cons key t members p p₁ p₂ ht _ ih =>
    cases hrow with
    | @cons _ _ _ w _ r hw hmem hrow =>
      obtain ⟨⟨l, rfl, hl⟩, hw₁, hw₂⟩ := hmem
      rename_i w₁ w₂
      obtain ⟨b, bound, rfl⟩ := List.exists_cons_of_length_pos (by omega : 0 < bound.length)
      have hlt : r.length < bound.length := by
        simp only [List.length_append, List.length_cons] at hbound
        omega
      obtain ⟨read, hread⟩ := hok key t p p₁ ht
      have hvalue := (hreads key p read hread).complete hw₂ ht
        (hrow.stops (b := Byte.closeBrace) rfl rest)
      have hkey := Literal.read_complete hl
        (w₁ ++ Byte.colon :: (w₂ ++ (t ++ (r ++ Byte.closeBrace :: rest))))
      have hcolon := readColon_append hw₁ (w₂ ++ (t ++ (r ++ Byte.closeBrace :: rest)))
      simp only [List.append_assoc, List.cons_append, List.nil_append]
      rw [readMembers, nextMember_append hw]
      simp only [bind, Except.bind, hkey, hread, hcolon, hvalue, ih hrow hlt]

end

/-! ## Skipping -/

/-- A key whose text does not matter. -/
def KeyForm (k l : Bytes) : Prop := l = k ∧ Literal.LiteralForm l

section Skipping

variable {α : Type} {Item : α → Bytes → Prop} {P : α → Prop} {close : UInt8}
  {atEnd noComma : Fault} {item : Bytes → Except Fault Bytes}

theorem skipRow_cons {a b : UInt8} {bound bs rest : Bytes} {first : Bool}
    (h : skipBlanks bs = b :: rest) :
    skipRow close atEnd noComma item (a :: bound) first bs =
      if b = close then .ok rest
      else if first then (item (b :: rest)).bind (skipRow close atEnd noComma item bound false)
      else if b = Byte.comma then
        (item rest).bind (skipRow close atEnd noComma item bound false)
      else .error noComma := by
  rw [skipRow.eq_def, h]

theorem skipRow_sound
    (hitem : ∀ bs rest, item bs = .ok rest →
      ∃ w t x, bs = w ++ (t ++ rest) ∧ Blanks w ∧ Item x t ∧ P x)
    {bound bs rest : Bytes} {first : Bool}
    (h : skipRow close atEnd noComma item bound first bs = .ok rest) :
    ∃ xs r, bs = r ++ close :: rest ∧ Row Item first xs r ∧ ∀ x ∈ xs, P x := by
  induction bound generalizing first bs with
  | nil =>
    unfold skipRow at h
    contradiction
  | cons _ bound ih =>
    have hcons : ∀ {w bs'}, Lead first w → bs = w ++ bs' →
        (item bs').bind (skipRow close atEnd noComma item bound false) = .ok rest →
        ∃ xs r, bs = r ++ close :: rest ∧ Row Item first xs r ∧ ∀ x ∈ xs, P x := by
      rintro w bs' hw rfl h
      obtain ⟨rest', hstep, htail⟩ := bind_eq_ok.mp h
      obtain ⟨w', t, x, rfl, hw', hx, hP⟩ := hitem _ _ hstep
      obtain ⟨xs, r, rfl, hrow, hall⟩ := ih htail
      refine ⟨x :: xs, (w ++ w') ++ (t ++ r), ?_, .cons (hw.append hw') hx hrow, ?_⟩
      · simp only [List.append_assoc]
      · intro y hy
        rcases List.mem_cons.mp hy with rfl | hy
        · exact hP
        · exact hall y hy
    unfold skipRow at h
    split at h
    · contradiction
    · contradiction
    · next b bs' _ hbound hblanks =>
      obtain ⟨-, rfl⟩ := List.cons.inj hbound
      obtain ⟨w, rfl, hw, -⟩ := eq_append_of_skipBlanks hblanks
      split at h
      · next hb =>
        cases h
        exact ⟨[], w, by rw [hb], .nil hw, by simp⟩
      · cases first with
        | true => exact hcons (.first hw) rfl h
        | false =>
          simp only [Bool.false_eq_true, if_false] at h
          split at h
          · next hcomma =>
            refine hcons (.next hw Blanks.nil) ?_ h
            rw [hcomma, List.append_assoc]
            rfl
          · contradiction

theorem skipRow_complete
    (hitem : ∀ w t x rest, Blanks w → Item x t → P x → Stops rest →
      item (w ++ (t ++ rest)) = .ok rest)
    (hhead : ∀ t x, Item x t → P x → ∃ b t', t = b :: t' ∧ Byte.isBlank b = false ∧ b ≠ close)
    (hblank : Byte.isBlank close = false) (hextends : extendsNumeral close = false)
    (hcomma : Byte.comma ≠ close)
    {xs : List α} (hall : ∀ x ∈ xs, P x) {bound r : Bytes} {first : Bool}
    (hrow : Row Item first xs r) (hbound : r.length < bound.length) (rest : Bytes) :
    skipRow close atEnd noComma item bound first (r ++ close :: rest) = .ok rest := by
  induction hrow generalizing bound with
  | nil hw =>
    obtain ⟨b, bound, rfl⟩ := List.exists_cons_of_length_pos (by omega : 0 < bound.length)
    rw [skipRow_cons (skipBlanks_append_cons hw hblank _), if_pos rfl]
  | @cons first x xs w t r hw hx hrow ih =>
    obtain ⟨b, bound, rfl⟩ := List.exists_cons_of_length_pos (by omega : 0 < bound.length)
    have hP := hall x List.mem_cons_self
    obtain ⟨c, t', hcons, hc, hclose⟩ := hhead t x hx hP
    have hlt : r.length < bound.length := by
      rw [hcons] at hbound
      simp only [List.length_append, List.length_cons] at hbound
      omega
    have htail := ih (fun y hy => hall y (List.mem_cons_of_mem x hy)) hlt
    have hstep : ∀ w', Blanks w' → (item (w' ++ (t ++ (r ++ close :: rest)))).bind
        (skipRow close atEnd noComma item bound false) = .ok rest := by
      intro w' hw'
      rw [hitem w' t x _ hw' hx hP (hrow.stops hextends rest)]
      exact htail
    rw [List.append_assoc, List.append_assoc]
    cases hw with
    | first hw =>
      have hfirst := hstep [] Blanks.nil
      rw [List.nil_append, hcons, List.cons_append] at hfirst
      rw [hcons, List.cons_append, skipRow_cons (skipBlanks_append_cons hw hc _), if_neg hclose,
        if_pos rfl]
      exact hfirst
    | next hw hw' =>
      rw [List.append_assoc, List.cons_append, skipRow_cons (skipBlanks_append_cons hw rfl _),
        if_neg hcomma, if_neg Bool.false_ne_true, if_pos rfl]
      exact hstep _ hw'

end Skipping

section

variable {skip : Bytes → Except Fault Bytes} {P : Bytes → Prop}

theorem skipMember_sound
    (hskip : ∀ bs rest, skip bs = .ok rest → ∃ w t, bs = w ++ (t ++ rest) ∧ Blanks w ∧ P t)
    {bs rest : Bytes} (h : skipMember skip bs = .ok rest) :
    ∃ w t m, bs = w ++ (t ++ rest) ∧ Blanks w ∧ MemberText KeyForm m t ∧ P m.2 := by
  unfold skipMember at h
  split at h
  · contradiction
  · next b bs' hblanks =>
    obtain ⟨w, rfl, hw, -⟩ := eq_append_of_skipBlanks hblanks
    split at h
    · next hquote =>
      obtain ⟨rest₂, hkeycolon, hvalue⟩ := bind_eq_ok.mp h
      obtain ⟨rest₁, hkey, hcolon⟩ := bind_eq_ok.mp hkeycolon
      obtain ⟨l, rfl, hl⟩ := Literal.skip_sound hkey
      obtain ⟨w₁, rfl, hw₁⟩ := readColon_sound hcolon
      obtain ⟨w₂, t, rfl, hw₂, ht⟩ := hskip _ _ hvalue
      have hmem : MemberText KeyForm (Byte.quote :: (l ++ [Byte.quote]), t)
          (Byte.quote :: (l ++ [Byte.quote]) ++ (w₁ ++ Byte.colon :: (w₂ ++ t))) :=
        .mk ⟨rfl, l, rfl, hl⟩ hw₁ hw₂
      refine ⟨w, _, _, ?_, hw, hmem, ht⟩
      simp [hquote]
    · contradiction

theorem skipMember_complete {m : Bytes × Bytes} {t w rest : Bytes}
    (hskip : ∀ w, Blanks w → skip (w ++ (m.2 ++ rest)) = .ok rest) (hw : Blanks w)
    (hm : MemberText KeyForm m t) : skipMember skip (w ++ (t ++ rest)) = .ok rest := by
  obtain ⟨⟨rfl, l, rfl, hl⟩, hw₁, hw₂⟩ := hm
  rename_i v w₁ w₂
  have hkey := Literal.skip_complete hl (w₁ ++ Byte.colon :: (w₂ ++ (v ++ rest)))
  have hcolon := readColon_append hw₁ (w₂ ++ (v ++ rest))
  simp only [List.append_assoc, List.cons_append, List.nil_append]
  rw [skipMember, skipBlanks_append_cons hw rfl]
  simp only [if_true, hkey, Except.bind, hcolon]
  exact hskip w₂ hw₂

theorem MemberText.head {m : Bytes × Bytes} {t : Bytes} (h : MemberText KeyForm m t) :
    ∃ t', t = Byte.quote :: t' := by
  obtain ⟨⟨rfl, l, rfl, -⟩, -, -⟩ := h
  exact ⟨_, rfl⟩

theorem skipItems_sound
    (hskip : ∀ bs rest, skip bs = .ok rest → ∃ w t, bs = w ++ (t ++ rest) ∧ Blanks w ∧ P t)
    {bs rest : Bytes} (h : skipItems skip bs = .ok rest) :
    ∃ items r, bs = r ++ Byte.closeBracket :: rest ∧ Items true items r ∧ ∀ t ∈ items, P t := by
  refine skipRow_sound (fun bs rest hitem => ?_) h
  obtain ⟨w, t, hbs, hw, ht⟩ := hskip bs rest hitem
  exact ⟨w, t, t, hbs, hw, rfl, ht⟩

theorem skipItems_complete (hsolid : ∀ t, P t → Solid t)
    (hskip : ∀ w t rest, Blanks w → P t → Stops rest → skip (w ++ (t ++ rest)) = .ok rest)
    {items : List Bytes} (hall : ∀ t ∈ items, P t) {r : Bytes} (hrow : Items true items r)
    (rest : Bytes) : skipItems skip (r ++ Byte.closeBracket :: rest) = .ok rest := by
  refine skipRow_complete (fun w t x rest hw hx hP hrest => ?_) (fun t x hx hP => ?_) rfl rfl
    (by decide) hall hrow (by simp) rest
  · subst hx
    exact hskip w t rest hw hP hrest
  · subst hx
    exact hsolid t hP

theorem skipMembers_sound
    (hskip : ∀ bs rest, skip bs = .ok rest → ∃ w t, bs = w ++ (t ++ rest) ∧ Blanks w ∧ P t)
    {bs rest : Bytes} (h : skipMembers skip bs = .ok rest) :
    ∃ members r, bs = r ++ Byte.closeBrace :: rest ∧ Row (MemberText KeyForm) true members r ∧
      ∀ m ∈ members, P m.2 :=
  skipRow_sound (fun _ _ => skipMember_sound hskip) h

theorem skipMembers_complete
    (hskip : ∀ w t rest, Blanks w → P t → Stops rest → skip (w ++ (t ++ rest)) = .ok rest)
    {members : List (Bytes × Bytes)} (hall : ∀ m ∈ members, P m.2) {r : Bytes}
    (hrow : Row (MemberText KeyForm) true members r) (rest : Bytes) :
    skipMembers skip (r ++ Byte.closeBrace :: rest) = .ok rest := by
  refine skipRow_complete (fun w t m rest hw hm hP hrest => ?_) (fun t m hm hP => ?_) rfl rfl
    (by decide) hall hrow (by simp) rest
  · exact skipMember_complete (fun w' hw' => hskip w' m.2 rest hw' hP hrest) hw hm
  · obtain ⟨t', rfl⟩ := hm.head
    exact ⟨Byte.quote, t', rfl, rfl, by decide⟩

end

end ProtectionDomain.Json
