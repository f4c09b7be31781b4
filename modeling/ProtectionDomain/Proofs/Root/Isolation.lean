import ProtectionDomain.Proofs.Root.Step

/-!
# Sessions do not see one another

Operations that name different capabilities may change places, and what is done to other sessions
makes no difference to one of them.

* `get?_perform`: an operation that names a capability leaves all other sessions as they are;
* `Root.Interchange`: two operations may change places; `interchange_of_ne`, `interchange_create`:
  so may those on different capabilities, and opening a session with what is done to another;
* `Operation.concerns`, `Operation.namesOther`: what matters to a capability, and what does not;
* `Root.Agrees`: two roots are the same to a capability; `Agrees.perform`, `Agrees.perform_other`:
  they stay so;
* `answers_eq_of_filter_eq`: what is returned hangs on the operations that matter;
* **`operations_isolated`**: all of this for every state of a root.
-/

namespace ProtectionDomain.Root

variable {r r' : Root} {a b op : Operation} {cap c d : Cap .session}

/-! ## Operations that change places -/

theorem get?_perform (hop : op.cap? = some c) (hne : d ≠ c) (r : Root) :
    (r.perform op).2.1.sessions.get? d = r.sessions.get? d := by
  rcases perform_root_of_cap? hop with hroot | hroot
  · rw [hroot]
  · rw [hroot, SessionTable.get?_erase, if_neg hne]

theorem caps_perform_of_cap? (hop : op.cap? = some c) (r : Root) :
    (r.perform op).2.1.caps = r.caps := by
  rcases perform_root_of_cap? hop with hroot | hroot <;> rw [hroot]

/-- Two operations may change places: each of them returns the same, and the root is the same after
both. -/
structure Interchange (r : Root) (a b : Operation) : Prop where
  first : ((r.perform b).2.1.perform a).1 = (r.perform a).1
  second : ((r.perform a).2.1.perform b).1 = (r.perform b).1
  root : ((r.perform a).2.1.perform b).2.1 = ((r.perform b).2.1.perform a).2.1

/-- Operations on different capabilities may change places. -/
theorem interchange_of_ne (ha : a.cap? = some c) (hb : b.cap? = some d) (hne : c ≠ d) :
    r.Interchange a b where
  first := (perform_eq_of_get? ha (get?_perform hb hne r)).1
  second := (perform_eq_of_get? hb (get?_perform ha (Ne.symm hne) r)).1
  root := by
    rcases perform_root_of_cap? ha with haroot | haroot
    · rw [haroot, haroot]
    · rcases perform_root_of_cap? hb with hbroot | hbroot
      · rw [hbroot, hbroot]
      · rw [haroot, haroot, hbroot, hbroot, SessionTable.erase_comm]

theorem perform_create_fst (hcaps : r.caps = r'.caps) (id : SessionId) (label : String) :
    (r.perform (.create id label)).1 = (r'.perform (.create id label)).1 := by
  by_cases hzero : r'.caps.next = 0
  · have hzero' : r.caps.next = 0 := hcaps ▸ hzero
    rw [perform, perform, create_of_next_eq_zero hzero, create_of_next_eq_zero hzero']
  · have hne : r.caps.next ≠ 0 := hcaps ▸ hzero
    rw [perform, perform, create_of_next_ne_zero hzero, create_of_next_ne_zero hne, hcaps]

/-- Opening a session and an operation on another capability may change places. -/
theorem interchange_create {id : SessionId} {label : String} (hb : b.cap? = some d)
    (hd : (r.create id label).1 ≠ .ok d) : r.Interchange (.create id label) b := by
  have hfirst := perform_create_fst (caps_perform_of_cap? hb r) id label
  by_cases hzero : r.caps.next = 0
  · -- nothing is issued, and the root stays as it is
    have hcreate : ∀ q : Root, q.caps = r.caps → (q.perform (.create id label)).2.1 = q := by
      intro q hq
      rw [perform, create_of_next_eq_zero (hq ▸ hzero)]
    refine ⟨hfirst, ?_, ?_⟩
    · rw [hcreate r rfl]
    · rw [hcreate r rfl, hcreate _ (caps_perform_of_cap? hb r)]
  · have hne : ⟨r.caps.next⟩ ≠ d := fun heq => hd (by rw [create_of_next_ne_zero hzero, heq])
    have hcreate : ∀ q : Root, q.caps = r.caps → (q.perform (.create id label)).2.1 =
        { q with
          sessions := q.sessions.insert ⟨r.caps.next⟩ ⟨id, label, q.engine⟩
          caps := ⟨r.caps.next + 1⟩ } := by
      intro q hq
      rw [← hq, perform, create_of_next_ne_zero (hq ▸ hzero)]
    refine ⟨hfirst, ?_, ?_⟩
    · rw [hcreate r rfl]
      refine (perform_eq_of_get? hb ?_).1
      rw [SessionTable.get?_insert, if_neg (Ne.symm hne)]
    · rw [hcreate r rfl, hcreate _ (caps_perform_of_cap? hb r)]
      rcases perform_root_of_cap? hb with hroot | hroot
      · rw [hroot, hroot]
      · rw [hroot, hroot, SessionTable.erase_insert _ hne]

/-! ## Operations that make no difference -/

/-- The operation names the capability, or it may issue it. -/
def Operation.concerns (cap : Cap .session) (op : Operation) : Bool :=
  op.isCreate || op.cap? == some cap

/-- The operation names another capability. -/
def Operation.namesOther (cap : Cap .session) (op : Operation) : Bool :=
  op.cap?.any (· != cap)

theorem Operation.concerns_iff :
    op.concerns cap = true ↔ (∃ id label, op = .create id label) ∨ op.cap? = some cap := by
  cases op <;> simp [concerns, isCreate, cap?]

theorem Operation.not_namesOther_of_concerns (h : op.concerns cap = true) :
    op.namesOther cap = false := by
  rcases concerns_iff.mp h with ⟨id, label, rfl⟩ | hcap
  · rfl
  · simp [namesOther, hcap]

/-- Two roots are the same to a capability. -/
structure Agrees (cap : Cap .session) (r r' : Root) : Prop where
  engine : r.engine = r'.engine
  caps : r.caps = r'.caps
  session : r.sessions.get? cap = r'.sessions.get? cap

theorem Agrees.refl (cap : Cap .session) (r : Root) : Agrees cap r r := ⟨rfl, rfl, rfl⟩

theorem Agrees.trans {q : Root} (h : Agrees cap r r') (h' : Agrees cap r' q) : Agrees cap r q :=
  ⟨h.engine.trans h'.engine, h.caps.trans h'.caps, h.session.trans h'.session⟩

theorem Agrees.perform (h : Agrees cap r r') (hop : op.concerns cap = true) :
    (r.perform op).1 = (r'.perform op).1 ∧
      Agrees cap (r.perform op).2.1 (r'.perform op).2.1 := by
  obtain ⟨engine, sessions, caps⟩ := r
  obtain ⟨engine', sessions', caps'⟩ := r'
  obtain ⟨rfl, rfl, hsession⟩ := h
  rcases Operation.concerns_iff.mp hop with ⟨id, label, rfl⟩ | hcap
  · refine ⟨perform_create_fst (by rfl) id label, ?_⟩
    by_cases hzero : caps.next = 0
    · rw [Root.perform, Root.perform, create_of_next_eq_zero hzero, create_of_next_eq_zero hzero]
      exact ⟨rfl, rfl, hsession⟩
    · rw [Root.perform, Root.perform, create_of_next_ne_zero hzero, create_of_next_ne_zero hzero]
      refine ⟨rfl, rfl, ?_⟩
      rw [SessionTable.get?_insert, SessionTable.get?_insert, hsession]
  · refine ⟨(perform_eq_of_get? hcap hsession).1, ?_⟩
    rcases perform_root_of_cap? hcap with hroot | hroot
    · rw [hroot, hroot]
      exact ⟨rfl, rfl, hsession⟩
    · rw [hroot, hroot]
      refine ⟨rfl, rfl, ?_⟩
      rw [SessionTable.get?_erase, SessionTable.get?_erase, hsession]

theorem Agrees.perform_other (r : Root) (hop : op.concerns cap = false) :
    Agrees cap (r.perform op).2.1 r := by
  cases hnamed : op.cap? with
  | none =>
    cases op with
    | create | close | session | invoke => contradiction
    | count => exact .refl cap r
  | some d =>
    have hne : cap ≠ d := by
      rintro rfl
      rw [Operation.concerns_iff.mpr (.inr hnamed)] at hop
      contradiction
    exact ⟨engine_perform r op, caps_perform_of_cap? hnamed r, get?_perform hnamed hne r⟩

/-- What does not matter to a capability may be left out of a run, also between roots that are only
the same to it. -/
theorem Agrees.answers_filter (ops : List Operation) (h : Agrees cap r r') :
    r.answers (·.concerns cap) ops = r'.answers (·.concerns cap) (ops.filter (·.concerns cap)) := by
  -- the roots go apart with every operation left out, and agree on the capability all along
  induction ops generalizing r r' with
  | nil => rfl
  | cons op ops ih =>
    rw [answers_cons]
    cases hop : op.concerns cap with
    | true =>
      obtain ⟨hanswer, hagrees⟩ := h.perform hop
      rw [List.filter_cons_of_pos hop, answers_cons, hop, hanswer, ih hagrees]
    | false =>
      have hagrees : Agrees cap (r.perform op).2.1 r' := (Agrees.perform_other r hop).trans h
      rw [List.filter_cons_of_neg (by simp [hop]), ih hagrees]
      rfl

theorem answers_eq_of_filter_eq {ops ops' : List Operation} (r : Root)
    (h : ops.filter (·.concerns cap) = ops'.filter (·.concerns cap)) :
    r.answers (·.concerns cap) ops = r.answers (·.concerns cap) ops' := by
  rw [(Agrees.refl cap r).answers_filter ops, (Agrees.refl cap r).answers_filter ops', h]

/-! ## Sessions apart -/

/-- **Operations that name different capabilities `Interchange`**, as `create` does with all that do
not name the new one; what `concerns cap` is answered alike without those on others. -/
theorem operations_isolated (r : Root) :
    (∀ a b c d, a.cap? = some c → b.cap? = some d → c ≠ d → r.Interchange a b) ∧
    (∀ id label b d, b.cap? = some d → (r.create id label).1 ≠ .ok d →
      r.Interchange (.create id label) b) ∧
    ∀ cap ops, r.answers (·.concerns cap) (ops.filter fun op => !op.namesOther cap) =
      r.answers (·.concerns cap) ops := by
  refine ⟨fun a b c d => interchange_of_ne, fun id label b d => interchange_create,
    fun cap ops => answers_eq_of_filter_eq r ?_⟩
  rw [List.filter_filter]
  refine List.filter_congr fun op _ => ?_
  cases hop : op.concerns cap with
  | true => rw [Operation.not_namesOther_of_concerns hop]; rfl
  | false => rfl

/-- A root with two sessions. Closing the first makes no difference to the second, and neither does
a third that is opened. -/
theorem operations_isolated_close :
    let r := Root.after { engine := .allowAll }
      [.create ⟨.nil⟩ "nic", .create ⟨.nil⟩ "gpu"]
    let invoke : Operation := .invoke ⟨2⟩ (.assignPci 7)
    r.Interchange (.close ⟨1⟩) invoke ∧
    ((r.create ⟨.nil⟩ "usb").1 = .ok ⟨3⟩ ∧ r.Interchange (.create ⟨.nil⟩ "usb") invoke) ∧
    r.answers (·.concerns ⟨2⟩) [.create ⟨.nil⟩ "usb", invoke] =
      r.answers (·.concerns ⟨2⟩) [.close ⟨1⟩, .create ⟨.nil⟩ "usb", .close ⟨3⟩, invoke] := by
  intro r invoke
  obtain ⟨hnamed, hcreate, hothers⟩ := operations_isolated r
  have hne : (r.create ⟨.nil⟩ "usb").1 ≠ .ok ⟨2⟩ := by
    show (.ok ⟨3⟩ : Except RootError (Cap .session)) ≠ .ok ⟨2⟩
    simp
  exact ⟨hnamed _ _ ⟨1⟩ ⟨2⟩ rfl rfl (by decide), ⟨rfl, hcreate _ _ _ ⟨2⟩ rfl hne⟩,
    hothers ⟨2⟩ [.close ⟨1⟩, .create ⟨.nil⟩ "usb", .close ⟨3⟩, invoke]⟩

end ProtectionDomain.Root
