import ProtectionDomain.Proofs.Root.Step

/-!
# Failures and exhaustion

An operation that fails leaves the root as it was. A root that has issued its last capability opens
no more sessions, and serves those that it has like any other.

* `perform_failed`: a failure changes nothing;
* `create_eq_error_iff`, `close_eq_error_iff`, `session_eq_error_iff`, `invoke_eq_error_iff`: when
  an operation fails, and how;
* `caps_perform`, `sessions_perform`: which operations leave the issuer and the sessions as they
  are;
* `Root.withCaps`, `perform_withCaps`: only opening a session looks at the issuer;
* `answers_isCreate_of_exhausted`, `run_withCaps_of_exhausted`: runs of an exhausted root;
* **`failures_harmless`**: all of this for every state of a root.
-/

namespace ProtectionDomain.Root

variable {r : Root}

/-! ## Failures -/

/-- A failure changes nothing. -/
theorem perform_failed {op : Operation} {e : RootError} (h : (r.perform op).1 = .failed e) :
    (r.perform op).2.1 = r := by
  rcases perform_root r op with ⟨_, _, _, _, hcreated, _⟩ | ⟨_, _, _, _, hclosed, _⟩ | hroot
  · rw [hcreated] at h
    contradiction
  · rw [hclosed] at h
    contradiction
  · exact hroot

theorem create_eq_error_iff {id : SessionId} {label : String} {e : RootError} :
    (r.create id label).1 = .error e ↔ r.caps.next = 0 ∧ e = .capability .exhausted := by
  by_cases hzero : r.caps.next = 0
  · simp [create_of_next_eq_zero hzero, hzero, eq_comm]
  · simp [create_of_next_ne_zero hzero, hzero]

section

variable {cap : Cap .session} {e : RootError}

theorem close_eq_error_iff :
    (r.close cap).1 = .error e ↔ r.sessions.get? cap = none ∧ e = .invalidSession cap.id := by
  cases hcap : r.sessions.get? cap with
  | none => simp [close_of_dead hcap, eq_comm]
  | some s => simp [close_of_live hcap]

theorem session_eq_error_iff :
    r.session cap = .error e ↔ r.sessions.get? cap = none ∧ e = .invalidSession cap.id := by
  cases hcap : r.sessions.get? cap with
  | none => simp [session_of_dead hcap, eq_comm]
  | some s => simp [session_of_live hcap]

theorem invoke_eq_error_iff {request : Request} :
    (r.invoke cap request).1 = .error e ↔
      r.sessions.get? cap = none ∧ e = .invalidSession cap.id := by
  obtain ⟨address⟩ := request
  cases hcap : r.sessions.get? cap with
  | none => simp [invoke_of_dead hcap, eq_comm]
  | some s => simp [invoke_of_live hcap]

end

/-! ## Changes -/

theorem caps_perform (r : Root) (op : Operation) :
    (r.perform op).2.1.caps = r.caps ∨
      op.isCreate = true ∧ ∃ cap, (r.perform op).1 = .created cap := by
  rcases perform_root r op with ⟨_, _, rfl, _, hcreated, _⟩ | ⟨_, _, _, _, _, hroot⟩ | hroot
  · exact .inr ⟨rfl, _, hcreated⟩
  · exact .inl (by rw [hroot])
  · exact .inl (by rw [hroot])

theorem sessions_perform (r : Root) (op : Operation) :
    (r.perform op).2.1.sessions = r.sessions ∨
      (op.isCreate = true ∧ ∃ cap, (r.perform op).1 = .created cap) ∨
      ∃ cap, op = .close cap ∧ (r.perform op).1 = .closed := by
  rcases perform_root r op with
    ⟨_, _, rfl, _, hcreated, _⟩ | ⟨cap, _, rfl, _, hclosed, _⟩ | hroot
  · exact .inr (.inl ⟨rfl, _, hcreated⟩)
  · exact .inr (.inr ⟨cap, rfl, hclosed⟩)
  · exact .inl (by rw [hroot])

theorem close_eq_ok {cap : Cap .session} (h : (r.close cap).1 = .ok ()) :
    (∃ s, r.sessions.get? cap = some s) ∧
      (∀ d, (r.close cap).2.1.sessions.get? d = if d = cap then none else r.sessions.get? d) ∧
      (r.close cap).2.1.sessions.size + 1 = r.sessions.size := by
  cases hcap : r.sessions.get? cap with
  | none =>
    rw [close_of_dead hcap] at h
    contradiction
  | some s =>
    rw [close_root]
    exact ⟨⟨s, rfl⟩, r.sessions.get?_erase cap, SessionTable.size_erase hcap⟩

/-! ## Exhaustion -/

/-- The root with another issuer of capabilities. -/
def withCaps (r : Root) (caps : Cap.Allocator) : Root := { r with caps }

/-- Only opening a session looks at the issuer. -/
theorem perform_withCaps (r : Root) (caps : Cap.Allocator) {op : Operation}
    (hop : op.isCreate = false) :
    (r.withCaps caps).perform op =
      ((r.perform op).1, (r.perform op).2.1.withCaps caps, (r.perform op).2.2) := by
  cases op with
  | create => contradiction
  | close cap =>
    have hsame : (r.withCaps caps).sessions = r.sessions := rfl
    rw [perform, perform, close, close, hsame]
    cases r.sessions.get? cap <;> rfl
  | session | invoke | count => rfl

variable (hzero : r.caps.next = 0)

include hzero

theorem perform_create_of_exhausted {op : Operation} (hop : op.isCreate = true) :
    r.perform op = (.failed (.capability .exhausted), r, []) := by
  cases op with
  | create id label =>
    rw [perform, create_of_next_eq_zero hzero]
    rfl
  | close | session | invoke | count => contradiction

theorem exhausted_perform (op : Operation) : (r.perform op).2.1.caps.next = 0 := by
  rcases perform_root r op with ⟨_, _, _, hne, _⟩ | ⟨_, _, _, _, _, hroot⟩ | hroot
  · exact absurd hzero hne
  · rw [hroot]
    exact hzero
  · rw [hroot]
    exact hzero

theorem exhausted_after (ops : List Operation) : (r.after ops).caps.next = 0 := by
  induction ops generalizing r with
  | nil => exact hzero
  | cons op ops ih => exact ih (exhausted_perform hzero op)

theorem answers_isCreate_of_exhausted (ops : List Operation) :
    r.answers Operation.isCreate ops =
      List.replicate (ops.countP Operation.isCreate) (.failed (.capability .exhausted)) := by
  induction ops generalizing r with
  | nil => rfl
  | cons op ops ih =>
    rw [answers_cons, ih (exhausted_perform hzero op)]
    by_cases hop : op.isCreate = true
    · rw [if_pos hop, List.countP_cons_of_pos hop, perform_create_of_exhausted hzero hop]
      rfl
    · rw [if_neg hop, List.countP_cons_of_neg hop]
      rfl

/-- An exhausted root serves its sessions like a root with any other issuer. Attempts to open one
leave no trace. -/
theorem run_withCaps_of_exhausted (caps : Cap.Allocator) (ops : List Operation) :
    (r.withCaps caps).run (ops.filter fun op => !op.isCreate) =
      (r.answers (fun op => !op.isCreate) ops, (r.after ops).withCaps caps,
        (r.run ops).2.2) := by
  induction ops generalizing r with
  | nil => rfl
  | cons op ops ih =>
    have htail := ih (exhausted_perform hzero op)
    rw [answers_cons]
    by_cases hop : op.isCreate = true
    · have hperform := perform_create_of_exhausted hzero hop
      have hafter : r.after (op :: ops) = r.after ops :=
        congrArg (fun x => x.2.1.after ops) hperform
      rw [hperform] at htail ⊢
      rw [List.filter_cons_of_neg (by simp [hop]), htail, run_cons, hperform, hafter]
      simp [hop]
    · rw [Bool.not_eq_true] at hop
      rw [List.filter_cons_of_pos (by simp [hop]), run_cons, perform_withCaps r caps hop, htail,
        run_cons]
      simp [hop, after, run_cons]

omit hzero

/-- **A failed operation leaves any root as it was, and says why.** With `caps.next = 0` no session
is created any more, and all else goes as `withCaps` of any other issuer. -/
theorem failures_harmless (r : Root) :
    (∀ op e, (r.perform op).1 = .failed e → (r.perform op).2.1 = r) ∧
    (∀ id label e, (r.create id label).1 = .error e ↔
      r.caps.next = 0 ∧ e = .capability .exhausted) ∧
    (∀ cap e, (r.close cap).1 = .error e ↔
      r.sessions.get? cap = none ∧ e = .invalidSession cap.id) ∧
    (∀ cap e, r.session cap = .error e ↔
      r.sessions.get? cap = none ∧ e = .invalidSession cap.id) ∧
    (∀ cap request e, (r.invoke cap request).1 = .error e ↔
      r.sessions.get? cap = none ∧ e = .invalidSession cap.id) ∧
    (∀ op, (r.perform op).2.1.caps = r.caps ∨
      op.isCreate = true ∧ ∃ cap, (r.perform op).1 = .created cap) ∧
    (∀ op, (r.perform op).2.1.sessions = r.sessions ∨
      (op.isCreate = true ∧ ∃ cap, (r.perform op).1 = .created cap) ∨
      ∃ cap, op = .close cap ∧ (r.perform op).1 = .closed) ∧
    (∀ cap, (r.close cap).1 = .ok () →
      (∃ s, r.sessions.get? cap = some s) ∧
      (∀ d, (r.close cap).2.1.sessions.get? d = if d = cap then none else r.sessions.get? d) ∧
      (r.close cap).2.1.sessions.size + 1 = r.sessions.size) ∧
    (r.caps.next = 0 → ∀ ops,
      (r.after ops).caps.next = 0 ∧
      r.answers Operation.isCreate ops =
        List.replicate (ops.countP Operation.isCreate) (.failed (.capability .exhausted)) ∧
      ∀ caps : Cap.Allocator,
        (∀ op, op.isCreate = false →
          (((r.after ops).withCaps caps).perform op).1 = ((r.after ops).perform op).1) ∧
        (r.withCaps caps).run (ops.filter fun op => !op.isCreate) =
          (r.answers (fun op => !op.isCreate) ops, (r.after ops).withCaps caps,
            (r.run ops).2.2)) := by
  refine ⟨fun _ _ => perform_failed, fun _ _ _ => create_eq_error_iff,
    fun _ _ => close_eq_error_iff, fun _ _ => session_eq_error_iff,
    fun _ _ _ => invoke_eq_error_iff, caps_perform r, sessions_perform r, fun _ => close_eq_ok,
    fun hzero ops => ⟨exhausted_after hzero ops, answers_isCreate_of_exhausted hzero ops,
      fun caps => ⟨fun op hop => ?_, run_withCaps_of_exhausted hzero caps ops⟩⟩⟩
  rw [perform_withCaps _ caps hop]

/-- A root with a single session and no capability left. The session is closed, and no other takes
its place. -/
theorem failures_harmless_last :
    let r : Root :=
      { engine := .allowAll, sessions := SessionTable.insert {} ⟨5⟩ ⟨⟨.nil⟩, "nic", .denyAll⟩,
        caps := ⟨0⟩ }
    let ops : List Operation := [.close ⟨5⟩, .create ⟨.nil⟩ "gpu", .invoke ⟨5⟩ (.assignPci 7)]
    ((r.perform (.close ⟨6⟩)).1 = .failed (.invalidSession 6) ∧
      (r.perform (.close ⟨6⟩)).2.1 = r) ∧
    ((r.close ⟨5⟩).1 = .ok () ∧ (r.close ⟨5⟩).2.1.sessions.size + 1 = 1) ∧
    r.caps.next = 0 ∧ r.answers Operation.isCreate ops = [.failed (.capability .exhausted)] ∧
    ((r.withCaps ⟨9⟩).run [.close ⟨5⟩, .invoke ⟨5⟩ (.assignPci 7)]).2.1 =
      (r.after ops).withCaps ⟨9⟩ := by
  intro r ops
  obtain ⟨hfailed, -, -, -, -, -, -, hclose, hexhausted⟩ := failures_harmless r
  obtain ⟨-, hcreates, hothers⟩ := hexhausted rfl ops
  refine ⟨⟨rfl, hfailed _ _ rfl⟩, ⟨rfl, (hclose ⟨5⟩ rfl).2.2⟩, rfl, hcreates, ?_⟩
  exact congrArg (·.2.1) (hothers ⟨9⟩).2

end ProtectionDomain.Root
