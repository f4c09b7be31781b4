import ProtectionDomain.Proofs.Root.Refinement

/-!
# One operation at a time

What an operation returns and what it leaves behind, in any state of a root, reachable or not.

* `Operation.cap?`, `Operation.isCreate`: the capability that an operation names, and the operations
  that ask for a new one;
* `close_of_live`, `close_of_dead` and the like: the two ways in which an operation that names a
  capability goes;
* `close_root`, `perform_root`: what closing leaves behind, and what any operation does;
* `perform_eq_of_get?`, `perform_root_of_cap?`: what an operation that names a capability looks at,
  and what it leaves behind;
* `run_cons`, `Root.answers`, `answers_cons`: operations one after the other, and what those of one
  sort return among others.
-/

namespace ProtectionDomain.Root

/-! ## Operations -/

/-- The capability that an operation names. -/
def Operation.cap? : Operation → Option (Cap .session)
  | .create .. => none
  | .close cap => some cap
  | .session cap => some cap
  | .invoke cap _ => some cap
  | .count => none

/-- The operation asks for a new session. -/
def Operation.isCreate : Operation → Bool
  | .create .. => true
  | _ => false

/-! ## Live and dead capabilities -/

section

variable {r : Root} {cap : Cap .session}

theorem close_of_dead (h : r.sessions.get? cap = none) :
    r.close cap = (.error (.invalidSession cap.id), r, []) := by
  rw [close, h]

theorem close_of_live {s : Session} (h : r.sessions.get? cap = some s) :
    r.close cap =
      (.ok (), { r with sessions := r.sessions.erase cap }, [.closed s.id s.label]) := by
  rw [close, h]

theorem session_of_dead (h : r.sessions.get? cap = none) :
    r.session cap = .error (.invalidSession cap.id) := by
  rw [session, h]

theorem session_of_live {s : Session} (h : r.sessions.get? cap = some s) :
    r.session cap = .ok s := by
  rw [session, h]

theorem invoke_of_dead (h : r.sessions.get? cap = none) (request : Request) :
    r.invoke cap request =
      (.error (.invalidSession cap.id), [.rejected request (.invalidSession cap.id)]) := by
  unfold invoke
  rw [session_of_dead h]

theorem invoke_of_live {s : Session} (h : r.sessions.get? cap = some s) (address : UInt64) :
    r.invoke cap (.assignPci address) =
      (.ok (.assignPci (s.mayAssign address)), (s.assignPci address).2) := by
  unfold invoke
  rw [session_of_live h]
  rfl

theorem close_root (r : Root) (cap : Cap .session) :
    (r.close cap).2.1 = { r with sessions := r.sessions.erase cap } := by
  cases h : r.sessions.get? cap with
  | none => rw [close_of_dead h, SessionTable.erase_of_get?_eq_none h]
  | some s => rw [close_of_live h]

end

/-! ## What an operation does -/

/-- An operation opens a session, closes one, or leaves the root as it was. -/
theorem perform_root (r : Root) (op : Operation) :
    (∃ id label, op = .create id label ∧ r.caps.next ≠ 0 ∧
      (r.perform op).1 = .created ⟨r.caps.next⟩ ∧
      (r.perform op).2.1 = { r with
        sessions := r.sessions.insert ⟨r.caps.next⟩ ⟨id, label, r.engine⟩
        caps := ⟨r.caps.next + 1⟩ }) ∨
    (∃ cap s, op = .close cap ∧ r.sessions.get? cap = some s ∧ (r.perform op).1 = .closed ∧
      (r.perform op).2.1 = { r with sessions := r.sessions.erase cap }) ∨
    (r.perform op).2.1 = r := by
  cases op with
  | create id label =>
    by_cases hzero : r.caps.next = 0
    · exact .inr (.inr (by rw [perform, create_of_next_eq_zero hzero]))
    · refine .inl ⟨id, label, rfl, hzero, ?_⟩
      rw [perform, create_of_next_ne_zero hzero]
      exact ⟨rfl, rfl⟩
  | close cap =>
    cases hcap : r.sessions.get? cap with
    | none => exact .inr (.inr (by rw [perform, close_of_dead hcap]))
    | some s =>
      refine .inr (.inl ⟨cap, s, rfl, hcap, ?_⟩)
      rw [perform, close_of_live hcap]
      exact ⟨rfl, rfl⟩
  | session | invoke | count => exact .inr (.inr rfl)

/-- An operation that names a capability looks at the session under it, and at nothing else. -/
theorem perform_eq_of_get? {r r' : Root} {op : Operation} {cap : Cap .session}
    (hop : op.cap? = some cap) (h : r.sessions.get? cap = r'.sessions.get? cap) :
    (r.perform op).1 = (r'.perform op).1 ∧ (r.perform op).2.2 = (r'.perform op).2.2 := by
  have hsession : r.session cap = r'.session cap := by rw [session, session, h]
  cases op with
  | create | count => contradiction
  | close c =>
    obtain rfl := Option.some.inj hop
    rw [perform, perform, close, close, h]
    cases r'.sessions.get? c <;> exact ⟨rfl, rfl⟩
  | session c =>
    obtain rfl := Option.some.inj hop
    exact ⟨congrArg (Outcome.ofExcept .session) hsession, rfl⟩
  | invoke c request =>
    obtain rfl := Option.some.inj hop
    have hinvoke : r.invoke c request = r'.invoke c request := by
      unfold invoke
      rw [hsession]
    rw [perform, perform, hinvoke]
    exact ⟨rfl, rfl⟩

theorem perform_root_of_cap? {op : Operation} {cap : Cap .session} (hop : op.cap? = some cap) :
    (∀ r, (perform r op).2.1 = r) ∨
      ∀ r, (perform r op).2.1 = { r with sessions := r.sessions.erase cap } := by
  cases op with
  | create | count => contradiction
  | close c =>
    obtain rfl := Option.some.inj hop
    exact .inr fun r => r.close_root c
  | session | invoke => exact .inl fun _ => rfl

/-! ## Runs and answers -/

theorem run_cons (r : Root) (op : Operation) (ops : List Operation) :
    r.run (op :: ops) =
      ((r.perform op).1 :: ((r.perform op).2.1.run ops).1, ((r.perform op).2.1.run ops).2.1,
        (r.perform op).2.2 ++ ((r.perform op).2.1.run ops).2.2) :=
  rfl

/-- What the operations of one sort return among others. -/
def answers (r : Root) (sort : Operation → Bool) (ops : List Operation) : List Outcome :=
  ((ops.zip (r.run ops).1).filter fun e => sort e.1).map (·.2)

theorem answers_cons (r : Root) (sort : Operation → Bool) (op : Operation)
    (ops : List Operation) :
    r.answers sort (op :: ops) =
      (if sort op then [(r.perform op).1] else []) ++ (r.perform op).2.1.answers sort ops := by
  cases hop : sort op <;> simp [answers, run_cons, hop]

end ProtectionDomain.Root
