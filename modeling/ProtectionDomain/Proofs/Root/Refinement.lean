import ProtectionDomain.Proofs.Root.History

/-!
# Roots answer from their histories

* `Root.Records`: the root holds the sessions that are live in the history, and issues next what
  the history says;
* `Records.create`, `Records.close`, `Records.session`, `Records.invoke`: each operation of the
  root keeps it so, and returns what the history says;
* `Records.perform`, `Records.run`: so do operations one after the other;
* **`run_eq_history`**: over whole runs, a new root returns what its history says.
-/

namespace ProtectionDomain

open Policy

namespace Root

variable {r : Root} {h : History}

/-- The root after operations. -/
def after (r : Root) (ops : List Operation) : Root := (r.run ops).2.1

theorem create_of_next_ne_zero (hne : r.caps.next ≠ 0) (id : SessionId) (label : String) :
    r.create id label =
      (.ok ⟨r.caps.next⟩,
        { r with
          sessions := r.sessions.insert ⟨r.caps.next⟩ ⟨id, label, r.engine⟩
          caps := ⟨r.caps.next + 1⟩ },
        [.created id label ⟨r.caps.next⟩ r.engine.name (r.caps.next + 1 - 1)]) := by
  simp [create, Cap.Allocator.allocate, hne, Cap.Allocator.issued]

theorem create_of_next_eq_zero (hzero : r.caps.next = 0) (id : SessionId) (label : String) :
    r.create id label = (.error (.capability .exhausted), r, []) := by
  simp [create, Cap.Allocator.allocate, hzero]

/-- The root holds the sessions that are live in the history, and issues next what it says. -/
structure Records (r : Root) (h : History) : Prop where
  next : r.caps.next = UInt64.ofNat (h.opened.length + 1)
  sessions : ∀ cap, r.sessions.get? cap = h.session? r.engine cap
  size : r.sessions.size = h.live.card

theorem Records.new (engine : Engine) : Records { engine } {} where
  next := rfl
  sessions cap := by simp [SessionTable.get?, History.session?, History.live]
  size := by simp [SessionTable.size, History.live]

theorem Records.session (hr : r.Records h) (cap : Cap .session) :
    r.session cap = h.session r.engine cap := by
  rw [Root.session, History.session, hr.sessions]
  cases h.session? r.engine cap <;> rfl

theorem Records.toNat_next (hr : r.Records h) (hlt : h.opened.length + 1 < 2 ^ 64) :
    r.caps.next.toNat = h.opened.length + 1 := by
  have hmod : r.caps.next.toNat = (h.opened.length + 1) % 2 ^ 64 := by simp [hr.next]
  rw [hmod, Nat.mod_eq_of_lt hlt]

theorem Records.next_ne_zero (hr : r.Records h) (hlt : h.opened.length + 1 < 2 ^ 64) :
    r.caps.next ≠ 0 := fun hzero => by
  have hnext := hr.toNat_next hlt
  simp [hzero] at hnext

theorem Records.next_eq_zero (hr : r.Records h) (hle : 2 ^ 64 ≤ h.opened.length + 1) :
    r.caps.next = 0 := UInt64.toNat_inj.mp <| by
  have hlt := h.opened_lt
  have hmod : r.caps.next.toNat = (h.opened.length + 1) % 2 ^ 64 := by simp [hr.next]
  rw [hmod, UInt64.toNat_zero]
  omega

theorem Records.create (hr : r.Records h) (id : SessionId) (label : String) :
    (r.create id label).1 = (h.create id label).1 ∧
      (r.create id label).2.1.Records (h.create id label).2 := by
  by_cases hfull : h.opened.length + 1 < 2 ^ 64
  · have hnext := hr.toNat_next hfull
    have hnone : r.sessions.get? ⟨r.caps.next⟩ = none := by
      rw [hr.sessions, History.session?_eq_none_iff, hnext]
      exact History.next_notMem_live
    obtain ⟨hok, hopened, -⟩ := History.create_of_lt hfull id label
    rw [create_of_next_ne_zero (hr.next_ne_zero hfull), hok]
    refine ⟨by rw [hr.next], ?_, fun cap => ?_, ?_⟩
    · rw [hopened, List.length_append, List.length_singleton, UInt64.ofNat_add _ 1, ← hr.next]
      rfl
    · have hid : cap = ⟨r.caps.next⟩ ↔ cap.id.toNat = h.opened.length + 1 := by
        rw [← hnext, UInt64.toNat_inj, Cap.mk.injEq]
      simp only [SessionTable.get?_insert, History.session?_create hfull, hid, hr.sessions]
    · rw [SessionTable.size_insert hnone, History.live_create hfull,
        Finset.card_insert_of_notMem History.next_notMem_live, hr.size]
  · have hle := Nat.not_lt.mp hfull
    rw [create_of_next_eq_zero (hr.next_eq_zero hle), History.create_of_le hle]
    exact ⟨rfl, hr⟩

theorem Records.close (hr : r.Records h) (cap : Cap .session) :
    (r.close cap).1 = (h.close cap).1 ∧ (r.close cap).2.1.Records (h.close cap).2 := by
  unfold Root.close
  split
  · next hnone =>
    rw [hr.sessions, History.session?_eq_none_iff] at hnone
    rw [History.close_of_notMem_live hnone]
    exact ⟨rfl, hr⟩
  · next s hsome =>
    have hlive : cap.id.toNat ∈ h.live := by
      by_contra hdead
      rw [hr.sessions, History.session?_eq_none_iff.mpr hdead] at hsome
      contradiction
    obtain ⟨hok, hopened, -⟩ := History.close_of_mem_live hlive
    refine ⟨hok.symm, ?_, fun d => ?_, ?_⟩
    · rw [hopened, hr.next]
    · simp only [SessionTable.get?_erase, History.session?_close hlive, hr.sessions]
    · have hsize := SessionTable.size_erase hsome
      rw [hr.size, ← Finset.card_erase_add_one hlive] at hsize
      simpa [History.live_close hlive] using hsize

theorem Records.invoke (hr : r.Records h) (cap : Cap .session) (request : Request) :
    (r.invoke cap request).1 = h.invoke r.engine cap request := by
  obtain ⟨address⟩ := request
  have hallow : ∀ d : Decision, d.isAllow = decide (d = .allow) := by
    intro d
    cases d <;> simp [Decision.isAllow]
  unfold Root.invoke History.invoke
  rw [hr.session]
  cases hs : h.session r.engine cap with
  | error e => rfl
  | ok s =>
    simp only [Session.assignPci, Session.mayAssign, Session.decide, Context.withAddress, hallow,
      History.engine_of_session hs]
    rfl

/-- An operation returns what the history says, and is recorded. -/
theorem Records.perform (hr : r.Records h) (op : Operation) :
    (r.perform op).1 = (h.perform r.engine op).1 ∧
      (r.perform op).2.1.Records (h.perform r.engine op).2 := by
  cases op with
  | create id label =>
    have hcreate := hr.create id label
    exact ⟨congrArg (Outcome.ofExcept .created) hcreate.1, hcreate.2⟩
  | close cap =>
    have hclose := hr.close cap
    exact ⟨congrArg (Outcome.ofExcept _) hclose.1, hclose.2⟩
  | session cap => exact ⟨congrArg (Outcome.ofExcept .session) (hr.session cap), hr⟩
  | invoke cap request => exact ⟨congrArg (Outcome.ofExcept .replied) (hr.invoke cap request), hr⟩
  | count => exact ⟨congrArg Outcome.counted hr.size, hr⟩

@[simp] theorem engine_perform (r : Root) (op : Operation) :
    (r.perform op).2.1.engine = r.engine := by
  cases op with
  | create id label =>
    simp only [Root.perform, Root.create]
    split <;> rfl
  | close cap =>
    simp only [Root.perform, Root.close]
    split <;> rfl
  | session | invoke | count => rfl

theorem Records.run (hr : r.Records h) (ops : List Operation) :
    (r.run ops).1 = (h.run r.engine ops).1 ∧ (r.after ops).Records (h.run r.engine ops).2 := by
  induction ops generalizing r h with
  | nil => exact ⟨rfl, hr⟩
  | cons op ops ih =>
    obtain ⟨houtcome, hrecords⟩ := hr.perform op
    obtain ⟨houtcomes, hrecords⟩ := ih hrecords
    rw [engine_perform] at houtcomes hrecords
    exact ⟨congrArg₂ List.cons houtcome houtcomes, hrecords⟩

theorem engine_after (r : Root) (ops : List Operation) : (r.after ops).engine = r.engine := by
  induction ops generalizing r with
  | nil => rfl
  | cons op ops ih => exact (ih _).trans (engine_perform r op)

/-- **A root returns what `History.run` returns**: its sessions are those of `History.session`, each
lives until `close`, and a closed capability is invalid for good. -/
theorem run_eq_history (engine : Engine) (ops later : List Operation) :
    (run { engine } ops).1 = (History.run engine {} ops).1 ∧
      (after { engine } ops).count = (History.after engine ops).live.card ∧
      (∀ cap, (after { engine } ops).session cap = (History.after engine ops).session engine cap) ∧
      (∀ cap s, (after { engine } ops).session cap = .ok s →
        (after { engine } (ops ++ later)).session cap = .ok s ∨ .close cap ∈ later) ∧
      ∀ cap, cap.id.toNat ∈ (History.after engine ops).closed →
        (after { engine } (ops ++ later)).session cap = .error (.invalidSession cap.id) := by
  have hnow := (Records.new engine).run ops
  have hthen := ((Records.new engine).run (ops ++ later)).2
  have hsession : ∀ cap, (after { engine } (ops ++ later)).session cap =
      ((History.after engine ops).run engine later).2.session engine cap := fun cap => by
    rw [hthen.session, engine_after, History.run_append]
    rfl
  refine ⟨hnow.1, hnow.2.size, fun cap => ?_, fun cap s hs => ?_, fun cap hclosed => ?_⟩
  · rw [hnow.2.session, engine_after]
    rfl
  · rw [hnow.2.session, engine_after] at hs
    by_cases hlater : .close cap ∈ later
    · exact Or.inr hlater
    · refine Or.inl ?_
      rw [hsession, History.session_eq_ok_iff]
      exact History.session?_run (History.session_eq_ok_iff.mp hs) hlater
  · rw [hsession, History.session_eq_error_iff]
    intro hlive
    exact (History.mem_live.mp hlive).2 (History.closed_subset_run later hclosed)

end Root

end ProtectionDomain
