import Mathlib.Order.Interval.Finset.Nat
import ProtectionDomain.Root.Operation

/-!
# Histories of session roots

What a root has done, and nothing else: the sessions that it opened, and which of them it closed.
The `n`-th session that it opens, counted from one, has the id `n`.

* `History`: the sessions opened and the ids closed so far; `History.live`: the ids that name a
  session;
* `History.perform`, `History.run`: what follows from the history for each operation;
* `session?_create`, `session?_close`: what opening and closing do to look-ups;
* `session?_run`, `closed_subset_run`: a live session stays as it is until it is closed, and a
  closed one stays closed.
-/

namespace ProtectionDomain

open Policy

/-- The sessions opened so far, the first one first, and the ids closed so far. -/
structure History where
  opened : List (SessionId × String) := []
  closed : Finset ℕ := ∅
  /-- No more sessions are opened than there are ids. -/
  opened_lt : opened.length < 2 ^ 64 := by exact Nat.two_pow_pos 64
  /-- Only ids that were issued are closed. -/
  closed_subset : closed ⊆ Finset.Icc 1 opened.length := by exact Finset.empty_subset _

namespace History

variable (h : History)

/-- The ids that were issued and not closed. -/
def live : Finset ℕ := Finset.Icc 1 h.opened.length \ h.closed

/-- The session that a capability names. -/
def session? (engine : Engine) (cap : Cap .session) : Option Session :=
  if cap.id.toNat ∈ h.live then
    h.opened[cap.id.toNat - 1]?.map fun (id, label) => ⟨id, label, engine⟩
  else none

/-- A session is opened under the next id. -/
def create (id : SessionId) (label : String) : Except RootError (Cap .session) × History :=
  if hlt : h.opened.length + 1 < 2 ^ 64 then
    (.ok ⟨UInt64.ofNat (h.opened.length + 1)⟩,
      { h with
        opened := h.opened ++ [(id, label)]
        opened_lt := by simpa using hlt
        closed_subset := h.closed_subset.trans
          (Finset.Icc_subset_Icc_right (by simp)) })
  else (.error (.capability .exhausted), h)

/-- A live id is closed. -/
def close (cap : Cap .session) : Except RootError Unit × History :=
  if hlive : cap.id.toNat ∈ h.live then
    (.ok (),
      { h with
        closed := insert cap.id.toNat h.closed
        closed_subset :=
          Finset.insert_subset (Finset.mem_sdiff.mp hlive).1 h.closed_subset })
  else (.error (.invalidSession cap.id), h)

/-- The session that a capability names, or the complaint that it names none. -/
def session (engine : Engine) (cap : Cap .session) : Except RootError Session :=
  match h.session? engine cap with
  | some s => .ok s
  | none => .error (.invalidSession cap.id)

/-- A device is granted to a live session if the engine allows it, asked with the session's own id
and label. -/
def invoke (engine : Engine) (cap : Cap .session) :
    Request → Except RootError Reply
  | .assignPci address => do
    let s ← h.session engine cap
    let context := { session := s.id, label := s.label, address := some address }
    return .assignPci (engine.evaluate .pciAssignment context = .allow)

/-- What an operation returns after a history, and the history after it. -/
def perform (engine : Engine) : Root.Operation → Root.Outcome × History
  | .create id label => (.ofExcept .created (h.create id label).1, (h.create id label).2)
  | .close cap => (.ofExcept (fun _ => .closed) (h.close cap).1, (h.close cap).2)
  | .session cap => (.ofExcept .session (h.session engine cap), h)
  | .invoke cap request => (.ofExcept .replied (h.invoke engine cap request), h)
  | .count => (.counted h.live.card, h)

/-- What operations return after a history, and the history after them. -/
def run (engine : Engine) : History → List Root.Operation → List Root.Outcome × History
  | h, [] => ([], h)
  | h, op :: ops =>
    let (outcome, h) := h.perform engine op
    let (outcomes, h) := run engine h ops
    (outcome :: outcomes, h)

/-- The history of a new root after operations. -/
def after (engine : Engine) (ops : List Root.Operation) : History := (run engine {} ops).2

/-! ## Look-ups -/

variable {h}

theorem create_of_lt (hlt : h.opened.length + 1 < 2 ^ 64) (id : SessionId) (label : String) :
    (h.create id label).1 = .ok ⟨UInt64.ofNat (h.opened.length + 1)⟩ ∧
      (h.create id label).2.opened = h.opened ++ [(id, label)] ∧
      (h.create id label).2.closed = h.closed := by
  rw [create, dif_pos hlt]
  exact ⟨rfl, rfl, rfl⟩

theorem create_of_le (hle : 2 ^ 64 ≤ h.opened.length + 1) (id : SessionId) (label : String) :
    h.create id label = (.error (.capability .exhausted), h) :=
  dif_neg (Nat.not_lt.mpr hle)

theorem close_of_mem_live {cap : Cap .session} (hlive : cap.id.toNat ∈ h.live) :
    (h.close cap).1 = .ok () ∧ (h.close cap).2.opened = h.opened ∧
      (h.close cap).2.closed = insert cap.id.toNat h.closed := by
  rw [close, dif_pos hlive]
  exact ⟨rfl, rfl, rfl⟩

theorem close_of_notMem_live {cap : Cap .session} (hdead : cap.id.toNat ∉ h.live) :
    h.close cap = (.error (.invalidSession cap.id), h) :=
  dif_neg hdead

theorem mem_live {n : ℕ} : n ∈ h.live ↔ (1 ≤ n ∧ n ≤ h.opened.length) ∧ n ∉ h.closed := by
  rw [live, Finset.mem_sdiff, Finset.mem_Icc]

theorem session_eq_ok_iff {engine : Engine} {cap : Cap .session} {s : Session} :
    h.session engine cap = .ok s ↔ h.session? engine cap = some s := by
  unfold session
  cases h.session? engine cap <;> simp

theorem session?_eq_none_iff {engine : Engine} {cap : Cap .session} :
    h.session? engine cap = none ↔ cap.id.toNat ∉ h.live := by
  unfold session?
  split
  · next hlive =>
    have hle := (mem_live.mp hlive).1
    rw [List.getElem?_eq_getElem (by omega)]
    simp [hlive]
  · next hlive => simp [hlive]

theorem next_notMem_live : h.opened.length + 1 ∉ h.live := fun hmem => by
  have := (mem_live.mp hmem).1
  omega

theorem next_notMem_closed : h.opened.length + 1 ∉ h.closed := fun hmem => by
  have := Finset.mem_Icc.mp (h.closed_subset hmem)
  omega

theorem session_eq_error_iff {engine : Engine} {cap : Cap .session} :
    h.session engine cap = .error (.invalidSession cap.id) ↔ cap.id.toNat ∉ h.live := by
  have hnone : cap.id.toNat ∉ h.live ↔ h.session? engine cap = none :=
    session?_eq_none_iff.symm
  rw [hnone]
  unfold session
  cases h.session? engine cap <;> simp

theorem engine_of_session {engine : Engine} {cap : Cap .session} {s : Session}
    (hs : h.session engine cap = .ok s) : s.engine = engine := by
  rw [session_eq_ok_iff, session?] at hs
  split at hs
  · obtain ⟨_, -, rfl⟩ := Option.map_eq_some_iff.mp hs
    rfl
  · contradiction

variable {id : SessionId} {label : String}

theorem live_create (hlt : h.opened.length + 1 < 2 ^ 64) :
    (h.create id label).2.live = insert (h.opened.length + 1) h.live := by
  obtain ⟨-, hopened, hclosed⟩ := create_of_lt hlt id label
  have hfresh := next_notMem_closed (h := h)
  ext n
  rw [Finset.mem_insert, mem_live, mem_live, hopened, hclosed, List.length_append,
    List.length_singleton]
  constructor
  · rintro ⟨hle, hn⟩
    by_cases hnext : n = h.opened.length + 1
    · exact Or.inl hnext
    · exact Or.inr ⟨by omega, hn⟩
  · rintro (rfl | ⟨hle, hn⟩)
    · exact ⟨by omega, hfresh⟩
    · exact ⟨by omega, hn⟩

theorem live_close {cap : Cap .session} (hlive : cap.id.toNat ∈ h.live) :
    (h.close cap).2.live = h.live.erase cap.id.toNat := by
  obtain ⟨-, hopened, hclosed⟩ := close_of_mem_live hlive
  ext n
  rw [Finset.mem_erase, mem_live, mem_live, hopened, hclosed, Finset.mem_insert, not_or]
  tauto

/-- The session that was just opened is found, and no other is lost. -/
theorem session?_create (hlt : h.opened.length + 1 < 2 ^ 64) (engine : Engine)
    (cap : Cap .session) :
    (h.create id label).2.session? engine cap =
      if cap.id.toNat = h.opened.length + 1 then some ⟨id, label, engine⟩
      else h.session? engine cap := by
  rw [session?, session?, live_create hlt, (create_of_lt hlt id label).2.1]
  by_cases hnext : cap.id.toNat = h.opened.length + 1
  · simp [hnext]
  · by_cases hlive : cap.id.toNat ∈ h.live
    · have hle := (mem_live.mp hlive).1
      have hlt : cap.id.toNat - 1 < h.opened.length := by omega
      simp [hnext, hlive, List.getElem?_append_left hlt]
    · simp [hnext, hlive]

theorem session?_close {cap : Cap .session} (hlive : cap.id.toNat ∈ h.live) (engine : Engine)
    (d : Cap .session) :
    (h.close cap).2.session? engine d = if d = cap then none else h.session? engine d := by
  have hid : d.id.toNat = cap.id.toNat ↔ d = cap := by
    rw [UInt64.toNat_inj, Cap.mk.injEq]
  rw [session?, session?, live_close hlive, (close_of_mem_live hlive).2.1]
  simp only [Finset.mem_erase, ne_eq, hid]
  by_cases hd : d = cap <;> simp [hd]

/-! ## Runs -/

variable {engine : Engine}

theorem run_append (h : History) (ops later : List Root.Operation) :
    (h.run engine (ops ++ later)).2 = ((h.run engine ops).2.run engine later).2 := by
  induction ops generalizing h with
  | nil => rfl
  | cons op ops ih => exact ih _

theorem session?_perform {cap : Cap .session} {s : Session} {op : Root.Operation}
    (hs : h.session? engine cap = some s) (hop : op ≠ .close cap) :
    (h.perform engine op).2.session? engine cap = some s := by
  cases op with
  | create id label =>
    by_cases hlt : h.opened.length + 1 < 2 ^ 64
    · have hne : cap.id.toNat ≠ h.opened.length + 1 := fun hnext => by
        have hdead := next_notMem_live (h := h)
        rw [← hnext] at hdead
        have hnone : h.session? engine cap = none := session?_eq_none_iff.mpr hdead
        rw [hs] at hnone
        contradiction
      exact (session?_create hlt engine cap).trans (by rw [if_neg hne, hs])
    · rwa [perform, create_of_le (Nat.not_lt.mp hlt)]
  | close d =>
    have hd : cap ≠ d := fun heq => hop (heq ▸ rfl)
    by_cases hlive : d.id.toNat ∈ h.live
    · exact (session?_close hlive engine cap).trans (by rw [if_neg hd, hs])
    · rwa [perform, close_of_notMem_live hlive]
  | session | invoke | count => exact hs

/-- A live session stays as it is until it is closed. -/
theorem session?_run {cap : Cap .session} {s : Session} {ops : List Root.Operation}
    (hs : h.session? engine cap = some s) (hops : .close cap ∉ ops) :
    (h.run engine ops).2.session? engine cap = some s := by
  induction ops generalizing h with
  | nil => exact hs
  | cons op ops ih =>
    rw [List.mem_cons, not_or] at hops
    exact ih (session?_perform hs (Ne.symm hops.1)) hops.2

theorem closed_subset_perform (op : Root.Operation) :
    h.closed ⊆ (h.perform engine op).2.closed := by
  cases op with
  | create id label =>
    by_cases hlt : h.opened.length + 1 < 2 ^ 64
    · exact (create_of_lt hlt id label).2.2.ge
    · rw [perform, create_of_le (Nat.not_lt.mp hlt)]
  | close cap =>
    by_cases hlive : cap.id.toNat ∈ h.live
    · exact (Finset.subset_insert _ _).trans (close_of_mem_live hlive).2.2.ge
    · rw [perform, close_of_notMem_live hlive]
  | session | invoke | count => exact subset_rfl

theorem closed_subset_run (ops : List Root.Operation) :
    h.closed ⊆ (h.run engine ops).2.closed := by
  induction ops generalizing h with
  | nil => exact subset_rfl
  | cons op ops ih => exact (closed_subset_perform op).trans ih

end History

end ProtectionDomain
