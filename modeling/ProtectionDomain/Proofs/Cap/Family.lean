import Mathlib.Algebra.Group.Nat.Defs
import ProtectionDomain.Cap.Allocator

/-!
# Allocators over whole runs

Allocators are made, cloned and asked for ids in any order. Each of them, looked at alone, issues
the ids from its first one to the largest, and none after that.

* `Allocator.answer`: what an allocator answers to one request after the other;
* `Family.run`, `Family.answers`: a run of a family, and what one member answers in it;
* `allocate_of_eq_zero`, `allocate_of_ne_zero`: the two ways in which a request goes;
* `step_allocate`, `getElem?_step`: what a step does to the member that it names, and to any other;
* `answers_run`, `issued_run`: what a run does to a member;
* **`answers_after`**: so it is in every family that grows out of a single allocator.
-/

namespace ProtectionDomain.Cap

/-! ## Requests -/

namespace Allocator

variable (a : Allocator)

/-- The answer to a request after `n` others: the id that lies `n` behind the first one, as long as
there is such an id. -/
def answer (n : ℕ) : Family.Outcome :=
  if a.next ≠ 0 ∧ a.next.toNat + n < 2 ^ 64 then .issued (UInt64.ofNat (a.next.toNat + n))
  else .failed .exhausted

variable {a}

theorem allocate_of_eq_zero (h : a.next = 0) (target : ObjectKind) :
    a.allocate target = .error .exhausted := by
  rw [allocate, if_pos h]

theorem allocate_of_ne_zero (h : a.next ≠ 0) (target : ObjectKind) :
    a.allocate target = .ok (⟨a.next⟩, ⟨a.next + 1⟩) := by
  rw [allocate, if_neg h]

theorem issued_succ (h : a.next ≠ 0) : a.issued.toNat + 1 = a.next.toNat := by
  have hpos : a.next.toNat ≠ 0 := fun hzero => h (UInt64.toNat_inj.mp hzero)
  have hle : (1 : UInt64) ≤ a.next := by
    rw [UInt64.le_iff_toNat_le]
    show 1 ≤ a.next.toNat
    omega
  have hsub : a.issued.toNat = a.next.toNat - 1 := UInt64.toNat_sub_of_le _ _ hle
  omega

theorem issued_mk_succ (n : UInt64) : (⟨n + 1⟩ : Allocator).issued = n :=
  UInt64.add_sub_cancel n 1

theorem answer_zero_of_ne_zero (h : a.next ≠ 0) : a.answer 0 = .issued a.next := by
  have hlt : a.next.toNat < 2 ^ 64 := a.next.toNat_lt
  rw [answer, if_pos ⟨h, hlt⟩, Nat.add_zero, UInt64.ofNat_toNat]

theorem answer_of_eq_zero (h : a.next = 0) (n : ℕ) : a.answer n = .failed .exhausted :=
  if_neg fun hne => hne.1 h

theorem answer_succ (h : a.next ≠ 0) (n : ℕ) :
    a.answer (n + 1) = (⟨a.next + 1⟩ : Allocator).answer n := by
  have hlt : a.next.toNat < 2 ^ 64 := a.next.toNat_lt
  have hsucc : (a.next + 1).toNat = (a.next.toNat + 1) % 2 ^ 64 := UInt64.toNat_add a.next 1
  by_cases hlast : a.next.toNat + 1 = 2 ^ 64
  · have hzero : a.next + 1 = 0 := UInt64.toNat_inj.mp (by rw [hsucc, hlast]; rfl)
    rw [answer_of_eq_zero hzero, answer, if_neg]
    omega
  · rw [Nat.mod_eq_of_lt (by omega)] at hsucc
    have hne : a.next + 1 ≠ 0 := fun hzero => by
      rw [hzero] at hsucc
      exact Nat.succ_ne_zero _ hsucc.symm
    have hsum : a.next.toNat + (n + 1) = (a.next + 1).toNat + n := by omega
    simp only [answer, h, hne, hsum, ne_eq, not_false_eq_true, true_and]

end Allocator

/-! ## Runs -/

namespace Family

/-- Steps one after the other: what they give, and the family after them. -/
def run (f : Family) : List Step → List Outcome × Family
  | [] => ([], f)
  | step :: steps =>
    let (outcome, f) := f.step step
    let (outcomes, f) := run f steps
    (outcome :: outcomes, f)

/-- The family after steps. -/
def after (f : Family) (steps : List Step) : Family := (f.run steps).2

/-- What a member answers to the requests among steps. -/
def answers (f : Family) (member : ℕ) (steps : List Step) : List Outcome :=
  ((steps.zip (f.run steps).1).filter fun e => e.1 = .allocate member).map (·.2)

/-- An id is given. -/
def Outcome.isIssued : Outcome → Bool
  | issued _ => true
  | _ => false

/-- The number of ids among outcomes. -/
def successes (outcomes : List Outcome) : ℕ := outcomes.countP Outcome.isIssued

variable {f : Family} {member : ℕ} {a : Allocator}

/-- A request that the member can answer gives its next id, and else the family stays as it is. -/
theorem step_allocate (h : f[member]? = some a) :
    f.step (.allocate member) =
      if a.next = 0 then (.failed .exhausted, f)
      else (.issued a.next, f.set member ⟨a.next + 1⟩) := by
  by_cases hzero : a.next = 0
  · simp only [step, h, Allocator.allocate_of_eq_zero hzero, if_pos hzero]
  · simp only [step, h, Allocator.allocate_of_ne_zero hzero, if_neg hzero]

/-- A member is changed by requests to itself only. -/
theorem getElem?_step (h : f[member]? = some a) {s : Step} (hs : s ≠ .allocate member) :
    (f.step s).2[member]? = some a := by
  have hlt : member < f.length := (List.getElem?_eq_some_iff.mp h).1
  cases s with
  | new => rw [step, List.getElem?_append_left hlt, h]
  | clone other =>
    simp only [step]
    split
    · exact h
    · rw [List.getElem?_append_left hlt, h]
  | allocate other =>
    have hne : other ≠ member := fun heq => hs (heq ▸ rfl)
    simp only [step]
    split
    · exact h
    · split
      · exact h
      · rw [List.getElem?_set_ne hne, h]

theorem answers_cons (s : Step) (steps : List Step) :
    f.answers member (s :: steps) =
      (if s = .allocate member then [(f.step s).1] else []) ++
        (f.step s).2.answers member steps := by
  by_cases hs : s = .allocate member <;> simp [answers, run, hs]

/-- Looked at alone, a member issues one id after the other, and none after the largest. -/
theorem answers_run (h : f[member]? = some a) (steps : List Step) :
    f.answers member steps =
      (List.range (steps.count (.allocate member))).map a.answer := by
  induction steps generalizing f a with
  | nil => rfl
  | cons s steps ih =>
    rw [answers_cons]
    by_cases hs : s = .allocate member
    · subst hs
      have hlt : member < f.length := (List.getElem?_eq_some_iff.mp h).1
      rw [if_pos rfl, step_allocate h, List.count_cons_self, List.range_succ_eq_map, List.map_cons,
        List.map_map]
      split
      · next hzero =>
        rw [ih h, Allocator.answer_of_eq_zero hzero]
        refine congrArg _ (List.map_congr_left fun n _ => ?_)
        rw [Function.comp, Allocator.answer_of_eq_zero hzero, Allocator.answer_of_eq_zero hzero]
      · next hne =>
        rw [ih (List.getElem?_set_self hlt), Allocator.answer_zero_of_ne_zero hne]
        exact congrArg _ (List.map_congr_left fun n _ => (Allocator.answer_succ hne n).symm)
    · rw [if_neg hs, List.nil_append, List.count_cons_of_ne hs, ih (getElem?_step h hs)]

/-- A member has issued one id more for each request that it met. -/
theorem issued_run (h : f[member]? = some a) (steps : List Step) :
    ∃ b, (f.after steps)[member]? = some b ∧
      b.issued.toNat = a.issued.toNat + successes (f.answers member steps) := by
  induction steps generalizing f a with
  | nil => exact ⟨a, h, rfl⟩
  | cons s steps ih =>
    show ∃ b, ((f.step s).2.after steps)[member]? = some b ∧ _
    rw [answers_cons]
    by_cases hs : s = .allocate member
    · subst hs
      have hlt : member < f.length := (List.getElem?_eq_some_iff.mp h).1
      rw [if_pos rfl, step_allocate h]
      split
      · obtain ⟨b, hb, hissued⟩ := ih h
        exact ⟨b, hb, hissued⟩
      · next hne =>
        obtain ⟨b, hb, hissued⟩ := ih (List.getElem?_set_self hlt (a := ⟨a.next + 1⟩))
        refine ⟨b, hb, ?_⟩
        rw [hissued, Allocator.issued_mk_succ, ← Allocator.issued_succ hne]
        simp only [successes, List.singleton_append, List.countP_cons, Outcome.isIssued]
        simp only [if_true]
        omega
    · obtain ⟨b, hb, hissued⟩ := ih (getElem?_step h hs)
      rw [if_neg hs]
      exact ⟨b, hb, hissued⟩

theorem step_ne_issued_zero (f : Family) (s : Step) : (f.step s).1 ≠ .issued 0 := by
  cases s with
  | new => exact fun h => nomatch h
  | clone other =>
    simp only [step]
    split <;> exact fun h => nomatch h
  | allocate other =>
    cases h : f[other]? with
    | none =>
      simp only [step, h]
      exact fun h => nomatch h
    | some a =>
      rw [step_allocate h]
      split
      · exact fun h => nomatch h
      · next hne => exact fun heq => hne (Outcome.issued.inj heq)

theorem issued_zero_notMem_run (f : Family) (steps : List Step) :
    .issued 0 ∉ (f.run steps).1 := by
  induction steps generalizing f with
  | nil => exact List.not_mem_nil
  | cons s steps ih =>
    intro hmem
    rcases List.mem_cons.mp hmem with hstep | hlater
    · exact f.step_ne_issued_zero s hstep.symm
    · exact ih _ hlater

/-- **Every member issues the ids from its own first one to `2 ^ 64 - 1`, and none after that**,
whatever `later` does to other members; `issued` counts what it gave, `clone` copies it. -/
theorem answers_after (s : UInt64) (before later : List Step) :
    let f := after [⟨s⟩] before
    (∀ member a, f[member]? = some a →
      f.answers member later = (List.range (later.count (.allocate member))).map a.answer ∧
      ∃ b, (f.after later)[member]? = some b ∧
        b.issued.toNat = a.issued.toNat + successes (f.answers member later)) ∧
    .issued 0 ∉ (f.run later).1 ∧
    f.step .new = (.made f.length, f ++ [⟨1⟩]) ∧
    (∀ member a, f[member]? = some a →
      f.step (.clone member) = (.made f.length, f ++ [a]) ∧
      (∀ step, step ≠ .allocate member → (f.step step).2[member]? = some a) ∧
      if a.next = 0 then f.step (.allocate member) = (.failed .exhausted, f)
      else ∃ b, f.step (.allocate member) = (.issued a.next, f.set member b) ∧
        b.issued = a.next ∧ b.issued.toNat = a.issued.toNat + 1) ∧
    ∀ member, f[member]? = some ⟨1⟩ →
      ∃ b, (f.after later)[member]? = some b ∧
        b.issued.toNat = successes (f.answers member later) := by
  intro f
  refine ⟨fun member a h => ⟨answers_run h later, issued_run h later⟩,
    issued_zero_notMem_run f later, rfl, fun member a h => ⟨?_, fun _ => getElem?_step h, ?_⟩,
    fun member h => ?_⟩
  · simp only [step, h]
  · rw [step_allocate h]
    split
    · rfl
    · next hne =>
      refine ⟨⟨a.next + 1⟩, rfl, Allocator.issued_mk_succ _, ?_⟩
      rw [Allocator.issued_mk_succ, Allocator.issued_succ hne]
  · obtain ⟨b, hb, hissued⟩ := issued_run h later
    refine ⟨b, hb, ?_⟩
    rw [hissued]
    exact Nat.zero_add _

/-- A clone and its original both issue the last two ids, and nothing more. -/
theorem answers_after_clone :
    (after [⟨0xFFFFFFFFFFFFFFFD⟩] [.allocate 0, .clone 0])[1]? = some ⟨0xFFFFFFFFFFFFFFFE⟩ ∧
    (after [⟨0xFFFFFFFFFFFFFFFD⟩] [.allocate 0, .clone 0]).answers 1
        [.allocate 1, .allocate 0, .allocate 1, .allocate 0, .new, .allocate 1] =
      [.issued 0xFFFFFFFFFFFFFFFE, .issued 0xFFFFFFFFFFFFFFFF, .failed .exhausted] := by
  refine ⟨rfl, ?_⟩
  have hanswers := ((answers_after 0xFFFFFFFFFFFFFFFD [.allocate 0, .clone 0]
    [.allocate 1, .allocate 0, .allocate 1, .allocate 0, .new, .allocate 1]).1 1 _ rfl).1
  rw [hanswers]
  decide

end Family

end ProtectionDomain.Cap
