import Mathlib.Data.List.Forall2
import ProtectionDomain.Proofs.Policy.Tree

/-!
# Reports

A report asks all engines of a composition, where the decision alone asks no further than the first
refusal. Both come to the same.

* `refusing`: the engines of a row that refuse, in order;
* `find?_evaluations`: the first entry with a refusal is that of the first of them;
* `firstRefusal_eq_head?`: that one gives the decision of the row;
* `Composed.deniedBy_report`: the names of all of them are those that the report gives;
* `exists_of_refusing_eq_cons`: where the first of them stands;
* **`report_agrees`**: what a report says.
-/

namespace ProtectionDomain.Policy

theorem Decision.isDeny_iff {d : Decision} : d.isDeny = true ↔ d ≠ .allow := by
  cases d <;> simp [isDeny]

section Row

variable (p : Privilege) (x : Context)

/-- What an engine says to a request, under its name. -/
def Engine.evaluation (e : Engine) : Evaluation := ⟨e.name, e.evaluate p x⟩

/-- The engines that refuse a request, in order. -/
def refusing (es : List Engine) : List Engine := es.filter fun e => (e.evaluate p x).isDeny

theorem refusing_cons_of_allow {e : Engine} (h : e.evaluate p x = .allow) (es : List Engine) :
    refusing p x (e :: es) = refusing p x es :=
  List.filter_cons_of_neg (by rw [h]; exact Bool.false_ne_true)

theorem refusing_cons_of_deny {e : Engine} {reason : String} (h : e.evaluate p x = .deny reason)
    (es : List Engine) : refusing p x (e :: es) = e :: refusing p x es :=
  List.filter_cons_of_pos (by rw [h]; rfl)

theorem find?_evaluations (es : List Engine) :
    (es.map (Engine.evaluation p x)).find? (fun v => v.decision.isDeny) =
      (refusing p x es).head?.map (Engine.evaluation p x) := by
  rw [List.find?_map, refusing, List.head?_filter]
  rfl

/-- The first engine that refuses decides for the row. -/
theorem firstRefusal_eq_head? (es : List Engine) :
    firstRefusal p x es = ((refusing p x es).head?.map fun e => e.evaluate p x).getD .allow := by
  induction es with
  | nil => rfl
  | cons e es ih =>
    rw [firstRefusal_cons]
    cases he : e.evaluate p x with
    | allow => rw [refusing_cons_of_allow p x he, ← ih]; rfl
    | deny reason =>
      rw [refusing_cons_of_deny p x he, List.head?_cons, Option.map_some, he]
      rfl

variable {p x}

theorem exists_of_refusing_eq_cons {es es' : List Engine} {e : Engine}
    (h : refusing p x es = e :: es') :
    ∃ before after, es = before ++ e :: after ∧ (∀ d ∈ before, d.evaluate p x = .allow) ∧
      e.evaluate p x ≠ .allow := by
  obtain ⟨before, after, rfl, hbefore, he, -⟩ := List.filter_eq_cons_iff.mp h
  refine ⟨before, after, rfl, fun d hd => ?_, Decision.isDeny_iff.mp he⟩
  have hd := hbefore d hd
  rwa [Decision.isDeny_iff, not_not] at hd

end Row

namespace Composed

variable (c : Composed) (p : Privilege) (x : Context)

theorem decision_report : (c.report p x).decision = c.evaluate p x := by
  show (((c.engines.map (Engine.evaluation p x)).find? fun v => v.decision.isDeny).map
    fun v => v.decision).getD .allow = firstRefusal p x c.engines
  rw [find?_evaluations, Option.map_map, firstRefusal_eq_head?]
  rfl

theorem deniedBy_report :
    (c.report p x).deniedBy = (refusing p x c.engines).map fun e => e.name := by
  show ((c.engines.map (Engine.evaluation p x)).filter fun v => v.decision.isDeny).map
    (fun v => v.policyName) = _
  rw [List.filter_map, List.map_map]
  rfl

end Composed

/-- **`c.report` decides as `c.evaluate` does**, with an entry for each engine; `deniedBy` names the
engines that refuse, the one whose decision it is first. -/
theorem report_agrees (c : Composed) (p : Privilege) (x : Context) :
    let r := c.report p x
    r.privilege = p ∧ r.decision = c.evaluate p x ∧
    List.Forall₂ (fun e v => v.policyName = e.name ∧ v.decision = e.evaluate p x)
      c.engines r.evaluations ∧
    r.deniedBy = (c.engines.filter fun e => e.evaluate p x ≠ .allow).map (fun e => e.name) ∧
    (r.deniedBy = [] ↔ r.decision = .allow) ∧
    ∀ name names, r.deniedBy = name :: names →
      ∃ before e after, c.engines = before ++ e :: after ∧
        (∀ d ∈ before, d.evaluate p x = .allow) ∧
        e.name = name ∧ e.evaluate p x ≠ .allow ∧ e.evaluate p x = r.decision := by
  intro r
  have hdenied : r.deniedBy = (refusing p x c.engines).map fun e => e.name :=
    c.deniedBy_report p x
  have hdecision : r.decision = firstRefusal p x c.engines := c.decision_report p x
  refine ⟨rfl, hdecision, ?_, ?_, ?_, fun name names h => ?_⟩
  · exact List.forall₂_map_right_iff.mpr (List.forall₂_same.mpr fun e _ => ⟨rfl, rfl⟩)
  · rw [hdenied, refusing]
    refine congrArg _ (List.filter_congr fun e _ => ?_)
    rw [Bool.eq_iff_iff, Decision.isDeny_iff, decide_eq_true_iff]
  · rw [hdenied, hdecision, List.map_eq_nil_iff, refusing, List.filter_eq_nil_iff,
      firstRefusal_eq_allow_iff]
    simp only [Decision.isDeny_iff, not_not]
  · rw [hdenied] at h
    obtain ⟨e, es, hrefusing, rfl, -⟩ := List.map_eq_cons_iff.mp h
    obtain ⟨before, after, hengines, hbefore, he⟩ := exists_of_refusing_eq_cons hrefusing
    refine ⟨before, e, after, hengines, hbefore, rfl, he, ?_⟩
    rw [hdecision, firstRefusal_eq_head?, hrefusing]
    rfl

/-- An engine that refuses in two places is named twice, and decides where it stands first. -/
theorem report_agrees_repeated :
    let x : Context := ⟨⟨.nil⟩, "nic", some 0x1000⟩
    let c : Composed := ⟨[.allowAll, .denyAll, Flags.engine {}, .denyAll]⟩
    (c.report .pciAssignment x).deniedBy =
      ["DenyAllPolicy", "PrivilegeFlagsPolicy", "DenyAllPolicy"] ∧
    ∃ before e after, c.engines = before ++ e :: after ∧
      (∀ d ∈ before, d.evaluate .pciAssignment x = .allow) ∧ e.name = "DenyAllPolicy" ∧
      e.evaluate .pciAssignment x ≠ .allow ∧
      e.evaluate .pciAssignment x = (c.report .pciAssignment x).decision := by
  intro x c
  obtain ⟨-, -, -, -, -, hfirst⟩ := report_agrees c .pciAssignment x
  have hdenied : (c.report .pciAssignment x).deniedBy =
      ["DenyAllPolicy", "PrivilegeFlagsPolicy", "DenyAllPolicy"] := rfl
  exact ⟨hdenied, hfirst _ _ hdenied⟩

end ProtectionDomain.Policy
