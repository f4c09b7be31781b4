import Mathlib.Data.List.Perm.Basic
import ProtectionDomain.Policy.Composed

/-!
# Compositions inside compositions

A composition is an engine itself, so that compositions nest to any depth. What counts is the row
of engines at the leaves.

* `Tree`, `Tree.engine`: nested compositions, and the engine that they make;
* `Tree.leaves`: the engines at the leaves, from left to right;
* `Tree.Changes`: a change to the row of one composition, at any depth; `Tree.Inserts`,
  `Tree.Unnests`: one more tree in the row, and a composition replaced by what it is made of;
* `firstRefusal_append`, `firstRefusal_eq_allow_iff`, `firstRefusal_eq_deny_iff`: engines in a row;
* `evaluate_eq_firstRefusal`: a tree decides as its leaves in a row do;
* **`evaluate_tree`**: what follows for decisions and for changes to the tree.
-/

namespace ProtectionDomain.Policy

/-- The first refusal of two decisions. -/
def Decision.andThen : Decision → Decision → Decision
  | allow, d => d
  | deny reason, _ => deny reason

/-! ## Engines in a row -/

section Row

variable (p : Privilege) (x : Context)

theorem firstRefusal_cons (e : Engine) (es : List Engine) :
    firstRefusal p x (e :: es) = (e.evaluate p x).andThen (firstRefusal p x es) := by
  rw [firstRefusal]
  cases e.evaluate p x <;> rfl

theorem firstRefusal_append (es es' : List Engine) :
    firstRefusal p x (es ++ es') = (firstRefusal p x es).andThen (firstRefusal p x es') := by
  induction es with
  | nil => rfl
  | cons e es ih =>
    rw [List.cons_append, firstRefusal_cons, firstRefusal_cons, ih]
    cases e.evaluate p x <;> rfl

variable {p x}

theorem firstRefusal_eq_allow_iff {es : List Engine} :
    firstRefusal p x es = .allow ↔ ∀ e ∈ es, e.evaluate p x = .allow := by
  induction es with
  | nil => simp [firstRefusal]
  | cons e es ih =>
    rw [firstRefusal_cons, List.forall_mem_cons, ← ih]
    cases e.evaluate p x <;> simp [Decision.andThen]

theorem firstRefusal_eq_deny_iff {es : List Engine} {reason : String} :
    firstRefusal p x es = .deny reason ↔
      ∃ before e after, es = before ++ e :: after ∧
        (∀ d ∈ before, d.evaluate p x = .allow) ∧ e.evaluate p x = .deny reason := by
  constructor
  · intro h
    induction es with
    | nil => contradiction
    | cons e es ih =>
      rw [firstRefusal_cons] at h
      cases he : e.evaluate p x with
      | allow =>
        rw [he] at h
        obtain ⟨before, d, after, rfl, hbefore, hd⟩ := ih h
        exact ⟨e :: before, d, after, rfl, List.forall_mem_cons.mpr ⟨he, hbefore⟩, hd⟩
      | deny r =>
        rw [he] at h
        exact ⟨[], e, es, rfl, by simp, he.trans h⟩
  · rintro ⟨before, e, after, rfl, hbefore, he⟩
    rw [firstRefusal_append, firstRefusal_eq_allow_iff.mpr hbefore, firstRefusal_cons, he]
    rfl

end Row

/-! ## Trees -/

/-- An engine, or any number of trees that are asked one after the other. -/
inductive Tree
  | leaf (e : Engine)
  | node (children : List Tree)

namespace Tree

mutual

/-- The engine that a tree makes. -/
def engine : Tree → Engine
  | leaf e => e
  | node ts => (compose {} ts).engine

/-- A composition to which trees are added. -/
def compose (c : Composed) : List Tree → Composed
  | [] => c
  | t :: ts => compose (c.add t.engine) ts

end

/-- The decision of a tree. -/
def evaluate (t : Tree) (p : Privilege) (x : Context) : Decision := t.engine.evaluate p x

mutual

/-- The engines at the leaves of a tree, from left to right. -/
def leaves : Tree → List Engine
  | leaf e => [e]
  | node ts => rowLeaves ts

/-- The engines at the leaves of trees in a row. -/
def rowLeaves : List Tree → List Engine
  | [] => []
  | t :: ts => t.leaves ++ rowLeaves ts

end

/-- A change to the row of one composition, at any depth. -/
inductive Changes (Row : List Tree → List Tree → Prop) : Tree → Tree → Prop
  | here {ts us : List Tree} : Row ts us → Changes Row (node ts) (node us)
  | inside {t u : Tree} (before after : List Tree) : Changes Row t u →
      Changes Row (node (before ++ t :: after)) (node (before ++ u :: after))

/-- One more tree in a row. -/
inductive Inserts (added : Tree) : List Tree → List Tree → Prop
  | mk (before after : List Tree) : Inserts added (before ++ after) (before ++ added :: after)

/-- In the place of a composition, what it is made of. -/
inductive Unnests : List Tree → List Tree → Prop
  | mk (before inner after : List Tree) :
      Unnests (before ++ node inner :: after) (before ++ (inner ++ after))

/-! ## Decisions -/

theorem engines_compose (c : Composed) (ts : List Tree) :
    (compose c ts).engines = c.engines ++ ts.map engine := by
  induction ts generalizing c with
  | nil => simp [compose]
  | cons t ts ih => rw [compose, ih, Composed.add, List.map_cons, List.append_assoc]; rfl

theorem evaluate_node (ts : List Tree) (p : Privilege) (x : Context) :
    (node ts).evaluate p x = firstRefusal p x (ts.map engine) := by
  show firstRefusal p x (compose {} ts).engines = _
  rw [engines_compose]
  rfl

mutual

/-- A tree decides as its leaves in a row do. -/
theorem evaluate_eq_firstRefusal (p : Privilege) (x : Context) : (t : Tree) →
    t.evaluate p x = firstRefusal p x t.leaves
  | leaf e => by rw [leaves, firstRefusal_singleton]; rfl
  | node ts => by rw [evaluate_node, leaves, firstRefusal_map_engine p x ts]

theorem firstRefusal_map_engine (p : Privilege) (x : Context) : (ts : List Tree) →
    firstRefusal p x (ts.map engine) = firstRefusal p x (rowLeaves ts)
  | [] => rfl
  | t :: ts => by
    have ht : t.engine.evaluate p x = firstRefusal p x t.leaves := evaluate_eq_firstRefusal p x t
    rw [List.map_cons, firstRefusal_cons, ht, firstRefusal_map_engine p x ts, rowLeaves,
      firstRefusal_append]

end

theorem rowLeaves_append (ts us : List Tree) :
    rowLeaves (ts ++ us) = rowLeaves ts ++ rowLeaves us := by
  induction ts with
  | nil => rfl
  | cons t ts ih => rw [List.cons_append, rowLeaves, rowLeaves, ih, List.append_assoc]

/-! ## Changes -/

variable {Row : List Tree → List Tree → Prop} {t u added : Tree} {p : Privilege} {x : Context}

/-- A change that leaves the decision of its row alone leaves that of the whole tree alone. -/
theorem Changes.evaluate_eq (h : Changes Row t u)
    (hrow : ∀ ts us, Row ts us →
      firstRefusal p x (rowLeaves us) = firstRefusal p x (rowLeaves ts)) :
    u.evaluate p x = t.evaluate p x := by
  induction h with
  | here h =>
    rw [evaluate_eq_firstRefusal, evaluate_eq_firstRefusal]
    exact hrow _ _ h
  | inside before after _ ih =>
    rw [evaluate_eq_firstRefusal, evaluate_eq_firstRefusal] at ih ⊢
    simp only [leaves, rowLeaves_append, rowLeaves, firstRefusal_append, ih]

theorem Changes.mem_leaves_of_inserts (h : Changes (Inserts added) t u) {e : Engine} :
    e ∈ u.leaves ↔ e ∈ t.leaves ∨ e ∈ added.leaves := by
  induction h with
  | here h =>
    obtain ⟨before, after⟩ := h
    simp only [leaves, rowLeaves_append, rowLeaves, List.mem_append]
    tauto
  | inside before after _ ih =>
    simp only [leaves, rowLeaves_append, rowLeaves, List.mem_append, ih]
    tauto

end Tree

open ProtectionDomain.Policy.Tree

/-- **A tree allows if and only if all `leaves` do, and else gives the first refusal among them**;
what `Unnests` changes nothing, and what `Inserts` or permutes leaves never undoes a refusal. -/
theorem evaluate_tree (p : Privilege) (x : Context) :
    (∀ t : Tree,
      (t.evaluate p x = .allow ↔ ∀ e ∈ t.leaves, e.evaluate p x = .allow) ∧
      ∀ reason, t.evaluate p x = .deny reason ↔
        ∃ before e after, t.leaves = before ++ e :: after ∧
          (∀ d ∈ before, d.evaluate p x = .allow) ∧ e.evaluate p x = .deny reason) ∧
    (∀ t u, Changes Unnests t u → u.evaluate p x = t.evaluate p x) ∧
    (∀ t u added, Changes (Inserts added) t u →
      ((∀ e ∈ added.leaves, e.evaluate p x = .allow) → u.evaluate p x = t.evaluate p x) ∧
      (u.evaluate p x = .allow → t.evaluate p x = .allow)) ∧
    (∀ t u : Tree, t.leaves.Perm u.leaves → (t.evaluate p x = .allow ↔ u.evaluate p x = .allow)) ∧
    ∃ t u : Tree, t.leaves.Perm u.leaves ∧ t.evaluate p x ≠ u.evaluate p x := by
  have hallow : ∀ t : Tree,
      t.evaluate p x = .allow ↔ ∀ e ∈ t.leaves, e.evaluate p x = .allow := fun t => by
    rw [evaluate_eq_firstRefusal, firstRefusal_eq_allow_iff]
  refine ⟨fun t => ⟨hallow t, fun reason => ?_⟩, fun t u h => ?_, fun t u added h => ⟨?_, ?_⟩,
    fun t u h => ?_, ?_⟩
  · rw [evaluate_eq_firstRefusal, firstRefusal_eq_deny_iff]
  · refine h.evaluate_eq fun ts us hrow => ?_
    obtain ⟨before, inner, after⟩ := hrow
    simp only [rowLeaves_append, rowLeaves, leaves]
  · intro hadded
    refine h.evaluate_eq fun ts us hrow => ?_
    obtain ⟨before, after⟩ := hrow
    rw [rowLeaves_append, rowLeaves_append, rowLeaves, firstRefusal_append, firstRefusal_append,
      firstRefusal_append, firstRefusal_eq_allow_iff.mpr hadded]
    rfl
  · rw [hallow, hallow]
    exact fun hu e he => hu e (h.mem_leaves_of_inserts.mpr (Or.inl he))
  · rw [hallow, hallow]
    exact forall_congr' fun e => by rw [h.mem_iff]
  · refine ⟨node [leaf .denyAll, leaf (Flags.engine {})],
      node [leaf (Flags.engine {}), leaf .denyAll], List.Perm.swap _ _ _, ?_⟩
    show Decision.deny (p.display ++ " is disabled") ≠ .deny (p.display ++ " is not enabled")
    cases p
    decide

/-- The reason of a nested composition stays when the nesting goes and when an engine that allows
comes in. In another order the refusal has another reason. -/
theorem evaluate_tree_nested :
    (node [leaf .allowAll, leaf .denyAll, leaf (Flags.engine {})]).evaluate .pciAssignment
        ⟨⟨.nil⟩, "nic", some 0x1000⟩ = .deny "PciAssignment is disabled" ∧
    (node [leaf .allowAll, node [leaf .denyAll, leaf .allowAll, leaf (Flags.engine {})]]).evaluate
        .pciAssignment ⟨⟨.nil⟩, "nic", some 0x1000⟩ = .deny "PciAssignment is disabled" ∧
    (node [leaf (Flags.engine {}), node [leaf .denyAll, leaf .allowAll]]).evaluate .pciAssignment
        ⟨⟨.nil⟩, "nic", some 0x1000⟩ ≠ .allow := by
  obtain ⟨-, hunnest, hinsert, hreorder, -⟩ :=
    evaluate_tree .pciAssignment ⟨⟨.nil⟩, "nic", some 0x1000⟩
  have hnested : (node [leaf .allowAll, node [leaf .denyAll, leaf (Flags.engine {})]]).evaluate
      .pciAssignment ⟨⟨.nil⟩, "nic", some 0x1000⟩ = .deny "PciAssignment is disabled" := rfl
  have hrow : Changes (Inserts (leaf .allowAll)) (node [leaf .denyAll, leaf (Flags.engine {})])
      (node [leaf .denyAll, leaf .allowAll, leaf (Flags.engine {})]) :=
    .here (.mk [leaf .denyAll] _)
  refine ⟨?_, ?_, ?_⟩
  · exact (hunnest _ _ (.here (.mk [leaf .allowAll] _ []))).trans hnested
  · refine ((hinsert _ _ _ (.inside [leaf .allowAll] [] hrow)).1 fun e he => ?_).trans hnested
    rw [List.mem_singleton.mp he]
    rfl
  · have hperm : (node [leaf .allowAll, node [leaf .denyAll, leaf (Flags.engine {})]]).leaves.Perm
        (node [leaf (Flags.engine {}), node [leaf .denyAll, leaf .allowAll]]).leaves :=
      List.reverse_perm [Flags.engine {}, .denyAll, .allowAll]
    rw [ne_eq, ← hreorder _ _ hperm, hnested]
    exact fun h => nomatch h

end ProtectionDomain.Policy
