import Mathlib.Data.List.Forall2
import ProtectionDomain.Proofs.Policy.Tree

/-!
# The engines of the library

The engines that come with the library look at nothing but the label of a session, on their own and
in compositions of any depth.

* `Flags.Move`, `Flags.moved`: the calls that move a switch, and the flags after some of them;
  `Flags.lastSetting?`: where the last of them left a switch;
* `isEnabled_move`, `isEnabled_moved`: one call, and a run of calls;
* `Stock`, `Stock.engine`: the engines of the library;
* `Stock.Meets`, `Stock.Refuses`: when one of them grants a privilege, and why else it does not;
* `evaluate_engine_eq_allow_iff`, `evaluate_engine_eq_deny_iff`: so it decides on its own;
* `firstRefusal_stock_eq_allow_iff`, `firstRefusal_stock_eq_deny_iff`: and so do several in a row;
* `Stock.Relists`, `Relists.engine_eq`: the same labels in another order or number make the same
  engine;
* **`evaluate_by_label`**: how a tree of such engines decides, and on what that depends.
-/

namespace ProtectionDomain.Policy

namespace Decision

variable {c : Prop} [Decidable c] {reason reason' : String}

theorem ite_eq_allow_iff : (if c then allow else deny reason) = allow ↔ c := by
  split <;> simp_all

theorem ite_eq_deny_iff :
    (if c then allow else deny reason) = deny reason' ↔ ¬ c ∧ reason = reason' := by
  split <;> simp_all

end Decision

/-! ## Flags -/

namespace Flags

/-- A call that moves a switch. -/
inductive Move
  | withEnabled (p : Privilege)
  | set (p : Privilege) (on : Bool)

namespace Move

/-- The privilege whose switch is moved. -/
def privilege : Move → Privilege
  | withEnabled p => p
  | set p _ => p

/-- The switch is turned on. -/
def on : Move → Bool
  | withEnabled _ => true
  | set _ on => on

end Move

/-- The flags after a call. -/
def move (f : Flags) : Move → Flags
  | .withEnabled p => f.withEnabled p
  | .set p on => f.set p on

/-- The flags after calls, all of them off at first. -/
def moved (moves : List Move) : Flags := moves.foldl move {}

/-- Where the last call for a privilege left its switch, if there was one. -/
def lastSetting? (p : Privilege) (moves : List Move) : Option Bool :=
  ((moves.filter fun m => m.privilege == p).map Move.on).getLast?

theorem isEnabled_move (f : Flags) (m : Move) (p : Privilege) :
    (f.move m).isEnabled p = if p = m.privilege then m.on else f.isEnabled p := by
  cases m with
  | withEnabled q => rfl
  | set q on => rfl

theorem lastSetting?_cons_of_eq {m : Move} {p : Privilege} (h : p = m.privilege)
    (moves : List Move) :
    lastSetting? p (m :: moves) = some ((lastSetting? p moves).getD m.on) := by
  have hm : (m.privilege == p) = true := beq_iff_eq.mpr h.symm
  rw [lastSetting?, List.filter_cons, if_pos hm, List.map_cons, List.getLast?_cons]
  rfl

theorem lastSetting?_cons_of_ne {m : Move} {p : Privilege} (h : p ≠ m.privilege)
    (moves : List Move) : lastSetting? p (m :: moves) = lastSetting? p moves := by
  have hm : ¬ (m.privilege == p) = true := fun heq => h (beq_iff_eq.mp heq).symm
  rw [lastSetting?, List.filter_cons, if_neg hm]
  rfl

theorem isEnabled_foldl_move (f : Flags) (moves : List Move) (p : Privilege) :
    (moves.foldl move f).isEnabled p = (lastSetting? p moves).getD (f.isEnabled p) := by
  induction moves generalizing f with
  | nil => rfl
  | cons m moves ih =>
    rw [List.foldl_cons, ih, isEnabled_move]
    by_cases hm : p = m.privilege
    · rw [if_pos hm, lastSetting?_cons_of_eq hm, Option.getD_some]
    · rw [if_neg hm, lastSetting?_cons_of_ne hm]

/-- A switch is on if and only if the last call for it turned it on. -/
theorem isEnabled_moved (moves : List Move) (p : Privilege) :
    (moved moves).isEnabled p = true ↔ lastSetting? p moves = some true := by
  rw [moved, isEnabled_foldl_move]
  cases lastSetting? p moves <;> simp

end Flags

/-! ## Engines -/

open Flags

/-- An engine of the library. -/
inductive Stock
  | denyAll
  | allowAll
  | flags (moves : List Move)
  | labelList (p : Privilege) (labels : List String)

namespace Stock

/-- The engine itself. -/
def engine : Stock → Engine
  | denyAll => .denyAll
  | allowAll => .allowAll
  | flags moves => (moved moves).engine
  | labelList p labels => LabelList.engine ⟨p, labels⟩

/-- The condition for a privilege to be granted to the sessions with a label. -/
def Meets (p : Privilege) (label : String) : Stock → Prop
  | denyAll => False
  | allowAll => True
  | flags moves => lastSetting? p moves = some true
  | labelList q labels => q = p → label ∈ labels

/-- The reason for which a privilege is refused to the sessions with a label. -/
inductive Refuses (p : Privilege) (label : String) : Stock → String → Prop
  | denyAll : Refuses p label denyAll (p.display ++ " is disabled")
  | flags {moves : List Move} : lastSetting? p moves ≠ some true →
      Refuses p label (flags moves) (p.display ++ " is not enabled")
  | labelList {labels : List String} : label ∉ labels →
      Refuses p label (labelList p labels)
        ("session '" ++ label ++ "' is not permitted " ++ p.display)

variable {p : Privilege} {x : Context} {s s' : Stock} {reason : String}

theorem evaluate_engine_eq_allow_iff :
    s.engine.evaluate p x = .allow ↔ s.Meets p x.label := by
  cases s with
  | denyAll => exact iff_of_false Decision.noConfusion id
  | allowAll => exact iff_of_true rfl trivial
  | flags moves => exact Decision.ite_eq_allow_iff.trans (isEnabled_moved moves p)
  | labelList q labels =>
    refine Decision.ite_eq_allow_iff.trans ?_
    rw [Meets, imp_iff_not_or, eq_comm]

theorem evaluate_engine_eq_deny_iff :
    s.engine.evaluate p x = .deny reason ↔ s.Refuses p x.label reason := by
  constructor
  · intro h
    cases s with
    | denyAll =>
      obtain rfl := Decision.deny.inj h
      exact .denyAll
    | allowAll => exact Decision.noConfusion h
    | flags moves =>
      obtain ⟨hoff, rfl⟩ := Decision.ite_eq_deny_iff.mp h
      exact .flags (mt (isEnabled_moved moves p).mpr hoff)
    | labelList q labels =>
      obtain ⟨hnot, rfl⟩ := Decision.ite_eq_deny_iff.mp h
      obtain ⟨rfl, hlabel⟩ : p = q ∧ x.label ∉ labels := by simpa using hnot
      exact .labelList hlabel
  · intro h
    cases h with
    | denyAll => rfl
    | flags hlast => exact if_neg (mt (isEnabled_moved _ p).mp hlast)
    | labelList hlabel => exact if_neg (not_or.mpr ⟨not_not.mpr rfl, hlabel⟩)

/-- Two engines of the library are the same but for the order and the repetition of labels. -/
inductive Relists : Stock → Stock → Prop
  | refl (s : Stock) : Relists s s
  | labelList (p : Privilege) {labels labels' : List String} :
      (∀ label, label ∈ labels' ↔ label ∈ labels) →
      Relists (labelList p labels) (labelList p labels')

theorem Relists.engine_eq (h : Relists s s') : s'.engine = s.engine := by
  cases h with
  | refl => rfl
  | labelList q hmem =>
    show LabelList.engine _ = LabelList.engine _
    unfold LabelList.engine
    simp only [hmem]

theorem map_engine_eq {ss ss' : List Stock} (h : List.Forall₂ Relists ss ss') :
    ss'.map engine = ss.map engine := by
  induction h with
  | nil => rfl
  | cons hs _ ih => rw [List.map_cons, List.map_cons, hs.engine_eq, ih]

end Stock

/-! ## Trees -/

section Row

variable {ss : List Stock} {p : Privilege} {x : Context}

theorem firstRefusal_stock_eq_allow_iff :
    firstRefusal p x (ss.map Stock.engine) = .allow ↔ ∀ s ∈ ss, s.Meets p x.label := by
  rw [firstRefusal_eq_allow_iff, List.forall_mem_map]
  exact forall₂_congr fun s _ => Stock.evaluate_engine_eq_allow_iff

/-- The first engine whose condition is not met gives its reason. -/
theorem firstRefusal_stock_eq_deny_iff {reason : String} :
    firstRefusal p x (ss.map Stock.engine) = .deny reason ↔
      ∃ before s after, ss = before ++ s :: after ∧ (∀ d ∈ before, d.Meets p x.label) ∧
        s.Refuses p x.label reason := by
  rw [firstRefusal_eq_deny_iff]
  constructor
  · rintro ⟨before, e, after, hss, hbefore, he⟩
    obtain ⟨before, rest, rfl, rfl, hrest⟩ := List.map_eq_append_iff.mp hss
    obtain ⟨s, after, rfl, rfl, rfl⟩ := List.map_eq_cons_iff.mp hrest
    rw [List.forall_mem_map] at hbefore
    exact ⟨before, s, after, rfl, fun d hd => Stock.evaluate_engine_eq_allow_iff.mp (hbefore d hd),
      Stock.evaluate_engine_eq_deny_iff.mp he⟩
  · rintro ⟨before, s, after, rfl, hbefore, hs⟩
    refine ⟨before.map Stock.engine, s.engine, after.map Stock.engine, by simp, ?_,
      Stock.evaluate_engine_eq_deny_iff.mpr hs⟩
    rw [List.forall_mem_map]
    exact fun d hd => Stock.evaluate_engine_eq_allow_iff.mpr (hbefore d hd)

theorem forall_meets_iff :
    (∀ s ∈ ss, s.Meets p x.label) ↔
      .denyAll ∉ ss ∧ (∀ moves, .flags moves ∈ ss → lastSetting? p moves = some true) ∧
        ∀ labels, .labelList p labels ∈ ss → x.label ∈ labels := by
  constructor
  · intro h
    exact ⟨h _, fun moves hmem => h _ hmem, fun labels hmem => h _ hmem rfl⟩
  · rintro ⟨hdeny, hflags, hlabels⟩ s hs
    cases s with
    | denyAll => exact hdeny hs
    | allowAll => trivial
    | flags moves => exact hflags moves hs
    | labelList q labels =>
      rintro rfl
      exact hlabels labels hs

end Row

/-- **A tree of `Stock` engines sees the label only**: it allows if the condition of every leaf is
met, and else gives the reason of the first leaf that `Refuses`. -/
theorem evaluate_by_label (t : Tree) (ss : List Stock) (ht : t.leaves = ss.map Stock.engine)
    (p : Privilege) (x : Context) :
    (t.evaluate p x = .allow ↔
      .denyAll ∉ ss ∧ (∀ moves, .flags moves ∈ ss → lastSetting? p moves = some true) ∧
        ∀ labels, .labelList p labels ∈ ss → x.label ∈ labels) ∧
    (∀ reason, t.evaluate p x = .deny reason ↔
      ∃ before s after, ss = before ++ s :: after ∧ (∀ d ∈ before, d.Meets p x.label) ∧
        s.Refuses p x.label reason) ∧
    (∀ y : Context, y.label = x.label → t.evaluate p y = t.evaluate p x) ∧
    ∀ (u : Tree) (ss' : List Stock), u.leaves = ss'.map Stock.engine →
      List.Forall₂ Stock.Relists ss ss' → u.evaluate p x = t.evaluate p x := by
  have hrow : ∀ y, t.evaluate p y = firstRefusal p y (ss.map Stock.engine) := fun y => by
    rw [Tree.evaluate_eq_firstRefusal, ht]
  refine ⟨?_, fun reason => ?_, fun y hy => ?_, fun u ss' hu hrelists => ?_⟩
  · rw [hrow, firstRefusal_stock_eq_allow_iff, forall_meets_iff]
  · rw [hrow, firstRefusal_stock_eq_deny_iff]
  · rw [hrow, hrow]
    cases hx : firstRefusal p x (ss.map Stock.engine) with
    | allow => rwa [firstRefusal_stock_eq_allow_iff, hy, ← firstRefusal_stock_eq_allow_iff]
    | deny reason => rwa [firstRefusal_stock_eq_deny_iff, hy, ← firstRefusal_stock_eq_deny_iff]
  · rw [Tree.evaluate_eq_firstRefusal, hu, Stock.map_engine_eq hrelists, hrow]

/-- The flags are on in the end, so that the list refuses, before it comes to the last engine. It
does so for any session with the label, and also if it lists its labels another way. -/
theorem evaluate_by_label_nested :
    let flags : Stock := .flags [.set .pciAssignment true, .set .pciAssignment false,
      .withEnabled .pciAssignment]
    let list : Stock := .labelList .pciAssignment ["nic", "disk", "nic"]
    let list' : Stock := .labelList .pciAssignment ["disk", "nic"]
    let t : Tree := .node [.leaf flags.engine, .node [.node [], .leaf list.engine], .leaf .denyAll]
    let u : Tree := .node [.node [.leaf flags.engine, .leaf list'.engine], .leaf .denyAll]
    t.evaluate .pciAssignment ⟨⟨.nil⟩, "usb", none⟩ =
        .deny "session 'usb' is not permitted PciAssignment" ∧
      t.evaluate .pciAssignment ⟨⟨⟨1⟩⟩, "usb", some 0x1000⟩ =
        t.evaluate .pciAssignment ⟨⟨.nil⟩, "usb", none⟩ ∧
      u.evaluate .pciAssignment ⟨⟨.nil⟩, "usb", none⟩ =
        t.evaluate .pciAssignment ⟨⟨.nil⟩, "usb", none⟩ := by
  intro flags list list' t u
  obtain ⟨-, hdeny, hlabel, hrelists⟩ :=
    evaluate_by_label t [flags, list, .denyAll] rfl .pciAssignment ⟨⟨.nil⟩, "usb", none⟩
  refine ⟨(hdeny _).mpr ⟨[flags], list, [.denyAll], rfl, ?_, ?_⟩, hlabel _ rfl, ?_⟩
  · intro s hs
    obtain rfl := List.mem_singleton.mp hs
    rfl
  · exact .labelList (by decide)
  · have hlist : list.Relists list' := .labelList _ fun label => by simp; tauto
    exact hrelists u [flags, list', .denyAll] rfl
      (.cons (.refl _) (.cons hlist (.cons (.refl _) .nil)))

end ProtectionDomain.Policy
