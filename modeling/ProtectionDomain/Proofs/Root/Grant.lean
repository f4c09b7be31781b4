import ProtectionDomain.Proofs.Root.Refinement

/-!
# What a configuration grants

Whether a session may have PCI devices hangs on the settings and on its label, and on nothing else.

* `SessionConfig.Grants`: the settings grant PCI devices to the sessions with a label;
* `evaluate_engine`: the engine of the settings decides so;
* `engine_session_after`: all sessions of a root ask its engine;
* **`invoke_after_ofConfig`**: so every request to a live session is answered so, at any time.
-/

namespace ProtectionDomain

open Policy

namespace SessionConfig

variable (c : SessionConfig)

/-- The settings grant PCI devices to the sessions with a label. -/
def Grants (label : String) : Prop :=
  c.allowPciAssignment = true ∧ (c.pciAllowedLabels = [] ∨ label ∈ c.pciAllowedLabels)

instance (label : String) : Decidable (c.Grants label) := inferInstanceAs (Decidable (_ ∧ _))

/-- The decision of the settings on PCI devices for the sessions with a label. -/
def decision (label : String) : Decision :=
  if c.Grants label then .allow
  else if c.allowPciAssignment then
    .deny ("session '" ++ label ++ "' is not permitted PciAssignment")
  else .deny "PciAssignment is disabled"

/-- The engine of the settings decides by the label alone. -/
theorem evaluate_engine (x : Context) :
    c.engine.evaluate .pciAssignment x = c.decision x.label := by
  obtain ⟨version, allow, labels⟩ := c
  cases allow with
  | false => rfl
  | true =>
    cases labels with
    | nil => rfl
    | cons label labels =>
      -- the flags allow, so that the list of labels decides
      have hlist : (engine ⟨version, true, label :: labels⟩).evaluate .pciAssignment x =
          firstRefusal .pciAssignment x [Flags.engine (Flags.withEnabled {} .pciAssignment),
            LabelList.engine ⟨.pciAssignment, label :: labels⟩] := rfl
      have hflags : (Flags.engine (Flags.withEnabled {} .pciAssignment)).evaluate
          .pciAssignment x = .allow := rfl
      have hlabels : (LabelList.engine ⟨.pciAssignment, label :: labels⟩).evaluate
          .pciAssignment x = if Privilege.pciAssignment ≠ .pciAssignment ∨ x.label ∈ label :: labels
            then .allow
            else .deny ("session '" ++ x.label ++ "' is not permitted " ++ "PciAssignment") := rfl
      have htext : "session '" ++ x.label ++ "' is not permitted " ++ "PciAssignment" =
          "session '" ++ x.label ++ "' is not permitted PciAssignment" := by
        rw [String.append_assoc]
        rfl
      rw [hlist, firstRefusal_cons_of_allow hflags, firstRefusal_singleton, hlabels, htext]
      by_cases hlabel : x.label ∈ label :: labels <;> simp [decision, Grants, hlabel]

end SessionConfig

namespace Root

theorem engine_session_after {engine : Engine} {ops : List Operation} {cap : Cap .session}
    {s : Session} (hs : (after { engine } ops).session cap = .ok s) : s.engine = engine := by
  rw [((Records.new engine).run ops).2.session, engine_after] at hs
  exact History.engine_of_session hs

/-- **`invoke` on a live session is granted if and only if PCI assignment is on and its label is
listed or none is**; a refusal is a reply, and `decision` has the reason. -/
theorem invoke_after_ofConfig (c : SessionConfig) (ops : List Operation) (cap : Cap .session)
    (s : Session) (hs : ((ofConfig c).after ops).session cap = .ok s) (address : UInt64) :
    ∃ granted decision,
      ((ofConfig c).after ops).invoke cap (.assignPci address) =
          (.ok (.assignPci granted),
            [.decided s.id s.label address decision c.engine.name]) ∧
        (granted = true ↔ c.allowPciAssignment = true ∧
          (c.pciAllowedLabels = [] ∨ s.label ∈ c.pciAllowedLabels)) ∧
        decision =
          if granted then .allow
          else if c.allowPciAssignment then
            .deny ("session '" ++ s.label ++ "' is not permitted PciAssignment")
          else .deny "PciAssignment is disabled" := by
  have hengine : s.engine = c.engine := engine_session_after hs
  have hdecide : s.decide address = c.decision s.label := by
    rw [Session.decide, hengine]
    exact c.evaluate_engine _
  refine ⟨c.Grants s.label, s.decide address, ?_, decide_eq_true_iff, ?_⟩
  · unfold invoke
    rw [hs, ← hengine]
    simp only [Session.assignPci, Session.mayAssign, hdecide, SessionConfig.decision]
    by_cases hgrants : c.Grants s.label
    · simp [hgrants, Decision.isAllow]
    · simp only [hgrants, if_false, decide_false]
      split <;> rfl
  · rw [hdecide, SessionConfig.decision]
    simp only [decide_eq_true_eq]

/-- A session with an unlisted label is refused, after another one was closed. -/
theorem invoke_after_close :
    ((ofConfig ⟨7, true, ["nic", "", "nic"]⟩).after
        [.create ⟨.nil⟩ "nic", .create ⟨.nil⟩ "n", .close ⟨1⟩]).session ⟨2⟩ =
      .ok ⟨⟨.nil⟩, "n", SessionConfig.engine ⟨7, true, ["nic", "", "nic"]⟩⟩ ∧
    ((ofConfig ⟨7, true, ["nic", "", "nic"]⟩).after
        [.create ⟨.nil⟩ "nic", .create ⟨.nil⟩ "n", .close ⟨1⟩]).invoke ⟨2⟩
        (.assignPci 0xFFFFFFFFFFFFFFFF) =
      (.ok (.assignPci false),
        [.decided ⟨.nil⟩ "n" 0xFFFFFFFFFFFFFFFF
          (.deny "session 'n' is not permitted PciAssignment") "ComposedPolicy"]) := by
  refine ⟨rfl, ?_⟩
  obtain ⟨granted, decision, hinvoke, hgranted, hdecision⟩ :=
    invoke_after_ofConfig ⟨7, true, ["nic", "", "nic"]⟩
      [.create ⟨.nil⟩ "nic", .create ⟨.nil⟩ "n", .close ⟨1⟩] ⟨2⟩ _ rfl 0xFFFFFFFFFFFFFFFF
  obtain rfl : granted = false := by simpa using hgranted
  rw [hinvoke, hdecision]
  rfl

end Root

end ProtectionDomain
