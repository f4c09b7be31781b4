import ProtectionDomain.Proofs.Root.Grant
import ProtectionDomain.Proofs.Wire.RoundTrip

/-!
# Configurations that are stored and loaded again

A configuration is stored whatever its version, and loaded only if its version is the current one.

* `ofJson_encodePretty`: what becomes of a configuration that is stored and loaded;
* `restore`, `restores`: documents that are loaded and stored again, once or more often;
* `restores_of_ofJson`, `ofJson_restores`: the document is the same from the first time on, and the
  configuration from the start;
* `mayAssign_engine`: what a session may do under a configuration;
* **`stored_and_loaded`**: all of this for every configuration and every document;
* **`encoders_agree`**: what is stored and what is sent differ in their layout only.
-/

namespace ProtectionDomain.SessionConfig

variable {c : SessionConfig} {document : Bytes}

/-! ## Once -/

theorem ofJson_encodePretty (c : SessionConfig) :
    ofJson (Bytes.ofString (Wire.encodePretty c)) =
      if c.version = currentVersion then .ok c else .error (.unsupportedVersion c.version) := by
  rw [ofJson, Wire.decode_encodePretty]

theorem version_of_ofJson (h : ofJson document = .ok c) : c.version = currentVersion := by
  unfold ofJson at h
  split at h
  · contradiction
  · split at h
    · next hversion =>
      rw [← Except.ok.inj h]
      exact hversion
    · contradiction

theorem ofJson_encodePretty_of_ofJson (h : ofJson document = .ok c) :
    ofJson (Bytes.ofString (Wire.encodePretty c)) = .ok c := by
  rw [ofJson_encodePretty, if_pos (version_of_ofJson h)]

/-! ## Again and again -/

/-- Loads a document and stores what it says. -/
def restore (document : Bytes) : Except ConfigError Bytes := do
  let c ← ofJson document
  let text ← c.toJson
  return Bytes.ofString text

/-- Loads a document and stores what it says, a number of times. -/
def restores : Nat → Bytes → Except ConfigError Bytes
  | 0, document => .ok document
  | n + 1, document => do restores n (← restore document)

theorem restore_of_ofJson (h : ofJson document = .ok c) :
    restore document = .ok (Bytes.ofString (Wire.encodePretty c)) := by
  rw [restore, h]
  rfl

theorem restores_succ (h : ofJson document = .ok c) (n : Nat) :
    restores (n + 1) document = restores n (Bytes.ofString (Wire.encodePretty c)) := by
  rw [restores, restore_of_ofJson h]
  rfl

theorem restores_of_ofJson (h : ofJson document = .ok c) (n : Nat) :
    restores (n + 1) document = .ok (Bytes.ofString (Wire.encodePretty c)) := by
  induction n generalizing document with
  | zero =>
    rw [restores_succ h]
    rfl
  | succ n ih => rw [restores_succ h, ih (ofJson_encodePretty_of_ofJson h)]

theorem ofJson_restores (h : ofJson document = .ok c) (n : Nat) :
    ∃ stored, restores n document = .ok stored ∧ ofJson stored = .ok c := by
  cases n with
  | zero => exact ⟨document, rfl, h⟩
  | succ n => exact ⟨_, restores_of_ofJson h n, ofJson_encodePretty_of_ofJson h⟩

/-! ## Grants -/

/-- Under the engine of a configuration a session may have devices if its label is granted them. -/
theorem mayAssign_engine (c : SessionConfig) (id : SessionId) (label : String) (address : UInt64) :
    Session.mayAssign ⟨id, label, c.engine⟩ address = true ↔ c.Grants label := by
  rw [Session.mayAssign, Session.decide, evaluate_engine]
  show (c.decision label).isAllow = true ↔ _
  by_cases hgrants : c.Grants label
  · simp [decision, hgrants, Policy.Decision.isAllow]
  · simp only [decision, hgrants, if_false, iff_false]
    split <;> exact Bool.false_ne_true

/-! ## Storing and loading -/

/-- **`ofJson` undoes `toJson` for version 1 and refuses every other version**; from the first
`restores` on the document is fixed, and so are the labels that `Grants` holds for. -/
theorem stored_and_loaded :
    (∀ c : SessionConfig, ∃ text, c.toJson = .ok text ∧
      ofJson (Bytes.ofString text) =
        if c.version = 1 then .ok c else .error (.unsupportedVersion c.version)) ∧
    ∀ document c, ofJson document = .ok c →
      c.version = 1 ∧
      ∃ text, c.toJson = .ok text ∧ ofJson (Bytes.ofString text) = .ok c ∧
        ∀ n, restores (n + 1) document = .ok (Bytes.ofString text) ∧
          ∃ stored, restores n document = .ok stored ∧
            ∃ c', ofJson stored = .ok c' ∧ c' = c ∧
              ∀ id label address,
                Session.mayAssign ⟨id, label, c'.engine⟩ address = true ↔ c.Grants label := by
  refine ⟨fun c => ⟨_, rfl, ofJson_encodePretty c⟩, fun document c h =>
    ⟨version_of_ofJson h, _, rfl, ofJson_encodePretty_of_ofJson h, fun n =>
      ⟨restores_of_ofJson h n, ?_⟩⟩⟩
  obtain ⟨stored, hstored, hload⟩ := ofJson_restores h n
  exact ⟨stored, hstored, c, hload, rfl, c.mayAssign_engine⟩

/-- A document without blanks becomes one with a setting or label a line, and stays so. Another
version can be stored, but not loaded. -/
theorem stored_and_loaded_compact :
    let c : SessionConfig := ⟨1, true, ["nic", "gpu"]⟩
    let document := Bytes.ofString (Wire.encode c)
    ofJson document = .ok c ∧
    restores 3 document = .ok (Bytes.ofString (Wire.encodePretty c)) ∧
    ofJson (Bytes.ofString (Wire.encodePretty ({ c with version := 7 } : SessionConfig))) =
      .error (.unsupportedVersion 7) := by
  intro c document
  obtain ⟨hstore, hload⟩ := stored_and_loaded
  have hdocument : ofJson document = .ok c := by
    rw [ofJson, Wire.decode_encode]
    rfl
  obtain ⟨-, text, htext, -, hcycles⟩ := hload document c hdocument
  obtain ⟨text', htext', hrefused⟩ := hstore { c with version := 7 }
  rw [toJson, Except.ok.injEq] at htext htext'
  rw [← htext] at hcycles
  rw [← htext'] at hrefused
  exact ⟨hdocument, (hcycles 2).1, hrefused⟩

/-! ## Two documents -/

/-- **`toJson c` is `encode c` but for its layout**, and `decode` reads `c` from either. -/
theorem encoders_agree (c : SessionConfig) :
    ∃ text, c.toJson = .ok text ∧
      Json.withoutLayout (Bytes.ofString text) = Bytes.ofString (Wire.encode c) ∧
      Wire.decode SessionConfig (Bytes.ofString text) = .ok c ∧
      Wire.decode SessionConfig (Bytes.ofString (Wire.encode c)) = .ok c :=
  ⟨_, rfl, Wire.withoutLayout_encodePretty c, Wire.decode_encodePretty c, Wire.decode_encode c⟩

end ProtectionDomain.SessionConfig
