import Mathlib.Data.List.Nodup
import Mathlib.Data.List.Induction
import ProtectionDomain.Proofs.Root.Grant
import ProtectionDomain.Proofs.Uuid.Spelling

/-!
# What the log tells

The log has one line for each session opened or closed and for each request, and no others. It is
enough to tell which sessions are live.

* `History.idText`, `History.decisionText`: ids and decisions as lines spell them;
* `History.lines`, `History.log`: the lines that follow from the history, with their levels and
  with every word of them;
* `display_id`, `display_decision`, `message_rejected`: the log has the same words;
* `Records.lines`, `Records.log`: these are what a root logs;
* `History.Opened`, `History.Closed`: what the history says of a session; `created_mem_log`,
  `closed_mem_log`: the log says it, too;
* **`log_run`**: so the log of a root is that of its history, and its live sessions are those that
  the log reports as created and not as closed.
-/

namespace ProtectionDomain

open Policy

namespace History

/-! ## The words of the log -/

/-- Digits in groups of 8, 4, 4, 4 and 12, with hyphens between them. -/
def grouped (ds : List Char) : String :=
  let group (start length : ℕ) := String.ofList ((ds.drop start).take length)
  group 0 8 ++ "-" ++ group 8 4 ++ "-" ++ group 12 4 ++ "-" ++ group 16 4 ++ "-" ++ group 20 12

/-- A session id, by the 32 hexadecimal digits of its number. -/
def idText (id : SessionId) : String :=
  "Session(" ++ grouped ((Nat.toDigits 16 id.uuid.bits.toNat).leftpad 32 '0') ++ ")"

/-- A decision, with the reason if it is a refusal. -/
def decisionText : Decision → String
  | .allow => "Allow"
  | .deny reason => "Deny: " ++ reason

/-- The lines that an operation adds to the log after a history. -/
def lines (engine : Engine) (h : History) : Root.Operation → List (Event × Level × String)
  | .create id label =>
    let n := h.opened.length + 1
    if n < 2 ^ 64 then
      [(.created id label ⟨UInt64.ofNat n⟩ engine.name (UInt64.ofNat n), .info,
        "created " ++ idText id ++ " '" ++ label ++ "' as cap " ++ toString n ++ " under " ++
          engine.name ++ " (" ++ toString n ++ " caps issued)")]
    else []
  | .close cap =>
    match h.session? engine cap with
    | some s =>
      [(.closed s.id s.label, .info, "closed " ++ idText s.id ++ " '" ++ s.label ++ "'")]
    | none => []
  | .invoke cap (.assignPci address) =>
    match h.session? engine cap with
    | some s =>
      let decision := engine.evaluate .pciAssignment
        { session := s.id, label := s.label, address := some address }
      [(.decided s.id s.label address decision engine.name, .debug,
        idText s.id ++ " (" ++ s.label ++ "): assign_pci(0x" ++
          String.ofList (Nat.toDigits 16 address.toNat) ++ ") -> " ++ decisionText decision ++
          " [" ++ engine.name ++ "]")]
    | none =>
      [(.rejected (.assignPci address) (.invalidSession cap.id), .warn,
        "rejected AssignPci \x7b addr: " ++ toString address.toNat ++
          " \x7d: Invalid session capability: " ++ toString cap.id.toNat)]
  | .session _ => []
  | .count => []

/-- The lines of operations, in order. -/
def log (engine : Engine) : History → List Root.Operation → List (Event × Level × String)
  | _, [] => []
  | h, op :: ops => h.lines engine op ++ log engine (h.perform engine op).2 ops

end History

/-! ## The log of a root -/

theorem ofList_hyphenate (ds : List Char) :
    String.ofList (Uuid.hyphenate ds) = History.grouped ds := by
  rw [← String.toList_inj]
  simp [Uuid.hyphenate, History.grouped, List.extract_eq_take_drop]

theorem display_id (id : SessionId) : id.display = History.idText id := by
  have hlt : id.uuid.bits.toNat < 16 ^ (31 + 1) := id.uuid.bits.isLt.trans_eq (by decide)
  rw [SessionId.display, Uuid.text, ofList_hyphenate, Uuid.digits,
    Text.hexDigits_succ_eq_leftpad 31 hlt]
  rfl

theorem display_decision (d : Decision) : d.display = History.decisionText d := by
  cases d <;> rfl

theorem message_rejected (address id : UInt64) :
    (Event.rejected (.assignPci address) (.invalidSession id)).message =
      "rejected AssignPci \x7b addr: " ++ toString address.toNat ++
        " \x7d: Invalid session capability: " ++ toString id.toNat := by
  have hinspect : inspect (Request.assignPci address) =
      "AssignPci" ++ " \x7b " ++ ("addr" ++ ": " ++ toString address.toNat) ++ " \x7d" := rfl
  have hfront : "rejected AssignPci \x7b addr: " =
      "rejected " ++ "AssignPci" ++ " \x7b " ++ "addr" ++ ": " := by decide
  have hback : " \x7d: Invalid session capability: " =
      " \x7d" ++ ": " ++ "Invalid session capability: " := by decide
  show "rejected " ++ inspect (Request.assignPci address) ++ ": " ++
    ("Invalid session capability: " ++ toString id.toNat) = _
  rw [hinspect, hfront, hback]
  simp only [String.append_assoc]

/-- An event with its level and its wording. -/
def Event.entry (e : Event) : Event × Level × String := (e, e.level, e.message)

namespace Root

variable {r : Root} {h : History}

/-- What an operation logs follows from the history. -/
theorem Records.lines (hr : r.Records h) (op : Operation) :
    (r.perform op).2.2.map Event.entry = h.lines r.engine op := by
  cases op with
  | create id label =>
    simp only [Root.perform, History.lines]
    by_cases hlt : h.opened.length + 1 < 2 ^ 64
    · have hnext := hr.toNat_next hlt
      have hword : UInt64.ofNat (h.opened.length + 1) = r.caps.next := hr.next.symm
      have hissued : r.caps.next + 1 - 1 = r.caps.next := UInt64.add_sub_cancel r.caps.next 1
      rw [create_of_next_ne_zero (hr.next_ne_zero hlt), if_pos hlt, hword, hissued, ← hnext,
        ← display_id]
      rfl
    · rw [create_of_next_eq_zero (hr.next_eq_zero (Nat.not_lt.mp hlt)), if_neg hlt]
      rfl
  | close cap =>
    simp only [Root.perform, Root.close, History.lines, hr.sessions, ← display_id]
    cases h.session? r.engine cap <;> rfl
  | session cap => rfl
  | invoke cap request =>
    obtain ⟨address⟩ := request
    have hsession := hr.session cap
    simp only [Root.perform, Root.invoke, History.lines, hsession, ← display_id,
      ← display_decision, ← message_rejected]
    cases hs : h.session? r.engine cap with
    | none =>
      rw [History.session_eq_error_iff.mpr (History.session?_eq_none_iff.mp hs)]
      rfl
    | some s =>
      have hok : h.session r.engine cap = .ok s := History.session_eq_ok_iff.mpr hs
      rw [hok, ← History.engine_of_session hok]
      rfl
  | count => rfl

theorem Records.log (hr : r.Records h) (ops : List Operation) :
    (r.run ops).2.2.map Event.entry = h.log r.engine ops := by
  induction ops generalizing r h with
  | nil => rfl
  | cons op ops ih =>
    have htail := ih (hr.perform op).2
    rw [engine_perform] at htail
    show ((r.perform op).2.2 ++ ((r.perform op).2.1.run ops).2.2).map Event.entry = _
    rw [List.map_append, hr.lines, htail]
    rfl

end Root

/-! ## Reading the log -/

namespace History

variable {h : History} {engine : Engine} {cap : Cap .session} {id : SessionId} {label : String}

/-- A session with this id and label was opened under a capability. -/
def Opened (h : History) (cap : Cap .session) (id : SessionId) (label : String) : Prop :=
  1 ≤ cap.id.toNat ∧ h.opened[cap.id.toNat - 1]? = some (id, label)

/-- A session with this id and label was closed. -/
def Closed (h : History) (id : SessionId) (label : String) : Prop :=
  ∃ n ∈ h.closed, h.opened[n - 1]? = some (id, label)

theorem session?_eq_some_iff :
    h.session? engine cap = some ⟨id, label, engine⟩ ↔
      h.Opened cap id label ∧ cap.id.toNat ∉ h.closed := by
  have hmap : h.opened[cap.id.toNat - 1]?.map (fun e => (⟨e.1, e.2, engine⟩ : Session)) =
      some ⟨id, label, engine⟩ ↔ h.opened[cap.id.toNat - 1]? = some (id, label) := by
    cases h.opened[cap.id.toNat - 1]? <;> simp [Prod.ext_iff]
  rw [session?]
  split
  · next hlive =>
    obtain ⟨hle, hopen⟩ := mem_live.mp hlive
    refine hmap.trans ⟨fun hs => ⟨⟨hle.1, hs⟩, hopen⟩, fun hs => hs.1.2⟩
  · next hdead =>
    constructor
    · intro hs
      contradiction
    · rintro ⟨⟨hle, hs⟩, hopen⟩
      have hlt := (List.getElem?_eq_some_iff.mp hs).1
      exact absurd (mem_live.mpr ⟨⟨hle, by omega⟩, hopen⟩) hdead

/-- An operation opens the session that it reports as created, and no other. -/
theorem opened_perform (op : Root.Operation) :
    (h.perform engine op).2.Opened cap id label ↔ h.Opened cap id label ∨
      .created id label cap engine.name cap.id ∈ (h.lines engine op).map (·.1) := by
  cases op with
  | create id' label' =>
    by_cases hlt : h.opened.length + 1 < 2 ^ 64
    · have hopened : (h.perform engine (.create id' label')).2.opened =
          h.opened ++ [(id', label')] := (create_of_lt hlt id' label').2.1
      have hword : cap.id = UInt64.ofNat (h.opened.length + 1) ↔
          cap.id.toNat = h.opened.length + 1 := by
        rw [← UInt64.toNat_inj, UInt64.toNat_ofNat', Nat.mod_eq_of_lt hlt]
      have hline : .created id label cap engine.name cap.id ∈
          (h.lines engine (.create id' label')).map (·.1) ↔
            id = id' ∧ label = label' ∧ cap.id.toNat = h.opened.length + 1 := by
        obtain ⟨n⟩ := cap
        simp only [lines, if_pos hlt, List.map_cons, List.map_nil, List.mem_singleton,
          Event.created.injEq, Cap.mk.injEq, hword, true_and, and_self]
      rw [hline, Opened, Opened, hopened]
      by_cases hnext : cap.id.toNat = h.opened.length + 1
      · simp [hnext, Prod.ext_iff, eq_comm]
      · simp only [hnext, and_false, or_false]
        refine and_congr_right fun hle => ?_
        by_cases hlast : cap.id.toNat - 1 < h.opened.length
        · rw [List.getElem?_append_left hlast]
        · have hend : (h.opened ++ [(id', label')]).length ≤ cap.id.toNat - 1 := by
            rw [List.length_append, List.length_singleton]
            omega
          rw [List.getElem?_eq_none hend, List.getElem?_eq_none (Nat.not_lt.mp hlast)]
    · rw [perform, create_of_le (Nat.not_lt.mp hlt), lines, if_neg hlt]
      simp
  | close d =>
    have hopened : (h.perform engine (.close d)).2.opened = h.opened := by
      by_cases hlive : d.id.toNat ∈ h.live
      · exact (close_of_mem_live hlive).2.1
      · rw [perform, close_of_notMem_live hlive]
    rw [Opened, hopened, lines]
    split <;> simp [Opened]
  | invoke d request =>
    obtain ⟨address⟩ := request
    rw [lines]
    split <;> simp [perform]
  | session | count => simp [perform, lines]

/-- An operation closes the session that it reports as closed, and no other. -/
theorem closed_perform (op : Root.Operation) :
    (h.perform engine op).2.Closed id label ↔ h.Closed id label ∨
      .closed id label ∈ (h.lines engine op).map (·.1) := by
  cases op with
  | create id' label' =>
    by_cases hlt : h.opened.length + 1 < 2 ^ 64
    · obtain ⟨-, hopened, hclosed⟩ := create_of_lt hlt id' label'
      have hold : ∀ n ∈ h.closed, (h.opened ++ [(id', label')])[n - 1]? = h.opened[n - 1]? := by
        intro n hn
        have hle := Finset.mem_Icc.mp (h.closed_subset hn)
        exact List.getElem?_append_left (by omega)
      rw [Closed, perform, hopened, hclosed, lines, if_pos hlt]
      simp only [List.map_cons, List.map_nil, List.mem_singleton, reduceCtorEq, or_false]
      exact exists_congr fun n => and_congr_right fun hn => by rw [hold n hn]
    · rw [perform, create_of_le (Nat.not_lt.mp hlt), lines, if_neg hlt]
      simp
  | close d =>
    by_cases hlive : d.id.toNat ∈ h.live
    · obtain ⟨-, hopened, hclosed⟩ := close_of_mem_live hlive
      have hlt : d.id.toNat - 1 < h.opened.length := by
        have hle := (mem_live.mp hlive).1
        omega
      have hsession : h.session? engine d =
          some ⟨h.opened[d.id.toNat - 1].1, h.opened[d.id.toNat - 1].2, engine⟩ := by
        rw [session?, if_pos hlive, List.getElem?_eq_getElem hlt]
        rfl
      rw [Closed, perform, hopened, hclosed, lines, hsession, Finset.exists_mem_insert,
        List.getElem?_eq_getElem hlt, or_comm]
      simp [Closed, Prod.ext_iff, eq_comm]
    · rw [perform, close_of_notMem_live hlive, lines, session?_eq_none_iff.mpr hlive]
      simp
  | invoke d request =>
    obtain ⟨address⟩ := request
    rw [lines]
    split <;> simp [perform]
  | session | count => simp [perform, lines]

theorem after_concat (ops : List Root.Operation) (op : Root.Operation) :
    after engine (ops ++ [op]) = ((after engine ops).perform engine op).2 :=
  run_append {} ops [op]

theorem log_append (h : History) (ops later : List Root.Operation) :
    h.log engine (ops ++ later) = h.log engine ops ++ (h.run engine ops).2.log engine later := by
  induction ops generalizing h with
  | nil => rfl
  | cons op ops ih =>
    rw [List.cons_append, log, log, ih, List.append_assoc]
    rfl

theorem log_concat (ops : List Root.Operation) (op : Root.Operation) :
    log engine {} (ops ++ [op]) = log engine {} ops ++ (after engine ops).lines engine op := by
  rw [log_append, log, log, List.append_nil]
  rfl

theorem created_mem_log (ops : List Root.Operation) :
    .created id label cap engine.name cap.id ∈ (log engine {} ops).map (·.1) ↔
      (after engine ops).Opened cap id label := by
  induction ops using List.reverseRecOn with
  | nil => simp [log, after, run, Opened]
  | append_singleton ops op ih =>
    rw [after_concat, opened_perform, log_concat, List.map_append, List.mem_append, ih]

theorem closed_mem_log (ops : List Root.Operation) :
    .closed id label ∈ (log engine {} ops).map (·.1) ↔ (after engine ops).Closed id label := by
  induction ops using List.reverseRecOn with
  | nil => simp [log, after, run, Closed]
  | append_singleton ops op ih =>
    rw [after_concat, closed_perform, log_concat, List.map_append, List.mem_append, ih]

/-- Where ids are distinct, a session that was opened and is not reported as closed is live. -/
theorem notMem_closed_iff (hids : (h.opened.map (·.1)).Nodup) (hopened : h.Opened cap id label) :
    cap.id.toNat ∉ h.closed ↔ ∀ l, ¬ h.Closed id l := by
  constructor
  · rintro hopen l ⟨n, hn, hl⟩
    have hle := Finset.mem_Icc.mp (h.closed_subset hn)
    have hlt := (List.getElem?_eq_some_iff.mp hopened.2).1
    have hsame : (h.opened.map (·.1))[cap.id.toNat - 1]? = (h.opened.map (·.1))[n - 1]? := by
      rw [List.getElem?_map, List.getElem?_map, hopened.2, hl]
      rfl
    have heq : cap.id.toNat - 1 = n - 1 := (List.getElem?_inj (by simpa using hlt) hids).mp hsame
    have hpos := hopened.1
    obtain rfl : cap.id.toNat = n := by omega
    exact hopen hn
  · intro hall hn
    exact hall label ⟨_, hn, hopened.2⟩

end History

namespace Root

/-- **The log of a run is `History.log`, word by word.** The decision in a line is the one behind
the reply, and a session is live if it was `created` and, ids being distinct, not `closed`. -/
theorem log_run (engine : Engine) (ops : List Operation) :
    (run { engine } ops).2.2.map (fun e => (e, e.level, e.message)) = History.log engine {} ops ∧
    (∀ cap s address, (after { engine } ops).session cap = .ok s →
      ∃ granted decision, (after { engine } ops).invoke cap (.assignPci address) =
          (.ok (.assignPci granted), [.decided s.id s.label address decision engine.name]) ∧
        (granted = true ↔ decision = .allow)) ∧
    (((History.after engine ops).opened.map (·.1)).Nodup → ∀ cap id label,
      (after { engine } ops).session cap = .ok ⟨id, label, engine⟩ ↔
        .created id label cap engine.name cap.id ∈ (run { engine } ops).2.2 ∧
          ∀ l, .closed id l ∉ (run { engine } ops).2.2) := by
  have hrun := (Records.new engine).run ops
  have hlog : (run { engine } ops).2.2.map Event.entry = History.log engine {} ops :=
    (Records.new engine).log ops
  have hevents : (run { engine } ops).2.2 = (History.log engine {} ops).map (·.1) := by
    rw [← hlog, List.map_map]
    exact (List.map_id _).symm
  refine ⟨hlog, fun cap s address hs => ?_, fun hids cap id label => ?_⟩
  · refine ⟨s.mayAssign address, s.decide address, ?_, ?_⟩
    · unfold invoke
      rw [hs, ← engine_session_after hs]
      rfl
    · rw [Session.mayAssign]
      cases s.decide address <;> simp [Decision.isAllow]
  · have hsession : (after { engine } ops).session cap =
        (History.after engine ops).session engine cap := by
      rw [hrun.2.session, engine_after]
      rfl
    rw [hsession, History.session_eq_ok_iff, History.session?_eq_some_iff, hevents,
      History.created_mem_log]
    refine and_congr_right fun hopened => ?_
    rw [History.notMem_closed_iff hids hopened]
    exact forall_congr' fun l => not_congr (History.closed_mem_log ops).symm

/-- Two sessions have one label, and only the first one is closed. Both are asked for a device. -/
theorem log_run_close :
    let ops : List Operation := [.create ⟨⟨1⟩⟩ "nic", .create ⟨⟨0xff⟩⟩ "nic", .close ⟨1⟩,
      .invoke ⟨2⟩ (.assignPci 0x1000), .invoke ⟨1⟩ (.assignPci 0x1000)]
    (run { engine := .denyAll } ops).2.2.map (fun e => (e.level, e.message)) =
      [(.info, "created Session(00000000-0000-0000-0000-000000000001) 'nic' as cap 1 " ++
          "under DenyAllPolicy (1 caps issued)"),
        (.info, "created Session(00000000-0000-0000-0000-0000000000ff) 'nic' as cap 2 " ++
          "under DenyAllPolicy (2 caps issued)"),
        (.info, "closed Session(00000000-0000-0000-0000-000000000001) 'nic'"),
        (.debug, "Session(00000000-0000-0000-0000-0000000000ff) (nic): assign_pci(0x1000) -> " ++
          "Deny: PciAssignment is disabled [DenyAllPolicy]"),
        (.warn, "rejected AssignPci \x7b addr: 4096 \x7d: Invalid session capability: 1")] ∧
    ((History.after .denyAll ops).opened.map (·.1)).Nodup ∧
    (after { engine := .denyAll } ops).session ⟨2⟩ = .ok ⟨⟨⟨0xff⟩⟩, "nic", .denyAll⟩ ∧
    (∀ l, .closed ⟨⟨0xff⟩⟩ l ∉ (run { engine := .denyAll } ops).2.2) ∧
    (after { engine := .denyAll } ops).invoke ⟨2⟩ (.assignPci 0x1000) =
      (.ok (.assignPci false), [.decided ⟨⟨0xff⟩⟩ "nic" 0x1000
        (.deny "PciAssignment is disabled") "DenyAllPolicy"]) := by
  intro ops
  obtain ⟨hlog, hinvoke, hlive⟩ := log_run .denyAll ops
  have hids : ((History.after .denyAll ops).opened.map (·.1)).Nodup := by decide
  have hsession : (after { engine := .denyAll } ops).session ⟨2⟩ =
      .ok ⟨⟨⟨0xff⟩⟩, "nic", .denyAll⟩ := rfl
  refine ⟨?_, hids, hsession, ((hlive hids _ _ _).mp hsession).2, ?_⟩
  · have hlines := congrArg (List.map (·.2)) hlog
    rw [List.map_map] at hlines
    refine Eq.trans hlines ?_
    decide
  · obtain ⟨granted, decision, heq, hgranted⟩ := hinvoke _ _ 0x1000 hsession
    rw [heq]
    cases heq
    rfl

end Root

end ProtectionDomain
