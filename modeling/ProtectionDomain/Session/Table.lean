import ProtectionDomain.Cap
import ProtectionDomain.Session

/-!
# Live sessions

* `SessionTable`: the live sessions under their capabilities, one under each;
* `get?`, `insert`, `erase`, `size`: its operations;
* `get?_insert`, `get?_erase`: what they do to look-ups;
* `size_insert`, `size_erase`: what they do to the size;
* `erase_of_get?_eq_none`, `erase_comm`, `erase_insert`: sessions under different capabilities come
  and go in any order.
-/

namespace ProtectionDomain

/-- The live sessions, each under its own capability. -/
structure SessionTable where
  entries : List (Cap .session × Session) := []
  nodup_caps : (entries.map (·.1)).Nodup := by simp

namespace SessionTable

/-- The session under a capability. -/
def get? (t : SessionTable) (c : Cap .session) : Option Session :=
  (t.entries.find? fun e => e.1 == c).map (·.2)

/-- The number of sessions. -/
def size (t : SessionTable) : Nat := t.entries.length

/-- The table without the session under a capability. -/
def erase (t : SessionTable) (c : Cap .session) : SessionTable where
  entries := t.entries.filter fun e => e.1 != c
  nodup_caps := t.nodup_caps.sublist (List.filter_sublist.map _)

/-- The table with a session under a capability, in the place of any other under it. -/
def insert (t : SessionTable) (c : Cap .session) (s : Session) : SessionTable where
  entries := (t.erase c).entries ++ [(c, s)]
  nodup_caps := by
    rw [List.map_append, List.nodup_append]
    refine ⟨(t.erase c).nodup_caps, by simp, ?_⟩
    intro a ha b hb
    obtain ⟨e, he, rfl⟩ := List.mem_map.mp ha
    have hne : e.1 ≠ c := by simpa using (List.mem_filter.mp he).2
    have hb : b = c := by simpa using hb
    exact hb ▸ hne

theorem get?_erase (t : SessionTable) (c d : Cap .session) :
    (t.erase c).get? d = if d = c then none else t.get? d := by
  have hfind : (t.erase c).entries.find? (·.1 == d) =
      if d = c then none else t.entries.find? (·.1 == d) := by
    rw [erase, List.find?_filter]
    split
    · next h => exact List.find?_eq_none.mpr fun e _ => by simp [h]
    · next h =>
      refine congrArg (List.find? · t.entries) (funext fun e => ?_)
      by_cases he : e.1 = d <;> simp [he, h]
  rw [get?, hfind]
  split <;> rfl

theorem get?_insert (t : SessionTable) (c d : Cap .session) (s : Session) :
    (t.insert c s).get? d = if d = c then some s else t.get? d := by
  have herase : ((t.erase c).entries.find? (·.1 == d)).map (·.2) = _ := get?_erase t c d
  rw [get?, insert, List.find?_append, Option.map_or, herase]
  by_cases h : d = c
  · simp [h]
  · have hne : (c == d) = false := by simpa using Ne.symm h
    simp [h, hne]

theorem size_insert {t : SessionTable} {c : Cap .session} (h : t.get? c = none) (s : Session) :
    (t.insert c s).size = t.size + 1 := by
  have hne : ∀ e ∈ t.entries, (e.1 != c) = true := by
    rw [get?, Option.map_eq_none_iff, List.find?_eq_none] at h
    simpa using h
  have herase : (t.erase c).entries = t.entries := List.filter_eq_self.mpr hne
  rw [size, size, insert, List.length_append, herase, List.length_singleton]

theorem size_erase {t : SessionTable} {c : Cap .session} {s : Session} (h : t.get? c = some s) :
    (t.erase c).size + 1 = t.size := by
  obtain ⟨entries, hnodup⟩ := t
  simp only [get?, erase, size] at h ⊢
  induction entries with
  | nil => simp at h
  | cons e entries ih =>
    rw [List.map_cons, List.nodup_cons] at hnodup
    by_cases he : e.1 = c
    · have hne : ∀ e' ∈ entries, (e'.1 != c) = true := fun e' he' => by
        have hmem : e'.1 ∈ entries.map (·.1) := List.mem_map_of_mem he'
        exact bne_iff_ne.mpr fun hc => hnodup.1 (he ▸ hc ▸ hmem)
      simp [he, List.filter_eq_self.mpr hne]
    · have hfind : (entries.find? fun e => e.1 == c).map (·.2) = some s := by
        simpa [List.find?_cons, he] using h
      simp [he, ih hnodup.2 hfind]

theorem eq_of_entries : {t u : SessionTable} → t.entries = u.entries → t = u
  | ⟨_, _⟩, ⟨_, _⟩, rfl => rfl

theorem erase_of_get?_eq_none {t : SessionTable} {c : Cap .session} (h : t.get? c = none) :
    t.erase c = t := by
  refine eq_of_entries (List.filter_eq_self.mpr fun e he => ?_)
  rw [get?, Option.map_eq_none_iff, List.find?_eq_none] at h
  simpa using h e he

theorem erase_comm (t : SessionTable) (c d : Cap .session) :
    (t.erase c).erase d = (t.erase d).erase c := by
  refine eq_of_entries ?_
  show (t.entries.filter _).filter _ = (t.entries.filter _).filter _
  rw [List.filter_filter, List.filter_filter]
  exact List.filter_congr fun e _ => Bool.and_comm _ _

/-- A session under another capability may as well be removed first. -/
theorem erase_insert (t : SessionTable) {c d : Cap .session} (h : c ≠ d) (s : Session) :
    (t.insert c s).erase d = (t.erase d).insert c s := by
  have hnew : ([(c, s)].filter fun e => e.1 != d) = [(c, s)] := by simp [h]
  have hrest : ((t.erase c).erase d).entries = ((t.erase d).erase c).entries :=
    congrArg entries (t.erase_comm c d)
  refine eq_of_entries ?_
  show ((t.erase c).entries ++ [(c, s)]).filter (fun e => e.1 != d) =
    ((t.erase d).erase c).entries ++ [(c, s)]
  rw [List.filter_append, hnew, ← hrest]
  rfl

end SessionTable

end ProtectionDomain
