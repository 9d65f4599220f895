import Mathlib.Algebra.Ring.Nat
import Mathlib.Data.List.Dedup
import Mathlib.Data.List.Sort

/-!
# The away watch

The daemon's bookkeeping for the alerts to the owner: a session away for too long, a session silent
after a delivery, and the note when a session is back.
-/

namespace Silta

inductive Alert
  | away (session : String) (sinceMs : Nat)
  | back (session : String) (awayMs : Nat)
  | silent (session roomId : String) (deliveredMs : Nat)
  deriving DecidableEq, Repr

namespace Alert

/-- An away alert is repeated this often while the session stays away. -/
def REPEAT_MS : Nat := 24 * 60 * 60 * 1000

/-- A silent alert is sent at most this often per session. -/
def SILENT_REPEAT_MS : Nat := 60 * 60 * 1000

structure State where
  disconnectedSince : Option Nat
  alertedAt : Option Nat
  silentAlertedAt : Option Nat
  deriving DecidableEq, Repr

/-- One entry per configured session, in the order of the names. -/
structure Watch where
  graceMs : Nat
  sessions : List (String × State)
  deriving DecidableEq, Repr

namespace Watch

/-- Every session starts away; `graceSecs` of 0 disables every alert. -/
def new (sessions : List String) (graceSecs nowMs : Nat) : Watch where
  -- a saturating product of `u64`s
  graceMs := min (graceSecs * 1000) (2 ^ 64 - 1)
  sessions := (sessions.dedup.mergeSort fun a b ↦ decide (a ≤ b)).map fun name ↦
    (name, ⟨some nowMs, none, none⟩)

def enabled (w : Watch) : Bool := 0 < w.graceMs

def state? (w : Watch) (session : String) : Option State := w.sessions.lookup session

def modify (w : Watch) (session : String) (f : State → State) : Watch :=
  { w with sessions := w.sessions.map fun (name, state) ↦
      (name, if name = session then f state else state) }

/-- A session completed its handshake. -/
def connected (w : Watch) (session : String) (nowMs : Nat) : Watch × Option Alert :=
  (w.modify session fun state ↦ { state with disconnectedSince := none, alertedAt := none },
    match w.state? session with
    -- the owner is told of a session that is back if there was an alert that it was away
    | some ⟨some since, some _, _⟩ => some (.back session (nowMs - since))
    | _ => none)

/-- A session's connection went away. -/
def disconnected (w : Watch) (session : String) (nowMs : Nat) : Watch :=
  w.modify session fun state ↦
    { state with disconnectedSince := some (state.disconnectedSince.getD nowMs) }

/-- Since when the session of an entry has been away, where an alert is due for it. -/
def due (graceMs nowMs : Nat) (state : State) : Option Nat :=
  state.disconnectedSince.filter fun since ↦
    graceMs ≤ nowMs - since ∧ state.alertedAt.all fun at' ↦ REPEAT_MS ≤ nowMs - at'

/-- The entry once the owner has been told what is due. -/
def told (graceMs nowMs : Nat) (state : State) : State :=
  if (due graceMs nowMs state).isSome then { state with alertedAt := some nowMs } else state

/-- The away alerts due now. -/
def tick (w : Watch) (nowMs : Nat) : Watch × List Alert :=
  if w.enabled then
    ({ w with sessions := w.sessions.map fun (name, state) ↦ (name, told w.graceMs nowMs state) },
      w.sessions.filterMap fun (name, state) ↦ (due w.graceMs nowMs state).map (.away name))
  else
    (w, [])

/-- A delivered message saw no visible action within the cap. -/
def silent (w : Watch) (session roomId : String) (deliveredMs nowMs : Nat) :
    Watch × Option Alert :=
  if w.enabled then
    match w.state? session with
    | some state =>
      if state.silentAlertedAt.any fun at' ↦ nowMs - at' < SILENT_REPEAT_MS then (w, none)
      else (w.modify session fun state ↦ { state with silentAlertedAt := some nowMs },
        some (.silent session roomId deliveredMs))
    | none => (w, none)
  else
    (w, none)

/-- Since when a session has been away, as far as the watch knows. -/
def awaySince (w : Watch) (session : String) : Option Nat :=
  (w.state? session).bind State.disconnectedSince

/-! ## What each report does -/

theorem lookup_map {α : Type} (f : String → α → α) (l : List (String × α)) (session : String) :
    (l.map fun (name, a) ↦ (name, f name a)).lookup session =
      (l.lookup session).map (f session) := by
  induction l with
  | nil => rfl
  | cons entry l ih =>
    obtain ⟨name, a⟩ := entry
    rw [List.map_cons, List.lookup_cons, List.lookup_cons, ih]
    by_cases h : session = name
    · simp [h]
    · simp [beq_false_of_ne h]

theorem state?_modify (w : Watch) (session name : String) (f : State → State) :
    (w.modify session f).state? name =
      (w.state? name).map fun state ↦ if name = session then f state else state :=
  lookup_map (fun name state ↦ if name = session then f state else state) w.sessions name

theorem isSome_modify (w : Watch) (session name : String) (f : State → State) :
    ((w.modify session f).state? name).isSome = (w.state? name).isSome := by
  rw [state?_modify, Option.isSome_map]

theorem awaySince_modify_of_ne {w : Watch} {session name : String} (f : State → State)
    (h : name ≠ session) : (w.modify session f).awaySince name = w.awaySince name := by
  simp [awaySince, state?_modify, h]

theorem awaySince_connected (w : Watch) (session : String) (nowMs : Nat) :
    (w.connected session nowMs).1.awaySince session = none := by
  show (w.modify session _).awaySince session = none
  cases h : w.state? session <;> simp [awaySince, state?_modify, h]

/-- A session of the configuration that is reported away is away from then on, or was before. -/
theorem awaySince_disconnected {w : Watch} {session : String} (nowMs : Nat)
    (h : (w.state? session).isSome = true) :
    (w.disconnected session nowMs).awaySince session =
      some ((w.awaySince session).getD nowMs) := by
  obtain ⟨state, hstate⟩ := Option.isSome_iff_exists.mp h
  simp [awaySince, disconnected, state?_modify, hstate]

theorem state?_tick (w : Watch) (nowMs : Nat) (session : String) :
    ∃ f : State → State, (∀ state, (f state).disconnectedSince = state.disconnectedSince) ∧
      (w.tick nowMs).1.state? session = (w.state? session).map f := by
  unfold tick
  split
  · refine ⟨told w.graceMs nowMs, ?_, lookup_map (fun _ ↦ told w.graceMs nowMs) w.sessions session⟩
    intro state
    unfold told
    split <;> rfl
  · exact ⟨id, fun _ ↦ rfl, by simp⟩

theorem state?_silent (w : Watch) (name roomId : String) (deliveredMs nowMs : Nat)
    (session : String) :
    ∃ f : State → State, (∀ state, (f state).disconnectedSince = state.disconnectedSince) ∧
      (w.silent name roomId deliveredMs nowMs).1.state? session = (w.state? session).map f := by
  have hsame : ∃ f : State → State, (∀ state, (f state).disconnectedSince =
      state.disconnectedSince) ∧ w.state? session = (w.state? session).map f :=
    ⟨id, fun _ ↦ rfl, by simp⟩
  unfold silent
  split
  · split
    · split
      · exact hsame
      · refine ⟨_, ?_, state?_modify w name session _⟩
        intro state
        by_cases h : session = name <;> simp [h]
    · exact hsame
  · exact hsame

/-- The alerts themselves do not change since when a session is away. -/
theorem awaySince_of_map {w w' : Watch} {session : String}
    (h : ∃ f : State → State, (∀ state, (f state).disconnectedSince = state.disconnectedSince) ∧
      w'.state? session = (w.state? session).map f) :
    w'.awaySince session = w.awaySince session ∧
      (w'.state? session).isSome = (w.state? session).isSome := by
  obtain ⟨f, hf, hstate⟩ := h
  constructor
  · unfold awaySince
    rw [hstate]
    cases w.state? session with
    | none => rfl
    | some state => exact hf state
  · rw [hstate, Option.isSome_map]

/-- Every session of the configuration is away from the start. -/
theorem state?_new {sessions : List String} {session : String} (graceSecs nowMs : Nat)
    (h : session ∈ sessions) :
    (new sessions graceSecs nowMs).state? session = some ⟨some nowMs, none, none⟩ := by
  have hlookup : ∀ names : List String, session ∈ names →
      (names.map fun name ↦ (name, (⟨some nowMs, none, none⟩ : State))).lookup session =
        some ⟨some nowMs, none, none⟩ := by
    intro names
    induction names with
    | nil => nofun
    | cons name names ih =>
      intro hmem
      rw [List.map_cons, List.lookup_cons]
      by_cases hname : session = name
      · simp [hname]
      · simpa [beq_false_of_ne hname] using ih (List.mem_of_ne_of_mem hname hmem)
  exact hlookup _ (List.mem_mergeSort.mpr (List.mem_dedup.mpr h))

/-- A session that has been away for the grace period, and of which the owner was not told in the
last day, is reported by the next tick. -/
theorem away_mem_tick {w : Watch} {session : String} {state : State} {since nowMs : Nat}
    (henabled : w.enabled = true) (hstate : w.state? session = some state)
    (hsince : state.disconnectedSince = some since) (hgrace : w.graceMs ≤ nowMs - since)
    (halerted : ∀ at' ∈ state.alertedAt, REPEAT_MS ≤ nowMs - at') :
    .away session since ∈ (w.tick nowMs).2 := by
  have hdue : due w.graceMs nowMs state = some since := by
    unfold due
    rw [hsince]
    apply Option.filter_some_pos
    rw [decide_eq_true_iff]
    refine ⟨hgrace, ?_⟩
    cases hat : state.alertedAt with
    | none => rfl
    | some at' => simpa using halerted at' hat
  have hmem : (session, state) ∈ w.sessions := by
    obtain ⟨l, r, hsplit, -⟩ := List.lookup_eq_some_iff.mp hstate
    simp [hsplit]
  rw [tick, if_pos henabled]
  exact List.mem_filterMap.mpr ⟨(session, state), hmem, by simp [hdue]⟩

end Watch

end Alert

end Silta
