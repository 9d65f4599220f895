import Silta.Alert
import Silta.Lib.Latest
import Silta.Lib.Lts

/-!
# The alerts of a run

Whole sequences of reports to the away watch.  Each session is watched on its own, by a machine that
no report about another session moves, and what that machine holds is read off the history: since
when the session is away, when its outage was alerted, when its silence was.
-/

namespace Silta

namespace Alert

/-- A report to the watch, with the clock it is made at. -/
inductive Op
  | connected (session : String) (nowMs : Nat)
  | disconnected (session : String) (nowMs : Nat)
  | tick (nowMs : Nat)
  | silent (session roomId : String) (deliveredMs nowMs : Nat)
  deriving DecidableEq, Repr

def Op.nowMs : Op → Nat
  | .connected _ nowMs => nowMs
  | .disconnected _ nowMs => nowMs
  | .tick nowMs => nowMs
  | .silent _ _ _ nowMs => nowMs

/-- A report bears on a session if it is about it, and a tick bears on all. -/
def Op.bearsOn (session : String) : Op → Bool
  | .connected name _ => name == session
  | .disconnected name _ => name == session
  | .tick _ => true
  | .silent name _ _ _ => name == session

/-- A report is answered with alerts. -/
abbrev Call := Lts.Call Op (List Alert)

def Call.alerts (c : Call) : List Alert := c.answer

def session : Alert → String
  | .away session _ => session
  | .back session _ => session
  | .silent session _ _ => session

/-- The alerts for one session. -/
def about (session : String) (alerts : List Alert) : List Alert :=
  alerts.filter fun alert ↦ alert.session = session

theorem mem_iff_mem_about (alert : Alert) (alerts : List Alert) :
    alert ∈ alerts ↔ alert ∈ about alert.session alerts := by
  simp [about]

namespace Watch

def apply (w : Watch) : Op → Watch × List Alert
  | .connected session nowMs =>
    ((w.connected session nowMs).1, (w.connected session nowMs).2.toList)
  | .disconnected session nowMs => (w.disconnected session nowMs, [])
  | .tick nowMs => w.tick nowMs
  | .silent session roomId deliveredMs nowMs =>
    ((w.silent session roomId deliveredMs nowMs).1,
      (w.silent session roomId deliveredMs nowMs).2.toList)

abbrev Step : Watch → Call → Watch → Prop := Lts.Answers apply

def names (w : Watch) : List String := w.sessions.map Prod.fst

end Watch

/-! ## Each session is watched on its own -/

/-- What a report does to the entry of one session, and the alerts it brings for it. -/
def State.react (graceMs : Nat) (session : String) (state : State) : Op → State × List Alert
  | .connected name nowMs =>
    if name = session then
      ({ state with disconnectedSince := none, alertedAt := none },
        match state.alertedAt, state.disconnectedSince with
        | some _, some since => [.back session (nowMs - since)]
        | _, _ => [])
    else (state, [])
  | .disconnected name nowMs =>
    if name = session then
      ({ state with disconnectedSince := some (state.disconnectedSince.getD nowMs) }, [])
    else (state, [])
  | .tick nowMs =>
    if 0 < graceMs then
      (Watch.told graceMs nowMs state, (Watch.due graceMs nowMs state).toList.map (.away session))
    else (state, [])
  | .silent name roomId deliveredMs nowMs =>
    if name = session ∧ 0 < graceMs ∧
        ∀ at' ∈ state.silentAlertedAt, SILENT_REPEAT_MS ≤ nowMs - at' then
      ({ state with silentAlertedAt := some nowMs }, [.silent session roomId deliveredMs])
    else (state, [])

theorem State.react_tick {graceMs : Nat} (session : String) (state : State) (nowMs : Nat)
    (h : 0 < graceMs) : state.react graceMs session (.tick nowMs) =
      (Watch.told graceMs nowMs state,
        (Watch.due graceMs nowMs state).toList.map (.away session)) := if_pos h

theorem State.react_tick_of_zero (session : String) (state : State) (nowMs : Nat) :
    state.react 0 session (.tick nowMs) = (state, []) := rfl

theorem State.react_connected (graceMs : Nat) (session : String) (state : State) (nowMs : Nat) :
    state.react graceMs session (.connected session nowMs) =
      ({ state with disconnectedSince := none, alertedAt := none },
        match state.alertedAt, state.disconnectedSince with
        | some _, some since => [.back session (nowMs - since)]
        | _, _ => []) := if_pos rfl

/-- A report about another session leaves the machine alone. -/
theorem State.react_of_not_bearsOn {op : Op} {session : String} (graceMs : Nat) (state : State)
    (h : op.bearsOn session = false) : state.react graceMs session op = (state, []) := by
  cases op with
  | tick nowMs => simp [Op.bearsOn] at h
  | _ =>
    have hne := ne_of_beq_false h
    simp [react, hne]

theorem State.bearsOn_of_mem_react {op : Op} {session : String} {graceMs : Nat} {state : State}
    {alert : Alert} (h : alert ∈ (state.react graceMs session op).2) :
    op.bearsOn session = true := by
  by_contra hbears
  rw [react_of_not_bearsOn _ _ (Bool.eq_false_iff.mpr hbears)] at h
  nomatch h

namespace Watch

/-- A report is answered with alerts for the sessions it bears on. -/
theorem bearsOn_of_mem_apply {w : Watch} {op : Op} {alert : Alert} (h : alert ∈ (w.apply op).2) :
    op.bearsOn alert.session = true := by
  cases op with
  | connected name nowMs =>
    have hsome : (w.connected name nowMs).2 = some alert := by simpa [apply] using h
    unfold connected at hsome
    split at hsome
    · obtain rfl := Option.some.inj hsome
      simp [Op.bearsOn, Alert.session]
    · nomatch hsome
  | disconnected name nowMs => simp [apply] at h
  | tick nowMs => rfl
  | silent name roomId deliveredMs nowMs =>
    have hsome : (w.silent name roomId deliveredMs nowMs).2 = some alert := by
      simpa [apply] using h
    unfold silent at hsome
    split at hsome
    · split at hsome
      · split at hsome
        · nomatch hsome
        · obtain rfl := Option.some.inj hsome
          simp [Op.bearsOn, Alert.session]
      · nomatch hsome
    · nomatch hsome

theorem about_apply_of_not_bearsOn {op : Op} {session : String} (w : Watch)
    (h : op.bearsOn session = false) : about session (w.apply op).2 = [] := by
  rw [about, List.filter_eq_nil_iff]
  intro alert halert hsession
  obtain rfl : alert.session = session := of_decide_eq_true hsession
  simp [bearsOn_of_mem_apply halert] at h

theorem names_modify (w : Watch) (session : String) (f : State → State) :
    (w.modify session f).names = w.names := by
  simp [names, modify, Function.comp_def]

theorem names_apply (w : Watch) (op : Op) : (w.apply op).1.names = w.names := by
  cases op with
  | connected session nowMs => exact w.names_modify session _
  | disconnected session nowMs => exact w.names_modify session _
  | tick nowMs =>
    show (w.tick nowMs).1.names = w.names
    unfold tick
    split
    · simp [names, Function.comp_def]
    · rfl
  | silent session roomId deliveredMs nowMs =>
    show (w.silent session roomId deliveredMs nowMs).1.names = w.names
    unfold silent
    split
    · split
      · split
        · rfl
        · exact w.names_modify session _
      · rfl
    · rfl

theorem graceMs_apply (w : Watch) (op : Op) : (w.apply op).1.graceMs = w.graceMs := by
  cases op with
  | connected session nowMs => rfl
  | disconnected session nowMs => rfl
  | tick nowMs =>
    show (w.tick nowMs).1.graceMs = w.graceMs
    unfold tick
    split <;> rfl
  | silent session roomId deliveredMs nowMs =>
    show (w.silent session roomId deliveredMs nowMs).1.graceMs = w.graceMs
    unfold silent
    split
    · split
      · split <;> rfl
      · rfl
    · rfl

/-- Of one alert for each entry that is due, those for a session are the one of its entry. -/
theorem about_filterMap {entries : List (String × State)} (f : State → Option Nat)
    (session : String) (hnodup : (entries.map Prod.fst).Nodup) :
    about session (entries.filterMap fun (name, state) ↦ (f state).map (.away name)) =
      ((entries.lookup session).bind f).toList.map (.away session) := by
  induction entries with
  | nil => rfl
  | cons entry entries ih =>
    obtain ⟨name, state⟩ := entry
    rw [List.map_cons, List.nodup_cons] at hnodup
    have hrest := ih hnodup.2
    rw [List.lookup_cons, List.filterMap_cons]
    by_cases hname : session = name
    · subst hname
      have hlookup : entries.lookup session = none := by
        rw [List.lookup_eq_none_iff]
        intro entry hentry
        have hne : session ≠ entry.1 := fun h ↦
          hnodup.1 (List.mem_map.mpr ⟨entry, hentry, h.symm⟩)
        simpa using hne
      rw [hlookup] at hrest
      have hnone : about session
          (entries.filterMap fun (name, state) ↦ (f state).map (.away name)) = [] := hrest
      cases hf : f state with
      | none => simpa [hf] using hnone
      | some since =>
        simp only [hf, Option.map_some, beq_self_eq_true, Option.bind_some, Option.toList_some,
          List.map_cons, List.map_nil]
        rw [about, List.filter_cons_of_pos (by simp [Alert.session])]
        exact congrArg (_ :: ·) hnone
    · rw [beq_false_of_ne hname]
      cases hf : f state with
      | none => simpa [hf] using hrest
      | some since =>
        simp only [hf, Option.map_some]
        rw [about, List.filter_cons_of_neg (by simp [Alert.session, Ne.symm hname])]
        exact hrest

theorem silent_of_none {w : Watch} {name : String} (roomId : String) (deliveredMs nowMs : Nat)
    (h : w.state? name = none) : w.silent name roomId deliveredMs nowMs = (w, none) := by
  unfold silent
  rw [h]
  split <;> rfl

theorem silent_of_some {w : Watch} {name : String} {state : State} (roomId : String)
    (deliveredMs nowMs : Nat) (h : w.state? name = some state) :
    w.silent name roomId deliveredMs nowMs =
      if 0 < w.graceMs ∧ ∀ at' ∈ state.silentAlertedAt, SILENT_REPEAT_MS ≤ nowMs - at' then
        (w.modify name fun state ↦ { state with silentAlertedAt := some nowMs },
          some (.silent name roomId deliveredMs))
      else (w, none) := by
  have hdue : (∀ at' ∈ state.silentAlertedAt, SILENT_REPEAT_MS ≤ nowMs - at') ↔
      ¬ (state.silentAlertedAt.any fun at' ↦ nowMs - at' < SILENT_REPEAT_MS) = true := by
    simp [Option.any_eq_true]
  unfold silent enabled
  rw [h]
  by_cases hgrace : 0 < w.graceMs
  · simp only [hgrace, decide_true, if_true, true_and, hdue]
    split <;> simp
  · simp [hgrace]

/-- A report moves the entry of each session as its own machine does. -/
theorem state?_apply (w : Watch) (op : Op) (session : String) :
    (w.apply op).1.state? session =
      (w.state? session).map fun state ↦ (state.react w.graceMs session op).1 := by
  cases op with
  | connected name nowMs =>
    show (w.modify name _).state? session = _
    rw [state?_modify]
    refine Option.map_congr fun state _ ↦ ?_
    by_cases h : session = name
    · simp [State.react, h]
    · simp [State.react, h, Ne.symm h]
  | disconnected name nowMs =>
    show (w.modify name _).state? session = _
    rw [state?_modify]
    refine Option.map_congr fun state _ ↦ ?_
    by_cases h : session = name
    · simp [State.react, h]
    · simp [State.react, h, Ne.symm h]
  | tick nowMs =>
    show (w.tick nowMs).1.state? session = _
    by_cases h : 0 < w.graceMs
    · simp only [tick, enabled, State.react, h, decide_true, if_true]
      exact lookup_map (fun _ ↦ told w.graceMs nowMs) w.sessions session
    · simp [tick, enabled, State.react, h]
  | silent name roomId deliveredMs nowMs =>
    show (w.silent name roomId deliveredMs nowMs).1.state? session = _
    cases hstate : w.state? name with
    | none =>
      rw [silent_of_none roomId deliveredMs nowMs hstate]
      refine (Option.map_id' ..).symm.trans (Option.map_congr fun state hmem ↦ ?_)
      have hne : name ≠ session := by
        rintro rfl
        simp [hstate] at hmem
      simp [State.react, hne]
    | some state =>
      rw [silent_of_some roomId deliveredMs nowMs hstate]
      by_cases hname : name = session
      · subst hname
        rw [hstate, Option.map_some, State.react]
        simp only [true_and]
        split
        · simp [state?_modify, hstate]
        · exact hstate
      · have hne : session ≠ name := Ne.symm hname
        split <;> simp [State.react, state?_modify, hname, hne]

/-- The alerts of a report for one session are those of its own machine. -/
theorem about_apply {w : Watch} (op : Op) (session : String) (hnodup : w.names.Nodup) :
    about session (w.apply op).2 =
      ((w.state? session).map fun state ↦ (state.react w.graceMs session op).2).getD [] := by
  by_cases hbears : op.bearsOn session = true
  · cases op with
    | connected name nowMs =>
      obtain rfl : name = session := eq_of_beq hbears
      show about name (w.connected name nowMs).2.toList = _
      cases hstate : w.state? name with
      | none => simp [connected, hstate, about]
      | some state =>
        obtain ⟨since?, alerted?, silent?⟩ := state
        cases since? <;> cases alerted? <;>
          simp [connected, hstate, about, State.react, Alert.session]
    | disconnected name nowMs =>
      obtain rfl : name = session := eq_of_beq hbears
      cases w.state? name <;> simp [apply, about, State.react]
    | tick nowMs =>
      show about session (w.tick nowMs).2 = _
      by_cases h : 0 < w.graceMs
      · simp only [tick, enabled, State.react, h, decide_true, if_true]
        rw [about_filterMap _ _ hnodup]
        show ((w.state? session).bind _).toList.map _ = _
        cases w.state? session <;> rfl
      · cases w.state? session <;> simp [tick, enabled, State.react, h, about]
    | silent name roomId deliveredMs nowMs =>
      obtain rfl : name = session := eq_of_beq hbears
      show about name (w.silent name roomId deliveredMs nowMs).2.toList = _
      cases hstate : w.state? name with
      | none => simp [silent_of_none roomId deliveredMs nowMs hstate, about]
      | some state =>
        rw [silent_of_some roomId deliveredMs nowMs hstate, Option.map_some, State.react]
        simp only [true_and]
        split
        · simp [about, Alert.session]
        · rfl
  · have hother : op.bearsOn session = false := Bool.eq_false_iff.mpr hbears
    rw [about_apply_of_not_bearsOn w hother]
    cases w.state? session <;> simp [State.react_of_not_bearsOn _ _ hother]

end Watch

/-! ## The history of one session -/

/-- The session completed its handshake. -/
def Call.connects (session : String) (c : Call) : Bool :=
  match c.input with
  | .connected name _ => name == session
  | _ => false

/-- When the session was reported to have gone away. -/
def Call.leavesAt (session : String) (c : Call) : Option Nat :=
  match c.input with
  | .disconnected name nowMs => if name = session then some nowMs else none
  | _ => none

/-- The alert that the session is away. -/
def isAway (session : String) : Alert → Bool
  | .away name _ => name == session
  | _ => false

/-- The alert that the session is silent. -/
def isSilent (session : String) : Alert → Bool
  | .silent name _ _ => name == session
  | _ => false

/-- When a call was answered with an alert of a kind. -/
def Call.alertsAt (kind : Alert → Bool) (c : Call) : Option Nat :=
  if c.alerts.any kind then some c.input.nowMs else none

/-- The calls since the session last connected, or all of them. -/
def outage (session : String) (calls : List Call) : List Call :=
  Latest.since (Call.connects session) calls

/-- Since when the session is away: since it was first reported away after it last connected, or
since the start if it never connected. -/
def awaySince (startMs : Nat) (session : String) (calls : List Call) : Option Nat :=
  if calls.any (Call.connects session) then
    (outage session calls).findSome? (Call.leavesAt session)
  else some startMs

/-- When this outage was alerted. -/
def awaysAt (session : String) (calls : List Call) : List Nat :=
  (outage session calls).filterMap (Call.alertsAt (isAway session))

/-- When a silence of the session was alerted. -/
def silentsAt (session : String) (calls : List Call) : List Nat :=
  calls.filterMap (Call.alertsAt (isSilent session))

theorem outage_concat (session : String) (calls : List Call) (c : Call) :
    outage session (calls ++ [c]) =
      if c.connects session then [] else outage session calls ++ [c] :=
  Latest.since_concat _ calls c

theorem awaySince_concat (startMs : Nat) (session : String) (calls : List Call) (c : Call) :
    awaySince startMs session (calls ++ [c]) =
      if c.connects session then none
      else (awaySince startMs session calls).or (c.leavesAt session) := by
  unfold awaySince
  rw [outage_concat, List.any_append]
  by_cases hc : c.connects session = true
  · simp [hc]
  · by_cases hcalls : calls.any (Call.connects session) = true
    · simp [hc, hcalls, List.findSome?_append]
    · simp [hc, hcalls]

theorem awaysAt_concat (session : String) (calls : List Call) (c : Call) :
    awaysAt session (calls ++ [c]) =
      if c.connects session then []
      else awaysAt session calls ++ (c.alertsAt (isAway session)).toList := by
  unfold awaysAt
  rw [outage_concat]
  split
  · rfl
  · rw [List.filterMap_append]
    cases h : c.alertsAt (isAway session) <;> simp [h]

theorem silentsAt_concat (session : String) (calls : List Call) (c : Call) :
    silentsAt session (calls ++ [c]) =
      silentsAt session calls ++ (c.alertsAt (isSilent session)).toList := by
  unfold silentsAt
  rw [List.filterMap_append]
  cases h : c.alertsAt (isSilent session) <;> simp [h]

/-- An alert of a kind that is one session's is among those for the session. -/
theorem alertsAt_eq {kind : Alert → Bool} {session : String} (c : Call)
    (hkind : ∀ alert, kind alert = true → alert.session = session) :
    c.alertsAt kind = if (about session c.alerts).any kind then some c.input.nowMs else none := by
  have hany : c.alerts.any kind = (about session c.alerts).any kind := by
    rw [Bool.eq_iff_iff, List.any_eq_true, List.any_eq_true]
    simp only [about, List.mem_filter, decide_eq_true_eq]
    exact exists_congr fun alert ↦
      ⟨fun ⟨hmem, h⟩ ↦ ⟨⟨hmem, hkind alert h⟩, h⟩, fun ⟨⟨hmem, _⟩, h⟩ ↦ ⟨hmem, h⟩⟩
  rw [Call.alertsAt, hany]

theorem session_of_isAway {session : String} (alert : Alert) (h : isAway session alert = true) :
    alert.session = session := by
  cases alert with
  | away name since => exact eq_of_beq h
  | _ => nomatch h

theorem session_of_isSilent {session : String} (alert : Alert)
    (h : isSilent session alert = true) : alert.session = session := by
  cases alert with
  | silent name roomId deliveredMs => exact eq_of_beq h
  | _ => nomatch h

/-- What the machine of a session holds after some calls. -/
def stateAfter (startMs : Nat) (session : String) (calls : List Call) : State where
  disconnectedSince := awaySince startMs session calls
  alertedAt := (awaysAt session calls).getLast?
  silentAlertedAt := (silentsAt session calls).getLast?

theorem stateAfter_concat (startMs : Nat) (session : String) (calls : List Call) (c : Call) :
    stateAfter startMs session (calls ++ [c]) =
      { disconnectedSince :=
          if c.connects session then none
          else (stateAfter startMs session calls).disconnectedSince.or (c.leavesAt session)
        alertedAt :=
          if c.connects session then none
          else (c.alertsAt (isAway session)).or (stateAfter startMs session calls).alertedAt
        silentAlertedAt :=
          (c.alertsAt (isSilent session)).or
            (stateAfter startMs session calls).silentAlertedAt } := by
  have hlast : ∀ (times : List Nat) (time? : Option Nat),
      (times ++ time?.toList).getLast? = time?.or times.getLast? := by
    intro times time?
    cases time? <;> simp
  rw [stateAfter, awaySince_concat, awaysAt_concat, silentsAt_concat, hlast]
  congr 1
  split
  · rfl
  · exact hlast _ _

/-- The machine of a session keeps step with the history. -/
theorem react_stateAfter {graceMs startMs : Nat} {session : String} {calls : List Call} {c : Call}
    (h : about session c.alerts =
      ((stateAfter startMs session calls).react graceMs session c.input).2) :
    ((stateAfter startMs session calls).react graceMs session c.input).1 =
      stateAfter startMs session (calls ++ [c]) := by
  have haway : ∀ alert, isAway session alert = true → alert.session = session :=
    session_of_isAway
  have hsilent : ∀ alert, isSilent session alert = true → alert.session = session :=
    session_of_isSilent
  rw [stateAfter_concat, alertsAt_eq c haway, alertsAt_eq c hsilent, h]
  generalize stateAfter startMs session calls = state
  obtain ⟨op, alerts⟩ := c
  cases op with
  | connected name nowMs =>
    by_cases hname : name = session
    · obtain ⟨since?, alerted?, silent?⟩ := state
      cases since? <;> cases alerted? <;>
        simp [State.react, Call.connects, isSilent, hname]
    · simp [State.react, Call.connects, Call.leavesAt, hname]
  | disconnected name nowMs =>
    by_cases hname : name = session
    · cases hsince : state.disconnectedSince <;>
        simp [State.react, Call.connects, Call.leavesAt, hname, hsince]
    · simp [State.react, Call.connects, Call.leavesAt, hname]
  | tick nowMs =>
    by_cases hgrace : 0 < graceMs
    · cases hdue : Watch.due graceMs nowMs state <;>
        simp [State.react, Watch.told, Call.connects, Call.leavesAt, Op.nowMs, isAway, isSilent,
          hgrace, hdue]
    · simp [State.react, Call.connects, Call.leavesAt, hgrace]
  | silent name roomId deliveredMs nowMs =>
    by_cases hdue : name = session ∧ 0 < graceMs ∧
        ∀ at' ∈ state.silentAlertedAt, SILENT_REPEAT_MS ≤ nowMs - at'
    · simp only [State.react, if_pos hdue]
      simp [Call.connects, Call.leavesAt, Op.nowMs, isAway, isSilent]
    · simp only [State.react, if_neg hdue]
      simp [Call.connects, Call.leavesAt]

/-! ## Runs of the watch -/

/-- The entries of the watch are the machines of the configured sessions. -/
structure Recorded (sessions : List String) (graceMs startMs : Nat) (calls : List Call)
    (w : Watch) : Prop where
  names_nodup : w.names.Nodup
  graceMs_eq : w.graceMs = graceMs
  state_eq : ∀ session, w.state? session =
    if session ∈ sessions then some (stateAfter startMs session calls) else none
  configured : ∀ c ∈ calls, ∀ alert ∈ c.alerts, alert.session ∈ sessions

theorem names_new (sessions : List String) (graceSecs nowMs : Nat) :
    (Watch.new sessions graceSecs nowMs).names =
      sessions.dedup.mergeSort fun a b ↦ decide (a ≤ b) := by
  simp [Watch.names, Watch.new, Function.comp_def]

theorem recorded_new (sessions : List String) (graceSecs startMs : Nat) :
    Recorded sessions (min (graceSecs * 1000) (2 ^ 64 - 1)) startMs []
      (Watch.new sessions graceSecs startMs) where
  names_nodup := by
    rw [names_new]
    exact (List.mergeSort_perm ..).nodup_iff.mpr sessions.nodup_dedup
  graceMs_eq := rfl
  state_eq session := by
    split
    next hmem => exact Watch.state?_new graceSecs startMs hmem
    next hmem =>
      refine List.lookup_eq_none_iff.mpr fun entry hentry ↦ ?_
      have hname : entry.1 ∈ (Watch.new sessions graceSecs startMs).names :=
        List.mem_map_of_mem hentry
      rw [names_new, List.mem_mergeSort, List.mem_dedup] at hname
      rw [bne_iff_ne]
      rintro rfl
      exact hmem hname
  configured := by simp

variable {sessions : List String} {graceMs startMs : Nat} {calls : List Call} {w w' : Watch}
  {c : Call}

/-- What a recorded watch answers a report with, for each session. -/
theorem Recorded.about_eq (h : Recorded sessions graceMs startMs calls w)
    (hstep : Watch.Step w c w') (session : String) :
    about session c.alerts =
      if session ∈ sessions then
        ((stateAfter startMs session calls).react graceMs session c.input).2
      else [] := by
  have habout := Watch.about_apply c.input session h.names_nodup
  rw [show w.apply c.input = (w', c.alerts) from hstep, h.state_eq, h.graceMs_eq] at habout
  rw [habout]
  split <;> rfl

/-- An alert is answered where the machine of its session, if it is configured, answers it. -/
theorem Recorded.mem_iff (h : Recorded sessions graceMs startMs calls w)
    (hstep : Watch.Step w c w') (alert : Alert) :
    alert ∈ c.alerts ↔ alert.session ∈ sessions ∧
      alert ∈ ((stateAfter startMs alert.session calls).react graceMs alert.session c.input).2 := by
  rw [mem_iff_mem_about, h.about_eq hstep]
  split
  next hmem => simp [hmem]
  next hmem => simp [hmem]

theorem Recorded.step (h : Recorded sessions graceMs startMs calls w)
    (hstep : Watch.Step w c w') : Recorded sessions graceMs startMs (calls ++ [c]) w' := by
  have happly : w.apply c.input = (w', c.alerts) := hstep
  refine ⟨?_, ?_, fun session ↦ ?_, fun d hd alert halert ↦ ?_⟩
  · have hnames := w.names_apply c.input
    rw [happly] at hnames
    exact hnames ▸ h.names_nodup
  · have hgrace := w.graceMs_apply c.input
    rw [happly] at hgrace
    exact hgrace.trans h.graceMs_eq
  · have hstate := w.state?_apply c.input session
    rw [happly, h.state_eq, h.graceMs_eq] at hstate
    rw [hstate]
    have habout := h.about_eq hstep session
    split
    next hmem =>
      rw [if_pos hmem] at habout
      exact congrArg some (react_stateAfter habout)
    next => rfl
  · rcases List.mem_append.mp hd with hpast | hlast
    · exact h.configured d hpast alert halert
    · obtain rfl := List.mem_singleton.mp hlast
      exact ((h.mem_iff hstep alert).mp halert).1

theorem recorded_of_run {graceSecs : Nat}
    (h : Lts.Run Watch.Step (Watch.new sessions graceSecs startMs) calls w) :
    Recorded sessions (min (graceSecs * 1000) (2 ^ 64 - 1)) startMs calls w :=
  h.history (recorded_new sessions graceSecs startMs) fun _ _ _ _ hrec hstep ↦ hrec.step hstep

/-! ## When an alert is due -/

/-- The clock never goes back, from the start of the watch on. -/
def Clocked (startMs : Nat) (calls : List Call) : Prop :=
  (startMs :: calls.map fun c ↦ c.input.nowMs).Pairwise (· ≤ ·)

/-- After some calls, a report is answered with the alerts that are due by the history: at a tick
those of the sessions away for the grace period whose outage was not alerted in the last
`REPEAT_MS`; at a handshake the length of an outage that was alerted; at a silence one that was not
alerted in the last `SILENT_REPEAT_MS`. -/
structure Due (sessions : List String) (graceMs startMs : Nat) (past : List Call) (c : Call) :
    Prop where
  nodup : c.alerts.Nodup
  tick_iff : ∀ nowMs, c.input = .tick nowMs → ∀ alert, alert ∈ c.alerts ↔
    ∃ session ∈ sessions, ∃ since, alert = .away session since ∧ 0 < graceMs ∧
      awaySince startMs session past = some since ∧ since + graceMs ≤ nowMs ∧
      ∀ at' ∈ awaysAt session past, at' + REPEAT_MS ≤ nowMs
  connected_iff : ∀ session nowMs, c.input = .connected session nowMs → ∀ alert, alert ∈ c.alerts ↔
    ∃ since, awaySince startMs session past = some since ∧ since ≤ nowMs ∧
      alert = .back session (nowMs - since) ∧ awaysAt session past ≠ []
  disconnected_nil : ∀ session nowMs, c.input = .disconnected session nowMs → c.alerts = []
  silent_iff : ∀ session roomId deliveredMs nowMs,
    c.input = .silent session roomId deliveredMs nowMs → ∀ alert, alert ∈ c.alerts ↔
      alert = .silent session roomId deliveredMs ∧ session ∈ sessions ∧ 0 < graceMs ∧
        ∀ at' ∈ silentsAt session past, at' + SILENT_REPEAT_MS ≤ nowMs

theorem filterMap_alertsAt_sublist (kind : Alert → Bool) (calls : List Call) :
    (calls.filterMap (Call.alertsAt kind)).Sublist (calls.map fun c ↦ c.input.nowMs) := by
  induction calls with
  | nil => exact .slnil
  | cons c calls ih =>
    rw [List.filterMap_cons, List.map_cons, Call.alertsAt]
    split
    next => exact ih.cons _
    next at' hat =>
      split at hat
      · exact Option.some.inj hat ▸ ih.cons_cons _
      · nomatch hat

theorem awaysAt_sublist (session : String) (calls : List Call) :
    (awaysAt session calls).Sublist (calls.map fun c ↦ c.input.nowMs) :=
  (filterMap_alertsAt_sublist _ _).trans ((List.rtakeWhile_suffix _ _).sublist.map _)

theorem mem_of_awaySince {session : String} {since : Nat}
    (h : awaySince startMs session calls = some since) :
    since ∈ startMs :: calls.map fun c ↦ c.input.nowMs := by
  unfold awaySince at h
  split at h
  · obtain ⟨c, hc, hleaves⟩ := List.exists_of_findSome?_eq_some h
    have hnow : c.input.nowMs = since := by
      unfold Call.leavesAt at hleaves
      split at hleaves
      next hop =>
        rw [hop]
        split at hleaves
        · exact Option.some.inj hleaves
        · nomatch hleaves
      · nomatch hleaves
    have hmem : c ∈ calls := Latest.since_subset _ _ hc
    exact List.mem_cons_of_mem _ (List.mem_map.mpr ⟨c, hmem, hnow⟩)
  · exact List.mem_cons.mpr (.inl (Option.some.inj h).symm)

/-- Of times that only grow, the last is far enough back where all are. -/
theorem forall_getLast?_iff {times : List Nat} (hsorted : times.Pairwise (· ≤ ·)) {gap : Nat}
    (hgap : 0 < gap) (nowMs : Nat) :
    (∀ at' ∈ times.getLast?, gap ≤ nowMs - at') ↔ ∀ at' ∈ times, at' + gap ≤ nowMs := by
  constructor
  · intro h at' hat
    obtain ⟨init, last, rfl⟩ := List.eq_nil_or_concat times |>.resolve_left
      (List.ne_nil_of_mem hat)
    rw [List.concat_eq_append] at h hat hsorted
    have hlast := h last (by simp)
    have hle : at' ≤ last := by
      rcases List.mem_append.mp hat with hinit | hsingle
      · exact (List.pairwise_append.mp hsorted).2.2 at' hinit last (by simp)
      · exact (List.mem_singleton.mp hsingle).le
    omega
  · intro h at' hat
    have hle := h at' (List.mem_of_getLast? hat)
    omega

theorem due_eq_some_iff {state : State} {nowMs since : Nat} (hgrace : 0 < graceMs) :
    Watch.due graceMs nowMs state = some since ↔
      state.disconnectedSince = some since ∧ since + graceMs ≤ nowMs ∧
        ∀ at' ∈ state.alertedAt, REPEAT_MS ≤ nowMs - at' := by
  unfold Watch.due
  rw [Option.filter_eq_some_iff, decide_eq_true_iff]
  have hlong : graceMs ≤ nowMs - since ↔ since + graceMs ≤ nowMs := by omega
  have hago : state.alertedAt.all (fun at' ↦ decide (REPEAT_MS ≤ nowMs - at')) = true ↔
      ∀ at' ∈ state.alertedAt, REPEAT_MS ≤ nowMs - at' := by
    cases state.alertedAt <;> simp
  rw [hlong, hago]

/-- The alert of a session at a tick, by the history. -/
theorem mem_react_tick_iff {session : String} {nowMs : Nat} {alert : Alert}
    (hclock : Clocked startMs calls) :
    alert ∈ ((stateAfter startMs session calls).react graceMs session (.tick nowMs)).2 ↔
      ∃ since, alert = .away session since ∧ 0 < graceMs ∧
        awaySince startMs session calls = some since ∧ since + graceMs ≤ nowMs ∧
        ∀ at' ∈ awaysAt session calls, at' + REPEAT_MS ≤ nowMs := by
  have hsorted : (awaysAt session calls).Pairwise (· ≤ ·) :=
    hclock.of_cons.sublist (awaysAt_sublist session calls)
  rcases Nat.eq_zero_or_pos graceMs with rfl | hgrace
  · rw [State.react_tick_of_zero]
    constructor
    · nofun
    · rintro ⟨-, -, hpos, -⟩
      exact absurd hpos (lt_irrefl 0)
  · rw [State.react_tick session _ nowMs hgrace, List.mem_map]
    simp only [Option.mem_toList, Option.mem_def, due_eq_some_iff hgrace]
    show (∃ since, (awaySince startMs session calls = some since ∧ since + graceMs ≤ nowMs ∧
      ∀ at' ∈ (awaysAt session calls).getLast?, REPEAT_MS ≤ nowMs - at') ∧ _) ↔ _
    rw [forall_getLast?_iff hsorted (by decide) nowMs]
    exact exists_congr fun since ↦
      ⟨fun ⟨hdue, halert⟩ ↦ ⟨halert.symm, hgrace, hdue⟩,
        fun ⟨halert, _, hdue⟩ ↦ ⟨hdue, halert.symm⟩⟩

/-- The alert of a session at its handshake, by the history. -/
theorem mem_react_connected_iff {session : String} {nowMs : Nat} {alert : Alert}
    (hnow : ∀ at' ∈ startMs :: calls.map fun c ↦ c.input.nowMs, at' ≤ nowMs) :
    alert ∈ ((stateAfter startMs session calls).react graceMs session
        (.connected session nowMs)).2 ↔
      ∃ since, awaySince startMs session calls = some since ∧ since ≤ nowMs ∧
        alert = .back session (nowMs - since) ∧ awaysAt session calls ≠ [] := by
  rw [State.react_connected]
  show alert ∈ (match (awaysAt session calls).getLast?, awaySince startMs session calls with
    | some _, some since => [Alert.back session (nowMs - since)]
    | _, _ => []) ↔ _
  cases haways : (awaysAt session calls).getLast? with
  | none => simp [List.getLast?_eq_none_iff.mp haways]
  | some at' =>
    have hne : awaysAt session calls ≠ [] := by
      intro hnil
      simp [hnil] at haways
    cases hsince : awaySince startMs session calls with
    | none => simp
    | some since =>
      have hle := hnow since (mem_of_awaySince hsince)
      simp [hne, hle]

/-- The alert of a session at its silence, by the history. -/
theorem mem_react_silent_iff {session roomId : String} {deliveredMs nowMs : Nat} {alert : Alert}
    (hclock : Clocked startMs calls) :
    alert ∈ ((stateAfter startMs session calls).react graceMs session
        (.silent session roomId deliveredMs nowMs)).2 ↔
      alert = .silent session roomId deliveredMs ∧ 0 < graceMs ∧
        ∀ at' ∈ silentsAt session calls, at' + SILENT_REPEAT_MS ≤ nowMs := by
  have hsorted : (silentsAt session calls).Pairwise (· ≤ ·) :=
    hclock.of_cons.sublist (filterMap_alertsAt_sublist _ calls)
  have hago : (∀ at' ∈ (stateAfter startMs session calls).silentAlertedAt,
      SILENT_REPEAT_MS ≤ nowMs - at') ↔ _ :=
    forall_getLast?_iff hsorted (by decide) nowMs
  simp only [State.react, true_and, hago]
  split
  next hdue =>
    rw [List.mem_singleton]
    exact ⟨fun h ↦ ⟨h, hdue⟩, And.left⟩
  next hdue => exact ⟨nofun, fun h ↦ absurd h.2 hdue⟩

theorem length_react_le (graceMs : Nat) (session : String) (state : State) (op : Op) :
    (state.react graceMs session op).2.length ≤ 1 := by
  unfold State.react
  cases op with
  | connected name nowMs =>
    simp only
    split
    · split <;> simp
    · simp
  | disconnected name nowMs =>
    simp only
    split <;> simp
  | tick nowMs =>
    simp only
    split
    · cases Watch.due graceMs nowMs state <;> simp
    · simp
  | silent name roomId deliveredMs nowMs =>
    simp only
    split <;> simp

theorem Clocked.le {past future : List Call} (h : Clocked startMs (past ++ c :: future)) :
    ∀ at' ∈ startMs :: past.map (fun c ↦ c.input.nowMs), at' ≤ c.input.nowMs := by
  unfold Clocked at h
  rw [List.map_append, List.map_cons, ← List.cons_append] at h
  exact fun at' hat ↦ (List.pairwise_append.mp h).2.2 at' hat _ (by simp)

theorem Clocked.past {past future : List Call} (h : Clocked startMs (past ++ future)) :
    Clocked startMs past := by
  unfold Clocked at h ⊢
  rw [List.map_append, ← List.cons_append] at h
  exact (List.pairwise_append.mp h).1

theorem Recorded.nodup (h : Recorded sessions graceMs startMs calls w)
    (hstep : Watch.Step w c w') : c.alerts.Nodup := by
  rw [List.nodup_iff_count_le_one]
  intro alert
  have hcount : c.alerts.count alert = (about alert.session c.alerts).count alert :=
    (List.count_filter (by simp)).symm
  rw [hcount, h.about_eq hstep]
  refine List.count_le_length.trans ?_
  split
  · exact length_react_le _ _ _ _
  · exact Nat.zero_le 1

/-- A session with an outage that was alerted is configured. -/
theorem Recorded.mem_sessions {session : String} (h : Recorded sessions graceMs startMs calls w)
    (haways : awaysAt session calls ≠ []) : session ∈ sessions := by
  obtain ⟨at', hat⟩ := List.exists_mem_of_ne_nil _ haways
  obtain ⟨c, hc, halerts⟩ := List.mem_filterMap.mp hat
  unfold Call.alertsAt at halerts
  split at halerts
  next hany =>
    obtain ⟨alert, halert, haway⟩ := List.any_eq_true.mp hany
    rw [← session_of_isAway alert haway]
    exact h.configured c (Latest.since_subset _ _ hc) alert halert
  next => nomatch halerts

theorem Recorded.due {future : List Call} (h : Recorded sessions graceMs startMs calls w)
    (hstep : Watch.Step w c w') (hclock : Clocked startMs (calls ++ c :: future)) :
    Due sessions graceMs startMs calls c where
  nodup := h.nodup hstep
  tick_iff nowMs hop alert := by
    rw [h.mem_iff hstep, hop, mem_react_tick_iff hclock.past]
    constructor
    · rintro ⟨hsession, since, halert, hdue⟩
      exact ⟨_, hsession, since, halert, hdue⟩
    · rintro ⟨session, hsession, since, rfl, hdue⟩
      exact ⟨hsession, since, rfl, hdue⟩
  connected_iff session nowMs hop alert := by
    have hnow := hclock.le
    rw [hop] at hnow
    rw [h.mem_iff hstep, hop]
    constructor
    · rintro ⟨hsession, hmem⟩
      obtain rfl : session = alert.session := eq_of_beq (State.bearsOn_of_mem_react hmem)
      exact (mem_react_connected_iff hnow).mp hmem
    · intro hdue
      have hmem : alert ∈ ((stateAfter startMs session calls).react graceMs session
          (.connected session nowMs)).2 := (mem_react_connected_iff hnow).mpr hdue
      obtain ⟨since, -, -, rfl, haways⟩ := hdue
      exact ⟨h.mem_sessions haways, hmem⟩
  disconnected_nil session nowMs hop := by
    rw [List.eq_nil_iff_forall_not_mem]
    intro alert halert
    have hmem := ((h.mem_iff hstep alert).mp halert).2
    rw [hop] at hmem
    unfold State.react at hmem
    simp only at hmem
    split at hmem <;> nomatch hmem
  silent_iff session roomId deliveredMs nowMs hop alert := by
    rw [h.mem_iff hstep, hop]
    constructor
    · rintro ⟨hsession, hmem⟩
      obtain rfl : session = alert.session := eq_of_beq (State.bearsOn_of_mem_react hmem)
      obtain ⟨halert, hdue⟩ := (mem_react_silent_iff hclock.past).mp hmem
      exact ⟨halert, hsession, hdue⟩
    · rintro ⟨rfl, hsession, hdue⟩
      exact ⟨hsession, (mem_react_silent_iff hclock.past).mpr ⟨rfl, hdue⟩⟩

/-! ## Every call of a run -/

theorem run_due {graceSecs : Nat}
    (h : Lts.Run Watch.Step (Watch.new sessions graceSecs startMs) calls w)
    (hclock : Clocked startMs calls) {past future : List Call}
    (hsplit : calls = past ++ c :: future) :
    Due sessions (min (graceSecs * 1000) (2 ^ 64 - 1)) startMs past c := by
  obtain ⟨v, v', hpast, hstep, -⟩ := h.split hsplit
  exact (recorded_of_run hpast).due hstep (hsplit ▸ hclock)

theorem Due.input_of_back (h : Due sessions graceMs startMs calls c) {session : String}
    {awayMs : Nat} (halert : .back session awayMs ∈ c.alerts) :
    ∃ nowMs, c.input = .connected session nowMs := by
  cases hop : c.input with
  | connected name nowMs =>
    obtain ⟨since, -, -, heq, -⟩ := (h.connected_iff name nowMs hop _).mp halert
    obtain ⟨rfl, -⟩ : session = name ∧ awayMs = nowMs - since := by simpa using heq
    exact ⟨nowMs, rfl⟩
  | disconnected name nowMs =>
    rw [h.disconnected_nil name nowMs hop] at halert
    nomatch halert
  | tick nowMs =>
    obtain ⟨name, -, since, heq, -⟩ := (h.tick_iff nowMs hop _).mp halert
    nomatch heq
  | silent name roomId deliveredMs nowMs =>
    nomatch ((h.silent_iff name roomId deliveredMs nowMs hop _).mp halert).1

theorem Due.input_of_silent (h : Due sessions graceMs startMs calls c) {session roomId : String}
    {deliveredMs : Nat} (halert : .silent session roomId deliveredMs ∈ c.alerts) :
    ∃ nowMs, c.input = .silent session roomId deliveredMs nowMs := by
  cases hop : c.input with
  | connected name nowMs =>
    obtain ⟨since, -, -, heq, -⟩ := (h.connected_iff name nowMs hop _).mp halert
    nomatch heq
  | disconnected name nowMs =>
    rw [h.disconnected_nil name nowMs hop] at halert
    nomatch halert
  | tick nowMs =>
    obtain ⟨name, -, since, heq, -⟩ := (h.tick_iff nowMs hop _).mp halert
    nomatch heq
  | silent name roomId' deliveredMs' nowMs =>
    obtain ⟨rfl, rfl, rfl⟩ : session = name ∧ roomId = roomId' ∧ deliveredMs = deliveredMs' := by
      simpa using ((h.silent_iff name roomId' deliveredMs' nowMs hop _).mp halert).1
    exact ⟨nowMs, rfl⟩

/-- The same outage does not end twice. -/
theorem leaves_between {session : String} {past between : List Call} {d : Call} {a b : Nat}
    (hc : Due sessions graceMs startMs past c)
    (hd : Due sessions graceMs startMs (past ++ c :: between) d)
    (hcback : .back session a ∈ c.alerts) (hdback : .back session b ∈ d.alerts) :
    ∃ e ∈ between, ∃ nowMs, e.input = .disconnected session nowMs := by
  obtain ⟨cMs, hcop⟩ := hc.input_of_back hcback
  obtain ⟨dMs, hdop⟩ := hd.input_of_back hdback
  obtain ⟨since, hsince, -, -, -⟩ := (hd.connected_iff session dMs hdop _).mp hdback
  have hconnects : c.connects session = true := by simp [Call.connects, hcop]
  have hany : (past ++ c :: between).any (Call.connects session) = true :=
    List.any_eq_true.mpr ⟨c, by simp, hconnects⟩
  rw [awaySince, if_pos hany] at hsince
  obtain ⟨e, he, hleaves⟩ := List.exists_of_findSome?_eq_some hsince
  refine ⟨e, Latest.mem_of_mem_since hconnects he, ?_⟩
  unfold Call.leavesAt at hleaves
  split at hleaves
  next name nowMs hop =>
    split at hleaves
    next hname => exact ⟨nowMs, hname ▸ hop⟩
    next => nomatch hleaves
  next => nomatch hleaves

theorem silent_spaced {session roomId roomId' : String} {deliveredMs deliveredMs' : Nat}
    {past between : List Call} {d : Call}
    (hd : Due sessions graceMs startMs (past ++ c :: between) d)
    (hcsilent : .silent session roomId deliveredMs ∈ c.alerts)
    (hdsilent : .silent session roomId' deliveredMs' ∈ d.alerts) :
    c.input.nowMs + SILENT_REPEAT_MS ≤ d.input.nowMs := by
  obtain ⟨nowMs, hop⟩ := hd.input_of_silent hdsilent
  obtain ⟨-, -, -, hago⟩ := (hd.silent_iff session roomId' deliveredMs' nowMs hop _).mp hdsilent
  rw [hop]
  refine hago _ (List.mem_filterMap.mpr ⟨c, by simp, ?_⟩)
  exact if_pos (List.any_eq_true.mpr ⟨_, hcsilent, beq_self_eq_true session⟩)

/-- With a grace of zero no call is answered. -/
theorem silent_of_zero (h : Lts.Run Watch.Step (Watch.new sessions 0 startMs) calls w)
    (hclock : Clocked startMs calls) : ∀ c ∈ calls, c.alerts = [] := by
  generalize hw : Watch.new sessions 0 startMs = start at h
  induction h with
  | nil => nofun
  | @snoc v v' calls c hrun hstep ih =>
    have hpast := ih hclock.past
    have hdue := (recorded_of_run (hw ▸ hrun)).due hstep (show Clocked _ (_ ++ c :: []) from hclock)
    have hnone : ∀ session, awaysAt session calls = [] := by
      intro session
      refine List.filterMap_eq_nil_iff.mpr fun e he ↦ ?_
      rw [Call.alertsAt, hpast e (Latest.since_subset _ _ he)]
      rfl
    have hlast : c.alerts = [] := by
      rw [List.eq_nil_iff_forall_not_mem]
      intro alert halert
      cases hop : c.input with
      | connected name nowMs =>
        obtain ⟨-, -, -, -, hne⟩ := (hdue.connected_iff name nowMs hop alert).mp halert
        exact hne (hnone name)
      | disconnected name nowMs =>
        rw [hdue.disconnected_nil name nowMs hop] at halert
        nomatch halert
      | tick nowMs =>
        obtain ⟨-, -, -, -, hpos, -⟩ := (hdue.tick_iff nowMs hop alert).mp halert
        exact absurd hpos (by decide)
      | silent name roomId deliveredMs nowMs =>
        obtain ⟨-, -, hpos, -⟩ :=
          (hdue.silent_iff name roomId deliveredMs nowMs hop alert).mp halert
        exact absurd hpos (by decide)
    intro d hd
    rcases List.mem_append.mp hd with hold | hnew
    · exact hpast d hold
    · obtain rfl := List.mem_singleton.mp hnew
      exact hlast

/-- The calls that bear on a session, each with its alerts for the session. -/
def seenBy (session : String) (calls : List Call) : List (Op × List Alert) :=
  (calls.filter fun c ↦ c.input.bearsOn session).map fun c ↦ (c.input, about session c.alerts)

theorem seenBy_concat (session : String) (calls : List Call) (c : Call) :
    seenBy session (calls ++ [c]) = seenBy session calls ++
      if c.input.bearsOn session then [(c.input, about session c.alerts)] else [] := by
  rw [seenBy, List.filter_append, List.map_append]
  by_cases h : c.input.bearsOn session = true
  · simp [seenBy, h]
  · simp [seenBy, h]

/-- Without the reports about other sessions, the alerts of a session are the same. -/
theorem exists_run_alone {graceSecs : Nat} (session : String)
    (h : Lts.Run Watch.Step (Watch.new sessions graceSecs startMs) calls w) :
    ∃ calls' v, Lts.Run Watch.Step (Watch.new sessions graceSecs startMs) calls' v ∧
      (∀ c ∈ calls', c.input.bearsOn session = true) ∧
      seenBy session calls' = seenBy session calls ∧ v.state? session = w.state? session := by
  generalize hw : Watch.new sessions graceSecs startMs = start at h
  induction h with
  | nil => exact ⟨[], start, .nil start, nofun, rfl, rfl⟩
  | @snoc t t' calls c hrun hstep ih =>
    obtain ⟨calls', v, hv, hbear, hseen, hstate⟩ := ih
    have hcalls := recorded_of_run (hw ▸ hrun)
    have hcalls' := recorded_of_run (hw ▸ hv)
    have happly : t.apply c.input = (t', c.alerts) := hstep
    have hnext := t.state?_apply c.input session
    rw [happly] at hnext
    by_cases hbears : c.input.bearsOn session = true
    · have hnew : Watch.Step v ⟨c.input, (v.apply c.input).2⟩ (v.apply c.input).1 := rfl
      refine ⟨calls' ++ [⟨c.input, (v.apply c.input).2⟩], (v.apply c.input).1, hv.snoc hnew, ?_, ?_,
        ?_⟩
      · intro d hd
        rcases List.mem_append.mp hd with hold | hnew
        · exact hbear d hold
        · obtain rfl := List.mem_singleton.mp hnew
          exact hbears
      · have habout := Watch.about_apply c.input session hcalls.names_nodup
        rw [happly, hcalls.graceMs_eq, ← hcalls'.graceMs_eq, ← hstate,
          ← Watch.about_apply c.input session hcalls'.names_nodup] at habout
        rw [seenBy_concat, seenBy_concat, hseen, if_pos hbears, if_pos hbears]
        show _ ++ [(c.input, about session (v.apply c.input).2)] = _
        rw [← habout]
      · rw [hnext, v.state?_apply c.input session, hstate, hcalls.graceMs_eq, hcalls'.graceMs_eq]
    · have hother : c.input.bearsOn session = false := Bool.eq_false_iff.mpr hbears
      refine ⟨calls', v, hv, hbear, ?_, ?_⟩
      · rw [seenBy_concat, hseen, if_neg hbears, List.append_nil]
      · rw [hnext, hstate]
        cases t.state? session with
        | none => rfl
        | some state => simp [State.react_of_not_bearsOn _ _ hother]

/-- The owner is alerted exactly when an alert is due.  In every run of reports whose clock never
goes back: each report is answered with the alerts that are due by the history; the same outage does
not end twice, two alerts of one silence are apart, nothing is answered with a grace of zero, and
the alerts of a session are those it has when no other session is reported. -/
theorem alerted_when_due {graceSecs : Nat}
    (h : Lts.Run Watch.Step (Watch.new sessions graceSecs startMs) calls w)
    (hclock : Clocked startMs calls) :
    (∀ past c future, calls = past ++ c :: future →
      Due sessions (min (graceSecs * 1000) (2 ^ 64 - 1)) startMs past c) ∧
    (∀ past c between d future session a b, calls = past ++ c :: (between ++ d :: future) →
      .back session a ∈ c.alerts → .back session b ∈ d.alerts →
        ∃ e ∈ between, ∃ nowMs, e.input = .disconnected session nowMs) ∧
    (∀ past c between d future session roomId deliveredMs roomId' deliveredMs',
      calls = past ++ c :: (between ++ d :: future) →
      .silent session roomId deliveredMs ∈ c.alerts →
      .silent session roomId' deliveredMs' ∈ d.alerts →
        c.input.nowMs + SILENT_REPEAT_MS ≤ d.input.nowMs) ∧
    (graceSecs = 0 → ∀ c ∈ calls, c.alerts = []) ∧
    ∀ session, (∀ c ∈ calls, c.input.bearsOn session = false → about session c.alerts = []) ∧
      ∃ calls' w', Lts.Run Watch.Step (Watch.new sessions graceSecs startMs) calls' w' ∧
        (∀ c ∈ calls', c.input.bearsOn session = true) ∧
        seenBy session calls' = seenBy session calls := by
  have hdue : ∀ {past c future}, calls = past ++ c :: future →
      Due sessions (min (graceSecs * 1000) (2 ^ 64 - 1)) startMs past c := fun hsplit ↦
    run_due h hclock hsplit
  have hlater : ∀ {past between future : List Call} {c d : Call},
      calls = past ++ c :: (between ++ d :: future) →
      Due sessions (min (graceSecs * 1000) (2 ^ 64 - 1)) startMs (past ++ c :: between) d := by
    intro past between future c d hsplit
    exact hdue (by rw [hsplit, List.append_assoc, List.cons_append])
  refine ⟨fun _ _ _ ↦ hdue, ?_, ?_, ?_, fun session ↦ ⟨?_, ?_⟩⟩
  · intro past c between d future session a b hsplit hc hd
    exact leaves_between (hdue hsplit) (hlater hsplit) hc hd
  · intro past c between d future session _ _ _ _ hsplit hc hd
    exact silent_spaced (hlater hsplit) hc hd
  · rintro rfl
    exact silent_of_zero h hclock
  · intro c hc hbears
    obtain ⟨past, future, hsplit⟩ := List.append_of_mem hc
    obtain ⟨v, v', -, hstep, -⟩ := h.split hsplit
    have hnone := Watch.about_apply_of_not_bearsOn v hbears
    rwa [show v.apply c.input = (v', c.answer) from hstep] at hnone
  · obtain ⟨calls', v, hrun, hbear, hseen, -⟩ := exists_run_alone session h
    exact ⟨calls', v, hrun, hbear, hseen⟩

/-- Two sessions, one of which is away for longer than its grace and comes back. -/
def awayCalls : List Call :=
  [⟨.connected "mara" 0, []⟩, ⟨.tick 600000, [.away "lev" 0]⟩,
    ⟨.silent "mara" "!a:x" 500000 610000, [.silent "mara" "!a:x" 500000]⟩, ⟨.tick 620000, []⟩,
    ⟨.connected "lev" 700000, [.back "lev" 700000]⟩, ⟨.connected "lev" 700001, []⟩]

theorem run_awayCalls :
    ∃ w, Lts.Run Watch.Step (Watch.new ["lev", "mara"] 600 0) awayCalls w := by
  have hsort : ["lev", "mara"].mergeSort (fun a b ↦ decide (a ≤ b)) = ["lev", "mara"] :=
    List.mergeSort_of_pairwise (by decide)
  have hnew : Watch.new ["lev", "mara"] 600 0 =
      ⟨600000, [("lev", ⟨some 0, none, none⟩), ("mara", ⟨some 0, none, none⟩)]⟩ := by
    rw [Watch.new, show ["lev", "mara"].dedup = ["lev", "mara"] by decide, hsort]
    rfl
  have hcalls : Lts.callsOf Watch.apply (Watch.new ["lev", "mara"] 600 0)
      (awayCalls.map Lts.Call.input) = awayCalls := by
    rw [hnew]
    decide
  exact ⟨_, hcalls ▸ Lts.run_callsOf Watch.apply _ (awayCalls.map Lts.Call.input)⟩

theorem alerted_when_due_away :
    Due ["lev", "mara"] 600000 0 (awayCalls.take 4)
      ⟨.connected "lev" 700000, [.back "lev" 700000]⟩ := by
  obtain ⟨w, hrun⟩ := run_awayCalls
  have hclock : Clocked 0 awayCalls := by
    show (0 :: awayCalls.map fun c ↦ c.input.nowMs).Pairwise (· ≤ ·)
    decide
  exact (alerted_when_due hrun hclock).1 _ _ [⟨.connected "lev" 700001, []⟩] rfl

end Alert

end Silta
