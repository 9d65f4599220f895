import Silta.AlertHistory
import Silta.RoomAccess
import Silta.RoutingOrder
import Silta.Timestamps

/-!
# What the daemon does unasked

The rooms it joins on an invite, and the alerts that it posts to the owner: into which rooms these
go and which text they have, over whole runs with restarts.
-/

namespace Silta

namespace Notices

open Alert (Watch)

/-! ## The text of an alert -/

def minutes (ms : Nat) : String :=
  let minutes := ms / 60000
  if minutes < 60 then
    toString minutes ++ " min"
  else if minutes % 60 = 0 then
    toString (minutes / 60) ++ " h"
  else
    toString (minutes / 60) ++ " h " ++ toString (minutes % 60) ++ " min"

def message (alert : Alert) (host : String) (nowMs : Nat) : String :=
  match alert with
  | .away session sinceMs =>
    "⚠ Silta: session \"" ++ session ++ "\" has been disconnected for " ++
      minutes (nowMs - sinceMs) ++ " (since " ++ Time.rfc3339Utc sinceMs ++
      "). Check \"systemctl status silta-session@" ++ session ++
      "\" and \"journalctl -u silta-session@" ++ session ++ "\" on " ++ host ++
      "; a failed start or a missing or expired token are the usual causes."
  | .back session awayMs =>
    "Silta: session \"" ++ session ++ "\" is connected again after " ++ minutes awayMs ++ "."
  | .silent session _ deliveredMs =>
    "⚠ Silta: session \"" ++ session ++ "\" received a message at " ++
      Time.rfc3339Utc deliveredMs ++ " and has shown no reply, reaction or typing for " ++
      minutes (nowMs - deliveredMs) ++ ". If it repeats, check \"journalctl -u silta-session@" ++
      session ++ "\" on " ++ host ++
      ": an expired token shows as authentication_failed, an API account out of credits as an " ++
      "API error."

/-! ## The owner's room -/

/-- The loop over the members other than the bot: the owner it has come to, and whether it has gone
through. -/
def scan (r : Routing) : Option String → List String → Option String × Bool
  | owner, [] => (owner, true)
  | owner, member :: members =>
    match r.personFor member with
    | some person =>
      if person.role = .owner ∧ owner.all (· = person.name) then
        scan r (some person.name) members
      else
        (owner, false)
    | none => (owner, false)

def isOwnerDm (r : Routing) (members : List String) : Bool :=
  let (owner, onlyOwner) := scan r none (members.filter fun member ↦ !r.isBot member)
  onlyOwner && owner.isSome

/-- The joined rooms in the order of the client, each with what the server answers for its
members. -/
abbrev Rooms := List (String × Except String (List String))

def ownerDm (r : Routing) (rooms : Rooms) : Option String :=
  (rooms.find? fun room ↦
    match room.2 with
    | .ok members => isOwnerDm r members
    | .error _ => false).map Prod.fst

/-- The room that an alert is posted in, with its text. -/
def send (host : String) (r : Routing) (alert : Alert) (nowMs : Nat) (rooms : Rooms) :
    Option (String × String) :=
  (ownerDm r rooms).map fun roomId ↦ (roomId, message alert host nowMs)

structure Invite where
  roomId : String
  sender : String
  stateKey : String
  membership : String

/-- A task that joins a room, with the seconds that it waits after a failure. -/
structure Task where
  roomId : String
  delay : Nat
  deriving DecidableEq, Repr

def onInvite (c : Config) (invite : Invite) : Option Task :=
  if invite.stateKey ≠ c.matrix.userId then
    none
  else if invite.membership ≠ "invite" then
    none
  else
    ((Routing.new c).personFor invite.sender).map fun _ ↦ ⟨invite.roomId, 2⟩

/-- What is left of a task after a failure. -/
def Task.retry (task : Task) : Option Task :=
  if task.delay < 300 then some ⟨task.roomId, task.delay * 2⟩ else none

/-! ## The daemon -/

/-- A start of the daemon. -/
structure Start where
  config : Config
  graceSecs : Nat
  nowMs : Nat

def Start.watch (start : Start) : Watch :=
  .new (Routing.new start.config).sessionNames start.graceSecs start.nowMs

structure State where
  start : Start
  watch : Watch
  /-- The alerts that are still to be sent. -/
  due : List Alert
  joining : List Task
  joined : List String

inductive Label
  | report (call : Alert.Call)
  | alert (alert : Alert) (nowMs : Nat) (rooms : Rooms)
  | invite (invite : Invite)
  | join (task : Task) (ok : Bool)
  /-- The bot is no longer in the room. -/
  | left (roomId : String)
  | restart (start : Start)

/-- The daemon as it starts, with the rooms that the bot is in. -/
def State.of (start : Start) (joined : List String) : State := ⟨start, start.watch, [], [], joined⟩

/-- The watch with what is reported to it, the alerts one by one in whatever order, and the tasks
that join rooms. -/
inductive Step (s : State) : Label → State → Prop
  | report (call : Alert.Call) (w : Watch) (h : Watch.Step s.watch call w) :
      Step s (.report call) { s with watch := w, due := s.due ++ call.alerts }
  | alert (alert : Alert) (nowMs : Nat) (rooms : Rooms) (hdue : alert ∈ s.due)
      (hrooms : ∀ room ∈ rooms, room.1 ∈ s.joined) :
      Step s (.alert alert nowMs rooms) { s with due := s.due.erase alert }
  | invite (invite : Invite) :
      Step s (.invite invite)
        { s with joining := s.joining ++ (onInvite s.start.config invite).toList }
  | joined (task : Task) (h : task ∈ s.joining) :
      Step s (.join task true)
        { s with joining := s.joining.erase task, joined := task.roomId :: s.joined }
  | failed (task : Task) (h : task ∈ s.joining) :
      Step s (.join task false)
        { s with joining := s.joining.erase task ++ task.retry.toList }
  | left (roomId : String) :
      Step s (.left roomId) { s with joined := s.joined.filter (· ≠ roomId) }
  | restart (start : Start) (hvalid : start.config.validate = .ok ()) :
      Step s (.restart start) (.of start s.joined)

/-! ## What has happened -/

/-- The last start. -/
def startOf (start : Start) (labels : List Label) : Start :=
  labels.foldl (fun start label ↦
    match label with
    | .restart start => start
    | _ => start) start

/-- What has been reported to the watch since the last start. -/
def callsOf (labels : List Label) : List Alert.Call :=
  labels.foldl (fun calls label ↦
    match label with
    | .report call => calls ++ [call]
    | .restart _ => []
    | _ => calls) []

/-- Someone who was registered then has invited the bot to the room. -/
def Invited (start : Start) (labels : List Label) (roomId : String) : Prop :=
  ∃ before invite after, labels = before ++ .invite invite :: after ∧ invite.roomId = roomId ∧
    invite.stateKey = (startOf start before).config.matrix.userId ∧
    invite.membership = "invite" ∧
    ∃ p ∈ (startOf start before).config.people, invite.sender ∈ p.addresses

/-- How often an alert was raised. -/
def raised (alert : Alert) : Label → Nat
  | .report call => call.alerts.count alert
  | _ => 0

def sends (alert : Alert) : Label → Bool
  | .alert sent _ _ => sent = alert
  | _ => false

def joins : Label → Bool
  | .join .. => true
  | _ => false

def invites : Label → Bool
  | .invite _ => true
  | _ => false

/-- How often a room is tried, from this delay on. -/
def attempts (delay : Nat) : Nat :=
  if 0 < delay ∧ delay < 300 then attempts (delay * 2) + 1 else 1
termination_by 300 - delay

theorem startOf_concat (start : Start) (labels : List Label) (label : Label) :
    startOf start (labels ++ [label]) =
      match label with
      | .restart start => start
      | _ => startOf start labels := by
  simp [startOf]

theorem callsOf_concat (labels : List Label) (label : Label) :
    callsOf (labels ++ [label]) =
      match label with
      | .report call => callsOf labels ++ [call]
      | .restart _ => []
      | _ => callsOf labels := by
  simp [callsOf]

theorem Invited.append {start : Start} {labels : List Label} {roomId : String}
    (h : Invited start labels roomId) (more : List Label) :
    Invited start (labels ++ more) roomId := by
  obtain ⟨before, invite, after, rfl, hinvite⟩ := h
  exact ⟨before, invite, after ++ more, by simp, hinvite⟩

theorem attempts_two : attempts 2 = 9 := by
  simp [attempts]

/-! ## The alerts of a run -/

/-- The alerts that are still to be sent come from the watch of the last start. -/
structure Watching (start : Start) (labels : List Label) (s : State) : Prop where
  start_eq : s.start = startOf start labels
  valid : s.start.config.Valid
  watch : Lts.Run Watch.Step s.start.watch (callsOf labels) s.watch
  due : ∀ alert ∈ s.due, ∃ call ∈ callsOf labels, alert ∈ call.alerts
  sent : ∀ alert, labels.countP (sends alert) + s.due.count alert ≤
    (labels.map (raised alert)).sum

namespace Watching

variable {start : Start} {labels : List Label} {s t : State} {label : Label}

theorem other (h : Watching start labels s) (hstart : t.start = s.start)
    (hwatch : t.watch = s.watch) (hdue : t.due = s.due)
    (hstarts : startOf start (labels ++ [label]) = startOf start labels)
    (hcalls : callsOf (labels ++ [label]) = callsOf labels)
    (hsends : ∀ alert, sends alert label = false) :
    Watching start (labels ++ [label]) t where
  start_eq := by rw [hstart, hstarts, h.start_eq]
  valid := hstart ▸ h.valid
  watch := by
    rw [hstart, hwatch, hcalls]
    exact h.watch
  due := by
    rw [hdue, hcalls]
    exact h.due
  sent alert := by
    have hsent := h.sent alert
    rw [hdue, List.countP_append, List.countP_singleton, hsends, List.map_append, List.sum_append]
    simp only [Bool.false_eq_true, if_false]
    omega

theorem step (h : Watching start labels s) (hstep : Step s label t) :
    Watching start (labels ++ [label]) t := by
  cases hstep with
  | report call w hw =>
    refine ⟨?_, h.valid, ?_, ?_, fun alert ↦ ?_⟩
    · rw [startOf_concat, h.start_eq]
    · rw [callsOf_concat]
      exact h.watch.snoc hw
    · rw [callsOf_concat]
      intro alert halert
      rcases List.mem_append.mp halert with halert | halert
      · obtain ⟨c, hc, hmem⟩ := h.due alert halert
        exact ⟨c, List.mem_append_left _ hc, hmem⟩
      · exact ⟨call, List.mem_append_right _ (List.mem_singleton_self _), halert⟩
    · have hsent := h.sent alert
      simp only [List.countP_append, List.countP_singleton, List.count_append, List.map_append,
        List.sum_append, List.map_cons, List.map_nil, List.sum_singleton, sends, raised,
        Bool.false_eq_true, if_false]
      omega
  | alert alert nowMs rooms hdue hrooms =>
    refine ⟨?_, h.valid, ?_, ?_, fun other ↦ ?_⟩
    · rw [startOf_concat, h.start_eq]
    · rw [callsOf_concat]
      exact h.watch
    · rw [callsOf_concat]
      exact fun other hother ↦ h.due other (List.mem_of_mem_erase hother)
    · have hsent := h.sent other
      simp only [List.countP_append, List.countP_singleton, List.map_append, List.sum_append,
        List.map_cons, List.map_nil, List.sum_singleton, sends, raised, decide_eq_true_eq]
      by_cases heq : alert = other
      · -- it is taken from those to be sent
        subst heq
        have hpos : 0 < s.due.count alert := List.count_pos_iff.mpr hdue
        rw [List.count_erase_self, if_pos rfl]
        omega
      · rw [List.count_erase_of_ne (Ne.symm heq), if_neg heq]
        omega
  | restart start' hvalid =>
    refine ⟨?_, Config.validate_eq_ok_iff.mp hvalid, ?_, nofun, fun alert ↦ ?_⟩
    · rw [startOf_concat]
      rfl
    · rw [callsOf_concat]
      exact .nil _
    · have hsent := h.sent alert
      simp only [List.countP_append, List.countP_singleton, List.map_append, List.sum_append,
        List.map_cons, List.map_nil, List.sum_singleton, sends, raised, Bool.false_eq_true,
        if_false, State.of, List.count_nil]
      omega
  | invite | joined | failed | left =>
    exact h.other rfl rfl rfl (startOf_concat ..) (callsOf_concat ..) fun _ ↦ rfl

end Watching

/-! ## The rooms of a run -/

/-- The rooms come from invites, and each invite has its tries. -/
structure Joining (start : Start) (joined : List String) (labels : List Label) (s : State) :
    Prop where
  joined : ∀ roomId ∈ s.joined, roomId ∈ joined ∨ Invited start labels roomId
  joining : ∀ task ∈ s.joining, 0 < task.delay ∧ Invited start labels task.roomId
  tries : labels.countP joins + (s.joining.map fun task ↦ attempts task.delay).sum ≤
    9 * labels.countP invites

theorem onInvite_eq_some_iff {c : Config} (hc : c.Valid) {invite : Invite} {task : Task} :
    onInvite c invite = some task ↔ invite.stateKey = c.matrix.userId ∧
      invite.membership = "invite" ∧ (∃ p ∈ c.people, invite.sender ∈ p.addresses) ∧
      ⟨invite.roomId, 2⟩ = task := by
  unfold onInvite
  split
  · next hkey => simp [hkey]
  next hkey =>
    split
    · next hmember => simp [hmember]
    next hmember =>
      rw [Option.map_eq_some_iff]
      simp only [Routing.personFor_eq_some_iff hc]
      simp [not_not.mp hkey, not_not.mp hmember]

theorem attempts_pos (delay : Nat) : 0 < attempts delay := by
  rw [attempts]
  split <;> omega

/-- A failure costs one try. -/
theorem sum_retry {task : Task} (hpos : 0 < task.delay) :
    (task.retry.toList.map fun task ↦ attempts task.delay).sum + 1 = attempts task.delay := by
  rw [attempts, Task.retry]
  by_cases hmore : task.delay < 300
  · simp [hmore, hpos]
  · simp [hmore]

namespace Joining

variable {start : Start} {joined : List String} {labels : List Label} {s t : State} {label : Label}

theorem step (h : Joining start joined labels s) (hwatching : Watching start labels s)
    (hstep : Step s label t) : Joining start joined (labels ++ [label]) t := by
  have hold : ∀ roomId ∈ s.joined, roomId ∈ joined ∨ Invited start (labels ++ [label]) roomId :=
    fun roomId hroom ↦ (h.joined roomId hroom).imp_right (·.append [label])
  have htasks : ∀ task ∈ s.joining,
      0 < task.delay ∧ Invited start (labels ++ [label]) task.roomId :=
    fun task htask ↦ (h.joining task htask).imp_right (·.append [label])
  have htries := h.tries
  cases hstep with
  | report | alert => exact ⟨hold, htasks, by simpa [joins, invites] using htries⟩
  | left roomId =>
    refine ⟨fun other hother ↦ hold other (List.mem_filter.mp hother).1, htasks, ?_⟩
    simpa [joins, invites] using htries
  | restart start' hvalid =>
    refine ⟨hold, nofun, ?_⟩
    simp only [List.countP_append, List.countP_singleton, joins, invites, State.of, List.map_nil,
      List.sum_nil, Bool.false_eq_true, if_false]
    omega
  | invite invite =>
    refine ⟨hold, fun task htask ↦ ?_, ?_⟩
    · rcases List.mem_append.mp htask with htask | htask
      · exact htasks task htask
      · obtain ⟨hkey, hmember, hperson, rfl⟩ :=
          (onInvite_eq_some_iff hwatching.valid).mp (Option.mem_toList.mp htask)
        rw [hwatching.start_eq] at hkey hperson
        exact ⟨Nat.zero_lt_two, labels, invite, [], rfl, rfl, hkey, hmember, hperson⟩
    · have hnew : ((onInvite s.start.config invite).toList.map
          fun task ↦ attempts task.delay).sum ≤ 9 := by
        cases htask : onInvite s.start.config invite with
        | none => exact Nat.zero_le 9
        | some task =>
          obtain ⟨-, -, -, rfl⟩ := (onInvite_eq_some_iff hwatching.valid).mp htask
          simp [attempts_two]
      simp only [List.countP_append, List.countP_singleton, joins, invites, List.map_append,
        List.sum_append, Bool.false_eq_true, if_false, if_true]
      omega
  | joined task htask =>
    refine ⟨fun roomId hroom ↦ ?_, fun other hother ↦ htasks other (List.mem_of_mem_erase hother),
      ?_⟩
    · rcases List.mem_cons.mp hroom with rfl | hroom
      · exact .inr (htasks task htask).2
      · exact hold roomId hroom
    · have hsum := List.sum_map_erase (fun task : Task ↦ attempts task.delay) htask
      have hpos := attempts_pos task.delay
      simp only [List.countP_append, List.countP_singleton, joins, invites, Bool.false_eq_true,
        if_false, if_true]
      omega
  | failed task htask =>
    refine ⟨hold, fun other hother ↦ ?_, ?_⟩
    · rcases List.mem_append.mp hother with hother | hother
      · exact htasks other (List.mem_of_mem_erase hother)
      · obtain ⟨hpos, hinvited⟩ := htasks task htask
        have hretry := Option.mem_toList.mp hother
        unfold Task.retry at hretry
        split at hretry
        · obtain rfl := Option.some.inj hretry
          exact ⟨Nat.mul_pos hpos Nat.zero_lt_two, hinvited⟩
        · cases hretry
    · have hsum := List.sum_map_erase (fun task : Task ↦ attempts task.delay) htask
      have hretry := sum_retry (h.joining task htask).1
      simp only [List.countP_append, List.countP_singleton, joins, invites, List.map_append,
        List.sum_append, Bool.false_eq_true, if_false, if_true]
      omega

end Joining

/-! ## Every run -/

variable {start : Start} {joined : List String} {labels : List Label} {s : State}

end Notices

end Silta
