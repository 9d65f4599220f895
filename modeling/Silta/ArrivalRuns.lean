import Silta.Arrivals
import Silta.RoomAccess
import Silta.RoutingOrder
import Silta.Sourced

/-!
# From the rooms to the sessions

The daemon between the sync and its sessions as a step relation: arrivals are let in, become
messages in tasks of their own, are dispatched, delivered and acknowledged, in any order and across
restarts.  What a session is given was said to it, in a room of its own, by whom the event names.
-/

namespace Silta

namespace Arrivals

open Delivery (Dispatch Conn)
open History (Media)
open Replay (Marks Clock Verdict Saving)

structure State where
  clock : Clock
  marks : Marks
  /-- `delivered.json`. -/
  saved : Marks
  delivery : Delivery.State
  /-- What was let in and not dispatched so far. -/
  tasks : Multiset Task
  /-- Acknowledged and not marked yet, by session. -/
  acking : Multiset (String × Replay.Message)

def State.start (clock : Clock) : State where
  clock := clock
  marks := fun _ ↦ none
  saved := fun _ ↦ none
  delivery := Delivery.State.init clock.replayWindowMs
  tasks := 0
  acking := 0

inductive Label
  | arrive (a : Arrival) (answer : Verdict) (task : Option Task)
  | fetched (dispatch : Dispatch) (media : Media)
  | reacted (dispatch : Dispatch) (target : String) (found : Except String (Option String))
  | delivery (l : Delivery.Label)
  | mark (session : String) (m : Replay.Message) (saving : Saving)
  | restart (clock : Clock)

/-- An event and its timestamp, as the mark of its room sees it. -/
def messageOf (item : Nat × Event) : Replay.Message := ⟨item.2.roomId, item.2.eventId, item.1⟩

/-- The step hands a message to its session; every other step of the delivery goes its own way. -/
def dispatches : Delivery.Label → Bool
  | .deliver _ _ => true
  | _ => false

/-- What the step takes out of flight, for its mark. -/
def marking : Delivery.Label → Multiset (String × Replay.Message)
  | .ack session _ (some item) => {(session, messageOf item)}
  | _ => 0

inductive Step (d : Daemon) : State → Label → State → Prop
  | arrive (s : State) (a : Arrival) :
      Step d s (.arrive a (a.verdict s.marks s.clock) (handle d s.marks s.clock a))
        { s with tasks := ↑(handle d s.marks s.clock a).toList + s.tasks }
  | fetched (s : State) (dispatch : Dispatch) (media : Media) (f : Fetched)
      (h : .attachment dispatch media ∈ s.tasks) :
      Step d s (.fetched dispatch media)
        { s with tasks :=
            .ready { dispatch with event := fetchAttachment d dispatch.event media f } ::ₘ
              s.tasks.erase (.attachment dispatch media) }
  | reacted (s : State) (dispatch : Dispatch) (target : String)
      (found : Except String (Option String)) (h : .reaction dispatch target ∈ s.tasks) :
      Step d s (.reacted dispatch target found)
        { s with tasks := (if reactsToBot d found then {.ready dispatch} else 0) +
            s.tasks.erase (.reaction dispatch target) }
  | dispatch (s : State) (dispatch : Dispatch) (answer : Except DeliverError Unit)
      (delivery : Delivery.State) (h : .ready dispatch ∈ s.tasks)
      (hstep : Delivery.Step s.delivery (.deliver dispatch answer) delivery) :
      Step d s (.delivery (.deliver dispatch answer))
        { s with delivery := delivery, tasks := s.tasks.erase (.ready dispatch) }
  | delivery (s : State) (l : Delivery.Label) (delivery : Delivery.State)
      (h : dispatches l = false) (hstep : Delivery.Step s.delivery l delivery) :
      Step d s (.delivery l)
        { s with delivery := delivery, acking := marking l + s.acking }
  | newer (s : State) (session : String) (m : Replay.Message) (h : (session, m) ∈ s.acking)
      (hset : s.marks.set m.roomId m.mark = none) :
      Step d s (.mark session m .newer) { s with acking := s.acking.erase (session, m) }
  | saved (s : State) (session : String) (m : Replay.Message) (marks : Marks)
      (h : (session, m) ∈ s.acking) (hset : s.marks.set m.roomId m.mark = some marks) :
      Step d s (.mark session m .saved)
        { s with marks := marks, saved := marks, acking := s.acking.erase (session, m) }
  -- the mark in memory has moved all the same
  | failed (s : State) (session : String) (m : Replay.Message) (marks : Marks)
      (h : (session, m) ∈ s.acking) (hset : s.marks.set m.roomId m.mark = some marks) :
      Step d s (.mark session m .failed)
        { s with marks := marks, acking := s.acking.erase (session, m) }
  -- what the daemon held in memory is gone; the connections are new ones
  | restart (s : State) (clock : Clock) :
      Step d s (.restart clock) { State.start clock with marks := s.saved, saved := s.saved }

/-! ## What an event says -/

/-- The head of the event is what its arrival and the routing say. -/
structure Heads (d : Daemon) (a : Arrival) (session : String) (item : Nat × Event) : Prop where
  joined : a.room.joined = true
  routed : ∃ members person, a.room.members = .ok members ∧
    d.routing.inbound a.sender a.room.roomId members a.room.shape =
      .deliver session person item.2.room ∧
    item.2.person = person.name ∧ item.2.role = person.role
  sender : item.2.sender = a.sender
  message : messageOf item = a.message
  time : item.2.ts = Time.rfc3339Utc item.1
  untranscribed : item.2.transcribed = false

/-- The file of the message is an attachment within the cap, or the text says why there is none. -/
def Carries (d : Daemon) (media : Media) (event : Event) : Prop :=
  (event.text = media.caption ∧ ∃ bytes ≤ d.maxBytes,
    event.attachments = [⟨transferOf event.eventId, media.name, media.mime, bytes⟩]) ∨
  (event.attachments = [] ∧ ∃ detail, event.text =
    (if media.caption.isEmpty then "" else media.caption ++ "\n") ++ describe d media detail)

/-- A message of the room with what it relates to. -/
structure Relates (d : Daemon) (e : MessageEvent) (event : Event) : Prop where
  kind : event.kind = .message
  inReplyTo : event.inReplyTo = (Content.parse d.content e.content).inReplyTo
  thread : event.thread = (Content.parse d.content e.content).thread
  reactsTo : event.reactsTo = none

/-- A reaction of the room. -/
structure Reacts (e : ReactionEvent) (event : Event) : Prop where
  kind : event.kind = .reaction
  inReplyTo : event.inReplyTo = none
  thread : event.thread = none
  reactsTo : event.reactsTo = some e.target
  text : event.text = e.key
  attachments : event.attachments = []

/-- The rest of the event is what its arrival says; a reaction is on a message of the bot. -/
def Tells (d : Daemon) (ls : List Label) (a : Arrival) (item : Nat × Event) : Prop :=
  match a.incoming with
  | .message e => Relates d e item.2 ∧
      match (Content.parse d.content e.content).body with
      | .text text => item.2.text = text ∧ item.2.attachments = []
      | .media media => Carries d media item.2
      | _ => False
  | .reaction e => Reacts e item.2 ∧
      ∃ dispatch found, .reacted dispatch e.target found ∈ ls ∧ reactsToBot d found = true

/-- An arrival that was let in. -/
def LetIn (ls : List Label) (a : Arrival) : Prop :=
  ∃ answer task, .arrive a answer (some task) ∈ ls

/-- The event was made of an arrival that was let in for the session. -/
def Made (d : Daemon) (ls : List Label) (session : String) (item : Nat × Event) : Prop :=
  ∃ a, LetIn ls a ∧ Heads d a session item ∧ Tells d ls a item

/-- What is known of a task. -/
def Task.Made (d : Daemon) (ls : List Label) : Task → Prop
  | .ready dispatch => Arrivals.Made d ls dispatch.session (dispatch.ts, dispatch.event)
  | .attachment dispatch media => ∃ a e, LetIn ls a ∧
      Heads d a dispatch.session (dispatch.ts, dispatch.event) ∧ a.incoming = .message e ∧
      Relates d e dispatch.event ∧ (Content.parse d.content e.content).body = .media media ∧
      dispatch.event.text = media.caption ∧ dispatch.event.attachments = []
  | .reaction dispatch target => ∃ a e, LetIn ls a ∧
      Heads d a dispatch.session (dispatch.ts, dispatch.event) ∧ a.incoming = .reaction e ∧
      Reacts e dispatch.event ∧ e.target = target

/-! ## What the handlers make -/

section Handlers

variable {d : Daemon} {a : Arrival} {marks : Marks} {clock : Clock} {task : Task}
  {admitted : String × PersonConfig × RoomKind} {session : String} {person : PersonConfig}
  {kind : RoomKind}

theorem judged_eq_some (h : judged d a = some (session, person, kind)) :
    a.room.joined = true ∧ ∃ members, a.room.members = .ok members ∧
      d.routing.inbound a.sender a.room.roomId members a.room.shape =
        .deliver session person kind := by
  obtain ⟨room, incoming⟩ := a
  unfold judged at h
  cases hjoined : room.joined with
  | false => simp [hjoined] at h
  | true =>
    refine ⟨rfl, ?_⟩
    simp only [hjoined, Bool.not_true, Bool.false_eq_true, if_false] at h
    cases incoming with
    | message e =>
      dsimp only at h
      split at h
      · exact route_eq_some_iff.mp h
      · exact route_eq_some_iff.mp h
      · cases h
    | reaction e =>
      dsimp only at h
      split at h
      · cases h
      · exact route_eq_some_iff.mp h

/-- What is let in was judged, and its verdict was to deliver it. -/
theorem handle_eq_some (h : handle d marks clock a = some task) :
    ∃ admitted, judged d a = some admitted ∧ taskOf d a admitted = some task ∧
      ∃ behind, a.verdict marks clock = .deliver behind := by
  rw [handle_eq] at h
  split at h
  · cases h
  · next admitted hjudged =>
    split at h
    · next behind hverdict => exact ⟨admitted, hjudged, h, behind, hverdict⟩
    · cases h

theorem taskOf_head (h : taskOf d a (session, person, kind) = some task) :
    task.dispatch.session = session ∧ task.dispatch.event.person = person.name ∧
      task.dispatch.event.role = person.role ∧ task.dispatch.event.room = kind ∧
      task.dispatch.event.sender = a.sender ∧
      messageOf (task.dispatch.ts, task.dispatch.event) = a.message ∧
      task.dispatch.event.ts = Time.rfc3339Utc task.dispatch.ts ∧
      task.dispatch.event.transcribed = false := by
  obtain ⟨room, incoming⟩ := a
  cases incoming with
  | message e =>
    simp only [taskOf, messageTask] at h
    split at h
    · obtain rfl := Option.some.inj h
      exact ⟨rfl, rfl, rfl, rfl, rfl, rfl, rfl, rfl⟩
    · obtain rfl := Option.some.inj h
      exact ⟨rfl, rfl, rfl, rfl, rfl, rfl, rfl, rfl⟩
    · cases h
  | reaction e =>
    obtain rfl := Option.some.inj h
    exact ⟨rfl, rfl, rfl, rfl, rfl, rfl, rfl, rfl⟩

theorem heads_of_taskOf (hjudged : judged d a = some (session, person, kind))
    (h : taskOf d a (session, person, kind) = some task) :
    Heads d a task.dispatch.session (task.dispatch.ts, task.dispatch.event) := by
  obtain ⟨hjoined, members, hmembers, hinbound⟩ := judged_eq_some hjudged
  obtain ⟨rfl, hperson, hrole, rfl, hsender, hmessage, htime, htranscribed⟩ := taskOf_head h
  exact ⟨hjoined, ⟨members, person, hmembers, hinbound, hperson, hrole⟩, hsender, hmessage, htime,
    htranscribed⟩

theorem made_of_handle {ls : List Label} (hin : LetIn ls a)
    (h : handle d marks clock a = some task) : task.Made d ls := by
  obtain ⟨⟨session, person, kind⟩, hjudged, htask, -⟩ := handle_eq_some h
  have hheads := heads_of_taskOf hjudged htask
  obtain ⟨room, incoming⟩ := a
  cases incoming with
  | message e =>
    simp only [taskOf, messageTask] at htask
    split at htask
    · next text hbody =>
      obtain rfl := Option.some.inj htask
      refine ⟨_, hin, hheads, ⟨rfl, rfl, rfl, rfl⟩, ?_⟩
      rw [hbody]
      exact ⟨rfl, rfl⟩
    · next media hbody =>
      obtain rfl := Option.some.inj htask
      exact ⟨_, e, hin, hheads, rfl, ⟨rfl, rfl, rfl, rfl⟩, hbody, rfl, rfl⟩
    · cases htask
  | reaction e =>
    obtain rfl := Option.some.inj htask
    exact ⟨_, e, hin, hheads, rfl, ⟨rfl, rfl, rfl, rfl, rfl, rfl⟩, rfl⟩

theorem download_le {maxBytes bytes : Nat} {f : Fetched} (h : download maxBytes f = .ok bytes) :
    bytes ≤ maxBytes := by
  unfold download at h
  split at h
  · cases h
  · split at h
    · cases h
    · next hle =>
      split at h
      · cases h
      · obtain rfl := Except.ok.inj h
        exact not_lt.mp hle

/-- A download changes the text and the attachments of its message, and only to say what became of
the file. -/
theorem fetchAttachment_spec {message : Event} {media : Media} (f : Fetched)
    (htext : message.text = media.caption) (hnone : message.attachments = []) :
    ∃ text attachments, fetchAttachment d message media f =
        { message with text := text, attachments := attachments } ∧
      Carries d media (fetchAttachment d message media f) := by
  have hnote (detail : String) : Carries d media (note message (describe d media detail)) := by
    refine .inr ⟨hnone, detail, ?_⟩
    simp only [note, htext]
  unfold fetchAttachment
  split
  · exact ⟨_, _, rfl, hnote _⟩
  · split
    · exact ⟨_, _, rfl, hnote _⟩
    · split
      · next bytes hbytes =>
        refine ⟨_, _, rfl, .inl ⟨htext, bytes, download_le hbytes, ?_⟩⟩
        simp only [hnone, List.nil_append]
      · exact ⟨_, _, rfl, hnote _⟩
      · exact ⟨_, _, rfl, hnote _⟩

end Handlers

/-! ## What is known in every state -/

theorem LetIn.mono {ls ms : List Label} {a : Arrival} (h : LetIn ls a) (hsub : ls ⊆ ms) :
    LetIn ms a := by
  obtain ⟨answer, task, hmem⟩ := h
  exact ⟨answer, task, hsub hmem⟩

theorem Tells.mono {d : Daemon} {ls ms : List Label} {a : Arrival} {item : Nat × Event}
    (h : Tells d ls a item) (hsub : ls ⊆ ms) : Tells d ms a item := by
  unfold Tells at h ⊢
  split
  · simpa only [*] using h
  · next e he =>
    simp only [he] at h
    obtain ⟨hreacts, dispatch, found, hmem, hbot⟩ := h
    exact ⟨hreacts, dispatch, found, hsub hmem, hbot⟩

theorem Made.mono {d : Daemon} {ls ms : List Label} {session : String} {item : Nat × Event}
    (h : Made d ls session item) (hsub : ls ⊆ ms) : Made d ms session item := by
  obtain ⟨a, hin, hheads, htells⟩ := h
  exact ⟨a, hin.mono hsub, hheads, htells.mono hsub⟩

theorem Task.Made.mono {d : Daemon} {ls ms : List Label} {task : Task} (h : task.Made d ls)
    (hsub : ls ⊆ ms) : task.Made d ms := by
  cases task with
  | ready dispatch => exact Arrivals.Made.mono h hsub
  | attachment dispatch media =>
    obtain ⟨a, e, hin, hrest⟩ := h
    exact ⟨a, e, hin.mono hsub, hrest⟩
  | reaction dispatch target =>
    obtain ⟨a, e, hin, hrest⟩ := h
    exact ⟨a, e, hin.mono hsub, hrest⟩

/-- Whatever the daemon holds for a session was made of an arrival let in for it. -/
structure Faithful (d : Daemon) (ls : List Label) (s : State) : Prop where
  wired : Delivery.Wired s.delivery
  tasks : ∀ task ∈ s.tasks, task.Made d ls
  sourced : Delivery.Sourced (Made d ls) s.delivery

namespace Faithful

variable {d : Daemon} {ls ms : List Label} {s t : State}

theorem init (clock : Clock) : Faithful d ls (State.start clock) where
  wired := .init clock.replayWindowMs
  tasks task htask := absurd htask (Multiset.notMem_zero task)
  sourced := .init clock.replayWindowMs

theorem mono (h : Faithful d ls s) (hsub : ls ⊆ ms) : Faithful d ms s where
  wired := h.wired
  tasks task htask := (h.tasks task htask).mono hsub
  sourced := h.sourced.mono fun _ _ hmade ↦ hmade.mono hsub

theorem setTasks (h : Faithful d ls s) {tasks : Multiset Task}
    (htasks : ∀ task ∈ tasks, task ∈ s.tasks ∨ task.Made d ls) :
    Faithful d ls { s with tasks := tasks } where
  wired := h.wired
  tasks task htask := (htasks task htask).elim (h.tasks task) id
  sourced := h.sourced

theorem fetched (h : Faithful d ls s) {dispatch : Dispatch} {media : Media} (f : Fetched)
    (hmem : .attachment dispatch media ∈ s.tasks) :
    Task.Made d ls
      (.ready { dispatch with event := fetchAttachment d dispatch.event media f }) := by
  obtain ⟨a, e, hin, hheads, he, hrelates, hbody, htext, hnone⟩ := h.tasks _ hmem
  obtain ⟨text, attachments, heq, hcarries⟩ := fetchAttachment_spec (d := d) f htext hnone
  refine ⟨a, hin, ?_, ?_⟩
  · rw [heq]
    exact ⟨hheads.joined, hheads.routed, hheads.sender, hheads.message, hheads.time,
      hheads.untranscribed⟩
  · unfold Tells
    rw [he]
    dsimp only
    rw [hbody]
    refine ⟨?_, hcarries⟩
    rw [heq]
    exact ⟨hrelates.kind, hrelates.inReplyTo, hrelates.thread, hrelates.reactsTo⟩

theorem reacted (h : Faithful d ls s) {dispatch : Dispatch} {target : String}
    {found : Except String (Option String)} (hmem : .reaction dispatch target ∈ s.tasks)
    (hlabel : .reacted dispatch target found ∈ ls) (hbot : reactsToBot d found = true) :
    Task.Made d ls (.ready dispatch) := by
  obtain ⟨a, e, hin, hheads, he, hreacts, rfl⟩ := h.tasks _ hmem
  refine ⟨a, hin, hheads, ?_⟩
  unfold Tells
  rw [he]
  exact ⟨hreacts, dispatch, found, hlabel, hbot⟩

theorem step (h : Faithful d ls s) {l : Label} (hstep : Step d s l t) :
    Faithful d (ls ++ [l]) t := by
  have hnew : l ∈ ls ++ [l] := List.mem_append_right ls List.mem_cons_self
  replace h := h.mono (List.subset_append_left ls [l])
  cases hstep with
  | arrive a =>
    refine h.setTasks fun task htask ↦ ?_
    rcases Multiset.mem_add.mp htask with hnow | hold
    · have hhandle : handle d s.marks s.clock a = some task := by simpa using hnow
      rw [hhandle] at hnew
      exact .inr (hhandle ▸ made_of_handle ⟨_, task, hnew⟩ hhandle)
    · exact .inl hold
  | fetched dispatch media f hmem =>
    refine h.setTasks fun task htask ↦ ?_
    rcases Multiset.mem_cons.mp htask with rfl | hold
    · exact .inr (h.fetched f hmem)
    · exact .inl (Multiset.mem_of_mem_erase hold)
  | reacted dispatch target found hmem =>
    refine h.setTasks fun task htask ↦ ?_
    rcases Multiset.mem_add.mp htask with hnow | hold
    · split at hnow
      · next hbot =>
        obtain rfl := Multiset.mem_singleton.mp hnow
        exact .inr (h.reacted hmem hnew hbot)
      · exact absurd hnow (Multiset.notMem_zero task)
    · exact .inl (Multiset.mem_of_mem_erase hold)
  | dispatch dispatch answer delivery hmem hstep =>
    have hknown : (Delivery.Label.deliver dispatch answer).Known (Made d _) := h.tasks _ hmem
    exact ⟨Delivery.wired_step h.wired hstep,
      fun task htask ↦ h.tasks task (Multiset.mem_of_mem_erase htask),
      Delivery.sourced_step h.sourced h.wired hknown hstep⟩
  | delivery l delivery hl hstep =>
    -- what is dispatched comes from a task
    have hknown : l.Known (Made d (ls ++ [.delivery l])) := by
      cases l with
      | deliver => cases hl
      | _ => trivial
    exact ⟨Delivery.wired_step h.wired hstep, h.tasks,
      Delivery.sourced_step h.sourced h.wired hknown hstep⟩
  | newer | saved | failed => exact ⟨h.wired, h.tasks, h.sourced⟩
  | restart clock =>
    have hinit : Faithful d (ls ++ [.restart clock]) (State.start clock) := init clock
    exact ⟨hinit.wired, hinit.tasks, hinit.sourced⟩

end Faithful

theorem faithful_run {d : Daemon} {clock : Clock} {ls : List Label} {s : State}
    (h : Lts.Run (Step d) (.start clock) ls s) : Faithful d ls s :=
  h.history (I := Faithful d) (.init clock) fun _ _ _ _ hpre hstep ↦ hpre.step hstep

/-- The daemon of the one session for each person. -/
def mindsDaemon : Daemon where
  routing := .new Routing.minds
  content := ⟨id, fun _ ↦ none⟩
  inbox := "/var/lib/silta/inbox"
  maxBytes := 20971520
  humanSize bytes := toString bytes ++ " B"

/-- Bob writes in his room. -/
def hello : Arrival where
  room := {
    roomId := "!dm:silta.test"
    joined := true
    members := .ok ["@silta:silta.test", "@bob:silta.test"]
    isDirect := .ok true
    named := false }
  incoming := .message {
    sender := "@bob:silta.test"
    eventId := "$1"
    originServerTs := 5000
    content := ⟨none, .text "hello"⟩ }

def helloDispatch : Dispatch where
  session := "bob"
  ts := 5000
  event := {
    kind := .message
    person := "Bob"
    role := .owner
    sender := "@bob:silta.test"
    roomId := "!dm:silta.test"
    room := .dm
    eventId := "$1"
    ts := "1970-01-01T00:00:05Z"
    inReplyTo := none
    thread := none
    reactsTo := none
    text := "hello"
    transcribed := false
    attachments := [] }

theorem handle_hello :
    handle mindsDaemon (fun _ ↦ none) ⟨1000, 300000⟩ hello = some (.ready helloDispatch) := by
  decide +kernel

theorem Step.let_in {d : Daemon} {s : State} {a : Arrival} {task : Task}
    (h : handle d s.marks s.clock a = some task) :
    Step d s (.arrive a (a.verdict s.marks s.clock) (some task))
      { s with tasks := task ::ₘ s.tasks } := by
  have hstep := Step.arrive (d := d) s a
  rwa [h] at hstep

/-- It arrives while the session is connected, and is dispatched to it. -/
def helloLabels : List Label :=
  [.delivery (.claim "bob"), .delivery (.drain "bob" 0), .delivery .extend, .delivery .serve,
    .arrive hello (hello.verdict (fun _ ↦ none) ⟨1000, 300000⟩) (some (.ready helloDispatch)),
    .delivery (.deliver helloDispatch (.ok ()))]

/-- Then it is written to the session, which acknowledges it. -/
theorem hello_acked : ∃ s, Lts.Run (Step mindsDaemon) (.start ⟨1000, 300000⟩)
      (helloLabels ++ [.delivery (.write 0 helloDispatch.event)] ++
        [.delivery (.ack "bob" "$1" (some (5000, helloDispatch.event)))]) s ∧
    s.clock = ⟨1000, 300000⟩ ∧ s.marks = (fun _ ↦ none) ∧
    s.acking = {("bob", ⟨"!dm:silta.test", "$1", 5000⟩)} := by
  have hconnect := (((Lts.Run.single
    (Step.delivery (d := mindsDaemon) (.start ⟨1000, 300000⟩) _ _ rfl (.claim "bob" 0 rfl))).snoc
    (.delivery _ _ _ rfl (.drain (i := 0) 2000 rfl rfl rfl))).snoc
    (.delivery _ _ _ rfl (.extend (i := 0) rfl rfl))).snoc
    (.delivery _ _ _ rfl (.serve (i := 0) rfl rfl))
  have hready : Task.ready helloDispatch ∈ (.ready helloDispatch ::ₘ 0 : Multiset Task) :=
    Multiset.mem_cons_self _ _
  have hdispatch := (hconnect.snoc (.let_in handle_hello)).snoc
    (.dispatch _ helloDispatch (.ok ()) _ hready (.deliver _ rfl))
  have hacked := (hdispatch.snoc
    (.delivery _ _ _ rfl (.writeEvent (i := 0) rfl rfl rfl rfl rfl))).snoc
    (.delivery _ _ _ rfl (.ack (i := 0) "$1" rfl rfl rfl))
  exact ⟨_, hacked, rfl, rfl, rfl⟩

theorem hello_run : ∃ ls s t, Lts.Run (Step mindsDaemon) (.start ⟨1000, 300000⟩) ls s ∧
    Step mindsDaemon s (.delivery (.write 0 helloDispatch.event)) t := by
  obtain ⟨_, hacked, -⟩ := hello_acked
  obtain ⟨_, hwritten, -⟩ := hacked.last
  obtain ⟨s, hrun, hwrite⟩ := hwritten.last
  exact ⟨_, s, _, hrun, hwrite⟩

/-- What is written to a connection was said to its session.  In every run, across restarts, each
event written to a connection was made of an earlier arrival that the routing gives to the session
of the connection: its head names the room, the sender and the person behind the sender, and the
rest is what was sent, a reaction only on a message of the bot. -/
theorem written_made {d : Daemon} {clock : Clock} {ls : List Label} {s t : State} {i : Nat}
    {event : Event} (h : Lts.Run (Step d) (.start clock) ls s)
    (hstep : Step d s (.delivery (.write i event)) t) :
    ∃ conn ts, s.delivery.At i conn ∧ Made d ls conn.session (ts, event) := by
  cases hstep with
  | delivery _ delivery _ hstep => exact (faithful_run h).sourced.written hstep

theorem written_made_hello : ∃ ls, ∃ s : State, ∃ conn ts, s.delivery.At 0 conn ∧
    Made mindsDaemon ls conn.session (ts, helloDispatch.event) := by
  obtain ⟨ls, s, t, hrun, hstep⟩ := hello_run
  obtain ⟨conn, ts, hmade⟩ := written_made hrun hstep
  exact ⟨ls, s, conn, ts, hmade⟩

/-! ## Who is heard -/

/-- By the configuration, the event is for the session: it lists the room, or no session does and
the session is the one for the groups, for the person, or for the rest. -/
def IsFor (c : Config) (session : SessionConfig) (event : Event) : Prop :=
  event.roomId ∈ session.receive.rooms ∨
    (∀ other ∈ c.sessions, event.roomId ∉ other.receive.rooms) ∧
      match session.receive with
      | .all => if event.room = .group then ∀ other ∈ c.sessions, other.receive ≠ .groups
          else ∀ other ∈ c.sessions, event.person ∉ other.receive.people
      | .groups => event.room = .group
      | .selective people _ => event.room = .dm ∧ event.person ∈ people

theorem isFor_of_inbound {c : Config} (hc : c.validate = .ok ()) {session : String}
    {members : List String} {shape : RoomShape} {person : PersonConfig} {event : Event}
    (hperson : event.person = person.name)
    (h : (Routing.new c).inbound event.sender event.roomId members shape =
      .deliver session person event.room) :
    ∃ owner ∈ c.sessions, owner.name = session ∧ IsFor c owner event := by
  obtain ⟨-, -, hkind, i, rfl, howner⟩ := Routing.inbound_eq_deliver_iff.mp h
  refine ⟨c.sessions.get i, List.get_mem c.sessions i, rfl, ?_⟩
  rcases howner with hroom | ⟨hunlisted, hrule⟩
  · exact .inl ((Routing.byRoom_eq_some_iff hc).mp hroom)
  have hnone : ∀ other ∈ c.sessions, event.roomId ∉ other.receive.rooms := by
    intro other hother hmem
    obtain ⟨j, rfl⟩ := List.get_of_mem hother
    rw [(Routing.byRoom_eq_some_iff hc).mpr hmem] at hunlisted
    cases hunlisted
  refine .inr ⟨hnone, ?_⟩
  rcases Option.or_eq_some_iff.mp hrule with hspecific | ⟨hrest, hall⟩
  · split at hspecific
    · next hgroup =>
      rw [if_pos hgroup] at hkind
      have hgroups : ((c.sessions.get i).receive) = .groups :=
        (Routing.groups_eq_some_iff hc).mp hspecific
      rw [hgroups]
      exact hkind
    · next hgroup =>
      rw [if_neg hgroup] at hkind
      have hlisted : person.name ∈ (c.sessions.get i).receive.people :=
        (Routing.byPerson_eq_some_iff hc).mp hspecific
      cases hreceive : (c.sessions.get i).receive with
      | selective people rooms =>
        rw [hreceive] at hlisted
        exact ⟨hkind, hperson ▸ hlisted⟩
      | _ =>
        rw [hreceive] at hlisted
        cases hlisted
  · have hreceive : (c.sessions.get i).receive = .all := (Routing.all_eq_some_iff hc).mp hall
    rw [hreceive]
    dsimp only
    split at hrest
    · next hgroup =>
      rw [if_pos hgroup] at hkind
      rw [if_pos hkind]
      intro other hother hgroups
      obtain ⟨j, rfl⟩ := List.get_of_mem hother
      rw [(Routing.groups_eq_some_iff hc).mpr hgroups] at hrest
      cases hrest
    · next hgroup =>
      rw [if_neg hgroup] at hkind
      rw [if_neg (by rw [hkind]; decide)]
      intro other hother hlisted
      obtain ⟨j, rfl⟩ := List.get_of_mem hother
      rw [hperson] at hlisted
      rw [(Routing.byPerson_eq_some_iff hc).mpr hlisted] at hrest
      cases hrest

/-- A session hears only what is for it, from registered people.  In every run under an accepted
configuration, each event written to a connection is for the session of the connection, and names
the registered person that its sender is an address of. -/
theorem written_isFor {c : Config} (hc : c.validate = .ok ()) {d : Daemon} {clock : Clock}
    {ls : List Label} {s t : State} {i : Nat} {event : Event} (hd : d.routing = .new c)
    (h : Lts.Run (Step d) (.start clock) ls s)
    (hstep : Step d s (.delivery (.write i event)) t) :
    ∃ conn, s.delivery.At i conn ∧
      (∃ session ∈ c.sessions, session.name = conn.session ∧ IsFor c session event) ∧
      event.sender ≠ c.matrix.userId ∧
      ∃ person ∈ c.people, event.sender ∈ person.addresses ∧ event.person = person.name ∧
        event.role = person.role := by
  cases hstep with
  | delivery _ delivery _ hstep =>
    obtain ⟨conn, ts, hi, a, -, hheads, -⟩ := (faithful_run h).sourced.written hstep
    obtain ⟨members, person, -, hinbound, hperson, hrole⟩ := hheads.routed
    have hroom : event.roomId = a.room.roomId :=
      (congrArg Replay.Message.roomId hheads.message).trans a.message_roomId
    rw [hd, ← hheads.sender, ← hroom] at hinbound
    obtain ⟨hbot, hfor, -⟩ := Routing.inbound_eq_deliver_iff.mp hinbound
    obtain ⟨hmem, haddress⟩ :=
      (Routing.personFor_eq_some_iff (Config.validate_eq_ok_iff.mp hc)).mp hfor
    exact ⟨conn, hi, isFor_of_inbound hc hperson hinbound, beq_eq_false_iff_ne.mp hbot, person,
      hmem, haddress, hperson, hrole⟩

theorem written_isFor_hello : ∃ s : State, ∃ conn, s.delivery.At 0 conn ∧
    ∃ session ∈ Routing.minds.sessions, session.name = conn.session ∧
      IsFor Routing.minds session helloDispatch.event := by
  obtain ⟨ls, s, t, hrun, hstep⟩ := hello_run
  obtain ⟨conn, hi, hfor, -⟩ := written_isFor Routing.minds_valid rfl hrun hstep
  exact ⟨s, conn, hi, hfor⟩

end Arrivals

end Silta
