import Silta.ArrivalRuns

/-!
# What a session remembers and what it reads

A message that a session was given, and the same message in the history of its room: the two
describe it alike, and whoever reads the history through finds it.
-/

namespace Silta

namespace Arrivals

open Content (RoomMessageContent)
open History (Room TimelineEvent)
open Replay (Clock)

/-- The text and the file of a message, given and read.  A file that was not fetched is explained
behind the caption, and the size that is read is the one that the sender gave. -/
def SameBody (d : Daemon) (event : Event) (m : HistoryMessage) : Prop :=
  (m.text = event.text ∧ m.attachments = [] ∧ event.attachments = []) ∨
  ∃ media : History.Media, m.text = media.caption ∧
    m.attachments = [⟨media.name, media.mime, media.size.getD 0⟩] ∧ Carries d media event

/-- The message that is read is the one that was given. -/
structure Remembers (d : Daemon) (event : Event) (m : HistoryMessage) : Prop where
  eventId : m.eventId = event.eventId
  sender : m.sender = event.sender
  person : m.person = some event.person
  role : m.role = some event.role
  own : m.own = false
  ts : m.ts = event.ts
  inReplyTo : m.inReplyTo = event.inReplyTo
  thread : m.thread = event.thread
  body : SameBody d event m

/-- A room whose history is read by this daemon. -/
structure ReadBy (d : Daemon) (room : Room RoomMessageContent) : Prop where
  routing : room.routing = d.routing
  parse : room.parse = Content.parse d.content
  rfc3339Utc : room.rfc3339Utc = Time.rfc3339Utc

def MessageEvent.timeline (e : MessageEvent) : TimelineEvent RoomMessageContent :=
  .roomMessage ⟨e.eventId, e.sender, e.originServerTs, e.content⟩

/-- The history tells a message of a registered sender as the event that was made of it. -/
theorem historyMessage_of_made {d : Daemon} {ls : List Label} {session : String}
    {item : Nat × Event} {room : Room RoomMessageContent} (hroom : ReadBy d room) {a : Arrival}
    {e : MessageEvent} (he : a.incoming = .message e) (hheads : Heads d a session item)
    (htells : Tells d ls a item) :
    ∃ m, room.historyMessage e.timeline = some m ∧ Remembers d item.2 m := by
  obtain ⟨members, person, -, hinbound, hperson, hrole⟩ := hheads.routed
  obtain ⟨hbot, hregistered, -⟩ := Routing.inbound_eq_deliver_iff.mp hinbound
  have hsender : a.sender = e.sender := by rw [Arrival.sender, he]
  have hmessage := hheads.message
  rw [Arrival.message, he] at hmessage
  obtain ⟨-, hid, hts⟩ := Replay.Message.mk.inj hmessage
  rw [hsender] at hbot hregistered
  unfold Tells at htells
  rw [he] at htells
  obtain ⟨hrelates, hbody⟩ := htells
  unfold Room.historyMessage MessageEvent.timeline
  simp only [hroom.routing, hroom.parse, hroom.rfc3339Utc, hbot, hregistered, Bool.false_eq_true,
    if_false, Option.isNone_some, Bool.and_false, Option.map_some]
  have hts' : Time.rfc3339Utc e.originServerTs = item.2.ts := by rw [hheads.time, ← hts]
  -- what both have, whatever the body is
  have hsame (text : String) (attachments : List HistoryAttachment)
      (hbody : SameBody d item.2 ⟨e.eventId, e.sender, some person.name, some person.role, false,
        Time.rfc3339Utc e.originServerTs, (Content.parse d.content e.content).inReplyTo,
        (Content.parse d.content e.content).thread, text, none, attachments⟩) :
      Remembers d item.2 ⟨e.eventId, e.sender, some person.name, some person.role, false,
        Time.rfc3339Utc e.originServerTs, (Content.parse d.content e.content).inReplyTo,
        (Content.parse d.content e.content).thread, text, none, attachments⟩ :=
    { eventId := hid.symm
      sender := by rw [hheads.sender, hsender]
      person := congrArg some hperson.symm
      role := congrArg some hrole.symm
      own := rfl
      ts := hts'
      inReplyTo := hrelates.inReplyTo.symm
      thread := hrelates.thread.symm
      body := hbody }
  cases hparsed : (Content.parse d.content e.content).body with
  | text text =>
    rw [hparsed] at hbody
    exact ⟨_, rfl, hsame text [] (.inl ⟨hbody.1.symm, rfl, hbody.2⟩)⟩
  | media media =>
    rw [hparsed] at hbody
    exact ⟨_, rfl, hsame _ _ (.inr ⟨media, rfl, rfl, hbody⟩)⟩
  | edit => rw [hparsed] at hbody; exact hbody.elim
  | other msgtype => rw [hparsed] at hbody; exact hbody.elim

/-- Calls that go on to the end have read every page, if only the last one is empty. -/
theorem read_all {C : Type} {room : Room C} {keep : HistoryMessage → HistoryMessage × Bool}
    {pageSize : Nat} {calls : List (Nat × Nat)} {scans : List ClientLines.Scan}
    {pages : List (List (TimelineEvent C))} (hserved : room.Served pageSize none pages)
    (hfull : ∀ page ∈ pages.dropLast, page ≠ [])
    (hpaging : room.Paging keep pageSize calls none scans) :
    scans.flatMap ClientLines.Scan.messages = room.accepted keep pages := by
  obtain ⟨read, rest, hsplit, hread, -⟩ := hpaging.readThrough hserved
  rw [hread.messages, hsplit, hread.rest_eq_nil hsplit hfull, List.append_nil]

/-- A session finds again what it was given.  In every run, across restarts, of each message that
was written to a connection: whoever pages through the history of its room, with any limits, until
there is no more, reads that message among the others, told as it was given. -/
theorem found_again {d : Daemon} {clock : Clock} {ls : List Label} {s t : State} {i : Nat}
    {event : Event} (h : Lts.Run (Step d) (.start clock) ls s)
    (hstep : Step d s (.delivery (.write i event)) t) (hkind : event.kind = .message) :
    ∃ a e, LetIn ls a ∧ a.incoming = .message e ∧ e.eventId = event.eventId ∧
      ∀ (room : Room RoomMessageContent), ReadBy d room →
        ∀ pageSize pages calls scans, room.Served pageSize none pages →
          (∀ page ∈ pages.dropLast, page ≠ []) → e.timeline ∈ pages.flatten →
            room.Paging (fun message ↦ (message, true)) pageSize calls none scans →
              ∃ m ∈ scans.flatMap ClientLines.Scan.messages, Remembers d event m := by
  obtain ⟨conn, ts, -, a, hin, hheads, htells⟩ : ∃ conn ts, s.delivery.At i conn ∧
      Made d ls conn.session (ts, event) := by
    cases hstep with
    | delivery _ delivery _ hstep => exact (faithful_run h).sourced.written hstep
  have hmessage := hheads.message
  cases he : a.incoming with
  | reaction e =>
    unfold Tells at htells
    rw [he] at htells
    exact absurd (hkind.symm.trans htells.1.kind) nofun
  | message e =>
    rw [Arrival.message, he] at hmessage
    obtain ⟨-, hid, -⟩ := Replay.Message.mk.inj hmessage
    refine ⟨a, e, hin, he, hid.symm, ?_⟩
    intro room hroom pageSize pages calls scans hserved hfull hmem hpaging
    obtain ⟨m, hm, hremembers⟩ := historyMessage_of_made hroom he hheads htells
    refine ⟨m, ?_, hremembers⟩
    rw [read_all hserved hfull hpaging, Room.accepted, List.mem_filterMap]
    refine ⟨e.timeline, hmem, ?_⟩
    rw [Room.kept, hm]
    rfl

/-- A room of one page. -/
def roomOf (d : Daemon) (events : List (TimelineEvent RoomMessageContent)) :
    Room RoomMessageContent where
  roomId := "!dm:silta.test"
  messages _ _ := .ok ⟨events, none⟩
  routing := d.routing
  parse := Content.parse d.content
  rfc3339Utc := Time.rfc3339Utc

/-- The greeting, read again. -/
theorem found_again_hello : ∃ m, Remembers mindsDaemon helloDispatch.event m ∧
    m.eventId = "$1" := by
  obtain ⟨ls, s, t, hrun, hstep⟩ := hello_run
  obtain ⟨a, e, -, -, -, hfound⟩ := found_again hrun hstep rfl
  obtain ⟨m, -, hremembers⟩ := hfound (roomOf mindsDaemon [e.timeline]) ⟨rfl, rfl, rfl⟩ 20
    [[e.timeline]] [(20, 5)] _ (.last rfl) (by simp) (by simp) (.last rfl rfl)
  exact ⟨m, hremembers, hremembers.eventId⟩

end Arrivals

end Silta
