import Silta.Content
import Silta.Delivery
import Silta.Replay
import Silta.Timestamps

/-!
# What arrives from the rooms

The handlers of messages and of reactions: who is let in, the event that each becomes, and what an
attachment comes to, up to the dispatch to a session.
-/

namespace Silta

namespace Arrivals

open Content (RoomMessageContent)
open Delivery (Dispatch)
open History (Body Media)
open Replay (Marks Clock Verdict verdict)

/-- What the handlers read of the daemon: the routing, where attachments wait and how large one may
be, other crates, and the text of a size. -/
structure Daemon where
  routing : Routing
  content : Content.Crates
  inbox : String
  maxBytes : Nat
  humanSize : Nat → String

/-- A room as a handler finds it. -/
structure RoomView where
  roomId : String
  joined : Bool
  /-- The request for the members can fail. -/
  members : Except String (List String)
  isDirect : Except String Bool
  named : Bool

/-- A flag that cannot be read counts as none. -/
def RoomView.shape (room : RoomView) : RoomShape :=
  ⟨match room.isDirect with
    | .ok direct => direct
    | .error _ => false, room.named⟩

/-- The session, the person and the kind of the room by the routing; `none` where the members are
not known or the message is not routed. -/
def route (d : Daemon) (room : RoomView) (sender : String) :
    Option (String × PersonConfig × RoomKind) :=
  match room.members with
  | .error _ => none
  | .ok members =>
    match d.routing.inbound sender room.roomId members room.shape with
    | .drop _ => none
    | .deliver session person kind => some (session, person, kind)

/-- The routing and replay decisions shared by messages and reactions. -/
def admitted? (d : Daemon) (marks : Marks) (clock : Clock) (room : RoomView)
    (sender eventId : String) (ts : Nat) : Option (String × PersonConfig × RoomKind) :=
  match route d room sender with
  | none => none
  | some admitted =>
    match verdict ts eventId (marks room.roomId) clock with
    | .alreadyDelivered | .tooOld => none
    | .deliver _ => some admitted

/-! ## Messages -/

structure MessageEvent where
  sender : String
  eventId : String
  originServerTs : Nat
  content : RoomMessageContent

/-- A message of a room before its body is known. -/
def newMessage (room : RoomView) (e : MessageEvent) (person : PersonConfig) (kind : RoomKind)
    (inReplyTo thread : Option String) : Event where
  kind := .message
  person := person.name
  role := person.role
  sender := e.sender
  roomId := room.roomId
  room := kind
  eventId := e.eventId
  ts := Time.rfc3339Utc e.originServerTs
  inReplyTo := inReplyTo
  thread := thread
  reactsTo := none
  text := ""
  transcribed := false
  attachments := []

/-- An event that was let in: a message that is ready, one that waits for its attachment, or a
reaction that waits for the event it reacts to. -/
inductive Task
  | ready (dispatch : Dispatch)
  | attachment (dispatch : Dispatch) (media : Media)
  | reaction (dispatch : Dispatch) (target : String)
  deriving DecidableEq

def Task.dispatch : Task → Dispatch
  | .ready dispatch => dispatch
  | .attachment dispatch _ => dispatch
  | .reaction dispatch _ => dispatch

/-- Deliver text, emotes and attachments from registered people to the session that owns the room;
`none` is dropped. -/
def onMessage (d : Daemon) (marks : Marks) (clock : Clock) (room : RoomView) (e : MessageEvent) :
    Option Task :=
  if !room.joined then none
  else
    let parsed := Content.parse d.content e.content
    match parsed.body with
    | .edit => none
    | .other _ => none
    | .text text =>
      match admitted? d marks clock room e.sender e.eventId e.originServerTs with
      | none => none
      | some (session, person, kind) =>
        let message := newMessage room e person kind parsed.inReplyTo parsed.thread
        some (.ready ⟨session, e.originServerTs, { message with text := text }⟩)
    | .media media =>
      match admitted? d marks clock room e.sender e.eventId e.originServerTs with
      | none => none
      | some (session, person, kind) =>
        let message := newMessage room e person kind parsed.inReplyTo parsed.thread
        some (.attachment ⟨session, e.originServerTs, { message with text := media.caption }⟩
          media)

/-! ## Attachments -/

/-- One attachment for each message, so the transfer is named by the event. -/
def transferOf (eventId : String) : String := Transfer.safeId eventId ++ "-1"

def inboxPath (d : Daemon) (transfer : String) : String := Transfer.join d.inbox transfer

/-- What the homeserver and the disk make of a download that is begun. -/
structure Fetched where
  /-- The size of the content. -/
  content : Except String Nat
  /-- Why the content cannot be written. -/
  fault : Option String
  timedOut : Bool

inductive DownloadError
  | tooLarge (bytes : Nat)
  | failed (err : String)
  deriving DecidableEq, Repr

/-- Nothing is written of a content that is over the cap. -/
def download (maxBytes : Nat) (f : Fetched) : Except DownloadError Nat :=
  match f.content with
  | .error err => .error (.failed err)
  | .ok bytes =>
    if maxBytes < bytes then .error (.tooLarge bytes)
    else match f.fault with
      | some err => .error (.failed err)
      | none => .ok bytes

def note (message : Event) (line : String) : Event :=
  { message with text := (if message.text.isEmpty then "" else message.text ++ "\n") ++ line }

/-- The line that stands for a file that is not there. -/
def describe (d : Daemon) (media : Media) (detail : String) : String :=
  let size := (media.size.map fun s ↦ ", " ++ d.humanSize s).getD ""
  "[attachment \"" ++ media.name ++ "\" (" ++ media.mime ++ size ++ ") " ++ detail ++ "]"

/-- Download one attachment into the spool and record it on the event, or explain in the text why
the file is not there. -/
def fetchAttachment (d : Daemon) (message : Event) (media : Media) (f : Fetched) : Event :=
  if media.size.any (d.maxBytes < ·) then
    note message (describe d media
      ("not downloaded: over the " ++ d.humanSize d.maxBytes ++ " limit"))
  else if f.timedOut then
    note message (describe d media "could not be downloaded: timed out")
  else match download d.maxBytes f with
    | .ok bytes =>
      { message with attachments := message.attachments ++
          [⟨transferOf message.eventId, media.name, media.mime, bytes⟩] }
    | .error (.tooLarge bytes) =>
      note message (describe d media ("not downloaded: " ++ d.humanSize bytes ++ " is over the " ++
        d.humanSize d.maxBytes ++ " limit"))
    | .error (.failed err) => note message (describe d media ("could not be downloaded: " ++ err))

/-! ## Reactions -/

structure ReactionEvent where
  sender : String
  eventId : String
  originServerTs : Nat
  target : String
  key : String

def reactionEvent (room : RoomView) (e : ReactionEvent) (person : PersonConfig)
    (kind : RoomKind) : Event where
  kind := .reaction
  person := person.name
  role := person.role
  sender := e.sender
  roomId := room.roomId
  room := kind
  eventId := e.eventId
  ts := Time.rfc3339Utc e.originServerTs
  inReplyTo := none
  thread := none
  reactsTo := some e.target
  text := e.key
  transcribed := false
  attachments := []

/-- The handler up to the request for the event that is reacted to. -/
def onReaction (d : Daemon) (marks : Marks) (clock : Clock) (room : RoomView)
    (e : ReactionEvent) : Option Task :=
  if !room.joined then none
  else if d.routing.isBot e.sender then none
  else match admitted? d marks clock room e.sender e.eventId e.originServerTs with
    | none => none
    | some (session, person, kind) =>
      some (.reaction ⟨session, e.originServerTs, reactionEvent room e person kind⟩ e.target)

/-- Reactions on anything else than the bot's own messages are dropped. -/
def reactsToBot (d : Daemon) : Except String (Option String) → Bool
  | .ok (some sender) => d.routing.isBot sender
  | _ => false

inductive Incoming
  | message (e : MessageEvent)
  | reaction (e : ReactionEvent)

/-- An event of the sync in the room as its handler finds it. -/
structure Arrival where
  room : RoomView
  incoming : Incoming

namespace Arrival

def sender (a : Arrival) : String :=
  match a.incoming with
  | .message e => e.sender
  | .reaction e => e.sender

/-- As the verdict and the mark of its room see it. -/
def message (a : Arrival) : Replay.Message :=
  match a.incoming with
  | .message e => ⟨a.room.roomId, e.eventId, e.originServerTs⟩
  | .reaction e => ⟨a.room.roomId, e.eventId, e.originServerTs⟩

@[simp] theorem message_roomId (a : Arrival) : a.message.roomId = a.room.roomId := by
  unfold message
  cases a.incoming <;> rfl

end Arrival

def handle (d : Daemon) (marks : Marks) (clock : Clock) (a : Arrival) : Option Task :=
  match a.incoming with
  | .message e => onMessage d marks clock a.room e
  | .reaction e => onReaction d marks clock a.room e

/-! ## Who is let in -/

/-- What is asked for its verdict: it is of a kind that the bridge carries, and is routed. -/
def judged (d : Daemon) (a : Arrival) : Option (String × PersonConfig × RoomKind) :=
  if !a.room.joined then none
  else match a.incoming with
    | .message e =>
      match (Content.parse d.content e.content).body with
      | .text _ | .media _ => route d a.room e.sender
      | _ => none
    | .reaction e => if d.routing.isBot e.sender then none else route d a.room e.sender

theorem route_eq_some_iff {d : Daemon} {room : RoomView} {sender session : String}
    {person : PersonConfig} {kind : RoomKind} :
    route d room sender = some (session, person, kind) ↔ ∃ members, room.members = .ok members ∧
      d.routing.inbound sender room.roomId members room.shape = .deliver session person kind := by
  unfold route
  cases hmembers : room.members with
  | error e => simp
  | ok members =>
    dsimp only
    cases hinbound : d.routing.inbound sender room.roomId members room.shape with
    | drop reason => simp [hinbound]
    | deliver session' person' kind' => simp [hinbound]

/-- The verdict on an arrival. -/
def Arrival.verdict (a : Arrival) (marks : Marks) (clock : Clock) : Verdict :=
  Replay.verdict a.message.tsMs a.message.eventId (marks a.message.roomId) clock

/-- What a message becomes, once it is let in. -/
def messageTask (d : Daemon) (room : RoomView) (e : MessageEvent)
    (admitted : String × PersonConfig × RoomKind) : Option Task :=
  let (session, person, kind) := admitted
  let parsed := Content.parse d.content e.content
  let message := newMessage room e person kind parsed.inReplyTo parsed.thread
  match parsed.body with
  | .text text => some (.ready ⟨session, e.originServerTs, { message with text := text }⟩)
  | .media media =>
    some (.attachment ⟨session, e.originServerTs, { message with text := media.caption }⟩ media)
  | _ => none

def reactionTask (room : RoomView) (e : ReactionEvent)
    (admitted : String × PersonConfig × RoomKind) : Task :=
  let (session, person, kind) := admitted
  .reaction ⟨session, e.originServerTs, reactionEvent room e person kind⟩ e.target

def taskOf (d : Daemon) (a : Arrival) (admitted : String × PersonConfig × RoomKind) :
    Option Task :=
  match a.incoming with
  | .message e => messageTask d a.room e admitted
  | .reaction e => some (reactionTask a.room e admitted)

/-- An arrival is let in if it is judged and the verdict is to deliver it. -/
theorem handle_eq (d : Daemon) (marks : Marks) (clock : Clock) (a : Arrival) :
    handle d marks clock a =
      match judged d a with
      | none => none
      | some admitted =>
        match a.verdict marks clock with
        | .deliver _ => taskOf d a admitted
        | _ => none := by
  obtain ⟨room, incoming⟩ := a
  cases incoming with
  | message e =>
    simp only [handle, onMessage, judged, taskOf, messageTask, Arrival.verdict, Arrival.message,
      admitted?]
    cases room.joined with
    | false => rfl
    | true =>
      cases hbody : (Content.parse d.content e.content).body with
      | edit => rfl
      | other => rfl
      | text text =>
        cases route d room e.sender with
        | none => rfl
        | some admitted =>
          dsimp only
          cases verdict e.originServerTs e.eventId (marks room.roomId) clock with
          | deliver behind => simp
          | _ => rfl
      | media media =>
        cases route d room e.sender with
        | none => rfl
        | some admitted =>
          dsimp only
          cases verdict e.originServerTs e.eventId (marks room.roomId) clock with
          | deliver behind => simp
          | _ => rfl
  | reaction e =>
    simp only [handle, onReaction, judged, taskOf, reactionTask, Arrival.verdict, Arrival.message,
      admitted?]
    cases room.joined with
    | false => rfl
    | true =>
      cases d.routing.isBot e.sender with
      | true => rfl
      | false =>
        cases route d room e.sender with
        | none => rfl
        | some admitted =>
          dsimp only
          cases verdict e.originServerTs e.eventId (marks room.roomId) clock with
          | deliver behind => rfl
          | _ => rfl

end Arrivals

end Silta
