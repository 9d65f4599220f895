import Silta.Content
import Silta.Lib.Deeds
import Silta.Reply
import Silta.Timestamps

/-!
# What a session has the bot do

The commands of a session as programs over everything that is asked of Matrix and done in it: which
room they are in, who may, what is posted, and what becomes of the typing indicator.  Matrix
answers as it likes, by all that went before.
-/

namespace Silta

namespace Outgoing

open ClientLines (Fail Scan Host)
open Content (RoomMessageContent)
open Deeds (Prog)
open History (TimelineEvent Page)
open Text (ReplyConfig ReplyError bad)
open Transfer (Bytes Received)

/-- What a mime type comes to: its text, and what stands before the slash. -/
structure Mime where
  essence : String
  type : String
  deriving DecidableEq, Repr

/-- What the commands use of other crates: the debug text of a string, the parsers of ids and of
mime types, the text of a size, and the crates of the transfers and of the contents. -/
structure Crates where
  quote : String → String
  parseRoomId : String → Option String
  parseEventId : String → Option String
  parseMime : String → Option Mime
  humanSize : Nat → String
  transfers : Transfer.Crates
  content : Content.Crates

structure Daemon where
  routing : Routing
  crates : Crates

/-! ## Deeds -/

/-- A message of the bot: its Markdown, and how it relates to another one, with whether that is in a
thread. -/
structure Message where
  text : List Char
  relation : Option (ReplyConfig × Bool)
  deriving DecidableEq, Repr

inductive InfoKind
  | image
  | audio
  | video
  | file
  deriving DecidableEq, Repr

/-- A file as it is uploaded. -/
structure Upload where
  name : String
  mime : Mime
  data : Bytes
  info : InfoKind
  caption : Option String
  reply : Option ReplyConfig
  deriving DecidableEq, Repr

inductive Posted
  | message (message : Message)
  | reaction (target emoji : String)
  /-- A new text in the place of that of an earlier message. -/
  | replacement (target text : String)
  | attachment (upload : Upload)
  deriving DecidableEq, Repr

/-- An event that was loaded or fetched: its sender, where it has one, what it deserializes to, and
why it does not if it is malformed. -/
structure Found where
  sender : Option String
  event : TimelineEvent RoomMessageContent
  fault : String
  deriving DecidableEq, Repr

/-- What is asked, with the answer, and what is done. -/
inductive Deed
  /-- The reader loop has come to a command. -/
  | command (kind : CmdKind)
  /-- Whether the bot is joined to the room, if it knows it. -/
  | getRoom (roomId : String) (joined : Option Bool)
  | members (roomId : String) (answer : Except String (List String))
  | isDirect (roomId : String) (answer : Except String Bool)
  | named (roomId : String) (answer : Bool)
  | loadOrFetchEvent (roomId target : String) (answer : Except String Found)
  | makeReplyEvent (roomId : String) (config : ReplyConfig) (answer : Except ReplyError Bool)
  /-- The pages of one scan. -/
  | messages (roomId : String)
  | maxUploadSize (answer : Except String Nat)
  | read (path : String) (answer : Except String Bytes)
  | post (roomId : String) (posted : Posted) (answer : Except String String)
  | typingNotice (roomId : String) (typing : Bool)
  | typingStart (roomId : String)
  | typingStop (roomId : String)
  | ack (eventId : String)

abbrev Log := List Deed

/-- How Matrix and the disk answer, by all that went before. -/
structure Env where
  getRoom : Log → String → Option Bool
  members : Log → String → Except String (List String)
  isDirect : Log → String → Except String Bool
  named : Log → String → Bool
  loadOrFetchEvent : Log → String → String → Except String Found
  /-- The relation of a reply event, with whether it is in a thread. -/
  makeReplyEvent : Log → String → ReplyConfig → Except ReplyError Bool
  messages : Log → String → Option String → Nat → Except String (Page RoomMessageContent)
  maxUploadSize : Log → Except String Nat
  read : Log → String → Except String Bytes
  post : Log → String → Posted → Except String String
  fault : Log → Option String

abbrev Act (α : Type) := Prog Deed Fail α

/-! ## Rooms -/

section Commands

variable (env : Env) (d : Daemon) (session : String)

open Deeds.Prog (ask say sayAll fail lift)

/-- The joined room behind a room id string. -/
def joinedRoom (roomId : String) : Act String :=
  match d.crates.parseRoomId roomId with
  | none => fail (bad (d.crates.quote roomId ++ " is not a room id"))
  | some roomId => do
    match ← ask (env.getRoom · roomId) (.getRoom roomId) with
    | none => fail (.roomUnknown, "the bot is not in " ++ roomId)
    | some false => fail (.roomUnknown, "the bot is not joined to " ++ roomId)
    | some true => pure roomId

def memberIds (roomId : String) : Act (List String) := do
  match ← ask (env.members · roomId) (.members roomId) with
  | .error e => fail (.sendFailed, "cannot list the members of " ++ roomId ++ ": " ++ e)
  | .ok members => pure members

/-- A flag that cannot be read counts as none. -/
def shapeOf (direct : Except String Bool) (named : Bool) : RoomShape :=
  ⟨match direct with
    | .ok direct => direct
    | .error _ => false, named⟩

def roomShape (roomId : String) : Act RoomShape := do
  let direct ← ask (env.isDirect · roomId) (.isDirect roomId)
  let named ← ask (env.named · roomId) (.named roomId)
  pure (shapeOf direct named)

/-- A rule of the routing on what a session may do in a room. -/
abbrev Rule := String → String → List String → RoomShape → Except SendDenied Unit

/-- A joined room that a rule allows the session; `verb` is what it may not do. -/
def allowedRoom (may : Rule) (verb roomId : String) : Act String := do
  let room ← joinedRoom env d roomId
  let members ← memberIds env room
  let shape ← roomShape env room
  match may session room members shape with
  | .error _ => fail (.roomNotAllowed, "session " ++ session ++ " may not " ++ verb ++ " " ++ room)
  | .ok () => pure room

/-- A room the session's send policy allows. -/
def writableRoom (roomId : String) : Act String :=
  allowedRoom env d session d.routing.maySend "send to" roomId

/-- A room the session owns, for reading history. -/
def readableRoom (roomId : String) : Act String :=
  allowedRoom env d session d.routing.mayRead "read" roomId

/-! ## The typing indicator -/

def stopTyping (roomId : String) : Log := [.typingStop roomId, .typingNotice roomId false]

/-- After a successful send: end the indicator, or keep it going when another message is coming. -/
def afterSend (roomId : String) (more : Bool) : Log :=
  if more then [.typingNotice roomId false, .typingNotice roomId true, .typingStart roomId]
  else stopTyping roomId

/-! ## Posting -/

def post (roomId : String) (posted : Posted) : Act (Except String String) :=
  ask (env.post · roomId posted) (.post roomId posted)

/-- What `do_reply` asks of Matrix, in the log. -/
def client : Text.Client String Message Log where
  quote := d.crates.quote
  parseEventId := d.crates.parseEventId
  writableRoom roomId log := (writableRoom env d session roomId).run log
  roomId room := room
  textMarkdown chunk := ⟨chunk, none⟩
  makeReplyEvent room content config log :=
    let answer := env.makeReplyEvent log room config
    (answer.map fun inThread ↦ { content with relation := some (config, inThread) },
      log ++ [.makeReplyEvent room config answer])
  isThread content := content.relation.any Prod.snd
  send room content log :=
    let answer := env.post log room (.message content)
    (answer, log ++ [.post room (.message content) answer])
  stopTyping room log := log ++ stopTyping room
  afterSend room more log := log ++ afterSend room more

section Client

variable {env d session}

@[simp] theorem client_textMarkdown (chunk : List Char) :
    (client env d session).textMarkdown chunk = ⟨chunk, none⟩ := rfl

@[simp] theorem client_send (room : String) (content : Message) (log : Log) :
    (client env d session).send room content log = (env.post log room (.message content),
      log ++ [.post room (.message content) (env.post log room (.message content))]) := rfl

@[simp] theorem client_makeReplyEvent (room : String) (content : Message) (config : ReplyConfig)
    (log : Log) : (client env d session).makeReplyEvent room content config log =
      ((env.makeReplyEvent log room config).map fun inThread ↦
          { content with relation := some (config, inThread) },
        log ++ [.makeReplyEvent room config (env.makeReplyEvent log room config)]) := rfl

@[simp] theorem client_stopTyping (room : String) (log : Log) :
    (client env d session).stopTyping room log = log ++ stopTyping room := rfl

@[simp] theorem client_afterSend (room : String) (more : Bool) (log : Log) :
    (client env d session).afterSend room more log = log ++ afterSend room more := rfl

@[simp] theorem client_writableRoom (roomId : String) (log : Log) :
    (client env d session).writableRoom roomId log = (writableRoom env d session roomId).run log :=
  rfl

end Client

/-- A reply always comes to an answer. -/
def doReply (reply : Reply) : Act String := fun log ↦
  (Text.doReply (client env d session) reply log).getD (.error (bad "text is empty"), log)

/-- The answer to a post, with what follows it: nothing, where it failed. -/
def sent (roomId : String) (posted : Posted) (more : Bool) (failed : String → String) :
    Act String := do
  match ← post env roomId posted with
  | .error e => fail (.sendFailed, failed e)
  | .ok id =>
    sayAll (afterSend roomId more)
    pure id

def doReact (react : React) : Act String :=
  if (Text.trim react.emoji.toList).isEmpty then fail (bad "emoji is empty")
  else do
    let target ← lift (Text.parseEventId (client env d session) react.eventId)
    let room ← writableRoom env d session react.roomId
    sent env room (.reaction target react.emoji) react.more fun e ↦
      "reacting in " ++ room ++ " failed: " ++ e

/-- Why an event that was found cannot be edited, if it cannot. -/
def editable (target : String) (found : Found) : Except Fail Unit :=
  if !found.sender.any d.routing.isBot then
    .error (.notFound, target ++ " is not one of the bot's own messages")
  else match found.event with
    | .roomMessage m =>
      if m.content.relatesTo = some .replacement then
        .error (bad (target ++ " is itself an edit; edit the original message"))
      else .ok ()
    | .other _ => .error (bad (target ++ " is not a message"))
    | .malformed => .error (.notFound, "cannot read " ++ target ++ ": " ++ found.fault)

def doEdit (edit : Edit) : Act String :=
  if (Text.trim edit.text.toList).isEmpty then fail (bad "text is empty")
  else if Text.chunkBytes < edit.text.utf8ByteSize then
    fail (bad (s!"the new text is {edit.text.utf8ByteSize} bytes; " ++
      "an edit must fit one message of " ++
      s!"{Text.chunkBytes} bytes, send a new message instead"))
  else do
    let target ← lift (Text.parseEventId (client env d session) edit.eventId)
    let room ← writableRoom env d session edit.roomId
    match ← ask (env.loadOrFetchEvent · room target) (.loadOrFetchEvent room target) with
    | .error e => fail (.notFound, "cannot fetch " ++ target ++ ": " ++ e)
    | .ok found =>
      lift (editable d target found)
      sent env room (.replacement target edit.text) edit.more fun e ↦
        "editing " ++ target ++ " in " ++ room ++ " failed: " ++ e

def infoKind (mime : Mime) : InfoKind :=
  if mime.type = "image" then .image
  else if mime.type = "audio" then .audio
  else if mime.type = "video" then .video
  else .file

/-- The limit of the server, where it can be learnt. -/
def withinLimit (name : String) (size : Nat) : Act Unit := do
  match ← ask env.maxUploadSize .maxUploadSize with
  | .ok max =>
    if max < size then
      fail (.fileError, name ++ " is " ++ d.crates.humanSize size ++
        " and the server accepts at most " ++ d.crates.humanSize max)
    else pure ()
  -- without a limit the file is sent anyway
  | .error _ => pure ()

/-- Upload a file that the session streamed over the socket. -/
def doSendFile (cmd : SendFile) (received : Received) : Act String := do
  let name := Transfer.safeName d.crates.transfers received.header.name received.header.mime
  let replyTo ← lift (Text.parseOptionalEventId (client env d session) cmd.replyTo)
  let thread ← lift (Text.parseOptionalEventId (client env d session) cmd.thread)
  let room ← writableRoom env d session cmd.roomId
  withinLimit env d name received.header.size
  match ← ask (env.read · received.path) (.read received.path) with
  | .error e => fail (.fileError, "cannot read the received file: " ++ e)
  | .ok data =>
    let mime := (d.crates.parseMime received.header.mime).getD
      ⟨"application/octet-stream", "application"⟩
    let upload : Upload :=
      { name := name, mime := mime, data := data, info := infoKind mime
        caption := cmd.caption.filter fun c ↦ !(Text.trim c.toList).isEmpty
        reply := Text.replyConfig replyTo thread }
    sent env room (.attachment upload) cmd.more fun e ↦
      "sending " ++ name ++ " to " ++ room ++ " failed: " ++ e

/-! ## Reading -/

/-- The room as a scan of its history finds it. -/
def historyRoom (log : Log) (roomId : String) : History.Room RoomMessageContent where
  roomId := roomId
  messages := env.messages log roomId
  routing := d.routing
  parse := Content.parse d.crates.content
  rfc3339Utc := Time.rfc3339Utc

/-- A scan of the history of a room that the session may read. -/
def scanned {α : Type} (roomId : String)
    (scan : (String → Except Fail (History.Room RoomMessageContent)) → Except Fail α) :
    Act α := do
  let room ← readableRoom env d session roomId
  say (.messages room)
  fun log ↦ (scan fun _ ↦ .ok (historyRoom env d log room), log)

def doFetchMessages (cmd : FetchMessages) : Act (List HistoryMessage × Option String) :=
  scanned env d session cmd.roomId fun room ↦ History.doFetchMessages room cmd

def doSearchMessages (build : String → Except String History.Regex) (cmd : SearchMessages) :
    Act Scan :=
  match build cmd.pattern with
  -- nothing is asked of the room
  | .error e => fail (bad s!"invalid regular expression: {e}")
  | .ok _ => scanned env d session cmd.roomId fun room ↦ History.doSearchMessages room build cmd

/-- One message by id, whole, under the same ownership rule as history. -/
def doFetchMessage (cmd : FetchMessage) : Act HistoryMessage := do
  let target ← lift (Text.parseEventId (client env d session) cmd.eventId)
  let room ← readableRoom env d session cmd.roomId
  match ← ask (env.loadOrFetchEvent · room target) (.loadOrFetchEvent room target) with
  | .error e => fail (.notFound, "cannot fetch " ++ target ++ ": " ++ e)
  | .ok found =>
    match (historyRoom env d [] room).historyMessage found.event with
    | some message => pure message
    | none =>
      fail (.notFound, target ++ " is not a message from a registered person or the bot")

/-! ## The daemon behind a connection -/

/-- A command, from the moment the reader loop has come to it. -/
def begun {α : Type} (kind : CmdKind) (x : Act α) : Act α := do
  say (.command kind)
  x

/-- What the reader loop of a connection finds behind it. -/
def host (build : String → Except String History.Regex) : Host Log where
  doReply reply := begun (.reply reply) (doReply env d session reply)
  doReact react := begun (.react react) (doReact env d session react)
  doEdit edit := begun (.edit edit) (doEdit env d session edit)
  doSendFile cmd received := begun (.sendFile cmd) (doSendFile env d session cmd received)
  doFetchMessages cmd := begun (.fetchMessages cmd) (doFetchMessages env d session cmd)
  doFetchMessage cmd := begun (.fetchMessage cmd) (doFetchMessage env d session cmd)
  doSearchMessages cmd := begun (.searchMessages cmd) (doSearchMessages env d session build cmd)
  writableRoom roomId := begun (.typing ⟨roomId⟩) (do
    let _ ← writableRoom env d session roomId
    pure ())
  -- the room is the one that was found to be writable
  typingStart roomId log := log ++ ((d.crates.parseRoomId roomId).map Deed.typingStart).toList
  ack ack log := log ++ [.ack ack.eventId]
  fault log := (env.fault log, log)

theorem host_writableRoom (build : String → Except String History.Regex) (roomId : String)
    (log : Log) : (host env d session build).writableRoom roomId log =
      (begun (.typing ⟨roomId⟩) (do
        let _ ← writableRoom env d session roomId
        pure ())).run log := rfl

end Commands

end Outgoing

end Silta
