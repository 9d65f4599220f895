import Silta.ClientLines
import Silta.Handle
import Silta.JsonObjects

/-!
# The wire format

The lines that both sides write, as the derived serialization makes them, and what either side reads
from them: fields that are skipped, the flattened command, names in snake case, and the catch-all
code.
-/

namespace Silta

open Json (number ifTrue Reads Flat)

/-! ## The records of a plugin -/

def Hello.InRange (hello : Hello) : Prop := hello.protocol < 2 ^ 32

def Hello.wire (hello : Hello) : List (String × Option Json) :=
  [("protocol", some (number hello.protocol)), ("session", some (.str hello.session)),
    ("client", some (.str hello.client))]

theorem Hello.flat : Flat Hello.InRange Hello.wire Hello.read where
  keys _ := by simp [Hello.wire]
  leaf _ := by simp +contextual [Hello.wire]
  holds := by
    intro hello value hr h
    rw [Hello.read, h]
    simp [Hello.wire, Json.lookup_cons_of_ne, Json.u32_number hr]

def FileHeader.InRange (header : FileHeader) : Prop := header.size < 2 ^ 64

def FileHeader.wire (header : FileHeader) : List (String × Option Json) :=
  [("transfer", some (.str header.transfer)), ("name", some (.str header.name)),
    ("mime", some (.str header.mime)), ("size", some (number header.size))]

theorem FileHeader.flat : Flat FileHeader.InRange FileHeader.wire FileHeader.read where
  keys _ := by simp [FileHeader.wire]
  leaf _ := by simp +contextual [FileHeader.wire]
  holds := by
    intro header value hr h
    rw [FileHeader.read, h]
    simp [FileHeader.wire, Json.lookup_cons_of_ne, Json.u64_number hr]

def FileChunk.wire (chunk : FileChunk) : List (String × Option Json) :=
  [("transfer", some (.str chunk.transfer)), ("data", some (.str chunk.data))]

theorem FileChunk.flat : Flat (fun _ ↦ True) FileChunk.wire FileChunk.read where
  keys _ := by simp [FileChunk.wire]
  leaf _ := by simp +contextual [FileChunk.wire]
  holds := by
    intro chunk value _ h
    rw [FileChunk.read, h]
    simp [FileChunk.wire, Json.lookup_cons_of_ne]

def FileEnd.wire (last : FileEnd) : List (String × Option Json) :=
  [("transfer", some (.str last.transfer))]

theorem FileEnd.flat : Flat (fun _ ↦ True) FileEnd.wire FileEnd.read where
  keys _ := by simp [FileEnd.wire]
  leaf _ := by simp +contextual [FileEnd.wire]
  holds := by
    intro last value _ h
    rw [FileEnd.read, h]
    simp [FileEnd.wire]

def Ack.wire (ack : Ack) : List (String × Option Json) :=
  [("event_id", some (.str ack.eventId))]

theorem Ack.flat : Flat (fun _ ↦ True) Ack.wire Ack.read where
  keys _ := by simp [Ack.wire]
  leaf _ := by simp +contextual [Ack.wire]
  holds := by
    intro ack value _ h
    rw [Ack.read, h]
    simp [Ack.wire]

def Reply.wire (reply : Reply) : List (String × Option Json) :=
  [("room_id", some (.str reply.roomId)), ("text", some (.str reply.text)),
    ("reply_to", reply.replyTo.map .str), ("thread", reply.thread.map .str),
    ("more", ifTrue reply.more)]

theorem Reply.flat : Flat (fun _ ↦ True) Reply.wire Reply.read where
  keys _ := by simp [Reply.wire]
  leaf _ := by simpa +contextual [Reply.wire] using fun _ ↦ Json.isLeaf_ifTrue
  holds := by
    intro reply value _ h
    rw [Reply.read, h]
    simp [Reply.wire, Json.lookup_cons_of_ne]

def React.wire (react : React) : List (String × Option Json) :=
  [("room_id", some (.str react.roomId)), ("event_id", some (.str react.eventId)),
    ("emoji", some (.str react.emoji)), ("more", ifTrue react.more)]

theorem React.flat : Flat (fun _ ↦ True) React.wire React.read where
  keys _ := by simp [React.wire]
  leaf _ := by simpa +contextual [React.wire] using fun _ ↦ Json.isLeaf_ifTrue
  holds := by
    intro react value _ h
    rw [React.read, h]
    simp [React.wire, Json.lookup_cons_of_ne]

def Edit.wire (edit : Edit) : List (String × Option Json) :=
  [("room_id", some (.str edit.roomId)), ("event_id", some (.str edit.eventId)),
    ("text", some (.str edit.text)), ("more", ifTrue edit.more)]

theorem Edit.flat : Flat (fun _ ↦ True) Edit.wire Edit.read where
  keys _ := by simp [Edit.wire]
  leaf _ := by simpa +contextual [Edit.wire] using fun _ ↦ Json.isLeaf_ifTrue
  holds := by
    intro edit value _ h
    rw [Edit.read, h]
    simp [Edit.wire, Json.lookup_cons_of_ne]

def SendFile.wire (file : SendFile) : List (String × Option Json) :=
  [("room_id", some (.str file.roomId)), ("transfer", some (.str file.transfer)),
    ("caption", file.caption.map .str), ("reply_to", file.replyTo.map .str),
    ("thread", file.thread.map .str), ("more", ifTrue file.more)]

theorem SendFile.flat : Flat (fun _ ↦ True) SendFile.wire SendFile.read where
  keys _ := by simp [SendFile.wire]
  leaf _ := by simpa +contextual [SendFile.wire] using fun _ ↦ Json.isLeaf_ifTrue
  holds := by
    intro file value _ h
    rw [SendFile.read, h]
    simp [SendFile.wire, Json.lookup_cons_of_ne]

def FetchMessages.InRange (fetch : FetchMessages) : Prop := ∀ n ∈ fetch.limit, n < 2 ^ 32

def FetchMessages.wire (fetch : FetchMessages) : List (String × Option Json) :=
  [("room_id", some (.str fetch.roomId)), ("limit", fetch.limit.map number),
    ("from", fetch.«from».map .str)]

theorem FetchMessages.flat : Flat FetchMessages.InRange FetchMessages.wire FetchMessages.read where
  keys _ := by simp [FetchMessages.wire]
  leaf _ := by simp +contextual [FetchMessages.wire]
  holds := by
    intro fetch value hr h
    rw [FetchMessages.read, h]
    simp [FetchMessages.wire, Json.lookup_cons_of_ne, Json.optional_u32 hr]

def FetchMessage.wire (fetch : FetchMessage) : List (String × Option Json) :=
  [("room_id", some (.str fetch.roomId)), ("event_id", some (.str fetch.eventId))]

theorem FetchMessage.flat : Flat (fun _ ↦ True) FetchMessage.wire FetchMessage.read where
  keys _ := by simp [FetchMessage.wire]
  leaf _ := by simp +contextual [FetchMessage.wire]
  holds := by
    intro fetch value _ h
    rw [FetchMessage.read, h]
    simp [FetchMessage.wire, Json.lookup_cons_of_ne]

def SearchMessages.InRange (search : SearchMessages) : Prop := ∀ n ∈ search.limit, n < 2 ^ 32

def SearchMessages.wire (search : SearchMessages) : List (String × Option Json) :=
  [("room_id", some (.str search.roomId)), ("pattern", some (.str search.pattern)),
    ("limit", search.limit.map number), ("from", search.«from».map .str)]

theorem SearchMessages.flat :
    Flat SearchMessages.InRange SearchMessages.wire SearchMessages.read where
  keys _ := by simp [SearchMessages.wire]
  leaf _ := by simp +contextual [SearchMessages.wire]
  holds := by
    intro search value hr h
    rw [SearchMessages.read, h]
    simp [SearchMessages.wire, Json.lookup_cons_of_ne, Json.optional_u32 hr]

def Typing.wire (typing : Typing) : List (String × Option Json) :=
  [("room_id", some (.str typing.roomId))]

theorem Typing.flat : Flat (fun _ ↦ True) Typing.wire Typing.read where
  keys _ := by simp [Typing.wire]
  leaf _ := by simp +contextual [Typing.wire]
  holds := by
    intro typing value _ h
    rw [Typing.read, h]
    simp [Typing.wire]

/-! ## Commands -/

namespace CmdKind

def name : CmdKind → String
  | .reply _ => "reply"
  | .react _ => "react"
  | .edit _ => "edit"
  | .sendFile _ => "send_file"
  | .fetchMessages _ => "fetch_messages"
  | .fetchMessage _ => "fetch_message"
  | .searchMessages _ => "search_messages"
  | .typing _ => "typing"

def payload : CmdKind → Json
  | .reply cmd => .record cmd.wire
  | .react cmd => .record cmd.wire
  | .edit cmd => .record cmd.wire
  | .sendFile cmd => .record cmd.wire
  | .fetchMessages cmd => .record cmd.wire
  | .fetchMessage cmd => .record cmd.wire
  | .searchMessages cmd => .record cmd.wire
  | .typing cmd => .record cmd.wire

def InRange : CmdKind → Prop
  | .fetchMessages cmd => cmd.InRange
  | .searchMessages cmd => cmd.InRange
  | _ => True

theorem readAs_payload {kind : CmdKind} (hr : kind.InRange) :
    readAs kind.name kind.payload.sorted = some kind := by
  cases kind with
  | reply cmd => exact congrArg (Option.map CmdKind.reply) (Reply.flat.sorted trivial)
  | react cmd => exact congrArg (Option.map CmdKind.react) (React.flat.sorted trivial)
  | edit cmd => exact congrArg (Option.map CmdKind.edit) (Edit.flat.sorted trivial)
  | sendFile cmd => exact congrArg (Option.map CmdKind.sendFile) (SendFile.flat.sorted trivial)
  | fetchMessages cmd =>
    exact congrArg (Option.map CmdKind.fetchMessages) (FetchMessages.flat.sorted hr)
  | fetchMessage cmd =>
    exact congrArg (Option.map CmdKind.fetchMessage) (FetchMessage.flat.sorted trivial)
  | searchMessages cmd =>
    exact congrArg (Option.map CmdKind.searchMessages) (SearchMessages.flat.sorted hr)
  | typing cmd => exact congrArg (Option.map CmdKind.typing) (Typing.flat.sorted trivial)

theorem name_mem_names (kind : CmdKind) : names.contains kind.name = true := by
  cases kind <;> rfl

theorem within_payload (kind : CmdKind) (depth : Nat) : kind.payload.Within (depth + 1) := by
  cases kind with
  | reply cmd => exact Reply.flat.within cmd depth
  | react cmd => exact React.flat.within cmd depth
  | edit cmd => exact Edit.flat.within cmd depth
  | sendFile cmd => exact SendFile.flat.within cmd depth
  | fetchMessages cmd => exact FetchMessages.flat.within cmd depth
  | fetchMessage cmd => exact FetchMessage.flat.within cmd depth
  | searchMessages cmd => exact SearchMessages.flat.within cmd depth
  | typing cmd => exact Typing.flat.within cmd depth

end CmdKind

/-- The command is flattened: its name is a key beside the id. -/
def Cmd.toJson (cmd : Cmd) : Json :=
  .obj [("id", number cmd.id), (cmd.kind.name, cmd.kind.payload)]

def Cmd.InRange (cmd : Cmd) : Prop := cmd.id < 2 ^ 64 ∧ cmd.kind.InRange

theorem Cmd.read_sorted {cmd : Cmd} (hr : cmd.InRange) : Cmd.read cmd.toJson.sorted = some cmd := by
  have hid : cmd.kind.name ≠ "id" := by
    intro heq
    have hmem := cmd.kind.name_mem_names
    rw [heq] at hmem
    exact absurd hmem (by decide)
  have hno : CmdKind.names.contains "id" = false := by decide
  -- the id comes before the command or after it
  obtain ⟨entries, hsorted, hentries⟩ : ∃ entries, cmd.toJson.sorted = .obj entries ∧
      (entries = [(cmd.kind.name, cmd.kind.payload.sorted), ("id", number cmd.id)] ∨
        entries = [("id", number cmd.id), (cmd.kind.name, cmd.kind.payload.sorted)]) :=
    ⟨Json.insertKey (cmd.kind.name, cmd.kind.payload.sorted) [("id", number cmd.id)], rfl,
      Json.insertKey_singleton hid⟩
  have hlookup : entries.lookup "id" = some (number cmd.id) := by
    rcases hentries with rfl | rfl
    · rw [Json.lookup_cons_of_ne hid.symm, List.lookup_cons_self]
    · rw [List.lookup_cons_self]
  have hfind : (entries.find? fun p ↦ CmdKind.names.contains p.1) =
      some (cmd.kind.name, cmd.kind.payload.sorted) := by
    rcases hentries with rfl | rfl
    · simp only [List.find?_cons, cmd.kind.name_mem_names]
    · simp only [List.find?_cons, hno, cmd.kind.name_mem_names]
  have hkind : CmdKind.read entries = some cmd.kind := by
    rw [CmdKind.read, hfind]
    exact CmdKind.readAs_payload hr.2
  rw [hsorted, Cmd.read, hlookup, Json.u64_number hr.1, hkind]
  rfl

theorem Cmd.within (cmd : Cmd) (depth : Nat) : cmd.toJson.Within (depth + 2) := by
  intro p hp
  rcases List.mem_cons.mp hp with rfl | hp
  · exact Json.within_of_isLeaf rfl _
  · obtain rfl := List.mem_singleton.mp hp
    exact cmd.kind.within_payload depth

def ClientMessage.toJson : ClientMessage → Json
  | .hello m => .obj [("hello", .record m.wire)]
  | .cmd m => .obj [("cmd", m.toJson)]
  | .file m => .obj [("file", .record m.wire)]
  | .chunk m => .obj [("chunk", .record m.wire)]
  | .fileEnd m => .obj [("file_end", .record m.wire)]
  | .ack m => .obj [("ack", .record m.wire)]

/-- The numbers fit their types. -/
def ClientMessage.InRange : ClientMessage → Prop
  | .hello m => m.InRange
  | .cmd m => m.InRange
  | .file m => m.InRange
  | _ => True

theorem ClientMessage.read_sorted {message : ClientMessage} (hr : message.InRange) :
    ClientMessage.read message.toJson.sorted = some message := by
  cases message with
  | hello m => exact congrArg (Option.map ClientMessage.hello) (Hello.flat.sorted hr)
  | cmd m => exact congrArg (Option.map ClientMessage.cmd) (Cmd.read_sorted hr)
  | file m => exact congrArg (Option.map ClientMessage.file) (FileHeader.flat.sorted hr)
  | chunk m => exact congrArg (Option.map ClientMessage.chunk) (FileChunk.flat.sorted trivial)
  | fileEnd m => exact congrArg (Option.map ClientMessage.fileEnd) (FileEnd.flat.sorted trivial)
  | ack m => exact congrArg (Option.map ClientMessage.ack) (Ack.flat.sorted trivial)

theorem ClientMessage.within (message : ClientMessage) (depth : Nat) :
    message.toJson.Within (depth + 3) := by
  cases message with
  | hello m => exact Json.within_obj (Hello.flat.within m _)
  | cmd m => exact Json.within_obj (m.within depth)
  | file m => exact Json.within_obj (FileHeader.flat.within m _)
  | chunk m => exact Json.within_obj (FileChunk.flat.within m _)
  | fileEnd m => exact Json.within_obj (FileEnd.flat.within m _)
  | ack m => exact Json.within_obj (Ack.flat.within m _)

/-! ## Names -/

def Role.asStr : Role → String
  | .owner => "owner"
  | .family => "family"

def EventKind.asStr : EventKind → String
  | .message => "message"
  | .reaction => "reaction"

def RoomKind.asStr : RoomKind → String
  | .dm => "dm"
  | .group => "group"

def Handle.ErrorCode.asStr : Handle.ErrorCode → String
  | .protocolMismatch => "protocol_mismatch"
  | .unknownSession => "unknown_session"
  | .sessionBusy => "session_busy"
  | .badRequest => "bad_request"
  | .wrongUser => "wrong_user"

def ResultError.asStr : ResultError → String
  | .roomNotAllowed => "room_not_allowed"
  | .roomUnknown => "room_unknown"
  | .sendFailed => "send_failed"
  | .badRequest => "bad_request"
  | .notFound => "not_found"
  | .fileError => "file_error"
  | .unknown => "unknown"

/-- The variant of that name among those of an enumeration. -/
def Json.oneOf {α : Type} (asStr : α → String) (variants : List α) (value : Option Json) :
    Option α := do
  let name ← Json.variant value
  variants.find? fun a ↦ asStr a == name

def Role.read : Option Json → Option Role := Json.oneOf Role.asStr [.owner, .family]

def EventKind.read : Option Json → Option EventKind :=
  Json.oneOf EventKind.asStr [.message, .reaction]

def RoomKind.read : Option Json → Option RoomKind := Json.oneOf RoomKind.asStr [.dm, .group]

def Handle.ErrorCode.read : Option Json → Option Handle.ErrorCode :=
  Json.oneOf Handle.ErrorCode.asStr
    [.protocolMismatch, .unknownSession, .sessionBusy, .badRequest, .wrongUser]

/-- Any other name is the code of a newer daemon. -/
def ResultError.read (value : Option Json) : Option ResultError := do
  let name ← Json.variant value
  some (([.roomNotAllowed, .roomUnknown, .sendFailed, .badRequest, .notFound, .fileError].find?
    fun error : ResultError ↦ error.asStr == name).getD .unknown)

@[simp] theorem Role.read_asStr (role : Role) : Role.read (some (.str role.asStr)) = some role := by
  cases role <;> rfl

@[simp] theorem EventKind.read_asStr (kind : EventKind) :
    EventKind.read (some (.str kind.asStr)) = some kind := by
  cases kind <;> rfl

@[simp] theorem RoomKind.read_asStr (room : RoomKind) :
    RoomKind.read (some (.str room.asStr)) = some room := by
  cases room <;> rfl

@[simp] theorem Handle.ErrorCode.read_asStr (code : Handle.ErrorCode) :
    Handle.ErrorCode.read (some (.str code.asStr)) = some code := by
  cases code <;> rfl

theorem ResultError.read_asStr (error : ResultError) :
    ResultError.read (some (.str error.asStr)) = some error := by
  cases error <;> rfl

/-! ## The records of the daemon -/

/-- A registered person as announced in the welcome. -/
structure Person where
  name : String
  role : Role
  deriving DecidableEq, Repr

/-- The daemon's answer to a valid hello. -/
structure Welcome where
  protocol : Nat
  session : String
  userId : String
  people : List Person
  inboxMaxAgeDays : Nat
  deriving DecidableEq, Repr

structure ProtocolError where
  code : Handle.ErrorCode
  message : String
  deriving DecidableEq, Repr

def Person.wire (person : Person) : List (String × Option Json) :=
  [("name", some (.str person.name)), ("role", some (.str person.role.asStr))]

def Person.read (value : Json) : Option Person := do
  let f ← value.fields ["name", "role"]
  some ⟨← Json.string (f "name"), ← Role.read (f "role")⟩

theorem Person.flat : Flat (fun _ ↦ True) Person.wire Person.read where
  keys _ := by simp [Person.wire]
  leaf _ := by simp [Person.wire]
  holds := by
    intro person value _ h
    rw [Person.read, h]
    simp [Person.wire, Json.lookup_cons_of_ne]

def Welcome.InRange (welcome : Welcome) : Prop :=
  welcome.protocol < 2 ^ 32 ∧ welcome.inboxMaxAgeDays < 2 ^ 64

def Welcome.wire (welcome : Welcome) : List (String × Option Json) :=
  [("protocol", some (number welcome.protocol)), ("session", some (.str welcome.session)),
    ("user_id", some (.str welcome.userId)),
    ("people", some (.arr (welcome.people.map fun person ↦ .record person.wire))),
    ("inbox_max_age_days", some (number welcome.inboxMaxAgeDays))]

def Welcome.read (value : Json) : Option Welcome := do
  let f ← value.fields ["protocol", "session", "user_id", "people", "inbox_max_age_days"]
  some ⟨← Json.u32 (f "protocol"), ← Json.string (f "session"), ← Json.string (f "user_id"),
    ← Json.list Person.read (f "people"), ← Json.u64 (f "inbox_max_age_days")⟩

theorem Welcome.reads : Reads Welcome.InRange Welcome.wire Welcome.read where
  keys _ := by simp [Welcome.wire]
  holds := by
    intro welcome value hr h
    have hpeople : Json.list Person.read (some (.arr (welcome.people.map _))) = _ :=
      Json.list_map fun person _ ↦ Person.flat.record (a := person) trivial
    rw [Welcome.read, h]
    simp [Welcome.wire, Json.lookup_cons_of_ne, Json.u32_number hr.1, Json.u64_number hr.2, hpeople]

theorem Welcome.within (welcome : Welcome) (depth : Nat) :
    (Json.record welcome.wire).Within (depth + 3) := by
  have hpeople := Json.within_arr welcome.people fun person _ ↦
    Person.flat.within person depth
  simp [Welcome.wire, Json.within_record_cons, hpeople]

def ProtocolError.wire (error : ProtocolError) : List (String × Option Json) :=
  [("code", some (.str error.code.asStr)), ("message", some (.str error.message))]

def ProtocolError.read (value : Json) : Option ProtocolError := do
  let f ← value.fields ["code", "message"]
  some ⟨← Handle.ErrorCode.read (f "code"), ← Json.string (f "message")⟩

theorem ProtocolError.flat : Flat (fun _ ↦ True) ProtocolError.wire ProtocolError.read where
  keys _ := by simp [ProtocolError.wire]
  leaf _ := by simp [ProtocolError.wire]
  holds := by
    intro error value _ h
    rw [ProtocolError.read, h]
    simp [ProtocolError.wire, Json.lookup_cons_of_ne]

def Attachment.InRange (attachment : Attachment) : Prop := attachment.size < 2 ^ 64

def Attachment.wire (attachment : Attachment) : List (String × Option Json) :=
  [("transfer", some (.str attachment.transfer)), ("name", some (.str attachment.name)),
    ("mime", some (.str attachment.mime)), ("size", some (number attachment.size))]

def Attachment.read (value : Json) : Option Attachment := do
  let f ← value.fields ["transfer", "name", "mime", "size"]
  some ⟨← Json.string (f "transfer"), ← Json.string (f "name"), ← Json.string (f "mime"),
    ← Json.u64 (f "size")⟩

theorem Attachment.flat : Flat Attachment.InRange Attachment.wire Attachment.read where
  keys _ := by simp [Attachment.wire]
  leaf _ := by simp +contextual [Attachment.wire]
  holds := by
    intro attachment value hr h
    rw [Attachment.read, h]
    simp [Attachment.wire, Json.lookup_cons_of_ne, Json.u64_number hr]

def Event.InRange (event : Event) : Prop := ∀ attachment ∈ event.attachments, attachment.InRange

def Event.wire (event : Event) : List (String × Option Json) :=
  [("kind", some (.str event.kind.asStr)), ("person", some (.str event.person)),
    ("role", some (.str event.role.asStr)), ("sender", some (.str event.sender)),
    ("room_id", some (.str event.roomId)), ("room", some (.str event.room.asStr)),
    ("event_id", some (.str event.eventId)), ("ts", some (.str event.ts)),
    ("in_reply_to", event.inReplyTo.map .str), ("thread", event.thread.map .str),
    ("reacts_to", event.reactsTo.map .str), ("text", some (.str event.text)),
    ("transcribed", some (.bool event.transcribed)),
    ("attachments", some (.arr (event.attachments.map fun attachment ↦ .record attachment.wire)))]

def Event.read (value : Json) : Option Event := do
  let f ← value.fields ["kind", "person", "role", "sender", "room_id", "room", "event_id", "ts",
    "in_reply_to", "thread", "reacts_to", "text", "transcribed", "attachments"]
  some ⟨← EventKind.read (f "kind"), ← Json.string (f "person"), ← Role.read (f "role"),
    ← Json.string (f "sender"), ← Json.string (f "room_id"), ← RoomKind.read (f "room"),
    ← Json.string (f "event_id"), ← Json.string (f "ts"),
    ← Json.optional Json.string (f "in_reply_to"), ← Json.optional Json.string (f "thread"),
    ← Json.optional Json.string (f "reacts_to"), ← Json.string (f "text"),
    ← Json.boolean (f "transcribed"), ← Json.list Attachment.read (f "attachments")⟩

theorem Event.reads : Reads Event.InRange Event.wire Event.read where
  keys _ := by simp [Event.wire]
  holds := by
    intro event value hr h
    have hkind : EventKind.read (event.wire.lookup "kind").join = some event.kind :=
      event.kind.read_asStr
    have hrole : Role.read (event.wire.lookup "role").join = some event.role :=
      event.role.read_asStr
    have hroom : RoomKind.read (event.wire.lookup "room").join = some event.room :=
      event.room.read_asStr
    have hreply : Json.optional Json.string (event.wire.lookup "in_reply_to").join =
        some event.inReplyTo := Json.optional_str event.inReplyTo
    have hthread : Json.optional Json.string (event.wire.lookup "thread").join =
        some event.thread := Json.optional_str event.thread
    have hreacts : Json.optional Json.string (event.wire.lookup "reacts_to").join =
        some event.reactsTo := Json.optional_str event.reactsTo
    have hattachments : Json.list Attachment.read (event.wire.lookup "attachments").join =
        some event.attachments :=
      Json.list_map fun attachment ha ↦ Attachment.flat.record (hr attachment ha)
    -- the fields in their order
    apply Json.bind_of_eq_some (h _)
    apply Json.bind_of_eq_some hkind
    apply Json.bind_of_eq_some (Json.string_str _)
    apply Json.bind_of_eq_some hrole
    iterate 2 apply Json.bind_of_eq_some (Json.string_str _)
    apply Json.bind_of_eq_some hroom
    iterate 2 apply Json.bind_of_eq_some (Json.string_str _)
    apply Json.bind_of_eq_some hreply
    apply Json.bind_of_eq_some hthread
    apply Json.bind_of_eq_some hreacts
    apply Json.bind_of_eq_some (Json.string_str _)
    apply Json.bind_of_eq_some (Json.boolean_bool _)
    exact Json.bind_of_eq_some hattachments rfl

theorem Event.within (event : Event) (depth : Nat) :
    (Json.record event.wire).Within (depth + 3) := by
  have hattachments := Json.within_arr event.attachments fun attachment _ ↦
    Attachment.flat.within attachment depth
  simp [Event.wire, Json.within_record_cons, hattachments]

/-! ## Results -/

def HistoryAttachment.InRange (attachment : HistoryAttachment) : Prop := attachment.size < 2 ^ 64

def HistoryAttachment.wire (attachment : HistoryAttachment) : List (String × Option Json) :=
  [("name", some (.str attachment.name)), ("mime", some (.str attachment.mime)),
    ("size", some (number attachment.size))]

def HistoryAttachment.read (value : Json) : Option HistoryAttachment := do
  let f ← value.fields ["name", "mime", "size"]
  some ⟨← Json.string (f "name"), ← Json.string (f "mime"), ← Json.u64 (f "size")⟩

theorem HistoryAttachment.flat :
    Flat HistoryAttachment.InRange HistoryAttachment.wire HistoryAttachment.read where
  keys _ := by simp [HistoryAttachment.wire]
  leaf _ := by simp +contextual [HistoryAttachment.wire]
  holds := by
    intro attachment value hr h
    rw [HistoryAttachment.read, h]
    simp [HistoryAttachment.wire, Json.lookup_cons_of_ne, Json.u64_number hr]

namespace HistoryMessage

def InRange (message : HistoryMessage) : Prop :=
  (∀ n ∈ message.matchStart, n < 2 ^ 64) ∧ ∀ attachment ∈ message.attachments, attachment.InRange

def wire (message : HistoryMessage) : List (String × Option Json) :=
  [("event_id", some (.str message.eventId)), ("sender", some (.str message.sender)),
    ("person", message.person.map .str), ("role", message.role.map fun role ↦ .str role.asStr),
    ("own", some (.bool message.own)), ("ts", some (.str message.ts)),
    ("in_reply_to", message.inReplyTo.map .str), ("thread", message.thread.map .str),
    ("text", some (.str message.text)), ("match_start", message.matchStart.map number),
    ("attachments",
      some (.arr (message.attachments.map fun attachment ↦ .record attachment.wire)))]

def read (value : Json) : Option HistoryMessage := do
  let f ← value.fields ["event_id", "sender", "person", "role", "own", "ts", "in_reply_to",
    "thread", "text", "match_start", "attachments"]
  some ⟨← Json.string (f "event_id"), ← Json.string (f "sender"),
    ← Json.optional Json.string (f "person"), ← Json.optional Role.read (f "role"),
    ← Json.boolean (f "own"), ← Json.string (f "ts"),
    ← Json.optional Json.string (f "in_reply_to"), ← Json.optional Json.string (f "thread"),
    ← Json.string (f "text"), ← Json.optional Json.u64 (f "match_start"),
    ← Json.list HistoryAttachment.read (f "attachments")⟩

theorem reads : Reads InRange wire read where
  keys _ := by simp [wire]
  holds := by
    intro message value hr h
    have hrole : Json.optional Role.read (message.wire.lookup "role").join = some message.role :=
      Json.optional_map (fun role _ ↦ role.read_asStr) nofun
    have hattachments : Json.list HistoryAttachment.read
        (message.wire.lookup "attachments").join = some message.attachments :=
      Json.list_map fun attachment ha ↦ HistoryAttachment.flat.record (hr.2 attachment ha)
    apply Json.bind_of_eq_some (h _)
    iterate 2 apply Json.bind_of_eq_some (Json.string_str _)
    apply Json.bind_of_eq_some (Json.optional_str _)
    apply Json.bind_of_eq_some hrole
    apply Json.bind_of_eq_some (Json.boolean_bool _)
    apply Json.bind_of_eq_some (Json.string_str _)
    iterate 2 apply Json.bind_of_eq_some (Json.optional_str _)
    apply Json.bind_of_eq_some (Json.string_str _)
    apply Json.bind_of_eq_some (Json.optional_u64 hr.1)
    exact Json.bind_of_eq_some hattachments rfl

theorem within (message : HistoryMessage) (depth : Nat) :
    (Json.record message.wire).Within (depth + 3) := by
  have hattachments := Json.within_arr message.attachments fun attachment _ ↦
    HistoryAttachment.flat.within attachment depth
  simp [wire, Json.within_record_cons, hattachments]

end HistoryMessage

namespace CmdResult

def InRange (result : CmdResult) : Prop :=
  result.id < 2 ^ 64 ∧ (∀ n ∈ result.scanned, n < 2 ^ 64) ∧
    ∀ messages ∈ result.messages, ∀ message ∈ messages, message.InRange

def wire (result : CmdResult) : List (String × Option Json) :=
  [("id", some (number result.id)), ("ok", some (.bool result.ok)),
    ("event_id", result.eventId.map .str), ("error", result.error.map fun error ↦ .str error.asStr),
    ("message", result.message.map .str),
    ("messages", result.messages.map fun messages ↦
      .arr (messages.map fun message ↦ .record message.wire)),
    ("more", result.more.map .str), ("scanned", result.scanned.map number),
    ("until", result.until.map .str)]

def read (value : Json) : Option CmdResult := do
  let f ← value.fields ["id", "ok", "event_id", "error", "message", "messages", "more", "scanned",
    "until"]
  some ⟨← Json.u64 (f "id"), ← Json.boolean (f "ok"), ← Json.optional Json.string (f "event_id"),
    ← Json.optional ResultError.read (f "error"), ← Json.optional Json.string (f "message"),
    ← Json.optional (Json.list HistoryMessage.read) (f "messages"),
    ← Json.optional Json.string (f "more"), ← Json.optional Json.u64 (f "scanned"),
    ← Json.optional Json.string (f "until")⟩

theorem reads : Reads InRange wire read where
  keys _ := by simp [wire]
  holds := by
    intro result value hr h
    have herror : Json.optional ResultError.read (result.wire.lookup "error").join =
        some result.error := Json.optional_map (fun error _ ↦ error.read_asStr) nofun
    have hmessages : Json.optional (Json.list HistoryMessage.read)
        (result.wire.lookup "messages").join = some result.messages := by
      apply Json.optional_map _ nofun
      intro messages hmessages
      apply Json.list_map
      exact fun message hm ↦ HistoryMessage.reads.record (hr.2.2 messages hmessages message hm)
    apply Json.bind_of_eq_some (h _)
    apply Json.bind_of_eq_some (Json.u64_number hr.1)
    apply Json.bind_of_eq_some (Json.boolean_bool _)
    apply Json.bind_of_eq_some (Json.optional_str _)
    apply Json.bind_of_eq_some herror
    apply Json.bind_of_eq_some (Json.optional_str _)
    apply Json.bind_of_eq_some hmessages
    apply Json.bind_of_eq_some (Json.optional_str _)
    apply Json.bind_of_eq_some (Json.optional_u64 hr.2.1)
    exact Json.bind_of_eq_some (Json.optional_str _) rfl

theorem within (result : CmdResult) (depth : Nat) :
    (Json.record result.wire).Within (depth + 5) := by
  have hmessages : ∀ messages : List HistoryMessage,
      (Json.arr (messages.map fun message ↦ .record message.wire)).Within (depth + 4) :=
    fun messages ↦ Json.within_arr messages fun message _ ↦ message.within depth
  simp [wire, Json.within_record_cons, hmessages]

end CmdResult

/-! ## The messages of the daemon -/

inductive DaemonMessage
  | welcome (welcome : Welcome)
  | error (error : ProtocolError)
  | event (event : Event)
  | result (result : CmdResult)
  | file (header : FileHeader)
  | chunk (chunk : FileChunk)
  | fileEnd («end» : FileEnd)
  deriving DecidableEq, Repr

namespace DaemonMessage

def toJson : DaemonMessage → Json
  | .welcome m => .obj [("welcome", .record m.wire)]
  | .error m => .obj [("error", .record m.wire)]
  | .event m => .obj [("event", .record m.wire)]
  | .result m => .obj [("result", .record m.wire)]
  | .file m => .obj [("file", .record m.wire)]
  | .chunk m => .obj [("chunk", .record m.wire)]
  | .fileEnd m => .obj [("file_end", .record m.wire)]

def readAs (name : String) (value : Json) : Option DaemonMessage :=
  match name with
  | "welcome" => (Welcome.read value).map .welcome
  | "error" => (ProtocolError.read value).map .error
  | "event" => (Event.read value).map .event
  | "result" => (CmdResult.read value).map .result
  | "file" => (FileHeader.read value).map .file
  | "chunk" => (FileChunk.read value).map .chunk
  | "file_end" => (FileEnd.read value).map .fileEnd
  | _ => none

def read : Json → Option DaemonMessage
  | .obj [(name, value)] => readAs name value
  | _ => none

/-- The numbers fit their types. -/
def InRange : DaemonMessage → Prop
  | .welcome m => m.InRange
  | .event m => m.InRange
  | .result m => m.InRange
  | .file m => m.InRange
  | _ => True

theorem read_toJson {message : DaemonMessage} (hr : message.InRange) :
    read message.toJson = some message := by
  cases message with
  | welcome m => exact congrArg (Option.map DaemonMessage.welcome) (Welcome.reads.record hr)
  | error m => exact congrArg (Option.map DaemonMessage.error) (ProtocolError.flat.record trivial)
  | event m => exact congrArg (Option.map DaemonMessage.event) (Event.reads.record hr)
  | result m => exact congrArg (Option.map DaemonMessage.result) (CmdResult.reads.record hr)
  | file m => exact congrArg (Option.map DaemonMessage.file) (FileHeader.flat.record hr)
  | chunk m => exact congrArg (Option.map DaemonMessage.chunk) (FileChunk.flat.record trivial)
  | fileEnd m => exact congrArg (Option.map DaemonMessage.fileEnd) (FileEnd.flat.record trivial)

theorem within (message : DaemonMessage) (depth : Nat) : message.toJson.Within (depth + 6) := by
  cases message with
  | welcome m => exact Json.within_obj (m.within _)
  | error m => exact Json.within_obj (ProtocolError.flat.within m _)
  | event m => exact Json.within_obj (m.within _)
  | result m => exact Json.within_obj (m.within depth)
  | file m => exact Json.within_obj (FileHeader.flat.within m _)
  | chunk m => exact Json.within_obj (FileChunk.flat.within m _)
  | fileEnd m => exact Json.within_obj (FileEnd.flat.within m _)

end DaemonMessage

/-! ## Lines -/

/-- What both sides use of `serde_json` for a line: the text of what is serialized, and what a text
is for the derived deserialization, with the keys of each object in the order of the text. -/
structure Format where
  text : Json → String
  tree : String → Option Json

/-- How deep a text may nest. -/
def recursionLimit : Nat := 127

/-- What `serde_json` promises: a text stands for what was serialized, apart from floats, and a
`Value` is that with sorted objects. -/
structure Format.Lawful (format : Format) (serde : ClientLines.Serde) : Prop where
  tree_text : ∀ value, value.Within recursionLimit → format.tree (format.text value) = some value
  fromStr : ∀ line, serde.fromStr line = (format.tree line).map Json.sorted

/-- `none` is a line that does not parse. -/
def parseDaemonLine (format : Format) (line : String) : Option DaemonMessage :=
  (format.tree line).bind DaemonMessage.read

theorem parseClientLine_text {format : Format} {serde : ClientLines.Serde}
    (h : format.Lawful serde) {m : ClientMessage} (hr : m.InRange) :
    ClientLines.parseClientLine serde (format.text m.toJson) = some (.message m) := by
  rw [ClientLines.parseClientLine, h.fromStr, h.tree_text _ (m.within 124), Option.map_some,
    Option.map_some, ClientLines.classify, ClientMessage.read_sorted hr]

/-- Every message is read back from its line, by either side. -/
theorem parse_text {format : Format} {serde : ClientLines.Serde} (h : format.Lawful serde) :
    (∀ m : ClientMessage, m.InRange →
      ClientLines.parseClientLine serde (format.text m.toJson) = some (.message m)) ∧
    ∀ d : DaemonMessage, d.InRange → parseDaemonLine format (format.text d.toJson) = some d := by
  refine ⟨fun m hr ↦ parseClientLine_text h hr, fun d hr ↦ ?_⟩
  rw [parseDaemonLine, h.tree_text _ (d.within 121), Option.bind_some,
    DaemonMessage.read_toJson hr]

/-- The compact texts. -/
def compact : Format where
  text value := String.ofList value.text
  tree line := Json.ofText line.toList

/-- With one text for every error. -/
def compactSerde : ClientLines.Serde where
  fromStr line := (compact.tree line).map Json.sorted
  err _ := "invalid"
  quote s := String.ofList (Json.quoted s)

theorem compact_lawful : compact.Lawful compactSerde where
  tree_text value hwithin := by
    show Json.ofText (String.ofList value.text).toList = some value
    rw [String.toList_ofList, Json.ofText_text hwithin]
  fromStr _ := rfl

/-- A reply in a thread, and the result of a search that found nothing. -/
theorem parse_text_compact :
    ClientLines.parseClientLine compactSerde (compact.text (ClientMessage.toJson
      (.cmd ⟨7, .reply ⟨"!a:silta.test", "\"hi\"\n", none, some "$t", true⟩⟩))) =
      some (.message (.cmd ⟨7, .reply ⟨"!a:silta.test", "\"hi\"\n", none, some "$t", true⟩⟩)) ∧
    parseDaemonLine compact (compact.text
      (DaemonMessage.toJson (.result ((CmdResult.history 7 [] none).withScan 3 none)))) =
      some (.result ((CmdResult.history 7 [] none).withScan 3 none)) :=
  ⟨(parse_text compact_lawful).1 _ ⟨by decide, trivial⟩,
    (parse_text compact_lawful).2 _ ⟨by decide, by simp [CmdResult.withScan], by
      simp [CmdResult.withScan, CmdResult.history]⟩⟩

end Silta
