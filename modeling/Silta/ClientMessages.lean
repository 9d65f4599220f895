import Mathlib.Algebra.Ring.Nat
import Silta.Messages

/-!
# Reading client messages

The JSON values of the lines that a plugin writes, and the messages that the derived
deserialization reads from them: a message is an object with one key, the struct under it is an
object or an array, and the name of a command is one of the keys beside its id.
-/

namespace Silta

/-- A JSON value.  The keys of an object differ. -/
inductive Json
  | null
  | bool (b : Bool)
  | posInt (n : UInt64)
  /-- Below zero. -/
  | negInt (n : Int64)
  /-- By its bits. -/
  | float (bits : UInt64)
  | str (s : String)
  | arr (values : List Json)
  | obj (fields : List (String × Json))

namespace Json

def get (key : String) : Json → Option Json
  | .obj fields => fields.lookup key
  | _ => none

def asU64 : Json → Option Nat
  | .posInt n => some n.toNat
  | _ => none

def asObject : Json → Option (List (String × Json))
  | .obj fields => some fields
  | _ => none

/-- The value of each field of a struct, where it is there.  An array gives the fields in their
order. -/
def fields (names : List String) : Json → Option (String → Option Json)
  | .obj entries => some fun name ↦ entries.lookup name
  | .arr values =>
    if values.length ≤ names.length then
      some fun name ↦ (names.zip values).lookup name
    else
      none
  | _ => none

/-! ## The types of fields -/

def string : Option Json → Option String
  | some (.str s) => some s
  | _ => none

/-- `None` where it is missing or null. -/
def optional {α : Type} (read : Option Json → Option α) : Option Json → Option (Option α)
  | none | some .null => some none
  | value => (read value).map some

/-- `false` where it is missing. -/
def flag : Option Json → Option Bool
  | none => some false
  | some (.bool b) => some b
  | _ => none

def u64 : Option Json → Option Nat
  | some (.posInt n) => some n.toNat
  | _ => none

def u32 : Option Json → Option Nat
  | some (.posInt n) => if n.toNat < 2 ^ 32 then some n.toNat else none
  | _ => none

end Json

/-! ## The structs -/

def Hello.read (value : Json) : Option Hello := do
  let f ← value.fields ["protocol", "session", "client"]
  some ⟨← Json.u32 (f "protocol"), ← Json.string (f "session"), ← Json.string (f "client")⟩

def FileHeader.read (value : Json) : Option FileHeader := do
  let f ← value.fields ["transfer", "name", "mime", "size"]
  some ⟨← Json.string (f "transfer"), ← Json.string (f "name"), ← Json.string (f "mime"),
    ← Json.u64 (f "size")⟩

def FileChunk.read (value : Json) : Option FileChunk := do
  let f ← value.fields ["transfer", "data"]
  some ⟨← Json.string (f "transfer"), ← Json.string (f "data")⟩

def FileEnd.read (value : Json) : Option FileEnd := do
  let f ← value.fields ["transfer"]
  some ⟨← Json.string (f "transfer")⟩

def Ack.read (value : Json) : Option Ack := do
  let f ← value.fields ["event_id"]
  some ⟨← Json.string (f "event_id")⟩

def Reply.read (value : Json) : Option Reply := do
  let f ← value.fields ["room_id", "text", "reply_to", "thread", "more"]
  some ⟨← Json.string (f "room_id"), ← Json.string (f "text"),
    ← Json.optional Json.string (f "reply_to"), ← Json.optional Json.string (f "thread"),
    ← Json.flag (f "more")⟩

def React.read (value : Json) : Option React := do
  let f ← value.fields ["room_id", "event_id", "emoji", "more"]
  some ⟨← Json.string (f "room_id"), ← Json.string (f "event_id"), ← Json.string (f "emoji"),
    ← Json.flag (f "more")⟩

def Edit.read (value : Json) : Option Edit := do
  let f ← value.fields ["room_id", "event_id", "text", "more"]
  some ⟨← Json.string (f "room_id"), ← Json.string (f "event_id"), ← Json.string (f "text"),
    ← Json.flag (f "more")⟩

def SendFile.read (value : Json) : Option SendFile := do
  let f ← value.fields ["room_id", "transfer", "caption", "reply_to", "thread", "more"]
  some ⟨← Json.string (f "room_id"), ← Json.string (f "transfer"),
    ← Json.optional Json.string (f "caption"), ← Json.optional Json.string (f "reply_to"),
    ← Json.optional Json.string (f "thread"), ← Json.flag (f "more")⟩

def FetchMessages.read (value : Json) : Option FetchMessages := do
  let f ← value.fields ["room_id", "limit", "from"]
  some ⟨← Json.string (f "room_id"), ← Json.optional Json.u32 (f "limit"),
    ← Json.optional Json.string (f "from")⟩

def FetchMessage.read (value : Json) : Option FetchMessage := do
  let f ← value.fields ["room_id", "event_id"]
  some ⟨← Json.string (f "room_id"), ← Json.string (f "event_id")⟩

def SearchMessages.read (value : Json) : Option SearchMessages := do
  let f ← value.fields ["room_id", "pattern", "limit", "from"]
  some ⟨← Json.string (f "room_id"), ← Json.string (f "pattern"),
    ← Json.optional Json.u32 (f "limit"), ← Json.optional Json.string (f "from")⟩

def Typing.read (value : Json) : Option Typing := do
  let f ← value.fields ["room_id"]
  some ⟨← Json.string (f "room_id")⟩

/-! ## Commands -/

def CmdKind.names : List String :=
  ["reply", "react", "edit", "send_file", "fetch_messages", "fetch_message", "search_messages",
    "typing"]

def CmdKind.readAs (name : String) (value : Json) : Option CmdKind :=
  match name with
  | "reply" => (Reply.read value).map .reply
  | "react" => (React.read value).map .react
  | "edit" => (Edit.read value).map .edit
  | "send_file" => (SendFile.read value).map .sendFile
  | "fetch_messages" => (FetchMessages.read value).map .fetchMessages
  | "fetch_message" => (FetchMessage.read value).map .fetchMessage
  | "search_messages" => (SearchMessages.read value).map .searchMessages
  | "typing" => (Typing.read value).map .typing
  | _ => none

/-- The first of the keys that names a command is the one that counts; others are not looked at. -/
def CmdKind.read (entries : List (String × Json)) : Option CmdKind := do
  let (name, value) ← entries.find? fun p ↦ CmdKind.names.contains p.1
  CmdKind.readAs name value

def Cmd.read : Json → Option Cmd
  | .obj entries => do some ⟨← Json.u64 (entries.lookup "id"), ← CmdKind.read entries⟩
  | _ => none

/-! ## Messages -/

def ClientMessage.readAs (name : String) (value : Json) : Option ClientMessage :=
  match name with
  | "hello" => (Hello.read value).map .hello
  | "cmd" => (Cmd.read value).map .cmd
  | "file" => (FileHeader.read value).map .file
  | "chunk" => (FileChunk.read value).map .chunk
  | "file_end" => (FileEnd.read value).map .fileEnd
  | "ack" => (Ack.read value).map .ack
  | _ => none

def ClientMessage.read : Json → Option ClientMessage
  | .obj [(name, value)] => ClientMessage.readAs name value
  | _ => none

/-- `cmd.id`, where it is an unsigned integer. -/
def Json.cmdId (value : Json) : Option Nat := do
  let cmd ← value.get "cmd"
  let id ← cmd.get "id"
  id.asU64

theorem Cmd.cmdId_of_read {value : Json} {cmd : Cmd} (h : Cmd.read value = some cmd) :
    (Json.obj [("cmd", value)]).cmdId = some cmd.id := by
  -- only an object is read as a command, and its `id` as an unsigned integer
  cases value with
  | obj entries =>
    obtain ⟨id, hid, hkind⟩ := Option.bind_eq_some_iff.mp h
    obtain ⟨kind, -, hcmd⟩ := Option.bind_eq_some_iff.mp hkind
    obtain rfl := Option.some.inj hcmd
    show (entries.lookup "id").bind Json.asU64 = some id
    cases hlookup : entries.lookup "id" with
    | none =>
      rw [hlookup] at hid
      cases hid
    | some v =>
      rw [hlookup] at hid
      cases v with
      | posInt n => exact hid
      | _ => cases hid
  | _ => cases h

def ClientMessage.cmdId? : ClientMessage → Option Nat
  | .cmd command => some command.id
  | _ => none

theorem ClientMessage.cmdId_of_readAs {name : String} {value : Json} {message : ClientMessage}
    (h : ClientMessage.readAs name value = some message) :
    (Json.obj [(name, value)]).cmdId = message.cmdId? := by
  unfold ClientMessage.readAs at h
  split at h
  · obtain ⟨hello, -, rfl⟩ := Option.map_eq_some_iff.mp h
    rfl
  · obtain ⟨command, hcommand, rfl⟩ := Option.map_eq_some_iff.mp h
    exact Cmd.cmdId_of_read hcommand
  · obtain ⟨header, -, rfl⟩ := Option.map_eq_some_iff.mp h
    rfl
  · obtain ⟨chunk, -, rfl⟩ := Option.map_eq_some_iff.mp h
    rfl
  · obtain ⟨last, -, rfl⟩ := Option.map_eq_some_iff.mp h
    rfl
  · obtain ⟨ack, -, rfl⟩ := Option.map_eq_some_iff.mp h
    rfl
  · cases h

/-- Of the messages, the commands are those with a command id, and it is theirs. -/
theorem ClientMessage.cmdId_of_read {value : Json} {message : ClientMessage}
    (h : ClientMessage.read value = some message) : value.cmdId = message.cmdId? := by
  -- a message is an object of one entry
  match value with
  | .obj [(name, value)] => exact ClientMessage.cmdId_of_readAs h
  | .obj [] | .obj (_ :: _ :: _) => cases h
  | .null | .bool _ | .posInt _ | .negInt _ | .float _ | .str _ | .arr _ => cases h

/-- A command beside another key is no message. -/
theorem ClientMessage.read_of_beside {entries : List (String × Json)} (h : entries.length ≠ 1) :
    ClientMessage.read (.obj entries) = none := by
  match entries with
  | [] => rfl
  | [_] => exact absurd rfl h
  | _ :: _ :: _ => rfl

/-- An unknown operation is no command. -/
theorem CmdKind.read_of_unknown {entries : List (String × Json)}
    (h : ∀ p ∈ entries, p.1 ∉ CmdKind.names) : CmdKind.read entries = none := by
  have hfind : (entries.find? fun p ↦ CmdKind.names.contains p.1) = none := by
    rw [List.find?_eq_none]
    intro p hp
    simpa using h p hp
  rw [CmdKind.read, hfind]
  rfl

/-- A command of an unknown operation is no message. -/
theorem ClientMessage.read_of_unknown {entries : List (String × Json)}
    (h : ∀ p ∈ entries, p.1 ∉ CmdKind.names) :
    ClientMessage.read (.obj [("cmd", .obj entries)]) = none := by
  have hkind := CmdKind.read_of_unknown h
  show (Cmd.read (.obj entries)).map ClientMessage.cmd = none
  rw [Option.map_eq_none_iff, Cmd.read, hkind]
  cases Json.u64 (entries.lookup "id") <;> rfl

end Silta
