import Mathlib.Data.List.Forall2
import Silta.ClientMessages
import Silta.Transfer

/-!
# The reader loop of a connection

What the daemon makes of each line that a plugin writes after the hello: how the line is classified,
the commands with what they ask of Matrix, the files that come in, and the results that are queued
for the plugin.
-/

namespace Silta

namespace ClientLines

open Transfer

/-! ## Classifying a line -/

/-- What the classification uses of other crates and of the standard library: the parser of JSON
texts, what the deserialization says of a value that is no message, and the debug text of a
string. -/
structure Serde where
  fromStr : String → Option Json
  err : Json → String
  quote : String → String

inductive Incoming
  | message (message : ClientMessage)
  /-- JSON with a `cmd.id`, but no command that is supported. -/
  | badRequest (id : Nat) (message : String)
  | ignored (message : String)

/-- What is said of a value that is no message. -/
def Serde.reason (serde : Serde) (value : Json) : String :=
  match (value.get "cmd").bind Json.asObject with
  | some cmd =>
    let names := (cmd.map Prod.fst).filter (· ≠ "id")
    "unsupported or malformed command [" ++ ", ".intercalate (names.map serde.quote) ++ "]: " ++
      serde.err value
  | none => serde.err value

def classify (serde : Serde) (value : Json) : Incoming :=
  match ClientMessage.read value with
  | some message => .message message
  | none =>
    match value.cmdId with
    | some id => .badRequest id (serde.reason value)
    | none => .ignored (serde.reason value)

/-- `none` is a line that is not JSON. -/
def parseClientLine (serde : Serde) (line : String) : Option Incoming :=
  (serde.fromStr line).map (classify serde)

/-! ## Executing a command -/

abbrev Fail := ResultError × String

/-- What a search in the history of a room has found. -/
structure Scan where
  messages : List HistoryMessage
  more : Option String
  scanned : Nat
  «until» : Option String

/-- What a command does with Matrix and with the rest of the daemon, each with the state that it
leaves behind.  A file operation fails with an error or does not. -/
structure Host (W : Type) where
  doReply : Reply → W → Except Fail String × W
  doReact : React → W → Except Fail String × W
  doEdit : Edit → W → Except Fail String × W
  doSendFile : SendFile → Received → W → Except Fail String × W
  doFetchMessages : FetchMessages → W → Except Fail (List HistoryMessage × Option String) × W
  doFetchMessage : FetchMessage → W → Except Fail HistoryMessage × W
  doSearchMessages : SearchMessages → W → Except Fail Scan × W
  writableRoom : String → W → Except Fail Unit × W
  typingStart : String → W → W
  ack : Ack → W → W
  fault : W → Option String × W

/-- The result for what became of a command. -/
def answered {α : Type} (id : Nat) (ok : α → CmdResult) : Except Fail α → CmdResult
  | .ok a => ok a
  | .error (code, message) => .err id code message

def finish (id : Nat) : Except Fail String → CmdResult := answered id (.success id)

def execute {W : Type} (host : Host W) (w : W) (cmd : Cmd) : CmdResult × W :=
  match cmd.kind with
  | .reply reply => ((host.doReply reply w).map (finish cmd.id) id)
  | .react react => (host.doReact react w).map (finish cmd.id) id
  | .edit edit => (host.doEdit edit w).map (finish cmd.id) id
  -- never reached: the loop handles it with the transfers of its connection
  | .sendFile _ => (.err cmd.id .badRequest "send_file is handled per connection", w)
  | .fetchMessages fetch =>
    (host.doFetchMessages fetch w).map
      (answered cmd.id fun page ↦ .history cmd.id page.1 page.2) id
  | .fetchMessage fetch =>
    (host.doFetchMessage fetch w).map
      (answered cmd.id fun message ↦ .history cmd.id [message] none) id
  | .searchMessages search =>
    (host.doSearchMessages search w).map
      (answered cmd.id fun scan ↦
        (CmdResult.history cmd.id scan.messages scan.more).withScan scan.scanned scan.until) id
  | .typing typing =>
    match host.writableRoom typing.roomId w with
    | (.ok (), w) => (.done cmd.id, host.typingStart typing.roomId w)
    | (.error (code, message), w) => (.err cmd.id code message, w)

/-! ## The loop -/

structure Connection (W : Type) where
  world : W
  spool : Spool
  /-- The files that came in whole, by transfer. -/
  received : String → Option Received
  failed : String → Option String

namespace Connection

variable {W : Type}

/-- What is logged of a transfer is its first failure. -/
def fail (conn : Connection W) (transfer : String) (err : TransferError) : Connection W :=
  if (conn.failed transfer).isSome = true then
    conn
  else
    { conn with failed := Function.update conn.failed transfer (some err.display) }

def sendFile (serde : Serde) (host : Host W) (conn : Connection W) (id : Nat) (file : SendFile) :
    CmdResult × Connection W :=
  match conn.received file.transfer with
  | some received =>
    let (result, world) := host.doSendFile file received conn.world
    (finish id result,
      { conn with
        world := world
        received := Function.update conn.received file.transfer none
        -- the spooled file goes whatever became of the command
        spool := conn.spool.removeFile received.path })
  | none =>
    let why := (conn.failed file.transfer).getD "no such transfer was received before the command"
    (.err id .fileError ("transfer " ++ serde.quote file.transfer ++ ": " ++ why),
      { conn with failed := Function.update conn.failed file.transfer none })

def command (serde : Serde) (host : Host W) (conn : Connection W) (cmd : Cmd) :
    CmdResult × Connection W :=
  match cmd.kind with
  | .sendFile file => conn.sendFile serde host cmd.id file
  | _ =>
    let (result, world) := execute host conn.world cmd
    (result, { conn with world := world })

def beginFile (crates : Crates) (host : Host W) (conn : Connection W) (header : FileHeader) :
    Connection W :=
  let (fault, world) := host.fault conn.world
  match conn.spool.begin crates header fault with
  | (.ok (), spool) => { conn with world := world, spool := spool }
  | (.error err, spool) =>
    { conn with
      world := world
      spool := spool
      failed := Function.update conn.failed header.transfer (some err.display) }

def chunk (crates : Crates) (host : Host W) (conn : Connection W) (chunk : FileChunk) :
    Connection W :=
  let (fault, world) := host.fault conn.world
  match conn.spool.chunk crates chunk fault with
  | (.ok (), spool) => { conn with world := world, spool := spool }
  | (.error err, spool) =>
    Connection.fail { conn with world := world, spool := spool } chunk.transfer err

def endFile (host : Host W) (conn : Connection W) (last : FileEnd) : Connection W :=
  let (fault, world) := host.fault conn.world
  match conn.spool.end last fault with
  | (.ok done, spool) =>
    { conn with
      world := world
      spool := spool
      received := Function.update conn.received last.transfer (some done) }
  | (.error err, spool) =>
    Connection.fail { conn with world := world, spool := spool } last.transfer err

/-- The result that a line is answered with, if any. -/
def handle (crates : Crates) (serde : Serde) (host : Host W) (conn : Connection W) :
    Incoming → Option CmdResult × Connection W
  | .message (.cmd cmd) => (conn.command serde host cmd).map some id
  | .message (.file header) => (none, conn.beginFile crates host header)
  | .message (.chunk data) => (none, conn.chunk crates host data)
  | .message (.fileEnd last) => (none, conn.endFile host last)
  | .message (.ack ack) => (none, { conn with world := host.ack ack conn.world })
  -- a second hello is logged and ignored
  | .message (.hello _) => (none, conn)
  | .badRequest id message => (some (.err id .badRequest message), conn)
  | .ignored _ => (none, conn)

end Connection

inductive LineError
  | tooLong
  | utf8
  | io (err : String)
  deriving DecidableEq, Repr

/-- The results that are queued for the lines of a connection, up to its end.  A line that cannot be
read and one that is not JSON close it. -/
def serve {W : Type} (crates : Crates) (serde : Serde) (host : Host W) :
    Connection W → List (Except LineError String) → List CmdResult
  | _, [] => []
  | _, .error _ :: _ => []
  | conn, .ok line :: rest =>
    match parseClientLine serde line with
    | none => []
    | some incoming =>
      let (result, conn) := conn.handle crates serde host incoming
      result.toList ++ serve crates serde host conn rest

/-! ## Every command is answered -/

section

variable {W : Type} (crates : Crates) (serde : Serde) (host : Host W) (conn : Connection W)

theorem answered_id {α : Type} {id : Nat} {ok : α → CmdResult} (hok : ∀ a, (ok a).id = id)
    (result : Except Fail α) : (answered id ok result).id = id := by
  cases result with
  | ok a => exact hok a
  | error fail => rfl

theorem finish_id (id : Nat) (result : Except Fail String) : (finish id result).id = id := by
  apply answered_id
  exact fun _ ↦ rfl

theorem execute_id (w : W) (cmd : Cmd) : (execute host w cmd).1.id = cmd.id := by
  unfold execute
  split
  · exact finish_id cmd.id _
  · exact finish_id cmd.id _
  · exact finish_id cmd.id _
  · rfl
  · apply answered_id
    exact fun _ ↦ rfl
  · apply answered_id
    exact fun _ ↦ rfl
  · apply answered_id
    exact fun _ ↦ rfl
  · split <;> rfl

theorem sendFile_id (id : Nat) (file : SendFile) :
    (conn.sendFile serde host id file).1.id = id := by
  unfold Connection.sendFile
  split
  · exact finish_id id _
  · rfl

theorem command_id (cmd : Cmd) : (conn.command serde host cmd).1.id = cmd.id := by
  unfold Connection.command
  split
  · exact sendFile_id serde host conn cmd.id _
  · exact execute_id host conn.world cmd

/-- A result answers a line with a command id: it has the id, and it is `bad_request` where the line
is no message. -/
def Answers (line : Nat × Json) (result : CmdResult) : Prop :=
  result.id = line.1 ∧ (ClientMessage.read line.2 = none →
    result.ok = false ∧ result.error = some .badRequest)

/-- The line as one to be answered, where it has a command id. -/
def toAnswer (value : Json) : Option (Nat × Json) := value.cmdId.map fun id ↦ (id, value)

/-- A value is answered exactly if it has a command id. -/
theorem handle_answers (value : Json) :
    List.Forall₂ Answers (toAnswer value).toList
      (conn.handle crates serde host (classify serde value)).1.toList := by
  unfold toAnswer classify
  cases hread : ClientMessage.read value with
  | some message =>
    -- of the messages, the commands are answered
    rw [ClientMessage.cmdId_of_read hread]
    cases message with
    | cmd cmd =>
      apply List.Forall₂.cons _ .nil
      refine ⟨command_id serde host conn cmd, fun hnone ↦ ?_⟩
      rw [show ClientMessage.read value = _ from hread] at hnone
      cases hnone
    | _ => exact .nil
  | none =>
    -- of the other values, those with a `cmd.id`
    cases value.cmdId with
    | some id => exact .cons ⟨rfl, fun _ ↦ ⟨rfl, rfl⟩⟩ .nil
    | none => exact .nil

/-- The JSON values of the lines, up to the first that cannot be read or is not JSON. -/
def values : List (Except LineError String) → List Json
  | [] => []
  | .error _ :: _ => []
  | .ok line :: rest =>
    match serde.fromStr line with
    | none => []
    | some value => value :: values rest

/-- The results of a connection answer, one by one and in order, the lines with a command id up to
the one that closes it, and nothing else. -/
theorem serve_answers (lines : List (Except LineError String)) :
    List.Forall₂ Answers ((values serde lines).filterMap toAnswer)
      (serve crates serde host conn lines) := by
  -- over the lines, for whatever state the connection has come to
  induction lines generalizing conn with
  | nil => exact .nil
  | cons line rest ih =>
    cases line with
    | error err => exact .nil
    | ok text =>
      rw [values, serve, parseClientLine]
      cases serde.fromStr text with
      | none => exact .nil
      | some value =>
        have hfirst := handle_answers crates serde host conn value
        have hrest := ih (conn.handle crates serde host (classify serde value)).2
        have hvalues : (value :: values serde rest).filterMap toAnswer =
            (toAnswer value).toList ++ (values serde rest).filterMap toAnswer := by
          cases h : toAnswer value <;> simp [h]
        show List.Forall₂ Answers ((value :: values serde rest).filterMap toAnswer) _
        rw [hvalues]
        exact List.rel_append hfirst hrest

end

end ClientLines

end Silta
