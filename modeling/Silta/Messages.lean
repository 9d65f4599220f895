import Silta.Protocol

/-!
# The messages of a plugin

The lines that a plugin writes to the daemon, and the daemon's answer to a command.
-/

namespace Silta

/-- A file crossing the socket: this header, then the chunks, then the end. -/
structure FileHeader where
  transfer : String
  name : String
  mime : String
  size : Nat
  deriving DecidableEq, Repr

structure FileChunk where
  transfer : String
  data : String
  deriving DecidableEq, Repr

structure FileEnd where
  transfer : String
  deriving DecidableEq, Repr

structure Ack where
  eventId : String
  deriving DecidableEq, Repr

structure Hello where
  protocol : Nat
  session : String
  client : String
  deriving DecidableEq, Repr

structure Reply where
  roomId : String
  text : String
  replyTo : Option String
  thread : Option String
  more : Bool
  deriving DecidableEq, Repr

structure React where
  roomId : String
  eventId : String
  emoji : String
  more : Bool
  deriving DecidableEq, Repr

structure Edit where
  roomId : String
  eventId : String
  text : String
  more : Bool
  deriving DecidableEq, Repr

/-- Sends the transfer that was streamed just before. -/
structure SendFile where
  roomId : String
  transfer : String
  caption : Option String
  replyTo : Option String
  thread : Option String
  more : Bool
  deriving DecidableEq, Repr

structure FetchMessages where
  roomId : String
  limit : Option Nat
  «from» : Option String
  deriving DecidableEq, Repr

structure FetchMessage where
  roomId : String
  eventId : String
  deriving DecidableEq, Repr

structure SearchMessages where
  roomId : String
  pattern : String
  limit : Option Nat
  «from» : Option String
  deriving DecidableEq, Repr

structure Typing where
  roomId : String
  deriving DecidableEq, Repr

inductive CmdKind
  | reply (cmd : Reply)
  | react (cmd : React)
  | edit (cmd : Edit)
  | sendFile (cmd : SendFile)
  | fetchMessages (cmd : FetchMessages)
  | fetchMessage (cmd : FetchMessage)
  | searchMessages (cmd : SearchMessages)
  | typing (cmd : Typing)
  deriving DecidableEq, Repr

/-- The id is chosen by the plugin. -/
structure Cmd where
  id : Nat
  kind : CmdKind
  deriving DecidableEq, Repr

inductive ClientMessage
  | hello (hello : Hello)
  | cmd (cmd : Cmd)
  | file (header : FileHeader)
  | chunk (chunk : FileChunk)
  | fileEnd («end» : FileEnd)
  | ack (ack : Ack)
  deriving DecidableEq, Repr

/-! ## Results -/

inductive ResultError
  | roomNotAllowed
  | roomUnknown
  | sendFailed
  | badRequest
  | notFound
  | fileError
  | unknown
  deriving DecidableEq, Repr

structure HistoryAttachment where
  name : String
  mime : String
  size : Nat
  deriving DecidableEq, Repr

structure HistoryMessage where
  eventId : String
  sender : String
  person : Option String
  role : Option Role
  own : Bool
  ts : String
  inReplyTo : Option String
  thread : Option String
  text : String
  matchStart : Option Nat
  attachments : List HistoryAttachment
  deriving DecidableEq, Repr

/-- The daemon's answer to a command. -/
structure CmdResult where
  id : Nat
  ok : Bool
  eventId : Option String
  error : Option ResultError
  message : Option String
  messages : Option (List HistoryMessage)
  more : Option String
  scanned : Option Nat
  «until» : Option String
  deriving DecidableEq, Repr

namespace CmdResult

def success (id : Nat) (eventId : String) : CmdResult :=
  ⟨id, true, some eventId, none, none, none, none, none, none⟩

/-- For a command that makes no event. -/
def done (id : Nat) : CmdResult := ⟨id, true, none, none, none, none, none, none, none⟩

def history (id : Nat) (messages : List HistoryMessage) (more : Option String) : CmdResult :=
  ⟨id, true, none, none, none, some messages, more, none, none⟩

def withScan (result : CmdResult) (scanned : Nat) («until» : Option String) : CmdResult :=
  { result with scanned := some scanned, «until» := «until» }

def err (id : Nat) (error : ResultError) (message : String) : CmdResult :=
  ⟨id, false, none, some error, some message, none, none, none, none⟩

end CmdResult

end Silta
