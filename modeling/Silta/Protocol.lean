import Mathlib.Tactic.TypeStar

/-!
# Socket protocol records

The records of the socket protocol between the daemon and a session's plugin that the daemon's
delivery and the routing use.
-/

namespace Silta

/-- Role of a person, from the daemon's registry. -/
inductive Role
  | owner
  | family
  deriving DecidableEq, Repr

/-- The kind of room an event came from. -/
inductive RoomKind
  | dm
  | group
  deriving DecidableEq, Repr

inductive EventKind
  | message
  | reaction
  deriving DecidableEq, Repr

/-- A file of an event, sent over the socket just before the event as the transfer named here. -/
structure Attachment where
  transfer : String
  name : String
  mime : String
  size : Nat
  deriving DecidableEq, Repr

/-- One inbound Matrix event a session owns. -/
structure Event where
  kind : EventKind
  person : String
  role : Role
  sender : String
  roomId : String
  room : RoomKind
  eventId : String
  ts : String
  inReplyTo : Option String
  thread : Option String
  reactsTo : Option String
  text : String
  transcribed : Bool
  attachments : List Attachment
  deriving DecidableEq, Repr

end Silta
