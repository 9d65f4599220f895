import Silta.History

/-!
# The content of a message

What the bridge reads in a message of a room: what it relates to, its text, and its file.  The
inbound handler and the history read it with the same function.
-/

namespace Silta

namespace Content

open History (Parsed Body Media)

/-- What a message relates to. -/
inductive Relation
  /-- An edit of an earlier message. -/
  | replacement
  | reply (eventId : String)
  | thread (eventId : String) (inReplyTo : Option String) (isFallingBack : Bool)
  | other
  deriving DecidableEq, Repr

inductive MediaKind
  | image
  | file
  | audio
  | video
  deriving DecidableEq, Repr

/-- What the four kinds of files have in common; `mimetype` and `size` are those of the `info`. -/
structure MediaContent where
  body : String
  filename : Option String
  mimetype : Option String
  size : Option Nat
  deriving DecidableEq, Repr

inductive MessageType
  | text (body : String)
  | emote (body : String)
  | media (kind : MediaKind) (content : MediaContent)
  | other (msgtype : String)
  deriving DecidableEq, Repr

structure RoomMessageContent where
  relatesTo : Option Relation
  msgtype : MessageType
  deriving DecidableEq, Repr

/-- What the reading uses of other crates: the text without the quote that a reply begins with, and
the type that the name of a file suggests. -/
structure Crates where
  removePlainReplyFallback : String → String
  mimeGuess : String → Option String

/-- With a file name, the body is a caption when it differs from it; without one, the body is the
file name. -/
def media (c : Crates) (m : MediaContent) : Media :=
  let (name, caption) := match m.filename with
    | some f => if f ≠ m.body then (f, m.body) else (f, "")
    | none => (m.body, "")
  { name := name
    mime := m.mimetype.getD ((c.mimeGuess name).getD "application/octet-stream")
    size := m.size
    caption := caption }

/-- What the relation says: the quoted event, the thread, and whether the text begins with a
quote. -/
def related : Option Relation → Option String × Option String × Bool
  | some (.reply eventId) => (some eventId, none, true)
  | some (.thread root inReplyTo isFallingBack) =>
    (if isFallingBack then none else inReplyTo, some root, inReplyTo.isSome)
  | _ => (none, none, false)

def parse (c : Crates) (content : RoomMessageContent) : Parsed :=
  if content.relatesTo = some .replacement then ⟨none, none, .edit⟩
  else
    let (inReplyTo, thread, fallback) := related content.relatesTo
    let strip (body : String) : String := if fallback then c.removePlainReplyFallback body else body
    let body := match content.msgtype with
      | .text body => .text (strip body)
      | .emote body => .text ("/me " ++ strip body)
      | .media _ m => .media (media c m)
      | .other msgtype => .other msgtype
    ⟨inReplyTo, thread, body⟩

end Content

end Silta
