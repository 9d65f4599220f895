import Silta.Rotation

/-!
# The state directory

The files the supervisor keeps between two runs of claude, and what a rotation leaves in them.
-/

namespace Silta

namespace State

/-- What the next start of claude is. -/
inductive Next
  | normal
  | retry (snapshot : Bool) (attempts : Nat) (handoff : Bool)
  | postponed (attempts : Nat) (handoff : Bool)
  | fresh (handoff : Bool)
  deriving DecidableEq, Repr

/-- What `rotation.json` is on disk. -/
inductive RotationFile
  | absent
  | unreadable
  | holds (next : Next)
  deriving DecidableEq, Repr

/-- The files under the session's `HOME`, as far as the supervisor reads them. -/
structure Paths where
  /-- The id in `session-id`, none when the file is absent or blank. -/
  savedId : Option String
  marker : Bool
  rotation : RotationFile
  /-- The id in `channel-ready`. -/
  channelReady : Option String
  /-- The ids under whose name Claude Code keeps a transcript. -/
  transcripts : List String
  deriving DecidableEq, Repr

namespace Paths

/-- A state directory in which nothing has run. -/
def empty : Paths where
  savedId := none
  marker := false
  rotation := .absent
  channelReady := none
  transcripts := []

def transcript (p : Paths) (id : String) : Bool := p.transcripts.contains id

def readId (p : Paths) : Option String := p.savedId

def writeId (p : Paths) (id : String) : Paths := { p with savedId := some id }

def dropId (p : Paths) : Paths := { p with savedId := none }

def clearChannelReady (p : Paths) : Paths := { p with channelReady := none }

def writeChannelReady (p : Paths) (id : String) : Paths := { p with channelReady := some id }

def markerExists (p : Paths) : Bool := p.marker

def writeMarker (p : Paths) : Paths := { p with marker := true }

def readNext (p : Paths) : Next :=
  match p.rotation with
  | .holds next => next
  | _ => .normal

def writeNext (p : Paths) (next : Next) : Paths :=
  match next with
  -- a normal start is the absence of the file
  | .normal => { p with rotation := .absent }
  | next => { p with rotation := .holds next }

def removeMarker (p : Paths) : Paths := { p with marker := false }

def removeRotation (p : Paths) : Paths := { p with rotation := .absent }

/-- The rotation is complete: neither the marker nor the next step applies. -/
def clearRotation (p : Paths) : Paths := p.removeMarker.removeRotation

/-- A resumable conversation: a saved id with a transcript. -/
def resumable (p : Paths) : Option String := p.readId.filter p.transcript

theorem readNext_writeNext (p : Paths) (next : Next) : (p.writeNext next).readNext = next := by
  cases next <;> rfl

theorem readNext_clearRotation (p : Paths) : p.clearRotation.readNext = .normal := rfl

theorem rotation_of_readNext {p : Paths} {next : Next} (h : p.readNext = next)
    (hnext : next ≠ .normal) : p.rotation = .holds next := by
  unfold readNext at h
  split at h
  next held hrot => rw [hrot, h]
  next => exact absurd h.symm hnext

theorem resumable_eq_some {p : Paths} {id : String} :
    p.resumable = some id ↔ p.savedId = some id ∧ id ∈ p.transcripts := by
  simp [resumable, readId, transcript, Option.filter_eq_some_iff]

end Paths

end State

end Silta
