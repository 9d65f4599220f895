import Silta.RunTriples

/-!
# What a fresh session is told

The story of a rotation as the effects of the supervisor show it, against what `rotation.json` and
the first line of the next session say of it.
-/

namespace Silta

namespace Supervisor

open Rotation (Action Call Protocol Stage)
open State (Next Paths)

/-- The handoff that `rotation.json` tells of. -/
def handoffOf (p : Paths) : Bool :=
  match p.rotation with
  | .holds (.retry _ _ handoff) | .holds (.postponed _ handoff) | .holds (.fresh handoff) => handoff
  | _ => false

/-- `rotation.json` holds a next step. -/
def holdsStep (p : Paths) : Bool :=
  match p.rotation with
  | .holds _ => true
  | _ => false

/-- What has become of the rotation that is under way, and of the session the last one made. -/
structure Story where
  marked : Bool
  completed : Bool
  /-- `rotation.json` says so. -/
  recorded : Bool
  /-- `rotation.json` holds a next step. -/
  held : Bool
  /-- A session was made by a rotation, of which it has not been told yet: its handoff. -/
  owed : Option Bool
  deriving DecidableEq, Repr

namespace Story

/-- No session is owed anything, and what is recorded is true. -/
def told (p : Paths) : Story := ⟨p.marker, handoffOf p, handoffOf p, holdsStep p, none⟩

/-- What an effect adds to the story; a deed that starts a session made by a rotation ends the
rotation with its records. -/
def note (rotatedOut : Bool) (g : Story) : Effect → Story
  | .action .markPending => { g with marked := true }
  | .action (.snapshot .afterHandoff) => { g with completed := true }
  | .action (.retry _ _ handoff) | .action (.postpone _ _ handoff) |
    .action (.giveUp _ _ handoff) => { g with recorded := handoff, held := true }
  -- without a marker the rotation was cancelled by hand, with it it is still to come
  | .writeNext .normal =>
    { g with completed := g.marked && g.completed, recorded := false, held := false }
  -- without the marker a rotation goes on only where its next step is on record
  | .removeMarker => { g with marked := false, completed := g.held && g.completed }
  | .removeRotation =>
    ⟨g.marked, false, false, false, if rotatedOut then some g.completed else g.owed⟩
  | .send (.intro _) | .send (.emergency _) => { g with owed := none }
  | _ => g

/-- The supervisor may be gone: no session is owed anything, and a handoff turn that completed is
on record. -/
def settled (g : Story) : Bool := g.owed.isNone && (!g.completed || g.recorded)

/-- The story after a step. -/
def next (g : Story) : Label → Story
  | .did deed es | .lost deed es => es.foldl (note deed.rotatedOut) g
  | .mark => { g with marked := true }
  | .unmark => { g with marked := false }
  | .spoil _ => { g with held := false }
  | _ => g

end Story

/-- A step at which nothing is forgotten: a run ends, or the supervisor is lost, with the story
settled, and `rotation.json` is not damaged while a completed handoff is on record. -/
def Careful (g : Story) : Label → Bool
  | .lost deed es => (g.next (.lost deed es)).settled
  | .did (.leave id refused) es => (g.next (.did (.leave id refused) es)).settled
  | .spoil _ => !g.recorded
  | _ => true

/-- The record is the one on disk, and it is true. -/
structure OnRecord (p : Paths) (g : Story) : Prop where
  marker : g.marked = p.marker
  disk : g.recorded = handoffOf p
  held : g.held = holdsStep p
  true_of : g.recorded = true → g.completed = true

/-- Nothing is forgotten if the supervisor is gone now. -/
structure AtRest (p : Paths) (g : Story) : Prop where
  record : OnRecord p g
  completed : g.completed = g.recorded
  owed : g.owed = none

/-- The tracker knows of the handoff, and the first line tells what is owed. -/
structure Knows (cfg : Config) (start : Start) (q : Protocol) (p : Paths) (g : Story) : Prop where
  record : OnRecord p g
  line : ∀ handoff, g.owed = some handoff → firstLine cfg start = .intro (.afterRotation handoff)
  idle : q.stage = .idle →
    q.handoff = false ∧ g.completed = g.recorded ∧ (cfg.rotate = true → g.completed = false)
  copied : q.stage = .copiedAfter → g.completed = true
  active : q.stage ≠ .idle → q.stage ≠ .copiedAfter → q.stage ≠ .ended → q.handoff = g.completed

/-- Where the supervisor is between two runs, nothing is forgotten. -/
def Tells (s : System) (g : Story) : Prop :=
  At (fun _ ↦ True) OnRecord Knows s.process s.paths g ∧
    ((∀ cfg start run, s.process ≠ .running cfg start run) → AtRest s.paths g)

end Supervisor

end Silta
