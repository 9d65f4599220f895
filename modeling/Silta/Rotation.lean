import Mathlib.Algebra.Ring.Nat
import Silta.Stream

/-!
# The rotation tracker

The rotation state machine: it is fed the events of the stream and the clock, and answers with
what the supervisor should do.  Instants and durations are numbers of one unit of time; the count
of attempts is a `u32`.
-/

namespace Silta

namespace Rotation

/-- The knobs, from the unit's environment. -/
structure Limits where
  enabled : Bool
  contextTokens : Nat
  idle : Nat
  quiet : Nat
  handoff : Nat
  compact : Nat
  retryPause : Nat
  deriving DecidableEq, Repr

/-- Attempts of one rotation before it gives the compaction up for a fresh session id. -/
def HANDOFF_ATTEMPTS : Nat := 2

/-- The two moments at which memory and transcript are copied. -/
inductive Moment
  | beforeHandoff
  | afterHandoff
  deriving DecidableEq, Repr

def Moment.name : Moment → String
  | .beforeHandoff => "before-handoff"
  | .afterHandoff => "after-handoff"

/-- The step of the rotation that was cut or that failed. -/
inductive Step
  | wait
  | handoff
  | compaction
  deriving DecidableEq, Repr

/-- What the supervisor should do now. -/
inductive Action
  | markPending
  | snapshot (moment : Moment)
  | requestHandoff
  | awaitHandoff
  | compact
  | awaitCompaction
  | compacted
  | retry (step : Step) (attempts : Nat) (handoff : Bool)
  | postpone (step : Step) (attempts : Nat) (handoff : Bool)
  | giveUp (step : Step) (cut handoff : Bool)
  deriving DecidableEq, Repr

inductive Phase
  | idle
  | waiting (deadline : Nat)
  | handoff (deadline : Nat)
  | compacting (deadline : Nat) (boundary failed : Bool)
  deriving DecidableEq, Repr

/-- A compaction whose boundary arrived. -/
def Phase.withBoundary : Phase → Phase
  | .compacting deadline _ failed => .compacting deadline true failed
  | phase => phase

/-- A compaction that was reported failed. -/
def Phase.withFailure : Phase → Phase
  | .compacting deadline boundary _ => .compacting deadline boundary true
  | phase => phase

structure Tracker where
  limits : Limits
  turn : Bool
  agents : List String
  context : Nat
  lastPerson : Nat
  pending : Bool
  notBefore : Option Nat
  attempts : Nat
  handoff : Bool
  noteWritten : Bool
  phase : Phase
  deriving DecidableEq, Repr

/-- `n + 1` in `u32`. -/
def u32Succ (n : Nat) : Nat := (n + 1) % 2 ^ 32

namespace Tracker

/-- A session that just started: its start line is in flight. -/
def new (limits : Limits) (now : Nat) : Tracker where
  limits := limits
  turn := true
  agents := []
  context := 0
  lastPerson := now
  pending := false
  notBefore := none
  attempts := 0
  handoff := false
  noteWritten := true
  phase := .idle

/-- The marker existed at the start. -/
def pendingFrom (t : Tracker) (now : Nat) (notBefore : Option Nat) (attempts : Nat)
    (handoff : Bool) : Tracker :=
  if !t.limits.enabled then t
  else
    let «from» := match notBefore with
      | some nb => max nb now
      | none => now
    { t with
      pending := true
      notBefore := notBefore
      attempts := attempts
      handoff := handoff
      phase := .waiting («from» + t.limits.quiet) }

/-- The session was resumed with the combined cut-and-handoff line. -/
def retrying (t : Tracker) (now attempts : Nat) (handoff : Bool) : Tracker :=
  { t with
    pending := true
    attempts := attempts
    handoff := handoff
    phase := .handoff (now + t.limits.handoff) }

def isPending (t : Tracker) : Bool := t.pending

def quiet (t : Tracker) : Bool := !t.turn && t.agents.isEmpty

/-- The handoff has been requested and its turn has not ended. -/
def awaitingHandoff (t : Tracker) : Bool :=
  match t.phase with
  | .handoff _ => true
  | _ => false

def setNoteWritten (t : Tracker) (written : Bool) : Tracker := { t with noteWritten := written }

/-- The rotation is over and the session goes on. -/
def done (t : Tracker) : Tracker :=
  { t with pending := false, notBefore := none, attempts := 0, handoff := false, phase := .idle }

/-- The marker was removed by hand: a rotation still waiting for its quiet moment is cancelled. -/
def cancel (t : Tracker) : Tracker × Bool :=
  match t.phase with
  | .waiting _ => if t.pending then (t.done, true) else (t, false)
  | _ => (t, false)

/-- A cap expired: a cut-and-resume, or the end of the rotation. -/
def cut (t : Tracker) (step : Step) : Tracker × List Action :=
  let t := { t with phase := .idle, attempts := u32Succ t.attempts }
  if t.attempts < HANDOFF_ATTEMPTS then (t, [.retry step t.attempts t.handoff])
  else (t, [.giveUp step true t.handoff])

/-- A handoff turn or a compaction failed: another attempt after the pause, or the end. -/
def failed (t : Tracker) (step : Step) (now : Nat) : Tracker × List Action :=
  let t := { t with phase := .idle, attempts := u32Succ t.attempts }
  if t.attempts < HANDOFF_ATTEMPTS then
    -- it stays pending, for the run that follows
    let t := { t with notBefore := some (now + t.limits.retryPause) }
    (t, [.postpone step t.attempts t.handoff])
  else (t, [.giveUp step false t.handoff])

def advance (t : Tracker) (now : Nat) : Tracker × List Action :=
  match t.phase with
  | .idle => (t, [])
  | .waiting deadline =>
    if (t.notBefore.any fun nb ↦ decide (now < nb)) then (t, [])
    else if t.quiet then
      let t := { t with phase := .handoff (now + t.limits.handoff) }
      -- a retried handoff keeps the clean copy of the first attempt
      if t.attempts = 0 then (t, [.snapshot .beforeHandoff, .requestHandoff])
      else (t, [.requestHandoff])
    else if deadline ≤ now then t.cut .wait
    else (t, [])
  | .handoff deadline => if deadline ≤ now then t.cut .handoff else (t, [])
  | .compacting deadline _ _ => if deadline ≤ now then t.cut .compaction else (t, [])

def setPending (t : Tracker) (now : Nat) : Tracker :=
  if t.pending then t
  else { t with pending := true, phase := .waiting (now + t.limits.quiet) }

/-- The marker appeared on disk. -/
def markerSeen (t : Tracker) (now : Nat) : Tracker × List Action :=
  if !t.limits.enabled then (t, [])
  else (t.setPending now).advance now

/-- No turn is in progress, and a person's turn counts as their presence. -/
def endTurn (t : Tracker) (person : Bool) (now : Nat) : Tracker :=
  { t with turn := false, lastPerson := if person then now else t.lastPerson }

/-- The arm of `event` for the end of a turn. -/
def result (t : Tracker) (isError person : Bool) (now : Nat) : Tracker × List Action :=
  let t := t.endTurn person now
  match t.phase with
  | .handoff _ =>
    if !isError && !t.noteWritten then (t, [.awaitHandoff])
    else if isError then t.failed .handoff now
    else
      ({ t with
        handoff := true
        phase := .compacting (now + t.limits.compact) false false },
        [.snapshot .afterHandoff, .compact])
  | .compacting _ boundary failed =>
    -- a boundary counts, whatever the turn came to
    if boundary then (t.done, [.compacted])
    else if failed || isError then t.failed .compaction now
    else (t, [.awaitCompaction])
  | _ => t.advance now

/-- What an event other than the end of a turn changes before the clock is looked at. -/
def note (t : Tracker) (event : Stream.Event) (now : Nat) : Tracker :=
  match event with
  | .assistant subagent contextTokens synthetic => { t with
      turn := true
      context := match subagent, synthetic, contextTokens with
        | false, false, some n => n
        | _, _, _ => t.context }
  | .user person => { t with
      turn := true
      lastPerson := if person then now else t.lastPerson }
  | .backgroundTasks ids => { t with agents := ids }
  | .compacted auto => { t with
      context := 0
      phase := if auto then t.phase else t.phase.withBoundary }
  | .compactionFailed => { t with phase := t.phase.withFailure }
  | _ => t

def event (t : Tracker) (event : Stream.Event) (now : Nat) : Tracker × List Action :=
  match event with
  | .result isError person => t.result isError person now
  | event => (t.note event now).advance now

/-- An idle session whose context is large and whose person has been away long enough. -/
def thresholdTripped (t : Tracker) (now : Nat) : Bool :=
  t.limits.enabled && !t.pending && t.phase == .idle && !t.turn &&
    decide (t.limits.contextTokens ≤ t.context) && decide (t.limits.idle ≤ now - t.lastPerson)

def tick (t : Tracker) (now : Nat) : Tracker × List Action :=
  if t.thresholdTripped now then
    let (t, actions) := (t.setPending now).advance now
    (t, .markPending :: actions)
  else t.advance now

@[simp] theorem endTurn_phase (t : Tracker) (person : Bool) (now : Nat) :
    (t.endTurn person now).phase = t.phase := rfl

@[simp] theorem endTurn_noteWritten (t : Tracker) (person : Bool) (now : Nat) :
    (t.endTurn person now).noteWritten = t.noteWritten := rfl

end Tracker

end Rotation

end Silta
