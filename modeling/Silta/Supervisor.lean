import Mathlib.Data.List.Infix
import Silta.State

/-!
# The supervisor

One run of claude from its plan to the outcome it leaves: how the next start is chosen, what the
loop of a run does with a line, a tick and a stop, and what becomes of the run at its exit.
Functions of a run answer with the run after them and the effects they have, in order.
-/

namespace Silta

namespace Supervisor

open Rotation (Action Limits Moment Step Tracker)
open State (Next Paths)

/-- The stderr line of a resume whose transcript Claude Code does not know. -/
def NO_CONVERSATION : String := "No conversation found with session ID"

/-- Claude Code cannot run the model as configured. -/
def EXIT_MODEL : Int := 79

/-- The exit code of a run in emergency mode. -/
def EXIT_EMERGENCY : Int := 80

/-- The id of the window check's control request. -/
def WINDOW_REQUEST : String := "silta-window"

/-- The fallback triggers that point at the model rather than at an outage. -/
def FALLBACK_FATAL : List String :=
  ["model_not_found", "permission_denied", "last_resort", "model_blocked"]

inductive Emergency
  | oneShot (line : String)
  | prompt (line : String)
  deriving DecidableEq, Repr

structure Config where
  /-- The context window that Claude Code is held to, none to skip the check. -/
  window : Option Nat
  windowWait : Nat
  stopGrace : Nat
  limits : Limits
  emergency : Option Emergency
  deriving DecidableEq, Repr

namespace Config

/-- Emergency mode of the one-turn kind. -/
def oneShot (cfg : Config) : Bool :=
  match cfg.emergency with
  | some (.oneShot _) => true
  | _ => false

def rotate (cfg : Config) : Bool := cfg.limits.enabled && !cfg.oneShot

/-- The one-turn line compacts: a turn that ends before the compaction is not its. -/
def compaction (cfg : Config) : Bool :=
  match cfg.emergency with
  | some (.oneShot line) => "/compact".toList.isPrefixOf line.toList
  | _ => false

end Config

/-- Which host line starts the session. -/
inductive Kind
  | fresh
  | resumed
  | afterRotation (handoff : Bool)
  | retry
  deriving DecidableEq, Repr

structure Start where
  id : String
  resume : Bool
  kind : Kind
  attempts : Nat
  handoff : Bool
  /-- A retry whose copy before the handoff is still due. -/
  snapshot : Bool
  deriving DecidableEq, Repr

inductive Outcome
  | exit (code : Int)
  | ended (code : Int)
  | again (notBefore : Option Nat)
  deriving DecidableEq, Repr

/-- A line written to claude's stdin. -/
inductive HostLine
  | intro (kind : Kind)
  | emergency (line : String)
  | handoff
  | compact
  | compacted
  deriving DecidableEq, Repr

/-- What the supervisor does to the world, one at a time. -/
inductive Effect
  | writeId (id : String)
  | dropId
  | writeNext (next : Next)
  | removeMarker
  | removeRotation
  | clearChannelReady
  | writeChannelReady (id : String)
  /-- claude is started, to resume the id or to begin under it. -/
  | spawn (start : Start)
  /-- The tracker's action is performed, with the record that it writes, if it writes one. -/
  | action (a : Action)
  | snapshot (name : String)
  | control (id : String)
  | send (line : HostLine)
  | kill
  deriving DecidableEq, Repr

/-- What an action makes of the records, once all that it does is done. -/
def recordAction (p : Paths) : Action → Paths
  | .markPending => p.writeMarker
  | .compacted => p.clearRotation
  | .retry step attempts handoff => p.writeNext (.retry (step == .wait) attempts handoff)
  | .postpone _ attempts handoff => p.writeNext (.postponed attempts handoff)
  | .giveUp _ _ handoff => p.writeNext (.fresh handoff)
  | _ => p

namespace Effect

def apply (p : Paths) : Effect → Paths
  | .writeId id => p.writeId id
  | .dropId => p.dropId
  | .writeNext next => p.writeNext next
  | .removeMarker => p.removeMarker
  | .removeRotation => p.removeRotation
  | .clearChannelReady => p.clearChannelReady
  | .writeChannelReady id => p.writeChannelReady id
  -- the records of a compacted rotation are removed one by one, after the action
  | .action .compacted => p
  | .action a => recordAction p a
  | .spawn _ | .snapshot _ | .control _ | .send _ | .kill => p

/-- The files after effects that happen one after the other. -/
def applyAll (p : Paths) (es : List Effect) : Paths := es.foldl apply p

/-- The records of a rotation go in this order, and the supervisor may be gone in between. -/
def clearRotation : List Effect := [.removeMarker, .removeRotation]

/-- An action with what it does to the records. -/
def records : Action → List Effect
  | .compacted => .action .compacted :: clearRotation
  | a => [.action a]

@[simp] theorem mem_clearRotation {e : Effect} :
    e ∈ clearRotation ↔ e = .removeMarker ∨ e = .removeRotation := by
  simp [clearRotation]

theorem mem_records {e : Effect} {a : Action} (h : e ∈ records a) :
    e = .action a ∨ e ∈ clearRotation := by
  cases a with
  | compacted => exact List.mem_cons.mp h
  | _ => exact .inl (List.mem_singleton.mp h)

theorem applyAll_clearRotation (p : Paths) : applyAll p clearRotation = p.clearRotation := rfl

end Effect

/-! ## The plan -/

/-- A new session, with the effect that saves its id. -/
def freshStart (newId : String) (kind : Kind) : Start where
  id := newId
  resume := false
  kind := kind
  attempts := 0
  handoff := false
  snapshot := false

/-- The saved session is rotated out: the new id is saved first, the records go after it. -/
def rotated (newId : String) (handoff : Bool) : Start × List Effect :=
  (freshStart newId (.afterRotation handoff), .writeId newId :: Effect.clearRotation)

/-- Decides between resuming the saved session and starting a new one. -/
def planStart (p : Paths) (newId : String) : Start × List Effect :=
  match p.readNext with
  | .fresh handoff => rotated newId handoff
  | .retry snapshot attempts handoff =>
    match p.resumable with
    | some id => (⟨id, true, .retry, attempts, handoff, snapshot⟩, [])
    | none => rotated newId handoff
  | .normal =>
    match p.resumable with
    | some id => (⟨id, true, .resumed, 0, false, false⟩, [.writeNext .normal])
    | none => (freshStart newId .fresh, Effect.clearRotation ++ [.writeId newId])
  | .postponed attempts handoff =>
    match p.resumable with
    | some id =>
      if p.markerExists then (⟨id, true, .resumed, attempts, handoff, false⟩, [])
      -- a postponed rotation whose marker is gone was cancelled by hand
      else (⟨id, true, .resumed, 0, false, false⟩, [.writeNext .normal])
    | none => (freshStart newId .fresh, Effect.clearRotation ++ [.writeId newId])

/-- The plan of `supervise`: the one-turn emergency only resumes, and changes nothing. -/
def plan (cfg : Config) (p : Paths) (newId : String) : Option (Start × List Effect) :=
  if cfg.oneShot then p.resumable.map fun id ↦ (⟨id, true, .resumed, 0, false, false⟩, [])
  else some (planStart p newId)

/-- What is planned, by the record of the rotation and by what can be resumed. -/
inductive Planned (p : Paths) (newId : String) : Start × List Effect → Prop
  | rotated (handoff : Bool) (h : p.rotation = .holds (.fresh handoff) ∨ p.resumable = none ∧
      ∃ snapshot attempts, p.rotation = .holds (.retry snapshot attempts handoff)) :
      Planned p newId (rotated newId handoff)
  | retry (id : String) (snapshot : Bool) (attempts : Nat) (handoff : Bool)
      (hsome : p.resumable = some id)
      (hrot : p.rotation = .holds (.retry snapshot attempts handoff)) :
      Planned p newId (⟨id, true, .retry, attempts, handoff, snapshot⟩, [])
  | postponed (id : String) (attempts : Nat) (handoff : Bool) (hsome : p.resumable = some id)
      (hrot : p.rotation = .holds (.postponed attempts handoff)) (hmarker : p.marker = true) :
      Planned p newId (⟨id, true, .resumed, attempts, handoff, false⟩, [])
  | normal (id : String) (hsome : p.resumable = some id) (h : p.readNext = .normal ∨
      p.marker = false ∧ ∃ attempts handoff, p.rotation = .holds (.postponed attempts handoff)) :
      Planned p newId (⟨id, true, .resumed, 0, false, false⟩, [.writeNext .normal])
  | fresh (hnone : p.resumable = none) :
      Planned p newId (freshStart newId .fresh, Effect.clearRotation ++ [.writeId newId])

theorem planned (p : Paths) (newId : String) : Planned p newId (planStart p newId) := by
  unfold planStart
  split
  next handoff hnext => exact .rotated handoff (.inl (Paths.rotation_of_readNext hnext nofun))
  next snapshot attempts handoff hnext =>
    have hrot : p.rotation = .holds (.retry snapshot attempts handoff) :=
      Paths.rotation_of_readNext hnext nofun
    split
    next id hsome => exact .retry id snapshot attempts handoff hsome hrot
    next hnone => exact .rotated handoff (.inr ⟨hnone, snapshot, attempts, hrot⟩)
  next hnext =>
    split
    next id hsome => exact .normal id hsome (.inl hnext)
    next hnone => exact .fresh hnone
  next attempts handoff hnext =>
    have hrot : p.rotation = .holds (.postponed attempts handoff) :=
      Paths.rotation_of_readNext hnext nofun
    split
    next id hsome =>
      split
      next hmarker => exact .postponed id attempts handoff hsome hrot hmarker
      next hgone =>
        exact .normal id hsome (.inr ⟨Bool.eq_false_iff.mpr hgone, attempts, handoff, hrot⟩)
    next hnone => exact .fresh hnone

/-- The saved session is not rotated out. -/
def KeepsSaved (id : String) (p : Paths) : Prop :=
  p.savedId = some id ∧ ∀ handoff, p.rotation ≠ .holds (.fresh handoff)

/-- A session that is kept and can be resumed is what every plan goes on with. -/
theorem KeepsSaved.planned {id : String} {p : Paths} (h : KeepsSaved id p)
    (ht : id ∈ p.transcripts) (newId : String) :
    (planStart p newId).1.id = id ∧ (planStart p newId).1.resume = true ∧
      ((planStart p newId).2 = [] ∨ (planStart p newId).2 = [.writeNext .normal]) := by
  have hid : p.resumable = some id := Paths.resumable_eq_some.mpr ⟨h.1, ht⟩
  have hplan := Supervisor.planned p newId
  generalize planStart p newId = plan at hplan
  cases hplan with
  | rotated handoff hrot =>
    rcases hrot with hfresh | ⟨hnone, -⟩
    · exact absurd hfresh (h.2 handoff)
    · rw [hid] at hnone
      cases hnone
  | retry _ _ _ _ hsome => exact ⟨Option.some.inj (hsome.symm.trans hid), rfl, .inl rfl⟩
  | postponed _ _ _ hsome => exact ⟨Option.some.inj (hsome.symm.trans hid), rfl, .inl rfl⟩
  | normal _ hsome => exact ⟨Option.some.inj (hsome.symm.trans hid), rfl, .inr rfl⟩
  | fresh hnone =>
    rw [hid] at hnone
    cases hnone

theorem KeepsSaved.plan {id : String} {p : Paths} (h : KeepsSaved id p) (ht : id ∈ p.transcripts)
    (newId : String) :
    (planStart p newId).1.id = id ∧ (planStart p newId).1.resume = true ∧
      KeepsSaved id (Effect.applyAll p (planStart p newId).2) := by
  obtain ⟨hid, hresume, heffects⟩ := h.planned ht newId
  refine ⟨hid, hresume, ?_⟩
  rcases heffects with hnone | hnormal
  · rw [hnone]
    exact h
  · rw [hnormal]
    exact ⟨h.1, nofun⟩

/-! ## One run -/

/-- The mutable side of one run, with the locals of its loop. -/
structure Run where
  id : String
  stdin : Bool
  /-- The deadline of a stop in progress. -/
  stopping : Option Nat
  after : Option Outcome
  kill : Bool
  /-- The cap on the turn of the one-turn emergency line. -/
  deadline : Option Nat
  tracker : Tracker
  watch : Bool
  /-- The line that waits for the window check, and the check's deadline. -/
  intro : Option (HostLine × Nat)
  ready : Bool
  compacted : Bool
  compactFailed : Bool
  noConversation : Bool
  ticks : Nat
  killed : Bool
  deriving DecidableEq, Repr

/-- A run after one of its functions, and the effects of the function. -/
abbrev Answer := Run × List Effect

/-- One function of the run after the other. -/
def Answer.andThen (x : Answer) (f : Run → Answer) : Answer := ((f x.1).1, x.2 ++ (f x.1).2)

namespace Run

def new (cfg : Config) (start : Start) (now : Nat) : Run where
  id := start.id
  stdin := true
  stopping := none
  after := none
  kill := false
  deadline := none
  tracker := Tracker.new { cfg.limits with enabled := cfg.rotate } now
  watch := false
  intro := none
  ready := false
  compacted := false
  compactFailed := false
  noConversation := false
  ticks := 0
  killed := false

/-- A line to stdin, where it is still open. -/
def write (r : Run) (e : Effect) : List Effect := if r.stdin then [e] else []

/-- The graceful stop. -/
def beginStop (cfg : Config) (r : Run) (now : Nat) : Run :=
  { r with stdin := false, stopping := r.stopping.orElse fun _ ↦ some (now + cfg.stopGrace) }

/-- Ends the run at once, unless it is already ending. -/
def «end» (r : Run) (code : Int) (now : Nat) : Run :=
  if r.after.isSome then r
  else { r with
    after := some (.ended code)
    kill := true
    intro := none
    stdin := false
    stopping := r.stopping.orElse fun _ ↦ some now }

/-- The emergency turn is over. -/
def done (cfg : Config) (r : Run) (now : Nat) : Run :=
  if r.after.isSome then r
  else { r with after := some (.ended EXIT_EMERGENCY) }.beginStop cfg now

/-- Sends the line that starts the first turn. -/
def start (cfg : Config) (r : Run) (line : HostLine) (now : Nat) : Answer :=
  if cfg.oneShot then
    ({ r with deadline := some (now + cfg.limits.compact) },
      .snapshot "before-emergency" :: r.write (.send line))
  else (r, r.write (.send line))

/-- The window check's answer. -/
def window (cfg : Config) (r : Run) (maxTokens : Option Nat) (now : Nat) : Answer :=
  match cfg.window, r.intro with
  | some want, some (line, _) =>
    let r := { r with intro := none }
    if maxTokens.any fun n ↦ decide (want ≤ n) then r.start cfg line now
    else (r.«end» EXIT_MODEL now, [])
  -- a line waits only where a window is configured
  | _, _ => (r, [])

def fallback (r : Run) (trigger : String) (now : Nat) : Run :=
  if FALLBACK_FATAL.contains trigger then r.«end» EXIT_MODEL now else r

/-- A model has answered: the plugin may take messages. -/
def openChannel (r : Run) : Answer :=
  if r.after.isSome then (r, [])
  else ({ r with ready := true }, [.writeChannelReady r.id])

/-- The session is started again, at once or after a pause. -/
def again (cfg : Config) (r : Run) (notBefore : Option Nat) (now : Nat) : Run :=
  { r with after := some (.again notBefore) }.beginStop cfg now

/-- One action of the tracker. -/
def perform (cfg : Config) (r : Run) (now : Nat) (a : Action) : Answer :=
  match a with
  | .snapshot moment => (r, [.action a, .snapshot moment.name])
  | .requestHandoff => ({ r with watch := true }, .action a :: r.write (.send .handoff))
  | .compact => (r, .action a :: r.write (.send .compact))
  | .compacted => (r, Effect.records a ++ r.write (.send .compacted))
  | .giveUp _ _ _ => (r.again cfg none now, [.action a])
  | .retry _ _ _ => (r.again cfg none now, [.action a])
  | .postpone _ _ _ => (r.again cfg (some (now + cfg.limits.retryPause)) now, [.action a])
  | .markPending | .awaitHandoff | .awaitCompaction => (r, [.action a])

def act (cfg : Config) (r : Run) (now : Nat) : List Action → Answer
  | [] => (r, [])
  | a :: as => Answer.andThen (r.perform cfg now a) fun r ↦ r.act cfg now as

def withTracker (r : Run) (t : Tracker) : Run := { r with tracker := t }

/-- The tracker's answer is taken over and acted on. -/
def take (cfg : Config) (r : Run) (answer : Tracker × List Action) (now : Nat) : Answer :=
  (r.withTracker answer.1).act cfg now answer.2

/-- What an output line does before the tracker hears of it. -/
def hear (cfg : Config) (r : Run) (event : Stream.Event) (now : Nat) : Answer :=
  match event with
  | .contextUsage requestId maxTokens =>
    if requestId = WINDOW_REQUEST then r.window cfg maxTokens now else (r, [])
  | .modelFallback trigger => (r.fallback trigger now, [])
  | .compacted auto =>
    if !auto && cfg.oneShot then ({ r with compacted := true }, []) else (r, [])
  | .compactionFailed => if cfg.oneShot then ({ r with compactFailed := true }, []) else (r, [])
  | .result isError _ =>
    -- a turn queued ahead of the command ends first
    if !isError && cfg.compaction && !r.compacted && !r.compactFailed then (r, [])
    else if cfg.oneShot then (r.done cfg now, if r.compacted then Effect.clearRotation else [])
    else if !r.ready then (r.«end» 1 now, [])
    else (r, [])
  | .assistant subagent _ synthetic =>
    if !cfg.oneShot && !subagent && !synthetic && !r.ready then r.openChannel else (r, [])
  | _ => (r, [])

def isResult : Stream.Event → Bool
  | .result _ _ => true
  | _ => false

/-- The tracker hears of an output line; `written` is what a look for the handoff note finds. -/
def drive (cfg : Config) (r : Run) (event : Stream.Event) (written : Bool) (now : Nat) : Answer :=
  if r.stopping.isNone && r.intro.isNone then
    let t :=
      if isResult event && r.tracker.awaitingHandoff then
        r.tracker.setNoteWritten (r.watch && written)
      else r.tracker
    r.take cfg (t.event event now) now
  else (r, [])

def out (cfg : Config) (r : Run) (event : Stream.Event) (written : Bool) (now : Nat) : Answer :=
  Answer.andThen (r.hear cfg event now) fun r ↦ r.drive cfg event written now

/-- The line says that the resume was refused. -/
def refuses (line : String) : Bool := decide (NO_CONVERSATION.toList <:+: line.toList)

def err (r : Run) (line : String) : Run :=
  if refuses line then { r with noConversation := true } else r

/-- Every fifth tick looks whether the marker came or went. -/
def lookForMarker (cfg : Config) (p : Paths) (r : Run) (now : Nat) : Answer :=
  if cfg.rotate && r.ticks % 5 == 0 then
    if p.markerExists && !r.tracker.isPending then r.take cfg (r.tracker.markerSeen now) now
    else if !p.markerExists && r.tracker.cancel.2 then
      (r.withTracker r.tracker.cancel.1, [.writeNext .normal])
    else (r, [])
  else (r, [])

/-- The tick of a session that is neither stopped nor held back. -/
def watchRotation (cfg : Config) (p : Paths) (r : Run) (now : Nat) : Answer :=
  Answer.andThen ({ r with ticks := r.ticks + 1 }.lookForMarker cfg p now) fun r ↦
    r.take cfg (r.tracker.tick now) now

/-- A tick that does not find claude gone. -/
def tick (cfg : Config) (p : Paths) (r : Run) (now : Nat) : Answer :=
  match r.stopping with
  | some deadline =>
    if deadline ≤ now ∧ r.killed = false then ({ r with killed := true }, [.kill]) else (r, [])
  | none =>
    match r.intro with
    | some (_, deadline) => if deadline ≤ now then (r.«end» 1 now, []) else (r, [])
    | none =>
      if cfg.oneShot then
        if r.deadline.any fun deadline ↦ decide (deadline ≤ now) then
          (r.«end» EXIT_EMERGENCY now, [])
        else (r, [])
      else r.watchRotation cfg p now

/-- The unit stops, which an ended run does not hear. -/
def shutdown (cfg : Config) (r : Run) (now : Nat) : Run :=
  match r.after with
  | some (.exit _) | some (.ended _) => r
  | _ => { r with after := some (.exit 0) }.beginStop cfg now

/-- An ended run is not given its turn to finish. -/
def reap (r : Run) : Answer :=
  if r.kill && !r.killed then ({ r with killed := true }, [.kill]) else (r, [])

end Run

/-- What the loop of a run reacts to. -/
inductive Input
  | out (event : Stream.Event) (written : Bool)
  | err (line : String)
  | tick
  | shutdown
  deriving DecidableEq, Repr

/-- The arm of the loop for an input. -/
def Run.react (cfg : Config) (p : Paths) (r : Run) (input : Input) (now : Nat) : Answer :=
  match input with
  | .out event written => r.out cfg event written now
  | .err line => (r.err line, [])
  | .tick => r.tick cfg p now
  | .shutdown => (r.shutdown cfg now, [])

/-- One turn of the loop. -/
def Run.handle (cfg : Config) (p : Paths) (r : Run) (input : Input) (now : Nat) : Answer :=
  (r.react cfg p input now).andThen Run.reap

/-- The tracker as the start leaves it: a retry is pending from the start, and so is a rotation
whose marker is there. -/
def startTracker (cfg : Config) (p : Paths) (start : Start) (notBefore : Option Nat) (now : Nat) :
    Tracker :=
  let t := Tracker.new { cfg.limits with enabled := cfg.rotate } now
  match start.kind with
  | .retry => t.retrying now start.attempts start.handoff
  | _ =>
    if cfg.rotate && p.markerExists then t.pendingFrom now notBefore start.attempts start.handoff
    else t

/-- The line that starts the first turn. -/
def firstLine (cfg : Config) (start : Start) : HostLine :=
  match cfg.emergency with
  | some (.prompt line) => if start.kind = .resumed then .emergency line else .intro start.kind
  | some (.oneShot line) => .emergency line
  | none => .intro start.kind

/-- `run_once` up to its loop. -/
def launch (cfg : Config) (p : Paths) (start : Start) (notBefore : Option Nat) (now : Nat) :
    Answer :=
  let run := { Run.new cfg start now with
    tracker := startTracker cfg p start notBefore now
    -- the combined start line is the handoff request
    watch := start.kind == .retry }
  let before := [Effect.clearChannelReady, .spawn start] ++
    if start.kind = .retry ∧ start.snapshot = true then
      [.snapshot Moment.beforeHandoff.name]
    else []
  Answer.andThen (run, before) fun run ↦
    if cfg.window.isSome then
      -- no turn before the check: the line waits for its answer
      ({ run with intro := some (firstLine cfg start, now + cfg.windowWait) },
        run.write (.control WINDOW_REQUEST))
    else run.start cfg (firstLine cfg start) now

/-! ## The end of a run -/

/-- A line that claude printed. -/
inductive Line
  | out (event : Stream.Event) (written : Bool)
  | err (line : String)
  deriving DecidableEq, Repr

def Line.refuses : Line → Bool
  | .out _ _ => false
  | .err line => Run.refuses line

def Line.toInput : Line → Input
  | .out event written => .out event written
  | .err line => .err line

/-- What a run comes to once its exit is noticed; the lines that are still in the pipes are only
searched for the refusal. -/
def Run.leave (cfg : Config) (start : Start) (r : Run) (drained : List Line) (code : Int) :
    Outcome × List Effect :=
  match r.after with
  | some outcome => (outcome, [])
  | none =>
    (.exit code,
      if start.resume && (r.noConversation || drained.any Line.refuses) && !cfg.oneShot then
        [.dropId]
      else [])

/-- What `supervise` does about an outcome. -/
inductive Verdict
  | exits (code : Int)
  | again (notBefore : Option Nat)
  deriving DecidableEq, Repr

def settle (cfg : Config) (cancelled : Bool) : Outcome → Verdict
  | .exit code => .exits (if cfg.oneShot && !cancelled then EXIT_EMERGENCY else code)
  -- a one-turn run that ended for a restart stays down like any other
  | .ended code => .exits (if code = 1 && cfg.oneShot then EXIT_EMERGENCY else code)
  | .again notBefore => .again notBefore

end Supervisor

end Silta
