import Mathlib.Tactic.IntervalCases
import Silta.Lib.Fair
import Silta.Messages

/-!
# Commands and their results

The commands of a plugin from the call to the answer: the channel to the connection task, the ids
that each connection gives out anew, the lines that the daemon executes one by one, the results on
their way back, and the timeouts, over any number of connections.
-/

namespace Silta

namespace Commands

inductive DaemonError
  /-- No connection to the daemon, or it was lost before a result arrived. -/
  | unavailable (message : String)
  | timeout (secs : Nat)
  /-- The daemon answered and refused, or the file could not be read. -/
  | refused (code : ResultError) (message : String)
  deriving DecidableEq, Repr

/-- What comes over the oneshot channel of a command. -/
abbrev Outcome := Except DaemonError CmdResult

/-- What `submit` returns for it: a result that is not `ok` is a refusal. -/
def answer : Outcome → Except DaemonError CmdResult
  | .ok result =>
    if result.ok then
      .ok result
    else
      .error (.refused (result.error.getD .unknown) (result.message.getD ""))
  | .error err => .error err

/-! ## Calls -/

def resultTimeout : Nat := 60

def sendFileTimeout : Nat := 300

inductive Call
  | command (kind : CmdKind)
  /-- With the file to stream before the command. -/
  | sendFile (cmd : SendFile) (path : String) (header : FileHeader)
  deriving DecidableEq, Repr

def Call.timeout : Call → Nat
  | .command _ => resultTimeout
  | .sendFile .. => sendFileTimeout

/-- What the line of the command says: the id on the connection names the transfer of a file. -/
def Call.kind (id : Nat) : Call → CmdKind
  | .command kind => kind
  | .sendFile cmd _ _ => .sendFile { cmd with transfer := "t" ++ toString id }

def Call.file? : Call → Option String
  | .command _ => none
  | .sendFile _ path _ => some path

/-- How far a call of `submit` is. -/
inductive Phase
  | sending
  | waiting
  | resolved (answer : Except DaemonError CmdResult)
  | abandoned
  deriving DecidableEq, Repr

/-- The oneshot channel of a command. -/
inductive Slot
  | empty
  | full (outcome : Outcome)
  | dropped
  deriving DecidableEq, Repr

structure Caller where
  call : Call
  phase : Phase
  slot : Slot
  deriving DecidableEq, Repr

/-! ## The connections -/

inductive Outgoing
  /-- The call with this number. -/
  | command (call : Nat)
  | ack (eventId : String)
  deriving DecidableEq, Repr

def channelPlaces : Nat := 32

/-- The line of a command.  It does not name the call that it is of: the model keeps that beside
it. -/
structure Line where
  cmd : Cmd
  call : Nat
  deriving DecidableEq, Repr

/-- The line of a result, with the call whose command was executed for it. -/
structure Report where
  result : CmdResult
  call : Nat
  deriving DecidableEq, Repr

/-- A connection as the daemon has it: the lines that it has not read, the command that it executes,
and the results that the plugin has not read. -/
structure Link where
  lines : List Line
  running : Option Line
  reports : List Report
  closed : Bool
  deriving DecidableEq, Repr

def Link.new : Link := ⟨[], none, [], false⟩

/-- The command that `serve` has taken from the channel, until it is among the pending ones. -/
structure Hand where
  id : Nat
  call : Nat
  written : Bool
  deriving DecidableEq, Repr

/-- The variables of `serve`. -/
structure Serving where
  link : Nat
  pending : List (Nat × Nat)
  nextId : Nat
  hand : Option Hand
  deriving DecidableEq, Repr

/-- Where the connection task is. -/
inductive Task
  /-- Not ready so far, or connecting: nothing is taken from the channel. -/
  | away
  | serving (v : Serving)
  /-- Waits before it connects again. -/
  | backoff
  | stopped
  deriving DecidableEq, Repr

structure State where
  callers : List Caller
  channel : List Outgoing
  task : Task
  /-- All connections so far, oldest first. -/
  links : List Link
  deriving DecidableEq, Repr

def State.start : State := ⟨[], [], .away, []⟩

namespace State

def phase (s : State) (n : Nat) : Option Phase := s.callers[n]?.map Caller.phase

def slot (s : State) (n : Nat) : Option Slot := s.callers[n]?.map Caller.slot

def setPhase (s : State) (n : Nat) (phase : Phase) : State :=
  { s with callers := s.callers.modify n fun c ↦ { c with phase := phase } }

/-- `done.send`, for each of some calls. -/
def send (s : State) (calls : List Nat) (outcome : Outcome) : State :=
  { s with callers := s.callers.mapIdx fun n c ↦
      if n ∈ calls then { c with slot := .full outcome } else c }

/-- The senders of some calls are dropped. -/
def dropSenders (s : State) (calls : List Nat) : State :=
  { s with callers := s.callers.mapIdx fun n c ↦
      if n ∈ calls then { c with slot := .dropped } else c }

/-- `serve` returns: what is still pending gets no result. -/
def leave (s : State) (v : Serving) : State :=
  { s.send (v.pending.map Prod.snd) (.error (.unavailable "connection lost")) with
    task := .backoff }

def setLink (s : State) (k : Nat) (link : Link) : State :=
  { s with links := s.links.set k link }

end State

def Outgoing.call? : Outgoing → Option Nat
  | .command call => some call
  | .ack _ => none

inductive Label
  | submit (call : Call)
  | sent (call : Nat)
  | resolve (call : Nat) (outcome : Outcome)
  | abandon (call : Nat)
  | sendAck (eventId : String)
  | connect
  | connectFailed
  | reconnect
  | stop
  | refuse (out : Outgoing)
  | takeAck (eventId : String)
  | take (call : Nat)
  | fileFailed (call : Nat)
  | writeFailed (call : Nat)
  | written (call : Nat)
  | insert (call : Nat)
  | receive (report : Report)
  | disconnect
  | execute (link : Nat) (line : Line)
  | report (link : Nat) (line : Line) (result : CmdResult)
  | hangUp (link : Nat)
  | idle
  deriving DecidableEq, Repr

inductive Step : State → Label → State → Prop
  -- the callers
  | submit (s : State) (call : Call) :
      Step s (.submit call) { s with callers := s.callers ++ [⟨call, .sending, .empty⟩] }
  | sent (s : State) (n : Nat) (hphase : s.phase n = some .sending) (htask : s.task ≠ .stopped)
      (hroom : s.channel.length < channelPlaces) :
      Step s (.sent n)
        { s.setPhase n .waiting with channel := s.channel ++ [.command n] }
  -- the task that stopped has dropped the receiving end of the channel
  | sendFailed (s : State) (n : Nat) (hphase : s.phase n = some .sending)
      (htask : s.task = .stopped) :
      Step s (.resolve n (.error (.unavailable "connection task stopped")))
        (s.setPhase n (.resolved (.error (.unavailable "connection task stopped"))))
  | wake (s : State) (n : Nat) (outcome : Outcome) (hphase : s.phase n = some .waiting)
      (hslot : s.slot n = some (.full outcome)) :
      Step s (.resolve n outcome) (s.setPhase n (.resolved (answer outcome)))
  | orphaned (s : State) (n : Nat) (hphase : s.phase n = some .waiting)
      (hslot : s.slot n = some .dropped) :
      Step s (.resolve n (.error (.unavailable "connection lost")))
        (s.setPhase n (.resolved (.error (.unavailable "connection lost"))))
  -- the timer counts only while the oneshot channel is empty
  | timeout (s : State) (n : Nat) (c : Caller) (hcaller : s.callers[n]? = some c)
      (hphase : c.phase = .waiting) (hslot : c.slot = .empty) :
      Step s (.resolve n (.error (.timeout c.call.timeout)))
        (s.setPhase n (.resolved (.error (.timeout c.call.timeout))))
  -- the task of the caller is cancelled at either of its two waits
  | abandon (s : State) (n : Nat) (hphase : s.phase n = some .sending ∨ s.phase n = some .waiting) :
      Step s (.abandon n) (s.setPhase n .abandoned)
  | sendAck (s : State) (eventId : String) (htask : s.task ≠ .stopped)
      (hroom : s.channel.length < channelPlaces) :
      Step s (.sendAck eventId) { s with channel := s.channel ++ [.ack eventId] }
  -- the connection task without a connection
  -- the ids of a connection begin at 1 again, and nothing is pending
  | connect (s : State) (htask : s.task = .away) :
      Step s .connect
        { s with task := .serving ⟨s.links.length, [], 1, none⟩, links := s.links ++ [.new] }
  | connectFailed (s : State) (htask : s.task = .away) :
      Step s .connectFailed { s with task := .backoff }
  -- an ack that is taken off the channel here is dropped
  | refuse (s : State) (out : Outgoing) (rest : List Outgoing) (htask : s.task = .backoff)
      (hchannel : s.channel = out :: rest) :
      Step s (.refuse out)
        { s.send out.call?.toList (.error (.unavailable "not connected")) with channel := rest }
  | reconnect (s : State) (htask : s.task = .backoff) :
      Step s .reconnect { s with task := .away }
  | stop (s : State) (htask : s.task = .away ∨ s.task = .backoff) :
      Step s .stop
        { s.dropSenders (s.channel.filterMap Outgoing.call?) with channel := [], task := .stopped }
  -- `serve`
  | takeAck (s : State) (v : Serving) (eventId : String) (rest : List Outgoing)
      (htask : s.task = .serving v) (hhand : v.hand = none)
      (hchannel : s.channel = .ack eventId :: rest) :
      Step s (.takeAck eventId) { s with channel := rest }
  | take (s : State) (v : Serving) (n : Nat) (rest : List Outgoing)
      (htask : s.task = .serving v) (hhand : v.hand = none)
      (hchannel : s.channel = .command n :: rest) :
      Step s (.take n)
        { s with
          channel := rest
          task := .serving { v with nextId := v.nextId + 1, hand := some ⟨v.nextId, n, false⟩ } }
  -- the file is opened before anything is written
  | fileFailed (s : State) (v : Serving) (c : Caller) (id n : Nat) (path err : String)
      (htask : s.task = .serving v) (hhand : v.hand = some ⟨id, n, false⟩)
      (hcaller : s.callers[n]? = some c) (hfile : c.call.file? = some path) :
      Step s (.fileFailed n)
        { s.send [n] (.error (.refused .fileError ("cannot read " ++ path ++ ": " ++ err))) with
          task := .serving { v with hand := none } }
  -- of a write that fails, the daemon may have got the whole line, up to its newline
  | writeFailed (s : State) (v : Serving) (c : Caller) (link : Link) (id n : Nat) (err : String)
      (reached : Bool) (htask : s.task = .serving v) (hhand : v.hand = some ⟨id, n, false⟩)
      (hcaller : s.callers[n]? = some c) (hlink : s.links[v.link]? = some link) :
      Step s (.writeFailed n)
        (((s.setLink v.link { link with
            lines := link.lines ++ if reached then [⟨⟨id, c.call.kind id⟩, n⟩] else [] }).send [n]
          (.error (.unavailable ("write failed: " ++ err)))).leave v)
  | written (s : State) (v : Serving) (c : Caller) (link : Link) (id n : Nat)
      (htask : s.task = .serving v) (hhand : v.hand = some ⟨id, n, false⟩)
      (hcaller : s.callers[n]? = some c) (hlink : s.links[v.link]? = some link) :
      Step s (.written n)
        { s.setLink v.link { link with lines := link.lines ++ [⟨⟨id, c.call.kind id⟩, n⟩] } with
          task := .serving { v with hand := some ⟨id, n, true⟩ } }
  -- `pending.insert` replaces what is there under the id
  | insert (s : State) (v : Serving) (id n : Nat) (htask : s.task = .serving v)
      (hhand : v.hand = some ⟨id, n, true⟩) :
      Step s (.insert n)
        { s with task := .serving { v with
            pending := (id, n) :: v.pending.filter fun p ↦ p.1 ≠ id
            hand := none } }
  -- `pending.remove`, and the result goes to what it had under the id, if anything
  | receive (s : State) (v : Serving) (link : Link) (report : Report) (rest : List Report)
      (htask : s.task = .serving v) (hhand : v.hand = none)
      (hlink : s.links[v.link]? = some link) (hreports : link.reports = report :: rest) :
      Step s (.receive report)
        { (s.setLink v.link { link with reports := rest }).send
            (v.pending.lookup report.result.id).toList (.ok report.result) with
          task := .serving { v with
            pending := v.pending.filter fun p ↦ p.1 ≠ report.result.id } }
  | disconnect (s : State) (v : Serving) (htask : s.task = .serving v) (hhand : v.hand = none) :
      Step s .disconnect (s.leave v)
  -- the daemon, on each connection
  -- a line is read when the answer to the one before it is queued
  | execute (s : State) (k : Nat) (link : Link) (line : Line) (rest : List Line)
      (hlink : s.links[k]? = some link) (hopen : link.closed = false)
      (hrunning : link.running = none) (hlines : link.lines = line :: rest) :
      Step s (.execute k line) (s.setLink k { link with lines := rest, running := some line })
  | report (s : State) (k : Nat) (link : Link) (line : Line) (result : CmdResult)
      (hlink : s.links[k]? = some link) (hrunning : link.running = some line)
      (hid : result.id = line.cmd.id) :
      Step s (.report k line result)
        (s.setLink k { link with
          running := none, reports := link.reports ++ [⟨result, line.call⟩] })
  -- results that were not written are lost
  | hangUp (s : State) (k : Nat) (link : Link) (written : Nat) (hlink : s.links[k]? = some link) :
      Step s (.hangUp k) (s.setLink k ⟨[], none, link.reports.take written, true⟩)
  | idle (s : State) : Step s .idle s

/-! ## What the operations leave as it is -/

namespace State

variable (s : State) (n m : Nat)

theorem phase_setPhase (phase : Phase) :
    (s.setPhase n phase).phase m = if n = m then (s.phase m).map fun _ ↦ phase else s.phase m := by
  unfold State.phase setPhase
  rw [List.getElem?_modify]
  split <;> cases s.callers[m]? <;> rfl

@[simp] theorem slot_setPhase (phase : Phase) : (s.setPhase n phase).slot m = s.slot m := by
  unfold State.slot setPhase
  rw [List.getElem?_modify]
  split <;> cases s.callers[m]? <;> rfl

@[simp] theorem phase_send (calls : List Nat) (outcome : Outcome) :
    (s.send calls outcome).phase n = s.phase n := by
  unfold State.phase send
  rw [List.getElem?_mapIdx, Option.map_map]
  congr 1
  funext c
  show (if n ∈ calls then _ else c).phase = c.phase
  split <;> rfl

theorem slot_send (calls : List Nat) (outcome : Outcome) :
    (s.send calls outcome).slot n =
      if n ∈ calls then (s.slot n).map fun _ ↦ .full outcome else s.slot n := by
  unfold State.slot send
  rw [List.getElem?_mapIdx]
  cases s.callers[n]? with
  | none => simp
  | some c => by_cases hn : n ∈ calls <;> simp [hn]

@[simp] theorem phase_dropSenders (calls : List Nat) :
    (s.dropSenders calls).phase n = s.phase n := by
  unfold State.phase dropSenders
  rw [List.getElem?_mapIdx, Option.map_map]
  congr 1
  funext c
  show (if n ∈ calls then _ else c).phase = c.phase
  split <;> rfl

theorem slot_dropSenders (calls : List Nat) :
    (s.dropSenders calls).slot n =
      if n ∈ calls then (s.slot n).map fun _ ↦ .dropped else s.slot n := by
  unfold State.slot dropSenders
  rw [List.getElem?_mapIdx]
  cases s.callers[n]? with
  | none => simp
  | some c => by_cases hn : n ∈ calls <;> simp [hn]

@[simp] theorem phase_leave (v : Serving) : (s.leave v).phase n = s.phase n :=
  s.phase_send n _ _

@[simp] theorem phase_setLink (k : Nat) (link : Link) :
    (s.setLink k link).phase n = s.phase n := rfl

end State

/-! ## The phases of a call -/

def Label.caller? : Label → Option Nat
  | .sent n | .resolve n _ | .abandon n => some n
  | _ => none

/-- What a step does with the phase of the call with a number. -/
inductive Moves (n : Nat) : Label → Option Phase → Option Phase → Prop
  | kept (l : Label) (phase : Option Phase) (hl : l.caller? ≠ some n) : Moves n l phase phase
  | submit (l : Label) (hl : l.caller? ≠ some n) : Moves n l none (some .sending)
  | sent : Moves n (.sent n) (some .sending) (some .waiting)
  | resolve (phase : Phase) (outcome : Outcome) (final : Except DaemonError CmdResult)
      (hphase : phase = .sending ∨ phase = .waiting) :
      Moves n (.resolve n outcome) (some phase) (some (.resolved final))
  | abandon (phase : Phase) (hphase : phase = .sending ∨ phase = .waiting) :
      Moves n (.abandon n) (some phase) (some .abandoned)

theorem phase_submit (s : State) (call : Call) (n : Nat) :
    State.phase { s with callers := s.callers ++ [⟨call, .sending, .empty⟩] } n = s.phase n ∨
      s.phase n = none ∧
        State.phase { s with callers := s.callers ++ [⟨call, .sending, .empty⟩] } n =
          some .sending := by
  unfold State.phase
  rcases Nat.lt_trichotomy n s.callers.length with hlt | rfl | hgt
  · left
    show ((s.callers ++ [_])[n]?).map _ = _
    rw [List.getElem?_append_left hlt]
  · right
    simp
  · left
    show ((s.callers ++ [_])[n]?).map _ = _
    rw [List.getElem?_eq_none (by simp; omega), List.getElem?_eq_none (by omega)]

theorem moves_setPhase {s : State} {l : Label} {n : Nat} {before after : Phase}
    (hcaller : l.caller? = some n) (hphase : s.phase n = some before)
    (hmoves : Moves n l (some before) (some after)) (m : Nat) :
    Moves m l (s.phase m) ((s.setPhase n after).phase m) := by
  rw [State.phase_setPhase]
  by_cases hm : n = m
  · subst hm
    rw [if_pos rfl, hphase]
    exact hmoves
  · rw [if_neg hm]
    apply Moves.kept
    rw [hcaller]
    exact fun h ↦ hm (Option.some.inj h)

theorem moves_step {s t : State} {l : Label} (hstep : Step s l t) (m : Nat) :
    Moves m l (s.phase m) (t.phase m) := by
  -- the steps of the callers move a phase; the others send at most to slots
  cases hstep with
  | submit call =>
    rcases phase_submit s call m with hkept | ⟨hnone, hsending⟩
    · rw [hkept]
      exact .kept _ _ (by simp [Label.caller?])
    · rw [hnone, hsending]
      exact .submit _ (by simp [Label.caller?])
  | sent n hphase => exact moves_setPhase rfl hphase .sent m
  | sendFailed n hphase => exact moves_setPhase rfl hphase (.resolve _ _ _ (.inl rfl)) m
  | wake n outcome hphase => exact moves_setPhase rfl hphase (.resolve _ _ _ (.inr rfl)) m
  | orphaned n hphase => exact moves_setPhase rfl hphase (.resolve _ _ _ (.inr rfl)) m
  | timeout n c hcaller hphase =>
    have hwaiting : s.phase n = some .waiting := by simp [State.phase, hcaller, hphase]
    exact moves_setPhase rfl hwaiting (.resolve _ _ _ (.inr rfl)) m
  | abandon n hphase =>
    rcases hphase with hphase | hphase
    · exact moves_setPhase rfl hphase (.abandon _ (.inl rfl)) m
    · exact moves_setPhase rfl hphase (.abandon _ (.inr rfl)) m
  | refuse out rest =>
    have hkept := s.phase_send m out.call?.toList (.error (.unavailable "not connected"))
    show Moves m _ _ ((s.send _ _).phase m)
    rw [hkept]
    exact .kept _ _ (by simp [Label.caller?])
  | stop =>
    have hkept := s.phase_dropSenders m (s.channel.filterMap Outgoing.call?)
    show Moves m _ _ ((s.dropSenders _).phase m)
    rw [hkept]
    exact .kept _ _ (by simp [Label.caller?])
  | fileFailed v c id n path err =>
    show Moves m _ _ ((s.send _ _).phase m)
    rw [State.phase_send]
    exact .kept _ _ (by simp [Label.caller?])
  | writeFailed v c link id n err reached =>
    rw [State.phase_leave, State.phase_send, State.phase_setLink]
    exact .kept _ _ (by simp [Label.caller?])
  | receive v link report rest =>
    show Moves m _ _ (((s.setLink _ _).send _ _).phase m)
    rw [State.phase_send, State.phase_setLink]
    exact .kept _ _ (by simp [Label.caller?])
  | disconnect v =>
    rw [State.phase_leave]
    exact .kept _ _ (by simp [Label.caller?])
  | _ => exact .kept _ _ (by simp [Label.caller?])

/-! ## One resolution -/

/-- The resolutions that a call has before it. -/
def unresolved : Option Phase → Nat
  | some (.resolved _) | some .abandoned => 0
  | _ => 1

def Label.resolves (n : Nat) : Label → Nat
  | .resolve call _ => if call = n then 1 else 0
  | _ => 0

theorem resolves_of_caller {n : Nat} {l : Label} (h : l.caller? ≠ some n) : l.resolves n = 0 := by
  cases l with
  | resolve call outcome =>
    have hne : call ≠ n := fun heq ↦ h (congrArg some heq)
    exact if_neg hne
  | _ => rfl

theorem unresolved_step (n : Nat) (s : State) (l : Label) (t : State) (hstep : Step s l t) :
    unresolved (t.phase n) + l.resolves n ≤ unresolved (s.phase n) := by
  generalize hs : s.phase n = before
  generalize ht : t.phase n = after
  have hmoves := moves_step hstep n
  rw [hs, ht] at hmoves
  cases hmoves with
  | kept _ _ hl => rw [resolves_of_caller hl, Nat.add_zero]
  | submit _ hl => rw [resolves_of_caller hl]; rfl
  | sent => rfl
  | resolve phase outcome final hphase =>
    rw [Label.resolves, if_pos rfl]
    rcases hphase with rfl | rfl <;> rfl
  | abandon phase hphase => rcases hphase with rfl | rfl <;> exact Nat.zero_le _

/-! ## One execution -/

/-- The commands that a call may still send. -/
def unsent : Option Phase → Nat
  | none | some .sending => 1
  | _ => 0

def Label.sends (n : Nat) : Label → Nat
  | .sent call => if call = n then 1 else 0
  | _ => 0

theorem sends_of_caller {n : Nat} {l : Label} (h : l.caller? ≠ some n) : l.sends n = 0 := by
  cases l with
  | sent call =>
    have hne : call ≠ n := fun heq ↦ h (congrArg some heq)
    exact if_neg hne
  | _ => rfl

theorem unsent_step {s t : State} {l : Label} (hstep : Step s l t) (n : Nat) :
    unsent (t.phase n) + l.sends n ≤ unsent (s.phase n) := by
  generalize hs : s.phase n = before
  generalize ht : t.phase n = after
  have hmoves := moves_step hstep n
  rw [hs, ht] at hmoves
  cases hmoves with
  | kept _ _ hl => rw [sends_of_caller hl, Nat.add_zero]
  | submit _ hl => rw [sends_of_caller hl]; rfl
  | sent => rw [Label.sends, if_pos rfl]; rfl
  | resolve phase outcome final hphase => exact Nat.zero_le _
  | abandon phase hphase => exact Nat.zero_le _

/-- The lines of a call that a connection has and that the daemon has not read. -/
def Link.unread (n : Nat) (link : Link) : Nat := link.lines.countP fun l ↦ l.call = n

/-- The command in hand that is still to be written. -/
def Hand.unwritten (n : Nat) (hand : Hand) : Nat :=
  if hand.call = n ∧ hand.written = false then 1 else 0

def Task.unwritten (n : Nat) : Task → Nat
  | .serving v => (v.hand.map (Hand.unwritten n)).getD 0
  | _ => 0

/-- The lines of a call that the daemon has not read on some connections. -/
def unread (n : Nat) (links : List Link) : Nat := (links.map (Link.unread n)).sum

/-- The commands of a call between its caller and the daemon. -/
def State.onTheWay (n : Nat) (s : State) : Nat :=
  s.channel.count (.command n) + s.task.unwritten n + unread n s.links

def Label.executes (n : Nat) : Label → Nat
  | .execute _ line => if line.call = n then 1 else 0
  | _ => 0

theorem unread_append (n : Nat) (link : Link) (lines : List Line) :
    Link.unread n { link with lines := link.lines ++ lines } =
      link.unread n + lines.countP fun l ↦ l.call = n :=
  List.countP_append

theorem unread_cons (n : Nat) {link : Link} {line : Line} {rest : List Line}
    (h : link.lines = line :: rest) :
    link.unread n = (rest.countP fun l ↦ l.call = n) + if line.call = n then 1 else 0 := by
  unfold Link.unread
  rw [h, List.countP_cons]
  simp

theorem unread_set (n : Nat) {links : List Link} {k : Nat} {link : Link} (link' : Link)
    (hlink : links[k]? = some link) :
    unread n (links.set k link') + link.unread n = unread n links + link'.unread n := by
  obtain ⟨others, hsum, hset⟩ := Lts.sum_map_eq_add_others (Link.unread n) hlink
  unfold unread
  rw [hset, hsum]
  omega

theorem onTheWay_step {s t : State} {l : Label} (hstep : Step s l t) (n : Nat) :
    t.onTheWay n + l.executes n ≤ s.onTheWay n + l.sends n := by
  unfold State.onTheWay
  -- a command goes from the channel to the hand to the lines, or is dropped on the way
  cases hstep with
  | submit | sendFailed | wake | orphaned | timeout | abandon | idle => exact le_rfl
  | sent m =>
    have hcount : (s.channel ++ [Outgoing.command m]).count (.command n) =
        s.channel.count (.command n) + if m = n then 1 else 0 := by
      by_cases hm : m = n <;> simp [hm, List.count_append]
    show (s.channel ++ [Outgoing.command m]).count (.command n) + s.task.unwritten n +
      unread n s.links + 0 ≤ _ + if m = n then 1 else 0
    rw [hcount]
    omega
  | sendAck eventId =>
    have hcount : (s.channel ++ [Outgoing.ack eventId]).count (.command n) =
        s.channel.count (.command n) := by
      simp
    show (s.channel ++ [Outgoing.ack eventId]).count (.command n) + s.task.unwritten n +
      unread n s.links + 0 ≤ _
    rw [hcount]
    exact le_rfl
  | connect htask =>
    have hnew : unread n (s.links ++ [.new]) = unread n s.links := by
      simp [unread, Link.new, Link.unread]
    show s.channel.count (.command n) + 0 + unread n (s.links ++ [.new]) + 0 ≤ _
    rw [hnew]
    omega
  | connectFailed htask =>
    rw [htask]
    exact le_rfl
  | reconnect htask =>
    rw [htask]
    exact le_rfl
  | disconnect v htask =>
    show s.channel.count (.command n) + 0 + unread n s.links + 0 ≤ _
    omega
  | refuse out rest htask hchannel =>
    rw [hchannel, List.count_cons]
    show rest.count (.command n) + s.task.unwritten n + unread n s.links + 0 ≤ _
    omega
  | takeAck v eventId rest htask hhand hchannel =>
    rw [hchannel, List.count_cons]
    show rest.count (.command n) + s.task.unwritten n + unread n s.links + 0 ≤ _
    omega
  | stop htask =>
    show 0 + 0 + unread n s.links + 0 ≤ _
    omega
  | take v m rest htask hhand hchannel =>
    have hcount : (Outgoing.command m :: rest).count (.command n) =
        rest.count (.command n) + Hand.unwritten n ⟨v.nextId, m, false⟩ := by
      by_cases hm : m = n <;> simp [Hand.unwritten, hm]
    rw [hchannel, hcount, htask]
    show rest.count (.command n) + Hand.unwritten n ⟨v.nextId, m, false⟩ + unread n s.links + 0 ≤ _
    omega
  | fileFailed v c id m path err htask hhand =>
    show s.channel.count (.command n) + 0 + unread n s.links + 0 ≤ _
    omega
  | writeFailed v c link id m err reached htask hhand hcaller hlink =>
    have hsum := unread_set n { link with
      lines := link.lines ++ if reached then [⟨⟨id, c.call.kind id⟩, m⟩] else [] } hlink
    rw [unread_append] at hsum
    have hhanded : s.task.unwritten n = if m = n then 1 else 0 := by
      simp [htask, Task.unwritten, hhand, Hand.unwritten]
    -- the daemon may have the line, and then it is in hand no more
    have hline : (if reached then [(⟨⟨id, c.call.kind id⟩, m⟩ : Line)] else []).countP
        (fun l ↦ l.call = n) ≤ if m = n then 1 else 0 := by
      cases reached <;> by_cases hm : m = n <;> simp [hm]
    show s.channel.count (.command n) + 0 + unread n (s.links.set v.link _) + 0 ≤ _
    rw [hhanded]
    omega
  | written v c link id m htask hhand hcaller hlink =>
    have hsum := unread_set n { link with
      lines := link.lines ++ [⟨⟨id, c.call.kind id⟩, m⟩] } hlink
    rw [unread_append] at hsum
    have hhanded : s.task.unwritten n = if m = n then 1 else 0 := by
      simp [htask, Task.unwritten, hhand, Hand.unwritten]
    have hline : [(⟨⟨id, c.call.kind id⟩, m⟩ : Line)].countP (fun l ↦ l.call = n) =
        if m = n then 1 else 0 := by
      by_cases hm : m = n <;> simp [hm]
    have hnone : Hand.unwritten n ⟨id, m, true⟩ = 0 := by simp [Hand.unwritten]
    show s.channel.count (.command n) + Hand.unwritten n ⟨id, m, true⟩ +
      unread n (s.links.set v.link _) + 0 ≤ _
    rw [hhanded, hnone]
    omega
  | insert v id m htask hhand =>
    show s.channel.count (.command n) + 0 + unread n s.links + 0 ≤ _
    omega
  | receive v link report rest htask hhand hlink hreports =>
    have hsum := unread_set n { link with reports := rest } hlink
    have hsame : Link.unread n { link with reports := rest } = link.unread n := rfl
    have hhanded : s.task.unwritten n = (v.hand.map (Hand.unwritten n)).getD 0 := by rw [htask]; rfl
    show s.channel.count (.command n) + (v.hand.map (Hand.unwritten n)).getD 0 +
      unread n (s.links.set v.link _) + 0 ≤ _
    omega
  | execute k link line rest hlink hopen hrunning hlines =>
    have hsum := unread_set n { link with lines := rest, running := some line } hlink
    rw [unread_cons n hlines] at hsum
    have hrest : Link.unread n { link with lines := rest, running := some line } =
        rest.countP fun l ↦ l.call = n := rfl
    show s.channel.count (.command n) + s.task.unwritten n + unread n (s.links.set k _) +
      (if line.call = n then 1 else 0) ≤ _
    omega
  | report k link line result hlink hrunning hid =>
    have hsum := unread_set n { link with
      running := none, reports := link.reports ++ [⟨result, line.call⟩] } hlink
    have hsame : Link.unread n { link with
      running := none, reports := link.reports ++ [⟨result, line.call⟩] } = link.unread n := rfl
    show s.channel.count (.command n) + s.task.unwritten n + unread n (s.links.set k _) + 0 ≤ _
    omega
  | hangUp k link written hlink =>
    have hsum := unread_set n ⟨[], none, link.reports.take written, true⟩ hlink
    have hnone : Link.unread n ⟨[], none, link.reports.take written, true⟩ = 0 := rfl
    show s.channel.count (.command n) + s.task.unwritten n + unread n (s.links.set k _) + 0 ≤ _
    omega

/-- The executions that a call has before it. -/
def State.chances (n : Nat) (s : State) : Nat := unsent (s.phase n) + s.onTheWay n

theorem chances_step (n : Nat) (s : State) (l : Label) (t : State) (hstep : Step s l t) :
    t.chances n + l.executes n ≤ s.chances n := by
  have hphase := unsent_step hstep n
  have hway := onTheWay_step hstep n
  unfold State.chances
  omega

/-! ## What an id stands for -/

/-- The ids in use are below the next one, and no id stands for two calls. -/
def Consistent (names : List (Nat × Nat)) (nextId : Nat) : Prop :=
  ∃ callOf : Nat → Nat, ∀ p ∈ names, p.1 < nextId ∧ callOf p.1 = p.2

namespace Consistent

variable {names names' : List (Nat × Nat)} {nextId : Nat}

theorem nil : Consistent [] nextId := ⟨id, by simp⟩

theorem subset (h : Consistent names nextId) (hsub : names' ⊆ names) :
    Consistent names' nextId := by
  obtain ⟨callOf, hnames⟩ := h
  exact ⟨callOf, fun p hp ↦ hnames p (hsub hp)⟩

theorem take (h : Consistent names nextId) (n : Nat) (hsub : names' ⊆ (nextId, n) :: names) :
    Consistent names' (nextId + 1) := by
  obtain ⟨callOf, hnames⟩ := h
  -- no id in use is the next one, so the old calls keep theirs
  refine ⟨Function.update callOf nextId n, fun p hp ↦ ?_⟩
  rcases List.mem_cons.mp (hsub hp) with rfl | hold
  · exact ⟨Nat.lt_succ_self _, Function.update_self ..⟩
  · obtain ⟨hlt, heq⟩ := hnames p hold
    refine ⟨Nat.lt_succ_of_lt hlt, ?_⟩
    rw [Function.update_of_ne (Nat.ne_of_lt hlt)]
    exact heq

theorem eq (h : Consistent names nextId) {id n m : Nat} (hn : (id, n) ∈ names)
    (hm : (id, m) ∈ names) : n = m := by
  obtain ⟨callOf, hnames⟩ := h
  have hleft : callOf id = n := (hnames _ hn).2
  have hright : callOf id = m := (hnames _ hm).2
  rw [← hleft, hright]

end Consistent

def Line.name (line : Line) : Nat × Nat := (line.cmd.id, line.call)

def Report.name (report : Report) : Nat × Nat := (report.result.id, report.call)

def Hand.name (hand : Hand) : Nat × Nat := (hand.id, hand.call)

def Link.names (link : Link) : List (Nat × Nat) :=
  link.lines.map Line.name ++ link.running.toList.map Line.name ++ link.reports.map Report.name

def Serving.names (v : Serving) : List (Nat × Nat) := v.pending ++ v.hand.toList.map Hand.name

/-- On the connection that is served, the lines, the results and the pending commands agree on what
each id stands for. -/
def Linked (s : State) : Prop :=
  ∀ v, s.task = .serving v → ∃ link, s.links[v.link]? = some link ∧
    Consistent (link.names ++ v.names) v.nextId

theorem linked_start : Linked .start := by
  intro v hv
  cases hv

theorem Linked.of_eq {s t : State} (h : Linked s) (htask : t.task = s.task)
    (hlinks : t.links = s.links) : Linked t := by
  unfold Linked
  rw [htask, hlinks]
  exact h

/-- A step that is not of `serve`, and that brings nothing new to a connection. -/
theorem Linked.setLink {s t : State} {k : Nat} {link link' : Link} (h : Linked s)
    (hlink : s.links[k]? = some link) (hsub : link'.names ⊆ link.names) (htask : t.task = s.task)
    (hlinks : t.links = s.links.set k link') : Linked t := by
  intro v hv
  rw [htask] at hv
  obtain ⟨mine, hmine, hnames⟩ := h v hv
  by_cases hk : k = v.link
  · subst hk
    obtain rfl := Option.some.inj (hmine.symm.trans hlink)
    have hlt : v.link < s.links.length := (List.getElem?_eq_some_iff.mp hlink).1
    refine ⟨link', by rw [hlinks, List.getElem?_set_self hlt], ?_⟩
    exact hnames.subset (List.append_subset.mpr
      ⟨fun p hp ↦ List.mem_append_left _ (hsub hp), List.subset_append_right _ _⟩)
  · exact ⟨mine, by rw [hlinks, List.getElem?_set_ne hk, hmine], hnames⟩

/-- A step of `serve` that gives out no id. -/
theorem Linked.serve {s t : State} {v w : Serving} {link link' : Link} (h : Linked s)
    (htask : s.task = .serving v) (hlink : s.links[v.link]? = some link)
    (htask' : t.task = .serving w) (hlink' : t.links[w.link]? = some link')
    (hnext : w.nextId = v.nextId)
    (hnames : link'.names ++ w.names ⊆ link.names ++ v.names) : Linked t := by
  intro w' hw'
  obtain rfl : w = w' := by
    rw [htask'] at hw'
    exact Task.serving.inj hw'
  obtain ⟨mine, hmine, hconsistent⟩ := h v htask
  obtain rfl := Option.some.inj (hmine.symm.trans hlink)
  refine ⟨link', hlink', ?_⟩
  rw [hnext]
  exact hconsistent.subset hnames

theorem linked_step {s t : State} {l : Label} (h : Linked s) (hstep : Step s l t) : Linked t := by
  cases hstep with
  | submit | sent | sendFailed | wake | orphaned | timeout | abandon | sendAck | refuse | takeAck |
    idle => exact h.of_eq rfl rfl
  | connectFailed | reconnect | stop | disconnect | writeFailed =>
    intro v hv
    cases hv
  | connect htask =>
    intro v hv
    obtain rfl := Task.serving.inj hv
    refine ⟨.new, ?_, .nil⟩
    show (s.links ++ [.new])[s.links.length]? = some .new
    simp
  | take v n rest htask hhand hchannel =>
    intro w hw
    obtain rfl := Task.serving.inj hw
    obtain ⟨link, hlink, hconsistent⟩ := h v htask
    refine ⟨link, hlink, hconsistent.take n ?_⟩
    -- of the names only that of the new hand was not there
    intro p hp
    simp [Serving.names, Hand.name, hhand] at hp ⊢
    grind
  | fileFailed v c id n path err htask hhand =>
    obtain ⟨link, hlink, -⟩ := h v htask
    refine h.serve htask hlink rfl hlink rfl ?_
    intro p hp
    simp [Serving.names] at hp ⊢
    grind
  | written v c link id n htask hhand hcaller hlink =>
    have hlt : v.link < s.links.length := (List.getElem?_eq_some_iff.mp hlink).1
    refine h.serve htask hlink rfl (List.getElem?_set_self hlt) rfl ?_
    -- the line is named as the command in hand is
    intro p hp
    simp [Serving.names, Link.names, Line.name, Hand.name, hhand] at hp ⊢
    grind
  | insert v id n htask hhand =>
    obtain ⟨link, hlink, -⟩ := h v htask
    refine h.serve htask hlink rfl hlink rfl ?_
    intro p hp
    simp [Serving.names, Hand.name, hhand] at hp ⊢
    grind
  | receive v link report rest htask hhand hlink hreports =>
    have hlt : v.link < s.links.length := (List.getElem?_eq_some_iff.mp hlink).1
    refine h.serve htask hlink rfl (List.getElem?_set_self hlt) rfl ?_
    -- the report and what was pending under its id are gone
    intro p hp
    simp [Serving.names, Link.names, hreports, hhand] at hp ⊢
    grind
  | execute k link line rest hlink hopen hrunning hlines =>
    refine h.setLink hlink ?_ rfl rfl
    intro p hp
    simp [Link.names, hrunning, hlines] at hp ⊢
    grind
  | report k link line result hlink hrunning hid =>
    refine h.setLink hlink ?_ rfl rfl
    -- the result is named as the line is
    intro p hp
    simp [Link.names, Line.name, Report.name, hrunning, hid] at hp ⊢
    grind
  | hangUp k link written hlink =>
    refine h.setLink hlink ?_ rfl rfl
    intro p hp
    have hreport : p ∈ (link.reports.map Report.name).take written := by
      simpa [Link.names] using hp
    exact List.mem_append_right _ (List.mem_of_mem_take hreport)

/-! ## Where a result comes from -/

/-- A report that waits on some connection. -/
def State.Awaits (s : State) (r : Report) : Prop := ∃ link ∈ s.links, r ∈ link.reports

theorem awaits_of_set {s : State} {k : Nat} {link link' : Link} {r : Report}
    (hlink : s.links[k]? = some link) (hsub : r ∈ link'.reports → r ∈ link.reports)
    (h : ∃ l ∈ s.links.set k link', r ∈ l.reports) : s.Awaits r := by
  obtain ⟨l, hl, hr⟩ := h
  rcases List.mem_or_eq_of_mem_set hl with hold | rfl
  · exact ⟨l, hold, hr⟩
  · exact ⟨link, List.mem_of_getElem? hlink, hsub hr⟩

/-- A report comes onto a connection only when the daemon makes it. -/
theorem awaits_step {s t : State} {l : Label} {r : Report} (hstep : Step s l t)
    (h : t.Awaits r) : s.Awaits r ∨ ∃ k line, line.call = r.call ∧ l = .report k line r.result := by
  cases hstep with
  | submit | sent | sendFailed | wake | orphaned | timeout | abandon | sendAck | connectFailed |
    refuse | reconnect | stop | takeAck | take | fileFailed | insert | disconnect | idle =>
    exact .inl h
  | connect htask =>
    left
    obtain ⟨link, hlink, hr⟩ := h
    rcases List.mem_append.mp hlink with hold | hnew
    · exact ⟨link, hold, hr⟩
    · obtain rfl := List.mem_singleton.mp hnew
      cases hr
  | writeFailed v c link id n err reached htask hhand hcaller hlink =>
    refine .inl (awaits_of_set hlink ?_ h)
    exact fun hr ↦ hr
  | written v c link id n htask hhand hcaller hlink =>
    refine .inl (awaits_of_set hlink ?_ h)
    exact fun hr ↦ hr
  | receive v link report rest htask hhand hlink hreports =>
    left
    apply awaits_of_set hlink _ h
    intro hr
    rw [hreports]
    exact List.mem_cons_of_mem _ hr
  | execute k link line rest hlink =>
    refine .inl (awaits_of_set hlink ?_ h)
    exact fun hr ↦ hr
  | report k link line result hlink hrunning hid =>
    obtain ⟨l, hl, hr⟩ := h
    rcases List.mem_or_eq_of_mem_set hl with hold | rfl
    · exact .inl ⟨l, hold, hr⟩
    · rcases List.mem_append.mp hr with hold | hnew
      · exact .inl ⟨link, List.mem_of_getElem? hlink, hold⟩
      · obtain rfl := List.mem_singleton.mp hnew
        exact .inr ⟨k, line, rfl, rfl⟩
  | hangUp k link written hlink =>
    exact .inl (awaits_of_set hlink List.mem_of_mem_take h)

theorem slot_of_send {s : State} {n : Nat} {calls : List Nat} {outcome : Outcome}
    {result : CmdResult} (h : (s.send calls outcome).slot n = some (.full (.ok result))) :
    s.slot n = some (.full (.ok result)) ∨ n ∈ calls ∧ outcome = .ok result := by
  rw [State.slot_send] at h
  split at h
  · next hn =>
    right
    obtain ⟨slot, hslot, hfull⟩ := Option.map_eq_some_iff.mp h
    exact ⟨hn, Slot.full.inj hfull⟩
  · exact .inl h

/-- A result comes to a call only as a report on the connection, and as one of its own command. -/
theorem slot_step {s t : State} {l : Label} {n : Nat} {result : CmdResult} (hlinked : Linked s)
    (hstep : Step s l t) (h : t.slot n = some (.full (.ok result))) :
    s.slot n = some (.full (.ok result)) ∨ s.Awaits ⟨result, n⟩ := by
  cases hstep with
  | submit call =>
    obtain ⟨c, hc, hslot⟩ := Option.map_eq_some_iff.mp h
    rcases Nat.lt_or_ge n s.callers.length with hlt | hge
    · have hold : s.callers[n]? = some c := (List.getElem?_append_left hlt).symm.trans hc
      left
      rw [State.slot, hold]
      exact congrArg some hslot
    · have hnew : [Caller.mk call .sending .empty][n - s.callers.length]? = some c :=
        (List.getElem?_append_right hge).symm.trans hc
      obtain rfl := List.mem_singleton.mp (List.mem_of_getElem? hnew)
      cases hslot
  | sent m =>
    have hslot := s.slot_setPhase m n .waiting
    exact .inl (hslot ▸ h)
  | sendFailed | wake | orphaned | timeout | abandon =>
    rw [State.slot_setPhase] at h
    exact .inl h
  | sendAck | connect | connectFailed | reconnect | takeAck | take | written | insert | execute |
    report | hangUp | idle => exact .inl h
  | refuse out rest | fileFailed =>
    rcases slot_of_send h with hold | ⟨-, hout⟩
    · exact .inl hold
    · cases hout
  | stop =>
    left
    have hdropped := s.slot_dropSenders n (s.channel.filterMap Outgoing.call?)
    rw [show (s.dropSenders _).slot n = _ from h] at hdropped
    split at hdropped
    · cases hslot : s.slot n <;> simp [hslot] at hdropped
    · exact hdropped.symm
  | disconnect v =>
    rcases slot_of_send h with hold | ⟨-, hout⟩
    · exact .inl hold
    · cases hout
  | writeFailed v c link id m err reached =>
    rcases slot_of_send h with hold | ⟨-, hout⟩
    · rcases slot_of_send hold with hold | ⟨-, hout⟩
      · exact .inl hold
      · cases hout
    · cases hout
  | receive v link report rest htask hhand hlink hreports =>
    rcases slot_of_send h with hold | ⟨hn, hout⟩
    · exact .inl hold
    · right
      obtain rfl := Except.ok.inj hout
      -- the id stands for one call: the one that is pending and the one that was executed
      obtain ⟨mine, hmine, hconsistent⟩ := hlinked v htask
      obtain rfl := Option.some.inj (hmine.symm.trans hlink)
      have hpending : (report.result.id, n) ∈ v.pending := by
        obtain ⟨l₁, l₂, hl, -⟩ := List.lookup_eq_some_iff.mp (Option.mem_toList.mp hn)
        rw [hl]
        simp
      have hmem : report ∈ mine.reports := by
        rw [hreports]
        exact List.mem_cons_self
      have hname : (report.result.id, report.call) ∈ mine.names :=
        List.mem_append_right _ (List.mem_map_of_mem hmem)
      obtain rfl : n = report.call := by
        apply hconsistent.eq _ (List.mem_append_left _ hname)
        exact List.mem_append_right _ (List.mem_append_left _ hpending)
      exact ⟨mine, List.mem_of_getElem? hlink, hmem⟩

/-- The daemon has reported the result of executing the command of a call. -/
def Reported (ls : List Label) (n : Nat) (result : CmdResult) : Prop :=
  ∃ k line, line.call = n ∧ .report k line result ∈ ls

/-- The results on their way, and those that calls have got, are of the calls' own commands. -/
structure Genuine (ls : List Label) (s : State) : Prop where
  reports : ∀ r, s.Awaits r → Reported ls r.call r.result
  slots : ∀ n result, s.slot n = some (.full (.ok result)) → Reported ls n result

theorem Reported.concat {ls : List Label} {n : Nat} {result : CmdResult} (h : Reported ls n result)
    (l : Label) : Reported (ls ++ [l]) n result := by
  obtain ⟨k, line, hcall, hmem⟩ := h
  exact ⟨k, line, hcall, List.mem_append_left _ hmem⟩

theorem genuine_start : Genuine [] .start where
  reports := by
    rintro r ⟨link, hlink, -⟩
    cases hlink
  slots := by
    intro n result h
    cases h

theorem genuine_step {s t : State} {ls : List Label} {l : Label} (h : Genuine ls s)
    (hlinked : Linked s) (hstep : Step s l t) : Genuine (ls ++ [l]) t where
  reports := by
    intro r hr
    rcases awaits_step hstep hr with hold | ⟨k, line, hcall, rfl⟩
    · exact (h.reports r hold).concat _
    · exact ⟨k, line, hcall, List.mem_append_right _ List.mem_cons_self⟩
  slots := by
    intro n result hslot
    rcases slot_step hlinked hstep hslot with hold | hreport
    · exact (h.slots n result hold).concat _
    · exact (h.reports _ hreport).concat _

theorem genuine_run {s : State} {ls : List Label} (h : Lts.Run Step .start ls s) :
    Linked s ∧ Genuine ls s := by
  generalize hs : State.start = start at h
  -- along the run, what an id stands for carries where the results come from
  induction h with
  | nil =>
    subst hs
    exact ⟨linked_start, genuine_start⟩
  | snoc _ hstep ih =>
    obtain ⟨hlinked, hgenuine⟩ := ih
    exact ⟨linked_step hlinked hstep, genuine_step hgenuine hlinked hstep⟩

/-! ## Every command gets its own answer -/

/-- The call with this number is submitted at this time, and its caller never gives it up. -/
structure Awaited (x : Lts.Execution Step) (n i : Nat) : Prop where
  submitted : ∃ call, x.label i = .submit call
  number : (x.state i).callers.length = n
  kept : ∀ j, x.label j ≠ .abandon n

/-- The call gets one of the places of the channel, or the task that empties it has stopped. -/
def Placed (x : Lts.Execution Step) (n : Nat) : Prop :=
  ∃ j, x.label j = .sent n ∨ (x.state j).task = .stopped

/-- Every command that is submitted, and that its caller waits for, is resolved exactly once; a
result resolves only the call whose command was executed for it; and no command is executed
twice. -/
structure OwnAnswers (x : Lts.Execution Step) : Prop where
  once : ∀ n i, Awaited x n i → ∃! j, ∃ outcome, x.label j = .resolve n outcome
  own : ∀ n j result, x.label j = .resolve n (.ok result) →
    ∃ i < j, ∃ k line, line.call = n ∧ x.label i = .report k line result
  atMostOnce : ∀ i j k m line line', x.label i = .execute k line → x.label j = .execute m line' →
    line.call = line'.call → i = j

/-- A call that waits is resolved or times out, whatever its oneshot channel holds. -/
theorem resolves_of_waiting {s : State} {n : Nat} (h : s.phase n = some .waiting) :
    ∃ l t, (∃ outcome, l = .resolve n outcome) ∧ Step s l t := by
  obtain ⟨c, hcaller, hphase⟩ := Option.map_eq_some_iff.mp h
  have hslot : s.slot n = some c.slot := by rw [State.slot, hcaller]; rfl
  cases hc : c.slot with
  | empty => exact ⟨_, _, ⟨_, rfl⟩, .timeout s n c hcaller hphase hc⟩
  | full outcome =>
    rw [hc] at hslot
    exact ⟨_, _, ⟨_, rfl⟩, .wake s n outcome h hslot⟩
  | dropped =>
    rw [hc] at hslot
    exact ⟨_, _, ⟨_, rfl⟩, .orphaned s n h hslot⟩

theorem waiting_step {s t : State} {l : Label} {n : Nat} (hstep : Step s l t)
    (h : s.phase n = some .waiting) :
    (∃ outcome, l = .resolve n outcome) ∨ l = .abandon n ∨ t.phase n = some .waiting := by
  generalize ht : t.phase n = after
  have hmoves := moves_step hstep n
  rw [h, ht] at hmoves
  cases hmoves with
  | kept => exact .inr (.inr rfl)
  | resolve phase outcome => exact .inl ⟨outcome, rfl⟩
  | abandon => exact .inr (.inl rfl)

theorem sending_step {s t : State} {l : Label} {n : Nat} (hstep : Step s l t)
    (h : s.phase n = some .sending) :
    (∃ outcome, l = .resolve n outcome) ∨ l = .abandon n ∨ l = .sent n ∨
      t.phase n = some .sending := by
  generalize ht : t.phase n = after
  have hmoves := moves_step hstep n
  rw [h, ht] at hmoves
  cases hmoves with
  | kept => exact .inr (.inr (.inr rfl))
  | sent => exact .inr (.inr (.inl rfl))
  | resolve phase outcome => exact .inl ⟨outcome, rfl⟩
  | abandon => exact .inr (.inl rfl)

theorem waiting_of_sent {s t : State} {n : Nat} (hstep : Step s (.sent n) t) :
    t.phase n = some .waiting := by
  generalize ht : t.phase n = after
  have hmoves := moves_step hstep n
  rw [ht] at hmoves
  generalize s.phase n = before at hmoves
  cases hmoves with
  | kept _ _ hl => exact absurd rfl hl
  | submit _ hl => exact absurd rfl hl
  | sent => rfl

theorem callers_of_submit {s t : State} {call : Call} (hstep : Step s (.submit call) t) :
    t.callers = s.callers ++ [⟨call, .sending, .empty⟩] := by
  cases hstep
  rfl

theorem sending_of_submit {s t : State} {call : Call} (hstep : Step s (.submit call) t) :
    t.phase s.callers.length = some .sending := by
  simp [State.phase, callers_of_submit hstep]

theorem stopped_step {s t : State} {l : Label} (hstep : Step s l t) (h : s.task = .stopped) :
    t.task = .stopped := by
  have hother {task : Task} (htask : s.task = task) (hne : task ≠ .stopped) : False :=
    hne (htask.symm.trans h)
  cases hstep with
  | connect htask => exact (hother htask nofun).elim
  | connectFailed htask => exact (hother htask nofun).elim
  | reconnect htask => exact (hother htask nofun).elim
  | stop => rfl
  | take v n rest htask => exact (hother htask nofun).elim
  | fileFailed v c id n path err htask => exact (hother htask nofun).elim
  | writeFailed v c link id n err reached htask => exact (hother htask nofun).elim
  | written v c link id n htask => exact (hother htask nofun).elim
  | insert v id n htask => exact (hother htask nofun).elim
  | receive v link report rest htask => exact (hother htask nofun).elim
  | disconnect v htask => exact (hother htask nofun).elim
  | _ => exact h

/-- Only a call that was sent waits. -/
theorem sent_of_waiting {s : State} {ls : List Label} {n : Nat} (h : Lts.Run Step .start ls s)
    (hwaiting : s.phase n = some .waiting) : .sent n ∈ ls := by
  refine Lts.Run.history (I := fun ls (s : State) ↦ s.phase n = some .waiting → .sent n ∈ ls) h
    ?_ ?_ hwaiting
  · intro hstart
    cases hstart
  · intro ls s l t ih hstep hphase
    generalize hs : s.phase n = before at ih
    have hmoves := moves_step hstep n
    rw [hs, hphase] at hmoves
    cases hmoves with
    | kept => exact List.mem_append_left _ (ih rfl)
    | sent => exact List.mem_append_right _ List.mem_cons_self

section

variable {x : Lts.Execution Step}

theorem resolved_once (hstart : x.state 0 = .start) {n j k : Nat} {outcome outcome' : Outcome}
    (hj : x.label j = .resolve n outcome) (hk : x.label k = .resolve n outcome') : j = k := by
  apply Lts.Execution.unique_of_budget (fun s : State ↦ unresolved (s.phase n)) (Label.resolves n)
    (unresolved_step n)
  · rw [hstart]
    exact le_rfl
  · simp [hj, Label.resolves]
  · simp [hk, Label.resolves]

theorem own_result (hstart : x.state 0 = .start) {n j : Nat} {result : CmdResult}
    (hj : x.label j = .resolve n (.ok result)) :
    ∃ i < j, ∃ k line, line.call = n ∧ x.label i = .report k line result := by
  -- the steps before the resolution are a run, and among them is the report
  have hrun := x.run j
  rw [hstart] at hrun
  obtain ⟨-, hgenuine⟩ := genuine_run hrun
  have hstep := x.next j
  rw [hj] at hstep
  have hslot : (x.state j).slot n = some (.full (.ok result)) := by
    generalize x.state (j + 1) = t at hstep
    cases hstep with
    | wake _ _ _ hslot => exact hslot
  obtain ⟨k, line, hcall, hmem⟩ := hgenuine.slots n result hslot
  obtain ⟨i, hi, hlabel⟩ := Lts.Execution.mem_upTo.mp hmem
  exact ⟨i, hi, k, line, hcall, hlabel⟩

theorem executed_once (hstart : x.state 0 = .start) {i j k m : Nat} {line line' : Line}
    (hi : x.label i = .execute k line) (hj : x.label j = .execute m line')
    (hcall : line.call = line'.call) : i = j := by
  -- at the start a call has one chance, and every execution takes one
  apply Lts.Execution.unique_of_budget (State.chances line.call) (Label.executes line.call)
    (chances_step line.call)
  · rw [hstart]
    exact le_rfl
  · simp [hi, Label.executes]
  · simp [hj, Label.executes, hcall]

/-- A call that is resolved had its place, or the task was gone. -/
theorem placed_of_resolved (hstart : x.state 0 = .start) {n j : Nat} {outcome : Outcome}
    (h : x.label j = .resolve n outcome) : Placed x n := by
  have hwas (hwaiting : (x.state j).phase n = some .waiting) : Placed x n := by
    have hrun := x.run j
    rw [hstart] at hrun
    obtain ⟨k, -, hsent⟩ := Lts.Execution.mem_upTo.mp (sent_of_waiting hrun hwaiting)
    exact ⟨k, .inl hsent⟩
  have hstep := x.next j
  rw [h] at hstep
  generalize x.state (j + 1) = t at hstep
  cases hstep with
  | sendFailed _ _ htask => exact ⟨j, .inr htask⟩
  | wake _ _ hphase => exact hwas hphase
  | orphaned _ hphase => exact hwas hphase
  | timeout _ c hcaller hphase => exact hwas (by simp [State.phase, hcaller, hphase])



theorem resolved_of_sent {n i : Nat} (hfair : x.Fair fun l ↦ ∃ outcome, l = .resolve n outcome)
    (hkept : ∀ j, x.label j ≠ .abandon n) (hsent : x.label i = .sent n) :
    ∃ j outcome, x.label j = .resolve n outcome := by
  have hwaiting : (x.state (i + 1)).phase n = some .waiting := waiting_of_sent (hsent ▸ x.next i)
  obtain ⟨j, -, hj⟩ := hfair.eventually (B := fun l ↦ l = .abandon n)
    (P := fun s ↦ s.phase n = some .waiting)
    (fun j hj ↦ resolves_of_waiting hj) (fun j hj ↦ waiting_step (x.next j) hj) hwaiting
  exact ⟨j, hj.resolve_right (hkept j)⟩

/-- A call that is never sent is resolved where the task has stopped. -/
theorem resolved_of_stopped {n i j : Nat}
    (hfair : x.Fair fun l ↦ ∃ outcome, l = .resolve n outcome) (hawaited : Awaited x n i)
    (hunsent : ∀ k, x.label k ≠ .sent n) (hstopped : (x.state j).task = .stopped) :
    ∃ j outcome, x.label j = .resolve n outcome := by
  by_contra hnever
  push Not at hnever
  obtain ⟨⟨call, hsubmit⟩, hnumber, hkept⟩ := hawaited
  have hsending : ∀ k, i + 1 ≤ k → (x.state k).phase n = some .sending := by
    intro k hk
    induction k, hk using Nat.le_induction with
    | base =>
      rw [← hnumber]
      exact sending_of_submit (hsubmit ▸ x.next i)
    | succ k _ ih =>
      rcases sending_step (x.next k) ih with ⟨outcome, hres⟩ | habandon | hsent | hsame
      · exact absurd hres (hnever k outcome)
      · exact absurd habandon (hkept k)
      · exact absurd hsent (hunsent k)
      · exact hsame
  have hgone : ∀ k, j ≤ k → (x.state k).task = .stopped := by
    intro k hk
    induction k, hk using Nat.le_induction with
    | base => exact hstopped
    | succ k _ ih => exact stopped_step (x.next k) ih
  obtain ⟨k, -, outcome, hres⟩ := hfair (max (i + 1) j) fun k hk ↦
    ⟨_, _, ⟨_, rfl⟩, .sendFailed _ n (hsending k ((le_max_left _ _).trans hk))
      (hgone k ((le_max_right _ _).trans hk))⟩
  exact hnever k outcome hres

end

/-- Where the timer of a call that waits runs out in the end, every command gets its own answer if
and only if every command that is submitted gets a place in the channel, for which it waits without
a timer, or finds the connection task gone. -/
theorem ownAnswers_iff (x : Lts.Execution Step) (hstart : x.state 0 = .start)
    (hfair : ∀ n, x.Fair fun l ↦ ∃ outcome, l = .resolve n outcome) :
    OwnAnswers x ↔ ∀ n i, Awaited x n i → Placed x n := by
  constructor
  · intro hown n i hawaited
    obtain ⟨j, ⟨outcome, hj⟩, -⟩ := hown.once n i hawaited
    exact placed_of_resolved hstart hj
  intro hplaced
  refine ⟨fun n i hawaited ↦ ?_, fun n j result ↦ own_result hstart,
    fun i j k m line line' ↦ executed_once hstart⟩
  have hresolved : ∃ j outcome, x.label j = .resolve n outcome := by
    by_cases hsent : ∃ k, x.label k = .sent n
    · obtain ⟨k, hsent⟩ := hsent
      exact resolved_of_sent (hfair n) hawaited.kept hsent
    · push Not at hsent
      obtain ⟨j, hj⟩ := hplaced n i hawaited
      exact resolved_of_stopped (hfair n) hawaited hsent (hj.resolve_left (hsent j))
  obtain ⟨j, outcome, hj⟩ := hresolved
  exact ⟨j, ⟨outcome, hj⟩, fun k ⟨outcome', hk⟩ ↦ resolved_once hstart hk hj⟩

theorem not_resolves {s : State} {n : Nat} {outcome : Outcome}
    (hsending : s.phase n ≠ some .sending ∨ s.task ≠ .stopped)
    (hwaiting : s.phase n ≠ some .waiting) (t : State) : ¬Step s (.resolve n outcome) t := by
  intro hstep
  cases hstep with
  | sendFailed _ hphase htask =>
    rcases hsending with hphase' | htask'
    · exact hphase' hphase
    · exact htask' htask
  | wake _ _ hphase => exact hwaiting hphase
  | orphaned _ hphase => exact hwaiting hphase
  | timeout _ c hcaller hphase =>
    apply hwaiting
    rw [State.phase, hcaller, Option.map_some, hphase]

/-- A room is shown typing: the command goes out on the first connection, and the result comes
back. -/
theorem ownAnswers_typing : ∃ x : Lts.Execution Step,
    x.upTo 10 = [.submit (.command (.typing ⟨"!room"⟩)), .sent 0, .connect, .take 0, .written 0,
      .insert 0, .execute 0 ⟨⟨1, .typing ⟨"!room"⟩⟩, 0⟩,
      .report 0 ⟨⟨1, .typing ⟨"!room"⟩⟩, 0⟩ (.done 1), .receive ⟨.done 1, 0⟩,
      .resolve 0 (.ok (.done 1))] ∧ OwnAnswers x := by
  have hrun := (((((((((Lts.Run.single
    (Step.submit .start (.command (.typing ⟨"!room"⟩)))).snoc
    (Step.sent _ 0 rfl (by simp [State.start]) (by decide))).snoc
    (Step.connect _ rfl)).snoc
    (Step.take _ _ 0 [] rfl rfl rfl)).snoc
    (Step.written _ _ _ _ 1 0 rfl rfl rfl rfl)).snoc
    (Step.insert _ _ 1 0 rfl rfl)).snoc
    (Step.execute _ 0 _ _ [] rfl rfl rfl rfl)).snoc
    (Step.report _ 0 _ _ (.done 1) rfl rfl rfl)).snoc
    (Step.receive _ _ _ _ [] rfl rfl rfl rfl)).snoc
    (Step.wake _ 0 (.ok (.done 1)) rfl rfl)
  obtain ⟨x, hstart, hlabels, hstates, hrest⟩ := hrun.then (.repeated (Step.idle _)) rfl
  have hupTo : x.upTo 10 = _ := hlabels
  refine ⟨x, hupTo, (ownAnswers_iff x hstart fun n i hpossible ↦ ?_).mpr ?_⟩
  · -- at the end, no call is under way
    obtain ⟨l, t, ⟨outcome, rfl⟩, hstep⟩ := hpossible (10 + i) (by omega)
    have hend : x.state (10 + i) =
        ⟨[⟨.command (.typing ⟨"!room"⟩), .resolved (.ok (.done 1)), .full (.ok (.done 1))⟩], [],
          .serving ⟨0, [], 2, none⟩, [.new]⟩ := hstates i
    rw [hend] at hstep
    refine absurd hstep (not_resolves (.inl ?_) ?_ t)
    · cases n <;> simp [State.phase]
    · cases n <;> simp [State.phase]
  · rintro n i ⟨⟨call, hsubmit⟩, hnumber, -⟩
    -- the one call is the first step
    obtain rfl : i = 0 := by
      rcases Nat.lt_or_ge i 10 with hlt | hge
      · have hget := x.getElem?_upTo hlt
        rw [hupTo, hsubmit] at hget
        interval_cases i <;> first | rfl | cases hget
      · obtain ⟨k, rfl⟩ := Nat.exists_eq_add_of_le hge
        have hidle : x.label (10 + k) = .idle := hrest k
        rw [hsubmit] at hidle
        cases hidle
    obtain rfl : n = 0 := by
      rw [hstart] at hnumber
      exact hnumber.symm
    have hget := x.getElem?_upTo (show 1 < 10 by decide)
    rw [hupTo] at hget
    exact ⟨1, .inl (Option.some.inj hget).symm⟩

def typist (phase : Phase) : Caller := ⟨.command (.typing ⟨"!room"⟩), phase, .empty⟩

/-- Calls made one after the other while nothing is taken from the channel: each runs into its
timer. -/
def timedOut : Nat → List Label
  | 0 => []
  | k + 1 => timedOut k ++ [.submit (.command (.typing ⟨"!room"⟩)), .sent k,
      .resolve k (.error (.timeout 60))]

/-- Their commands keep their places. -/
def State.filled (k : Nat) : State where
  callers := List.replicate k (typist (.resolved (.error (.timeout 60))))
  channel := (List.range k).map .command
  task := .away
  links := []

theorem modify_concat {α : Type} (l : List α) (a : α) (f : α → α) {n : Nat} (h : l.length = n) :
    (l ++ [a]).modify n f = l ++ [f a] := by
  subst h
  induction l with
  | nil => rfl
  | cons b l ih => exact congrArg (b :: ·) ih

theorem run_timedOut {k : Nat} (h : k ≤ channelPlaces) :
    Lts.Run Step .start (timedOut k) (.filled k) := by
  induction k with
  | zero => exact .nil _
  | succ k ih =>
    have hlength : (State.filled k).callers.length = k := List.length_replicate
    have hplaces : (State.filled k).channel.length = k := by simp [State.filled]
    let filled (phase : Phase) (channel : List Outgoing) : State :=
      { State.filled k with
        callers := (State.filled k).callers ++ [typist phase]
        channel := channel }
    have hcaller (phase : Phase) (channel : List Outgoing) :
        (filled phase channel).callers[k]? = some (typist phase) := by
      simp [filled, State.filled]
    have hset (phase phase' : Phase) (channel : List Outgoing) :
        (filled phase channel).setPhase k phase' = filled phase' channel := by
      unfold State.setPhase
      rw [show (filled phase channel).callers = (State.filled k).callers ++ [typist phase] from rfl,
        modify_concat _ _ _ hlength]
      rfl
    have hsubmit : Step (.filled k) (.submit (.command (.typing ⟨"!room"⟩)))
        (filled .sending (State.filled k).channel) := .submit _ _
    have hsent := Step.sent (filled .sending (State.filled k).channel) k
      (by simp [State.phase, hcaller, typist]) nofun (hplaces.trans_lt h)
    rw [hset] at hsent
    have htimeout := Step.timeout (filled .waiting ((State.filled k).channel ++ [.command k])) k _
      (hcaller _ _) rfl rfl
    rw [hset] at htimeout
    have hrun := (((ih (by omega)).snoc hsubmit).snoc hsent).snoc htimeout
    rw [List.append_assoc, List.append_assoc] at hrun
    have hend : filled (.resolved (.error (.timeout (typist .waiting).call.timeout)))
        ((State.filled k).channel ++ [.command k]) = .filled (k + 1) := by
      simp [filled, State.filled, List.replicate_succ', List.range_succ]
      rfl
    rw [hend] at hrun
    exact hrun

theorem mem_timedOut {k : Nat} {l : Label} (h : l ∈ timedOut k) :
    (∃ call, l = .submit call) ∨ ∃ n < k, l = .sent n ∨ ∃ outcome, l = .resolve n outcome := by
  induction k with
  | zero => cases h
  | succ k ih =>
    rcases List.mem_append.mp h with hold | hnew
    · rcases ih hold with hsubmit | ⟨n, hn, hl⟩
      · exact .inl hsubmit
      · exact .inr ⟨n, by omega, hl⟩
    · simp only [List.mem_cons, List.not_mem_nil, or_false] at hnew
      rcases hnew with rfl | rfl | rfl
      · exact .inl ⟨_, rfl⟩
      · exact .inr ⟨k, by omega, .inl rfl⟩
      · exact .inr ⟨k, by omega, .inr ⟨_, rfl⟩⟩

theorem length_timedOut (k : Nat) : (timedOut k).length = 3 * k := by
  induction k with
  | zero => rfl
  | succ k ih => simp [timedOut, ih, Nat.mul_succ]

/-- The ready file never comes, and one call more is made than the channel has places: it waits
forever, without a timer. -/
theorem unanswered : ∃ x : Lts.Execution Step, x.state 0 = .start ∧
    (∀ n, x.Fair fun l ↦ ∃ outcome, l = .resolve n outcome) ∧ Awaited x 32 96 ∧
    (∀ j outcome, x.label j ≠ .resolve 32 outcome) ∧ ¬OwnAnswers x := by
  have hrun := (run_timedOut (k := 32) le_rfl).snoc
    (Step.submit _ (.command (.typing ⟨"!room"⟩)))
  obtain ⟨x, hstart, hlabels, hstates, hrest⟩ := hrun.then (.repeated (Step.idle _)) rfl
  have hlength : (timedOut 32 ++ [Label.submit (.command (.typing ⟨"!room"⟩))]).length = 97 := by
    simp [length_timedOut]
  have hlabel (j : Nat) : (∃ call, x.label j = .submit call) ∨ x.label j = .idle ∨
      ∃ n < 32, x.label j = .sent n ∨ ∃ outcome, x.label j = .resolve n outcome := by
    rcases Lts.Execution.label_mem_or hlabels hrest j with hmem | ⟨i, hidle⟩
    · rcases List.mem_append.mp hmem with hold | hlast
      · exact (mem_timedOut hold).imp_right .inr
      · exact .inl ⟨_, List.mem_singleton.mp hlast⟩
    · exact .inr (.inl hidle)
  have hkept : ∀ j, x.label j ≠ .abandon 32 := by
    intro j habandon
    rcases hlabel j with ⟨call, hl⟩ | hl | ⟨n, -, hl | ⟨outcome, hl⟩⟩ <;> rw [habandon] at hl <;>
      cases hl
  have hunresolved : ∀ j outcome, x.label j ≠ .resolve 32 outcome := by
    intro j outcome hresolve
    rcases hlabel j with ⟨call, hl⟩ | hl | ⟨n, hn, hl | ⟨outcome', hl⟩⟩ <;> rw [hresolve] at hl <;>
      cases hl
    exact absurd hn (Nat.lt_irrefl 32)
  rw [hlength] at hlabels hstates
  have hsubmit : x.label 96 = .submit (.command (.typing ⟨"!room"⟩)) := by
    rw [x.upTo_succ 96] at hlabels
    exact List.singleton_inj.mp (List.append_inj' hlabels rfl).2
  have hawaited : Awaited x 32 96 := by
    refine ⟨⟨_, hsubmit⟩, ?_, hkept⟩
    have hcallers := callers_of_submit (hsubmit ▸ x.next 96)
    rw [show x.state (96 + 1) = _ from hstates 0] at hcallers
    have hcount := congrArg List.length hcallers
    simp [Lts.Execution.repeated, State.filled] at hcount
    exact hcount
  refine ⟨x, hstart, fun n i hpossible ↦ ?_, hawaited, hunresolved, fun hown ↦ ?_⟩
  · -- at the end, the calls with a timer are resolved, and the last one has none
    obtain ⟨l, t, ⟨outcome, rfl⟩, hstep⟩ := hpossible (97 + i) (by omega)
    have hstuck : x.state (97 + i) =
        { State.filled 32 with
          callers := (State.filled 32).callers ++ [typist .sending] } := hstates i
    rw [hstuck] at hstep
    refine absurd hstep (not_resolves (.inr ?_) (fun hwaiting ↦ ?_) t)
    · exact fun htask ↦ nomatch htask
    · obtain ⟨c, hc, hphase⟩ := Option.map_eq_some_iff.mp hwaiting
      rcases List.mem_append.mp (List.mem_of_getElem? hc) with hold | hlast
      · obtain rfl := List.eq_of_mem_replicate hold
        cases hphase
      · obtain rfl := List.mem_singleton.mp hlast
        cases hphase
  · obtain ⟨j, ⟨outcome, hj⟩, -⟩ := hown.once 32 96 hawaited
    exact hunresolved j outcome hj

end Commands

end Silta
