import Silta.Lib.Lts

/-!
# The queues inside the plugin

The connection task, which forwards the daemon's events and writes what the plugin has to say, and
the pump, which takes the events, notifies Claude Code and queues the acknowledgements, with the two
bounded channels between them.
-/

namespace Silta

namespace PluginQueues

/-- The sizes and the traffic that do not change. -/
structure Setup where
  eventPlaces : Nat
  commandPlaces : Nat
  eventPlaces_pos : 0 < eventPlaces
  commandPlaces_pos : 0 < commandPlaces
  /-- The event ids that the daemon sends. -/
  incoming : List String
  /-- How many tool calls Claude Code makes. -/
  calls : Nat

inductive Outgoing
  | ack (eventId : String)
  | command
  deriving DecidableEq, Repr

/-- Where `serve` is. -/
inductive Serve
  | selecting
  /-- In `events.send`. -/
  | forwarding (eventId : String)
  | writing (out : Outgoing)
  /-- The loop is left: the receiver of the events is gone. -/
  | ended
  deriving DecidableEq, Repr

inductive Pump
  | receiving
  | notifying (eventId : String)
  /-- In the `send` of the acknowledgement. -/
  | acking (eventId : String)
  | stopped
  deriving DecidableEq, Repr

structure State where
  read : Nat
  called : Nat
  serve : Serve
  pump : Pump
  events : List String
  commands : List Outgoing
  deriving DecidableEq, Repr

def State.init : State where
  read := 0
  called := 0
  serve := .selecting
  pump := .receiving
  events := []
  commands := []

inductive Act
  | read
  | forward
  | gone
  | receive
  | notify
  | stop
  | ack
  | call
  | take
  | written
  deriving DecidableEq, Repr

inductive Step (c : Setup) : State → Act → State → Prop
  | read (s : State) (eventId : String) (hserve : s.serve = .selecting)
      (hnext : c.incoming[s.read]? = some eventId) :
      Step c s .read { s with read := s.read + 1, serve := .forwarding eventId }
  | forward (s : State) (eventId : String) (hserve : s.serve = .forwarding eventId)
      (hpump : s.pump ≠ .stopped) (hroom : s.events.length < c.eventPlaces) :
      Step c s .forward { s with serve := .selecting, events := s.events ++ [eventId] }
  | gone (s : State) (eventId : String) (hserve : s.serve = .forwarding eventId)
      (hpump : s.pump = .stopped) : Step c s .gone { s with serve := .ended }
  | receive (s : State) (eventId : String) (rest : List String) (hpump : s.pump = .receiving)
      (hevents : s.events = eventId :: rest) :
      Step c s .receive { s with pump := .notifying eventId, events := rest }
  | notify (s : State) (eventId : String) (hpump : s.pump = .notifying eventId) :
      Step c s .notify { s with pump := .acking eventId }
  /-- Claude Code cannot be notified. -/
  | stop (s : State) (eventId : String) (hpump : s.pump = .notifying eventId) :
      Step c s .stop { s with pump := .stopped }
  | ack (s : State) (eventId : String) (hpump : s.pump = .acking eventId)
      (hroom : s.commands.length < c.commandPlaces) :
      Step c s .ack { s with pump := .receiving, commands := s.commands ++ [.ack eventId] }
  | call (s : State) (hcalls : s.called < c.calls) (hroom : s.commands.length < c.commandPlaces) :
      Step c s .call { s with called := s.called + 1, commands := s.commands ++ [.command] }
  | take (s : State) (out : Outgoing) (rest : List Outgoing) (hserve : s.serve = .selecting)
      (hcommands : s.commands = out :: rest) :
      Step c s .take { s with serve := .writing out, commands := rest }
  | written (s : State) (out : Outgoing) (hserve : s.serve = .writing out) :
      Step c s .written { s with serve := .selecting }

/-- The connection task waits for a place among the events while the pump waits for one among the
commands. -/
def Deadlocked (c : Setup) (s : State) : Prop :=
  (∃ eventId, s.serve = .forwarding eventId) ∧ s.events.length = c.eventPlaces ∧
    (∃ eventId, s.pump = .acking eventId) ∧ s.commands.length = c.commandPlaces

/-! ## How many events are on the way -/

def Serve.held : Serve → Nat
  | .forwarding _ => 1
  | _ => 0

def Pump.held : Pump → Nat
  | .notifying _ | .acking _ => 1
  | _ => 0

/-- The events in the plugin. -/
def State.inside (s : State) : Nat := s.serve.held + s.events.length + s.pump.held

/-- What is in the plugin and in the channel of commands came in as an event or as a call. -/
structure Counted (c : Setup) (s : State) : Prop where
  read : s.read ≤ c.incoming.length
  called : s.called ≤ c.calls
  inside : s.inside ≤ s.read
  commands : s.inside + s.commands.length ≤ s.read + s.called

theorem counted_init (c : Setup) : Counted c .init := by
  constructor <;> simp [State.init, State.inside, Serve.held, Pump.held]

theorem counted_step {c : Setup} {s t : State} {a : Act} (h : Counted c s) (hstep : Step c s a t) :
    Counted c t := by
  obtain ⟨hread, hcalled, hinside, hcommands⟩ := h
  unfold State.inside at hinside hcommands
  -- an event moves on inside, or goes out into the channel of commands
  cases hstep with
  | read eventId hserve hnext =>
    have hlt : s.read < c.incoming.length := (List.getElem?_eq_some_iff.mp hnext).1
    rw [hserve] at hinside hcommands
    constructor <;> simp only [State.inside, Serve.held] at * <;> omega
  | forward eventId hserve hpump hroom =>
    rw [hserve] at hinside hcommands
    constructor <;> simp only [State.inside, Serve.held, List.length_append, List.length_cons,
      List.length_nil] at * <;> omega
  | gone eventId hserve hpump =>
    rw [hserve] at hinside hcommands
    constructor <;> simp only [State.inside, Serve.held] at * <;> omega
  | receive eventId rest hpump hevents =>
    rw [hpump, hevents] at hinside hcommands
    constructor <;> simp only [State.inside, Pump.held, List.length_cons] at * <;> omega
  | notify eventId hpump | stop eventId hpump =>
    rw [hpump] at hinside hcommands
    constructor <;> simp only [State.inside, Pump.held] at * <;> omega
  | ack eventId hpump hroom =>
    rw [hpump] at hinside hcommands
    constructor <;> simp only [State.inside, Pump.held, List.length_append, List.length_cons,
      List.length_nil] at * <;> omega
  | call hcalls hroom =>
    constructor <;> simp only [State.inside, List.length_append, List.length_cons,
      List.length_nil] at * <;> omega
  | take out rest hserve hcommands' =>
    rw [hcommands', List.length_cons] at hcommands
    rw [hserve] at hinside hcommands
    constructor <;> simp only [State.inside, Serve.held] at * <;> omega
  | written out hserve =>
    rw [hserve] at hinside hcommands
    constructor <;> simp only [State.inside, Serve.held] at * <;> omega

theorem counted_of_reaches {c : Setup} {s : State} (h : Lts.Reaches (Step c) .init s) :
    Counted c s := by
  obtain ⟨as, hrun⟩ := h
  exact hrun.invariant (I := Counted c) (P := fun _ ↦ True) (fun _ _ _ hs _ ↦ counted_step hs)
    (counted_init c) fun _ _ ↦ trivial

/-- A deadlock takes that many events. -/
theorem le_of_deadlocked {c : Setup} {s : State} (h : Lts.Reaches (Step c) .init s)
    (hdead : Deadlocked c s) :
    c.eventPlaces + 2 + (c.commandPlaces - c.calls) ≤ c.incoming.length := by
  obtain ⟨hread, hcalled, hinside, hcommands⟩ := counted_of_reaches h
  obtain ⟨⟨eventId, hserve⟩, hevents, ⟨acked, hpump⟩, hfull⟩ := hdead
  unfold State.inside at hinside hcommands
  rw [hserve, hevents, hpump] at hinside hcommands
  rw [hfull] at hcommands
  simp only [Serve.held, Pump.held] at hinside hcommands
  omega

/-! ## The way into the deadlock -/

section Way

variable {c : Setup}

theorem reaches_calls {n : Nat} (hcalls : n ≤ c.calls) (hroom : n ≤ c.commandPlaces) :
    Lts.Reaches (Step c) .init ⟨0, n, .selecting, .receiving, [], List.replicate n .command⟩ := by
  induction n with
  | zero => exact .refl _
  | succ n ih =>
    have hprev := ih (by omega) (by omega)
    have hstep := Step.call (c := c) ⟨0, n, .selecting, .receiving, [], List.replicate n .command⟩
      hcalls (by rw [List.length_replicate]; omega)
    rw [List.replicate_succ']
    exact hprev.trans (.single hstep)

theorem reaches_queue {read called : Nat} {pump : Pump} {events : List String}
    {commands : List Outgoing} {eventId : String} (hnext : c.incoming[read]? = some eventId)
    (hpump : pump ≠ .stopped) (hroom : events.length < c.eventPlaces) :
    Lts.Reaches (Step c) ⟨read, called, .selecting, pump, events, commands⟩
      ⟨read + 1, called, .selecting, pump, events ++ [eventId], commands⟩ :=
  .head (.read ⟨read, called, .selecting, pump, events, commands⟩ eventId rfl hnext)
    (.single (.forward ⟨read + 1, called, .forwarding eventId, pump, events, commands⟩ eventId rfl
      hpump hroom))

theorem reaches_acking {read called : Nat} {serve : Serve} {events : List String}
    {commands : List Outgoing} {eventId : String} :
    Lts.Reaches (Step c) ⟨read, called, serve, .receiving, eventId :: events, commands⟩
      ⟨read, called, serve, .acking eventId, events, commands⟩ :=
  .head (.receive ⟨read, called, serve, .receiving, eventId :: events, commands⟩ eventId events rfl
      rfl)
    (.single (.notify ⟨read, called, serve, .notifying eventId, events, commands⟩ eventId rfl))

/-- One event goes all the way to where its acknowledgement is to be queued. -/
theorem reaches_through {read called : Nat} {commands : List Outgoing} {eventId : String}
    (hnext : c.incoming[read]? = some eventId) :
    Lts.Reaches (Step c) ⟨read, called, .selecting, .receiving, [], commands⟩
      ⟨read + 1, called, .selecting, .acking eventId, [], commands⟩ := by
  have hqueue : Lts.Reaches (Step c) ⟨read, called, .selecting, .receiving, [], commands⟩
      ⟨read + 1, called, .selecting, .receiving, [eventId], commands⟩ :=
    reaches_queue hnext (by simp) c.eventPlaces_pos
  exact hqueue.trans reaches_acking

theorem reaches_acks {called n : Nat} (hcalls : called ≤ c.calls)
    (hroom : called + n ≤ c.commandPlaces) (hn : n ≤ c.incoming.length) :
    ∃ commands, commands.length = called + n ∧
      Lts.Reaches (Step c) .init ⟨n, called, .selecting, .receiving, [], commands⟩ := by
  -- over the events, each of which leaves its acknowledgement behind
  induction n with
  | zero => exact ⟨_, by simp, reaches_calls hcalls (by omega)⟩
  | succ n ih =>
    obtain ⟨commands, hlen, hprev⟩ := ih (by omega) (by omega)
    have hnext : c.incoming[n]? = some c.incoming[n] := List.getElem?_eq_getElem hn
    have hack := Step.ack (c := c)
      ⟨n + 1, called, .selecting, .acking c.incoming[n], [], commands⟩ _ rfl (by
        show commands.length < _
        omega)
    refine ⟨commands ++ [.ack c.incoming[n]], ?_, ?_⟩
    · rw [List.length_append, hlen]
      rfl
    · exact (hprev.trans (reaches_through hnext)).trans (.single hack)

theorem reaches_fill {read called n : Nat} {pump : Pump} {commands : List Outgoing}
    (hpump : pump ≠ .stopped) (hroom : n ≤ c.eventPlaces) (hn : read + n ≤ c.incoming.length) :
    ∃ events, events.length = n ∧
      Lts.Reaches (Step c) ⟨read, called, .selecting, pump, [], commands⟩
        ⟨read + n, called, .selecting, pump, events, commands⟩ := by
  induction n with
  | zero => exact ⟨[], rfl, .refl _⟩
  | succ n ih =>
    obtain ⟨events, hlen, hprev⟩ := ih (by omega) (by omega)
    have hlt : read + n < c.incoming.length := by omega
    have hnext : c.incoming[read + n]? = some c.incoming[read + n] := List.getElem?_eq_getElem hlt
    refine ⟨events ++ [c.incoming[read + n]], ?_, ?_⟩
    · rw [List.length_append, hlen]
      rfl
    · exact hprev.trans (reaches_queue hnext hpump (by omega))

theorem exists_deadlocked
    (h : c.eventPlaces + 2 + (c.commandPlaces - c.calls) ≤ c.incoming.length) :
    ∃ s, Lts.Reaches (Step c) .init s ∧ Deadlocked c s := by
  -- the calls that fit go first, and acknowledgements take the other places
  have hcalled : min c.calls c.commandPlaces ≤ c.calls := min_le_left _ _
  obtain ⟨commands, hlen, hacks⟩ := reaches_acks (c := c) (n := c.commandPlaces - c.calls) hcalled
    (by omega) (by omega)
  have hfull : commands.length = c.commandPlaces := by omega
  -- one more event is stuck in the pump
  have hlt : c.commandPlaces - c.calls < c.incoming.length := by omega
  have hpump := hacks.trans (reaches_through (List.getElem?_eq_getElem hlt))
  -- and those behind it fill the channel of events
  obtain ⟨events, hevents, hfill⟩ : ∃ events, events.length = c.eventPlaces ∧
      Lts.Reaches (Step c)
        ⟨c.commandPlaces - c.calls + 1, min c.calls c.commandPlaces, .selecting,
          .acking c.incoming[c.commandPlaces - c.calls], [], commands⟩
        ⟨c.commandPlaces - c.calls + 1 + c.eventPlaces, min c.calls c.commandPlaces, .selecting,
          .acking c.incoming[c.commandPlaces - c.calls], events, commands⟩ := by
    apply reaches_fill
    · simp
    · exact le_refl _
    · omega
  have hlt' : c.commandPlaces - c.calls + 1 + c.eventPlaces < c.incoming.length := by omega
  have hread := Step.read (c := c) ⟨c.commandPlaces - c.calls + 1 + c.eventPlaces,
    min c.calls c.commandPlaces, .selecting, .acking c.incoming[c.commandPlaces - c.calls], events,
    commands⟩ _ rfl (List.getElem?_eq_getElem hlt')
  exact ⟨_, (hpump.trans hfill).trans (.single hread), ⟨_, rfl⟩, hevents, ⟨_, rfl⟩, hfull⟩

end Way

/-- The plugin never deadlocks exactly where too few events come to fill both channels: those of the
channel of events, one in the hands of each task, and the acknowledgements in the places that the
tool calls leave. -/
theorem noDeadlock_iff (c : Setup) :
    (∀ s, Lts.Reaches (Step c) .init s → ¬Deadlocked c s) ↔
      c.incoming.length < c.eventPlaces + 2 + (c.commandPlaces - c.calls) := by
  constructor
  · intro h
    by_contra hmany
    obtain ⟨s, hreaches, hdead⟩ := exists_deadlocked (not_lt.mp hmany)
    exact h s hreaches hdead
  · intro hfew s hreaches hdead
    exact absurd (le_of_deadlocked hreaches hdead) (not_le.mpr hfew)

theorem deadlocked_stuck {c : Setup} {s t : State} {a : Act} (h : Deadlocked c s) :
    ¬Step c s a t := by
  obtain ⟨⟨eventId, hserve⟩, hevents, ⟨acked, hpump⟩, hfull⟩ := h
  intro hstep
  cases hstep with
  | read | take | written => simp_all
  | gone | receive | notify | stop => simp_all
  | forward | ack | call => omega

/-- The channels as the plugin makes them, and 290 events that come while no tool is called. -/
def manyEvents : Setup where
  eventPlaces := 256
  commandPlaces := 32
  eventPlaces_pos := by decide
  commandPlaces_pos := by decide
  incoming := (List.range 290).map fun n ↦ "$" ++ toString n
  calls := 0

theorem deadlocked_manyEvents :
    ¬∀ (c : Setup) (s : State), Lts.Reaches (Step c) .init s → ¬Deadlocked c s := by
  intro h
  obtain ⟨s, hreaches, hdead⟩ := exists_deadlocked (c := manyEvents) (by simp [manyEvents])
  exact h manyEvents s hreaches hdead

end PluginQueues

end Silta
