import Silta.Lib.Lts
import Silta.Registry

/-!
# Delivery

The daemon's delivery as a step relation.  Its atomic steps are the lock-protected sections of the
registry, so that a dispatch, a taking of the backlog and the drop of a claim can each be caught
half done, with any number of connections, two of one session included.
-/

namespace Silta

namespace Delivery

/-- A message on its way to a session, with its timestamp. -/
structure Dispatch where
  session : String
  ts : Nat
  event : Event
  deriving DecidableEq

/-- How far the task of a connection has come. -/
inductive Stage
  /-- The name is claimed and the welcome is being written. -/
  | claimed
  /-- `take_backlog` has drained the backlog and not extended the list in flight yet. -/
  | drained (items : List (Nat × Event))
  /-- The queued events are being written. -/
  | handing (rest : List (Nat × Event))
  | serving
  /-- The claim is being dropped: the name is free. -/
  | leaving
  /-- The claim is being dropped: what was in flight is taken and not back in the backlog yet. -/
  | restoring (items : List (Nat × Event))
  | gone
  deriving DecidableEq

namespace Stage

/-- The items that the step in progress holds. -/
def held : Stage → List (Nat × Event)
  | .drained items => items
  | .restoring items => items
  | _ => []

/-- The task can end here: a failed write, the end of the input, or a cancelled daemon. -/
def mayLeave : Stage → Bool
  | .claimed | .handing _ | .serving => true
  | _ => false

theorem held_of_mayLeave {stage : Stage} (h : stage.mayLeave = true) : stage.held = [] := by
  cases stage with
  | drained => cases h
  | restoring => cases h
  | _ => rfl

end Stage

structure Conn where
  session : String
  channel : Nat
  stage : Stage
  /-- The writer task was spawned; it owns the receiving end of the channel. -/
  writer : Bool
  deriving DecidableEq

structure State where
  registry : Registry
  conns : List Conn
  /-- The dispatches that found their session away and have not queued their event yet. -/
  pending : Multiset Dispatch

def State.init (maxAgeMs : Nat) : State where
  registry := Registry.new maxAgeMs
  conns := []
  pending := 0

/-- What a step does, as far as the caller of the section is told. -/
inductive Label
  | deliver (d : Dispatch) (answer : Except DeliverError Unit)
  | enqueue (d : Dispatch) (waiting evicted : Nat)
  | claim (session : String)
  | drain (session : String) (evicted : Nat)
  | extend
  | write (conn : Nat) (event : Event)
  | serve
  | channel
  | ack (session eventId : String) (found : Option (Nat × Event))
  | release
  | takeInflight
  | restore (session : String) (returned evicted : Nat)

/-- The connection of this number. -/
def State.At (s : State) (i : Nat) (conn : Conn) : Prop := s.conns[i]? = some conn

/-- Put the task of a connection in its next stage. -/
def State.setStage (s : State) (i : Nat) (conn : Conn) (stage : Stage) : State :=
  { s with conns := s.conns.set i { conn with stage := stage } }

def State.setRegistry (s : State) (r : Registry) : State := { s with registry := r }

def State.channelOf (s : State) (conn : Conn) : Channel := s.registry.channels conn.channel

def State.setChannel (s : State) (conn : Conn) (ch : Channel) : State :=
  s.setRegistry (s.registry.setChannel conn.channel ch)

/-- The other half of `dispatch`: what `deliver` answered decides whether the event is queued. -/
def State.afterDeliver (s : State) (d : Dispatch) : Except DeliverError Unit → State
  | .error .notConnected => { s with pending := d ::ₘ s.pending }
  | _ => s

/-- What `deliver` leaves behind is the registry and the connections, whatever it answered. -/
theorem State.afterDeliver_eq (s : State) (d : Dispatch) (answer : Except DeliverError Unit) :
    (s.afterDeliver d answer).conns = s.conns ∧
      (s.afterDeliver d answer).registry = s.registry := by
  unfold State.afterDeliver
  split
  · exact ⟨rfl, rfl⟩
  · exact ⟨rfl, rfl⟩

inductive Step : State → Label → State → Prop
  | deliver {s r answer} (d : Dispatch)
      (h : s.registry.deliver d.session d.event d.ts = (r, answer)) :
      Step s (.deliver d answer) ((s.setRegistry r).afterDeliver d answer)
  | enqueue {s r waiting evicted} (d : Dispatch) (nowMs : Nat) (hd : d ∈ s.pending)
      (h : s.registry.enqueue d.session d.ts d.event nowMs = (r, waiting, evicted)) :
      Step s (.enqueue d waiting evicted)
        { s.setRegistry r with pending := s.pending.erase d }
  | claim {s r} (session : String) (channel : Nat)
      (h : s.registry.claim session = some (channel, r)) :
      Step s (.claim session)
        { s.setRegistry r with
          conns := s.conns ++ [⟨session, channel, .claimed, false⟩] }
  | drain {s r i conn items evicted} (nowMs : Nat) (hi : s.At i conn)
      (hs : conn.stage = .claimed)
      (h : s.registry.drainBacklog conn.session nowMs = (r, items, evicted)) :
      Step s (.drain conn.session evicted) ((s.setRegistry r).setStage i conn (.drained items))
  | extend {s i conn items} (hi : s.At i conn) (hs : conn.stage = .drained items) :
      Step s .extend
        ((s.setRegistry (s.registry.extendInflight conn.session items)).setStage i conn
          (.handing items))
  | hand {s i conn item rest} (hi : s.At i conn)
      (hs : conn.stage = .handing (item :: rest)) :
      Step s (.write i item.2) (s.setStage i conn (.handing rest))
  | serve {s i conn} (hi : s.At i conn) (hs : conn.stage = .handing []) :
      Step s .serve (s.setStage i { conn with writer := true } .serving)
  | writeEvent {s i conn ch event rest} (hi : s.At i conn) (hw : conn.writer = true)
      (hch : s.channelOf conn = ch) (hopen : ch.isOpen = true)
      (hq : ch.queue = .event event :: rest) :
      Step s (.write i event) (s.setChannel conn { ch with queue := rest })
  | writeResult {s i conn ch rest} (hi : s.At i conn) (hw : conn.writer = true)
      (hch : s.channelOf conn = ch) (hopen : ch.isOpen = true)
      (hq : ch.queue = .result :: rest) :
      Step s .channel (s.setChannel conn { ch with queue := rest })
  -- a result that waits for a place holds the freed place before it is queued
  | reserve {s i conn ch} (hi : s.At i conn) (hs : conn.stage = .serving)
      (hch : s.channelOf conn = ch) (hopen : ch.isOpen = true)
      (hroom : ch.queue.length + ch.reserved < SESSION_QUEUE) :
      Step s .channel (s.setChannel conn { ch with reserved := ch.reserved + 1 })
  | sendResult {s i conn ch} (hi : s.At i conn) (hs : conn.stage = .serving)
      (hch : s.channelOf conn = ch) (hheld : 0 < ch.reserved) :
      Step s .channel
        (s.setChannel conn { ch with queue := ch.queue ++ [.result], reserved := ch.reserved - 1 })
  -- the writer task ends, or the task that never spawned one is over
  | close {s i conn ch} (hi : s.At i conn)
      (hw : conn.writer = true ∨ conn.stage = .gone)
      (hch : s.channelOf conn = ch) :
      Step s .channel (s.setChannel conn { ch with isOpen := false })
  | ack {s r i conn found} (eventId : String) (hi : s.At i conn)
      (hs : conn.stage = .serving) (h : s.registry.ack conn.session eventId = (r, found)) :
      Step s (.ack conn.session eventId found) (s.setRegistry r)
  | release {s i conn} (hi : s.At i conn) (hs : conn.stage.mayLeave = true) :
      Step s .release
        ((s.setRegistry (s.registry.release conn.session)).setStage i conn .leaving)
  | takeInflight {s r i conn items} (hi : s.At i conn) (hs : conn.stage = .leaving)
      (h : s.registry.takeInflight conn.session = (r, items)) :
      Step s .takeInflight ((s.setRegistry r).setStage i conn (.restoring items))
  | restore {s r i conn items returned evicted} (nowMs : Nat) (hi : s.At i conn)
      (hs : conn.stage = .restoring items)
      (h : s.registry.restoreBacklog conn.session items nowMs = (r, returned, evicted)) :
      Step s (.restore conn.session returned evicted) ((s.setRegistry r).setStage i conn .gone)

/-! ## Nothing is lost uncounted -/

section Account

variable (k : String)

/-- The items of a session that the step in progress of one connection holds. -/
def heldFor (conn : Conn) : Multiset (Nat × Event) :=
  Registry.shareOf k conn.session ↑conn.stage.held

/-- The items of a session in flight, in its backlog, or held by a step in progress. -/
def custody (s : State) : Multiset (Nat × Event) :=
  s.registry.custody k + (s.conns.map (heldFor k)).sum

/-- The items for which this step makes the dispatch answer that they were delivered or queued. -/
def answered : Label → Multiset (Nat × Event)
  | .deliver d answer => Registry.shareOf k d.session (Registry.accepted answer (d.ts, d.event))
  | .enqueue d _ _ => Registry.shareOf k d.session {(d.ts, d.event)}
  | _ => 0

/-- The item this step acknowledges. -/
def acked : Label → Multiset (Nat × Event)
  | .ack session _ found => Registry.shareOf k session ↑found.toList
  | _ => 0

/-- The number this step reports as evicted. -/
def evicted : Label → Nat
  | .enqueue d _ evicted => if k = d.session then evicted else 0
  | .drain session evicted => if k = session then evicted else 0
  | .restore session _ evicted => if k = session then evicted else 0
  | _ => 0

@[simp] theorem custody_setChannel (s : State) (conn : Conn) (ch : Channel) :
    custody k (s.setChannel conn ch) = custody k s := rfl

/-- Moving one connection on exchanges what its step holds, so an account of the registry and that
step is an account of everything. -/
theorem custody_setStage {s : State} {i : Nat} {conn : Conn} {r : Registry} {writer : Bool}
    {stage : Stage} {credit debit : Multiset (Nat × Event)} (hi : s.At i conn)
    (hr : s.registry.custody k + Registry.shareOf k conn.session ↑conn.stage.held + credit =
      r.custody k + Registry.shareOf k conn.session ↑stage.held + debit) :
    custody k s + credit =
      custody k ((s.setRegistry r).setStage i { conn with writer := writer } stage) + debit := by
  obtain ⟨others, hsum, hset⟩ := Lts.sum_map_eq_add_others (heldFor k) hi
  have hpost : custody k ((s.setRegistry r).setStage i { conn with writer := writer } stage) =
      r.custody k + (Registry.shareOf k conn.session ↑stage.held + others) :=
    congrArg (r.custody k + ·) (hset { conn with writer := writer, stage := stage })
  calc custody k s + credit
      = s.registry.custody k + Registry.shareOf k conn.session ↑conn.stage.held + credit +
          others := by
        rw [custody, hsum, heldFor]
        abel
    _ = custody k ((s.setRegistry r).setStage i { conn with writer := writer } stage) +
          debit := by
        rw [hr, hpost]
        abel

/-- One step: what was in custody and what is answered for are in custody, acknowledged, or among
as many items as the step reports evicted. -/
theorem custody_step {s t : State} {l : Label} (h : Step s l t) :
    ∃ lost, Multiset.card lost = evicted k l ∧
      custody k s + answered k l = custody k t + acked k l + lost := by
  cases h with
  | @deliver r answer d h =>
    have hr := s.registry.custody_deliver k d.session d.event d.ts
    rw [h] at hr
    have ht : custody k ((s.setRegistry r).afterDeliver d answer) =
        r.custody k + (s.conns.map (heldFor k)).sum := by
      unfold State.afterDeliver
      split <;> rfl
    refine ⟨0, rfl, ?_⟩
    rw [ht, hr]
    unfold custody answered acked
    abel
  | @enqueue r waiting n d nowMs hd h =>
    obtain ⟨dropped, hcard, hr⟩ := s.registry.custody_enqueue k d.session d.event d.ts nowMs
    rw [h] at hcard hr
    refine ⟨Registry.shareOf k d.session dropped, ?_, ?_⟩
    · rw [Registry.card_shareOf, hcard]
      rfl
    · change s.registry.custody k + _ + Registry.shareOf k d.session _ = r.custody k + _ + 0 + _
      rw [add_right_comm, hr]
      abel
  | @claim r session channel h =>
    have hr : r.custody k = s.registry.custody k := s.registry.custody_claim k session h
    refine ⟨0, rfl, ?_⟩
    change s.registry.custody k + _ + 0 =
      r.custody k + ((s.conns ++ [_]).map (heldFor k)).sum + 0 + 0
    rw [hr]
    simp [heldFor, Stage.held, Registry.shareOf]
  | @drain r i conn items n nowMs hi hs h =>
    obtain ⟨dropped, hcard, hr⟩ := s.registry.custody_drainBacklog k conn.session nowMs
    rw [h] at hcard hr
    refine ⟨Registry.shareOf k conn.session dropped, ?_, ?_⟩
    · rw [Registry.card_shareOf, hcard]
      rfl
    · rw [add_assoc]
      refine custody_setStage k hi ?_
      rw [hr, hs]
      simp [Stage.held, answered, acked]
  | @extend i conn items hi hs =>
    refine ⟨0, rfl, ?_⟩
    rw [add_assoc]
    refine custody_setStage k hi ?_
    rw [Registry.custody_extendInflight, hs]
    simp [Stage.held, answered, acked]
  | @hand i conn item rest hi hs =>
    refine ⟨0, rfl, ?_⟩
    rw [add_assoc]
    refine custody_setStage k hi ?_
    rw [hs]
    rfl
  | @serve i conn hi hs =>
    refine ⟨0, rfl, ?_⟩
    rw [add_assoc]
    refine custody_setStage k hi ?_
    rw [hs]
    rfl
  | writeEvent | writeResult | reserve | sendResult | close =>
    exact ⟨0, rfl, by simp [answered, acked]⟩
  | @ack r i conn found eventId hi hs h =>
    have hr := s.registry.custody_ack k conn.session eventId
    rw [h] at hr
    refine ⟨0, rfl, ?_⟩
    change s.registry.custody k + _ + 0 = r.custody k + _ + Registry.shareOf k conn.session _ + 0
    rw [hr]
    abel
  | @release i conn hi hs =>
    have hheld : conn.stage.held = [] := Stage.held_of_mayLeave hs
    refine ⟨0, rfl, ?_⟩
    rw [add_assoc]
    refine custody_setStage k hi ?_
    rw [hheld]
    rfl
  | @takeInflight r i conn items hi hs h =>
    have hr := s.registry.custody_takeInflight k conn.session
    rw [h] at hr
    refine ⟨0, rfl, ?_⟩
    rw [add_assoc]
    refine custody_setStage k hi ?_
    rw [hr, hs]
    simp [Stage.held, answered, acked]
  | @restore r i conn items returned n nowMs hi hs h =>
    obtain ⟨dropped, hcard, hr⟩ :=
      s.registry.custody_restoreBacklog k conn.session items nowMs
    rw [h] at hcard hr
    refine ⟨Registry.shareOf k conn.session dropped, ?_, ?_⟩
    · rw [Registry.card_shareOf, hcard]
      rfl
    · rw [add_assoc]
      refine custody_setStage k hi ?_
      rw [hs]
      simpa [Stage.held, answered, acked] using hr

end Account

/-- An ack step finds an item that carries the id of the ack. -/
def Label.AcksOwnId : Label → Prop
  | .ack _ eventId (some item) => item.2.eventId = eventId
  | _ => True

theorem acksOwnId_of_step {s t : State} {l : Label} (h : Step s l t) : l.AcksOwnId := by
  cases h with
  | @ack r i conn found eventId hi hs h =>
    cases found with
    | none => trivial
    | some item =>
      have hfound : (s.registry.ack conn.session eventId).2 = some item := by
        rw [h]
      exact s.registry.ack_eventId conn.session hfound
  | _ => trivial

/-- No event is lost between the daemon and the plugins.  In every reachable state, the events of a
session that dispatch answered for are in flight, in the backlog or held by a step in progress, or
acknowledged, or among as many as were reported evicted; and a further step takes events out of
custody only by an ack of their own id or by reporting them evicted. -/
theorem answered_eq_custody_acked_lost {maxAgeMs : Nat} {ls : List Label} {t : State}
    (h : Lts.Run Step (State.init maxAgeMs) ls t) (k : String) :
    (∃ lost, Multiset.card lost = (ls.map (evicted k)).sum ∧
      (ls.map (answered k)).sum = custody k t + (ls.map (acked k)).sum + lost) ∧
    (∀ l ∈ ls, l.AcksOwnId) ∧
    ∀ l u, Step t l u → l.AcksOwnId ∧ ∃ lost, Multiset.card lost = evicted k l ∧
      custody k t + answered k l = custody k u + acked k l + lost := by
  refine ⟨?_, h.forall_label Label.AcksOwnId fun _ _ _ ↦ acksOwnId_of_step,
    fun l u hl ↦ ⟨acksOwnId_of_step hl, custody_step k hl⟩⟩
  obtain ⟨lost, hcard, hsum⟩ :=
    h.ledger Multiset.cardHom (custody k) (answered k) (acked k) (evicted k)
      fun _ _ _ hl ↦ custody_step k hl
  have hinit : custody k (State.init maxAgeMs) = 0 := rfl
  rw [hinit, zero_add] at hsum
  exact ⟨lost, hcard, hsum⟩

/-- A message for a session that is away. -/
def awayMessage : Dispatch where
  session := "bob"
  ts := 1000
  event := {
    kind := .message
    person := "Bob"
    role := .owner
    sender := "@bob:silta.test"
    roomId := "!dm:silta.test"
    room := .dm
    eventId := "$1"
    ts := "2026-09-06T10:00:00Z"
    inReplyTo := none
    thread := none
    reactsTo := none
    text := "hello"
    transcribed := false
    attachments := [] }

theorem answered_eq_custody_acked_lost_away :
    ∃ t, ∃ lost : Multiset (Nat × Event), Multiset.card lost = 0 ∧
      {(1000, awayMessage.event)} = custody "bob" t + 0 + lost := by
  have hdeliver : Step (State.init 3600000) (.deliver awayMessage (.error .notConnected))
      { State.init 3600000 with pending := {awayMessage} } :=
    Step.deliver awayMessage rfl
  have henqueue := Step.enqueue (s := { State.init 3600000 with pending := {awayMessage} })
    awayMessage 2000 (Multiset.mem_singleton_self _) rfl
  have hrun := (Lts.Run.single hdeliver).snoc henqueue
  exact ⟨_, (answered_eq_custody_acked_lost hrun "bob").1⟩

end Delivery

end Silta
