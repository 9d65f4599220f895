import Mathlib.Algebra.Order.Group.Multiset
import Mathlib.Logic.Function.Basic
import Mathlib.Tactic.Abel
import Silta.Backlog
import Silta.Protocol

/-!
# Registry

Which sessions are connected, the queue to each, the events each connection has been handed and
not acknowledged yet, and the backlog of a session that is away.  Each function below is one
lock-protected section of the source.
-/

namespace Silta

/-- Messages kept for a session that is not connected, per session. -/
def BACKLOG_MAX : Nat := 100

/-- Outbound queue size per connected session. -/
def SESSION_QUEUE : Nat := 256

/-- What goes through the queue to a connection's writer. -/
inductive Outbound
  | event (event : Event)
  | result
  deriving DecidableEq

inductive TrySendError
  | full
  | closed
  deriving DecidableEq

/-- A bounded channel: what is queued, the places reserved by a send that waited for one, and
whether the receiving end still exists. -/
structure Channel where
  queue : List Outbound
  reserved : Nat
  isOpen : Bool
  deriving DecidableEq

namespace Channel

def new : Channel where
  queue := []
  reserved := 0
  isOpen := true

def trySend (ch : Channel) (m : Outbound) : Except TrySendError Channel :=
  if !ch.isOpen then .error .closed
  else if SESSION_QUEUE ≤ ch.queue.length + ch.reserved then .error .full
  else .ok { ch with queue := ch.queue ++ [m] }

end Channel

inductive DeliverError
  | notConnected
  | queueFull
  deriving DecidableEq

/-- The three maps; a sender is the number of its channel in `channels`. -/
structure Registry where
  inner : String → Option Nat
  backlogs : String → Option (Backlog Event)
  inflight : String → Option (List (Nat × Event))
  maxAgeMs : Nat
  channels : Nat → Channel
  next : Nat

namespace Registry

def new (maxAgeMs : Nat) : Registry where
  inner _ := none
  backlogs _ := none
  inflight _ := none
  maxAgeMs := maxAgeMs
  channels _ := { Channel.new with isOpen := false }
  next := 0

/-- The entry of a session in `inflight`, empty where there is none. -/
def inflightOf (r : Registry) (session : String) : List (Nat × Event) :=
  (r.inflight session).getD []

/-- The entry of a session in `backlogs`, a new one where there is none. -/
def backlogOf (r : Registry) (session : String) : Backlog Event :=
  (r.backlogs session).getD (Backlog.new BACKLOG_MAX r.maxAgeMs)

def setInflight (r : Registry) (session : String) (list : Option (List (Nat × Event))) :
    Registry :=
  { r with inflight := Function.update r.inflight session list }

def setBacklog (r : Registry) (session : String) (backlog : Backlog Event) : Registry :=
  { r with backlogs := Function.update r.backlogs session (some backlog) }

def setChannel (r : Registry) (tx : Nat) (ch : Channel) : Registry :=
  { r with channels := Function.update r.channels tx ch }

/-- Claim a session for a connection; `none` if another connection holds it. -/
def claim (r : Registry) (session : String) : Option (Nat × Registry) :=
  if (r.inner session).isSome then none
  else some (r.next, { r.setChannel r.next Channel.new with
    inner := Function.update r.inner session (some r.next)
    next := r.next + 1 })

/-- Hand an event to a connected session without waiting.  Both locks are held to the end, so the
entry that a failed send takes out again was never seen. -/
def deliver (r : Registry) (session : String) (event : Event) (ts : Nat) :
    Registry × Except DeliverError Unit :=
  match r.inner session with
  | none => (r, .error .notConnected)
  | some tx =>
    let list := r.inflightOf session ++ [(ts, event)]
    -- it is in flight before it is sent
    match (r.channels tx).trySend (.event event) with
    | .ok ch => ((r.setInflight session (some list)).setChannel tx ch, .ok ())
    -- the entry is taken out again
    | .error err => (r.setInflight session (some list.dropLast), .error (match err with
        | .full => .queueFull
        | .closed => .notConnected))

/-- Keep a message for a session that is away; answers how many are waiting and how many were
evicted. -/
def enqueue (r : Registry) (session : String) (ts : Nat) (event : Event) (nowMs : Nat) :
    Registry × Nat × Nat :=
  let (backlog, evicted) := (r.backlogOf session).push ts event nowMs
  (r.setBacklog session backlog, backlog.items.length, evicted)

/-- The first half of `take_backlog`. -/
def drainBacklog (r : Registry) (session : String) (nowMs : Nat) :
    Registry × List (Nat × Event) × Nat :=
  match r.backlogs session with
  | some backlog =>
    let (backlog, items, evicted) := backlog.drain nowMs
    (r.setBacklog session backlog, items, evicted)
  -- no message was ever kept for the session
  | none => (r, [], 0)

/-- The second half of `take_backlog`. -/
def extendInflight (r : Registry) (session : String) (items : List (Nat × Event)) : Registry :=
  if items.isEmpty then r
  else r.setInflight session (some (r.inflightOf session ++ items))

/-- The session acknowledged an event: no longer in flight. -/
def ack (r : Registry) (session eventId : String) : Registry × Option (Nat × Event) :=
  match r.inflight session with
  | none => (r, none)
  | some list =>
    match list.findIdx? (fun item ↦ item.2.eventId == eventId) with
    | none => (r, none)
    | some i => (r.setInflight session (some (list.eraseIdx i)), list[i]?)

/-- The first step of dropping a claim: the name is free again. -/
def release (r : Registry) (session : String) : Registry :=
  { r with inner := Function.update r.inner session none }

/-- The first half of `restore`. -/
def takeInflight (r : Registry) (session : String) : Registry × List (Nat × Event) :=
  (r.setInflight session none, r.inflightOf session)

/-- The second half of `restore`; answers how many went back and how many of those were
evicted. -/
def restoreBacklog (r : Registry) (session : String) (items : List (Nat × Event)) (nowMs : Nat) :
    Registry × Nat × Nat :=
  if items.isEmpty then (r, 0, 0)
  else
    let (backlog, evicted) := (r.backlogOf session).restore items nowMs
    (r.setBacklog session backlog, items.length, evicted)

/-! ## What the sections read and write -/

section Access

variable {r : Registry} {k session : String}

@[simp] theorem inflightOf_setInflight {list : Option (List (Nat × Event))} :
    (r.setInflight session list).inflightOf k =
      if k = session then list.getD [] else r.inflightOf k := by
  unfold inflightOf setInflight
  by_cases h : k = session
  · subst h
    simp
  · simp [h]

@[simp] theorem backlogOf_setInflight {list : Option (List (Nat × Event))} :
    (r.setInflight session list).backlogOf k = r.backlogOf k := rfl

@[simp] theorem inflightOf_setBacklog {backlog : Backlog Event} :
    (r.setBacklog session backlog).inflightOf k = r.inflightOf k := rfl

@[simp] theorem backlogOf_setBacklog {backlog : Backlog Event} :
    (r.setBacklog session backlog).backlogOf k =
      if k = session then backlog else r.backlogOf k := by
  unfold backlogOf setBacklog
  by_cases h : k = session
  · subst h
    simp
  · simp [h]

@[simp] theorem inflightOf_setChannel {tx : Nat} {ch : Channel} :
    (r.setChannel tx ch).inflightOf k = r.inflightOf k := rfl

@[simp] theorem backlogOf_setChannel {tx : Nat} {ch : Channel} :
    (r.setChannel tx ch).backlogOf k = r.backlogOf k := rfl

end Access

/-! ## Custody

What the registry holds for a session, and how each section changes it. -/

/-- The items in flight and in the backlog of a session, in any order. -/
def custody (r : Registry) (session : String) : Multiset (Nat × Event) :=
  ↑(r.inflightOf session) + ↑(r.backlogOf session).items

/-- Items that belong to one session, seen from another: nothing. -/
def shareOf (k session : String) (items : Multiset (Nat × Event)) : Multiset (Nat × Event) :=
  if k = session then items else 0

@[simp] theorem shareOf_self (k : String) (items : Multiset (Nat × Event)) :
    shareOf k k items = items := if_pos rfl

@[simp] theorem shareOf_zero (k session : String) : shareOf k session 0 = 0 := ite_self 0

theorem card_shareOf (k session : String) (items : Multiset (Nat × Event)) :
    Multiset.card (shareOf k session items) = if k = session then Multiset.card items else 0 := by
  unfold shareOf
  split <;> simp

/-- The items a delivery puts in flight. -/
def accepted (answer : Except DeliverError Unit) (item : Nat × Event) : Multiset (Nat × Event) :=
  match answer with
  | .ok () => {item}
  | .error _ => 0

section Sections

variable (r : Registry) (k session : String)

theorem custody_deliver (event : Event) (ts : Nat) :
    (r.deliver session event ts).1.custody k =
      r.custody k + shareOf k session (accepted (r.deliver session event ts).2 (ts, event)) := by
  unfold deliver
  split
  · simp [accepted, shareOf]
  split
  · by_cases h : k = session
    · subst h
      simp only [custody, shareOf_self, accepted, inflightOf_setChannel, inflightOf_setInflight,
        backlogOf_setChannel, backlogOf_setInflight, if_pos, Option.getD_some,
        ← Multiset.coe_add, Multiset.coe_singleton]
      exact add_right_comm _ _ _
    · simp [custody, shareOf, h]
  · by_cases h : k = session
    · subst h
      simp [custody, accepted]
    · simp [custody, shareOf, h]

theorem custody_claim {channel : Nat} {r' : Registry} (h : r.claim session = some (channel, r')) :
    r'.custody k = r.custody k := by
  unfold claim at h
  split at h
  · cases h
  · cases h
    rfl

theorem custody_enqueue (event : Event) (ts nowMs : Nat) :
    ∃ dropped, Multiset.card dropped = (r.enqueue session ts event nowMs).2.2 ∧
      r.custody k + shareOf k session {(ts, event)} =
        (r.enqueue session ts event nowMs).1.custody k + shareOf k session dropped := by
  obtain ⟨dropped, kept, hold, hnew, hcount⟩ :=
    (r.backlogOf session).push_spec ts event nowMs
  refine ⟨↑dropped, by simpa [enqueue] using hcount.symm, ?_⟩
  by_cases h : k = session
  · subst h
    simp only [enqueue, custody, shareOf_self, inflightOf_setBacklog, backlogOf_setBacklog,
      if_pos, hold, hnew, ← Multiset.coe_add, Multiset.coe_singleton]
    abel
  · simp [enqueue, custody, shareOf, h]

theorem custody_drainBacklog (nowMs : Nat) :
    ∃ dropped, Multiset.card dropped = (r.drainBacklog session nowMs).2.2 ∧
      r.custody k = (r.drainBacklog session nowMs).1.custody k +
        shareOf k session ↑(r.drainBacklog session nowMs).2.1 + shareOf k session dropped := by
  unfold drainBacklog
  split
  next backlog hbacklog =>
    obtain ⟨hempty, dropped, hitems, hcount⟩ := backlog.drain_spec nowMs
    refine ⟨↑dropped, by simpa using hcount.symm, ?_⟩
    by_cases h : k = session
    · subst h
      have hof : r.backlogOf k = backlog := by
        simp [backlogOf, hbacklog]
      simp only [custody, shareOf_self, inflightOf_setBacklog, backlogOf_setBacklog, if_pos,
        hof, hempty]
      rw [hitems, ← Multiset.coe_add, Multiset.coe_nil]
      abel
    · simp [custody, shareOf, h]
  · exact ⟨0, rfl, by simp [shareOf]⟩

theorem custody_extendInflight (items : List (Nat × Event)) :
    (r.extendInflight session items).custody k = r.custody k + shareOf k session ↑items := by
  unfold extendInflight
  split
  next hempty =>
    obtain rfl := List.isEmpty_iff.mp hempty
    simp [shareOf]
  · by_cases h : k = session
    · subst h
      simp only [custody, shareOf_self, inflightOf_setInflight, backlogOf_setInflight, if_pos,
        Option.getD_some, ← Multiset.coe_add]
      abel
    · simp [custody, shareOf, h]

/-- An acknowledged item carries the event id of the ack. -/
theorem ack_eventId {eventId : String} {item : Nat × Event}
    (h : (r.ack session eventId).2 = some item) : item.2.eventId = eventId := by
  unfold ack at h
  split at h
  · cases h
  split at h
  · cases h
  next i hi =>
    obtain ⟨hlt, htest, -⟩ := List.findIdx?_eq_some_iff_getElem.mp hi
    obtain rfl := Option.some.inj ((List.getElem?_eq_getElem hlt).symm.trans h)
    exact beq_iff_eq.mp htest

theorem custody_ack (eventId : String) :
    r.custody k = (r.ack session eventId).1.custody k +
      shareOf k session ↑(r.ack session eventId).2.toList := by
  unfold ack
  split
  · simp [shareOf]
  next list hlist =>
    split
    · simp [shareOf]
    next i hi =>
      obtain ⟨hlt, -, -⟩ := List.findIdx?_eq_some_iff_getElem.mp hi
      by_cases h : k = session
      · subst h
        have hof : r.inflightOf k = list := by
          simp [inflightOf, hlist]
        have hperm : (↑list : Multiset (Nat × Event)) = ↑(list.eraseIdx i) + {list[i]} := by
          rw [add_comm, Multiset.singleton_add, Multiset.cons_coe]
          exact Multiset.coe_eq_coe.mpr (List.getElem_cons_eraseIdx_perm hlt).symm
        simp only [custody, shareOf_self, inflightOf_setInflight, backlogOf_setInflight, if_pos,
          Option.getD_some, List.getElem?_eq_getElem hlt, Option.toList_some,
          Multiset.coe_singleton, hof]
        rw [hperm]
        abel
      · simp [custody, shareOf, h]

theorem custody_takeInflight :
    r.custody k = (r.takeInflight session).1.custody k +
      shareOf k session ↑(r.takeInflight session).2 := by
  unfold takeInflight
  by_cases h : k = session
  · subst h
    simp only [custody, shareOf_self, inflightOf_setInflight, backlogOf_setInflight, if_pos,
      Option.getD_none, Multiset.coe_nil]
    abel
  · simp [custody, shareOf, h]

theorem custody_restoreBacklog (items : List (Nat × Event)) (nowMs : Nat) :
    ∃ dropped, Multiset.card dropped = (r.restoreBacklog session items nowMs).2.2 ∧
      r.custody k + shareOf k session ↑items =
        (r.restoreBacklog session items nowMs).1.custody k + shareOf k session dropped := by
  unfold restoreBacklog
  split
  next hempty =>
    obtain rfl := List.isEmpty_iff.mp hempty
    exact ⟨0, rfl, by simp [shareOf]⟩
  · obtain ⟨dropped, hitems, hcount⟩ := (r.backlogOf session).restore_spec items nowMs
    refine ⟨↑dropped, by simpa using hcount.symm, ?_⟩
    by_cases h : k = session
    · subst h
      have hsum : (↑items + ↑(r.backlogOf k).items : Multiset (Nat × Event)) =
          ↑dropped + ↑((r.backlogOf k).restore items nowMs).1.items := by
        rw [Multiset.coe_add, hitems, Multiset.coe_add]
      simp only [custody, shareOf_self, inflightOf_setBacklog, backlogOf_setBacklog, if_pos]
      rw [add_assoc, add_comm _ (items : Multiset (Nat × Event)), hsum]
      abel
    · simp [custody, shareOf, h]

end Sections

end Registry

end Silta
