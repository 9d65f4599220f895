import Silta.ArrivalRuns

/-!
# Nothing vanishes in the daemon

Every message that is let in is with a task, with the delivery, on its way to its mark, marked, or
reported lost; and the daemon, seen from its marks, does what the replay rules say.
-/

namespace Silta

namespace Arrivals

open Delivery (Dispatch custody)
open Registry (shareOf)
open Replay (Marks Clock Verdict Saving Message)

section Load

variable (k : String)

/-- Of a session: the message of a dispatch. -/
def dispatched (dispatch : Dispatch) : Multiset Message :=
  if k = dispatch.session then {messageOf (dispatch.ts, dispatch.event)} else 0

/-- Of a session: the message of a task. -/
def tasked (task : Task) : Multiset Message := dispatched k task.dispatch

/-- Of a session: an acknowledged message. -/
def ofSession (entry : String × Message) : Multiset Message :=
  if k = entry.1 then {entry.2} else 0

/-- The messages of a session that the daemon has: in tasks, dispatched and not queued yet, in the
custody of the delivery, and acknowledged and not marked yet. -/
def load (s : State) : Multiset Message :=
  s.tasks.bind (tasked k) + s.delivery.pending.bind (dispatched k) +
    (custody k s.delivery).map messageOf + s.acking.bind (ofSession k)

/-- What a step lets in. -/
def letIn : Label → Multiset Message
  | .arrive _ _ (some task) => tasked k task
  | _ => 0

/-- What a step marks. -/
def marked : Label → Multiset Message
  | .mark session m _ => ofSession k (session, m)
  | _ => 0

/-- How many messages a step reports lost: evicted from a backlog, refused by a full queue, or
reactions that are not on a message of the bot. -/
def lost (d : Daemon) : Label → Nat
  | .delivery (.deliver dispatch (.error .queueFull)) => if k = dispatch.session then 1 else 0
  | .delivery l => Delivery.evicted k l
  | .reacted dispatch _ found =>
    if reactsToBot d found then 0 else if k = dispatch.session then 1 else 0
  | _ => 0

def Label.isRestart : Label → Bool
  | .restart _ => true
  | _ => false

end Load

section Parts

variable {k : String}

@[simp] theorem tasked_ready (dispatch : Dispatch) :
    tasked k (.ready dispatch) = dispatched k dispatch := rfl

@[simp] theorem tasked_attachment (dispatch : Dispatch) (media : History.Media) :
    tasked k (.attachment dispatch media) = dispatched k dispatch := rfl

@[simp] theorem tasked_reaction (dispatch : Dispatch) (target : String) :
    tasked k (.reaction dispatch target) = dispatched k dispatch := rfl

theorem card_dispatched (dispatch : Dispatch) :
    Multiset.card (dispatched k dispatch) = if k = dispatch.session then 1 else 0 := by
  unfold dispatched
  split <;> rfl

theorem map_shareOf (session : String) (item : Nat × Event) :
    (shareOf k session {item}).map messageOf = ofSession k (session, messageOf item) := by
  unfold shareOf ofSession
  split <;> rfl

theorem bind_erase {α β : Type*} [DecidableEq α] {s : Multiset α} {a : α} (h : a ∈ s)
    (f : α → Multiset β) : s.bind f = f a + (s.erase a).bind f := by
  rw [← Multiset.cons_bind, Multiset.cons_erase h]

/-- A download leaves the message where it is. -/
theorem dispatched_fetchAttachment (d : Daemon) (dispatch : Dispatch) (media : History.Media)
    (f : Fetched) :
    dispatched k { dispatch with event := fetchAttachment d dispatch.event media f } =
      dispatched k dispatch := by
  have hids : (fetchAttachment d dispatch.event media f).roomId = dispatch.event.roomId ∧
      (fetchAttachment d dispatch.event media f).eventId = dispatch.event.eventId := by
    unfold fetchAttachment
    split
    · exact ⟨rfl, rfl⟩
    · split
      · exact ⟨rfl, rfl⟩
      · split <;> exact ⟨rfl, rfl⟩
  simp only [dispatched, messageOf, hids]

/-- What goes through the delivery in a step that dispatches nothing: the messages that leave its
custody are acknowledged or evicted. -/
theorem delivery_step {s t : Delivery.State} {l : Delivery.Label} (h : Delivery.Step s l t)
    (hl : dispatches l = false) :
    ∃ gone, Multiset.card gone = Delivery.evicted k l ∧
      s.pending.bind (dispatched k) + (custody k s).map messageOf =
        t.pending.bind (dispatched k) + (custody k t).map messageOf +
          (marking l).bind (ofSession k) + gone := by
  obtain ⟨dropped, hcard, hsum⟩ := Delivery.custody_step k h
  refine ⟨dropped.map messageOf, by rw [Multiset.card_map, hcard], ?_⟩
  have hmap := congrArg (Multiset.map messageOf) hsum
  simp only [Multiset.map_add] at hmap
  have hacked : (Delivery.acked k l).map messageOf = (marking l).bind (ofSession k) := by
    cases l with
    | ack session eventId found =>
      cases found with
      | none => simp [Delivery.acked, marking, shareOf]
      | some item =>
        simp only [Delivery.acked, marking, Option.toList_some, Multiset.coe_singleton,
          Multiset.singleton_bind, map_shareOf]
    | _ => rfl
  rw [hacked] at hmap
  by_cases henqueue : ∃ d waiting evicted, l = .enqueue d waiting evicted
  · obtain ⟨d, waiting, evicted, rfl⟩ := henqueue
    cases h with
    | enqueue _ nowMs hd henqueue =>
      rw [bind_erase hd (dispatched k)]
      have hshare : (Delivery.answered k (.enqueue d waiting evicted)).map messageOf =
          dispatched k d := by
        simp only [Delivery.answered, map_shareOf]
        rfl
      rw [hshare] at hmap
      calc dispatched k d + (s.pending.erase d).bind (dispatched k) + (custody k s).map messageOf
          = (s.pending.erase d).bind (dispatched k) +
              ((custody k s).map messageOf + dispatched k d) := by abel
        _ = _ := by rw [hmap]; abel
  · -- no other step has to do with the messages on their way to a backlog
    have hpending : t.pending = s.pending := by
      cases h with
      | deliver => cases hl
      | enqueue d => exact absurd ⟨d, _, _, rfl⟩ henqueue
      | _ => rfl
    have hnone : Delivery.answered k l = 0 := by
      cases l with
      | deliver => cases hl
      | enqueue d waiting evicted => exact absurd ⟨d, waiting, evicted, rfl⟩ henqueue
      | _ => rfl
    rw [hnone, Multiset.map_zero, add_zero] at hmap
    rw [hpending, hmap]
    abel

/-- A dispatch is in flight, waits for the backlog, or is lost to a full queue. -/
theorem deliver_step {s t : Delivery.State} {dispatch : Dispatch}
    {answer : Except DeliverError Unit} (h : Delivery.Step s (.deliver dispatch answer) t) :
    ∃ gone, Multiset.card gone =
        (if answer = .error .queueFull then if k = dispatch.session then 1 else 0 else 0) ∧
      dispatched k dispatch + s.pending.bind (dispatched k) + (custody k s).map messageOf =
        t.pending.bind (dispatched k) + (custody k t).map messageOf + gone := by
  obtain ⟨dropped, hcard, hsum⟩ := Delivery.custody_step k h
  obtain rfl : dropped = 0 := Multiset.card_eq_zero.mp hcard
  have hmap := congrArg (Multiset.map messageOf) hsum
  simp only [Multiset.map_add, add_zero, Delivery.acked] at hmap
  cases h with
  | @deliver r answer d h =>
    cases answer with
    | ok u =>
      refine ⟨0, rfl, ?_⟩
      have hshare : (Delivery.answered k (.deliver dispatch (.ok u))).map messageOf =
          dispatched k dispatch := by
        simp only [Delivery.answered, Registry.accepted, map_shareOf]
        rfl
      rw [← hmap, hshare]
      simp only [Delivery.State.afterDeliver, Delivery.State.setRegistry]
      abel
    | error e =>
      have hnone : (Delivery.answered k (.deliver dispatch (.error e))).map messageOf = 0 := by
        simp [Delivery.answered, Registry.accepted]
      rw [← hmap, hnone, add_zero]
      cases e with
      | notConnected =>
        refine ⟨0, rfl, ?_⟩
        simp only [Delivery.State.afterDeliver, Multiset.cons_bind, add_zero]
        rfl
      | queueFull =>
        refine ⟨dispatched k dispatch, card_dispatched dispatch, ?_⟩
        simp only [Delivery.State.afterDeliver, Delivery.State.setRegistry]
        abel

end Parts

section Ledger

variable {d : Daemon} (k : String)

/-- One step without a restart: what the daemon has for a session and what is let in is what it has
then, what is marked, and as many as are reported lost. -/
theorem load_step {s t : State} {l : Label} (hl : l.isRestart = false) (h : Step d s l t) :
    ∃ gone, Multiset.card gone = lost k d l ∧
      load k s + letIn k l = load k t + marked k l + gone := by
  cases h with
  | arrive a =>
    refine ⟨0, rfl, ?_⟩
    cases handle d s.marks s.clock a with
    | none => simp [load, letIn, marked]
    | some task =>
      simp only [load, letIn, marked, Option.toList_some, Multiset.coe_singleton,
        Multiset.add_bind, Multiset.singleton_bind]
      abel
  | fetched dispatch media f hmem =>
    refine ⟨0, rfl, ?_⟩
    simp only [load, letIn, marked, bind_erase hmem, Multiset.cons_bind, tasked_ready,
      tasked_attachment, dispatched_fetchAttachment, add_zero]
  | reacted dispatch target found hmem =>
    cases hbot : reactsToBot d found with
    | true =>
      refine ⟨0, by simp [lost, hbot], ?_⟩
      simp only [load, letIn, marked, bind_erase hmem, Multiset.add_bind,
        Multiset.singleton_bind, tasked_ready, tasked_reaction, if_true, add_zero]
    | false =>
      refine ⟨dispatched k dispatch, by simp [lost, hbot, card_dispatched], ?_⟩
      simp only [load, letIn, marked, bind_erase hmem, tasked_reaction, Bool.false_eq_true,
        if_false, add_zero, zero_add]
      abel
  | dispatch dispatch answer delivery hmem hstep =>
    obtain ⟨gone, hcard, hsum⟩ := deliver_step (k := k) hstep
    refine ⟨gone, ?_, ?_⟩
    · rw [hcard]
      rcases answer with (_ | _) | _ <;> simp [lost, Delivery.evicted]
    · simp only [load, letIn, marked, bind_erase hmem, tasked_ready, add_zero]
      calc dispatched k dispatch + (s.tasks.erase (.ready dispatch)).bind (tasked k) +
              s.delivery.pending.bind (dispatched k) + (custody k s.delivery).map messageOf +
              s.acking.bind (ofSession k)
          = (s.tasks.erase (.ready dispatch)).bind (tasked k) +
              (dispatched k dispatch + s.delivery.pending.bind (dispatched k) +
                (custody k s.delivery).map messageOf) + s.acking.bind (ofSession k) := by abel
        _ = _ := by rw [hsum]; abel
  | delivery l delivery hno hstep =>
    obtain ⟨gone, hcard, hsum⟩ := delivery_step (k := k) hstep hno
    refine ⟨gone, ?_, ?_⟩
    · rw [hcard]
      cases l with
      | deliver => cases hno
      | _ => rfl
    · simp only [load, letIn, marked, Multiset.add_bind, add_zero]
      calc s.tasks.bind (tasked k) + s.delivery.pending.bind (dispatched k) +
              (custody k s.delivery).map messageOf + s.acking.bind (ofSession k)
          = s.tasks.bind (tasked k) +
              (s.delivery.pending.bind (dispatched k) + (custody k s.delivery).map messageOf) +
              s.acking.bind (ofSession k) := by abel
        _ = _ := by rw [hsum]; abel
  | newer session m hmem | saved session m marks hmem | failed session m marks hmem =>
    refine ⟨0, rfl, ?_⟩
    simp only [load, letIn, marked, bind_erase hmem, add_zero]
    abel
  | restart => cases hl

/-- Between two starts nothing vanishes.  In every run without a restart, from any state: the
messages of a session that the daemon had or let in are those it has, those it marked, and as many
as it reported lost. -/
theorem load_run {s t : State} {ls : List Label} (h : Lts.Run (Step d) s ls t)
    (hls : ∀ l ∈ ls, l.isRestart = false) :
    ∃ gone, Multiset.card gone = (ls.map (lost k d)).sum ∧
      load k s + (ls.map (letIn k)).sum = load k t + (ls.map (marked k)).sum + gone := by
  have hcalm : Lts.Run (fun s l t ↦ l.isRestart = false ∧ Step d s l t) s ls t := by
    induction h with
    | nil => exact .nil _
    | snoc _ hstep ih =>
      exact (ih fun l hl ↦ hls l (List.mem_append_left _ hl)).snoc ⟨hls _ (by simp), hstep⟩
  exact hcalm.ledger Multiset.cardHom (load k) (letIn k) (marked k) (lost k d)
    fun _ _ _ hl ↦ load_step k hl.1 hl.2

end Ledger

/-- Bob reacts to his own message. -/
def thumb : Arrival :=
  { hello with incoming := .reaction ⟨"@bob:silta.test", "$2", 6000, "$1", "👍"⟩ }

theorem handle_thumb :
    ∃ dispatch, dispatch.session = "bob" ∧ messageOf (dispatch.ts, dispatch.event) = thumb.message ∧
      handle mindsDaemon (Function.update (fun _ ↦ none) "!dm:silta.test" (some ⟨5000, "$1"⟩))
        ⟨1000, 300000⟩ thumb = some (.reaction dispatch "$1") :=
  ⟨⟨"bob", 6000, reactionEvent thumb.room ⟨"@bob:silta.test", "$2", 6000, "$1", "👍"⟩
    ⟨"Bob", .owner, ["@bob:silta.test"]⟩ .dm⟩, rfl, rfl, by decide +kernel⟩

/-- His message is marked, and his reaction on it is reported lost. -/
theorem load_run_hello : ∃ ls t, Lts.Run (Step mindsDaemon) (.start ⟨1000, 300000⟩) ls t ∧
    ∃ gone : Multiset Message, Multiset.card gone = 1 ∧
      {hello.message} + {thumb.message} = load "bob" t + {hello.message} + gone := by
  obtain ⟨s, hacked, hclock, hmarks, hacking⟩ := hello_acked
  obtain ⟨dispatch, hsession, hmessage, hhandle⟩ := handle_thumb
  have hmem : ("bob", hello.message) ∈ s.acking := by
    rw [hacking]
    exact Multiset.mem_singleton_self _
  have hset : s.marks.set "!dm:silta.test" ⟨5000, "$1"⟩ =
      some (Function.update (fun _ ↦ none) "!dm:silta.test" (some ⟨5000, "$1"⟩)) := by
    rw [hmarks]
    rfl
  have hmarked := hacked.snoc (.saved s "bob" hello.message _ hmem hset)
  have hthumb := hmarked.snoc (.let_in (by rw [hclock]; exact hhandle))
  have hrun := hthumb.snoc (.reacted _ dispatch "$1" (.ok (some "@bob:silta.test"))
    (Multiset.mem_cons_self _ _))
  obtain ⟨gone, hcard, hsum⟩ := load_run "bob" hrun (by simp [helloLabels, Label.isRestart])
  have hbot : reactsToBot mindsDaemon (.ok (some "@bob:silta.test")) = false := by decide
  have hhello : tasked "bob" (.ready helloDispatch) = {hello.message} := rfl
  have hreaction : tasked "bob" (.reaction dispatch "$1") = {thumb.message} := by
    simp [dispatched, hsession, hmessage]
  have hmark : ofSession "bob" ("bob", hello.message) = {hello.message} := rfl
  have hnone : load "bob" (.start ⟨1000, 300000⟩) = 0 := rfl
  refine ⟨_, _, hrun, gone, hcard.trans ?_, ?_⟩
  · simp [helloLabels, lost, Delivery.evicted, hbot, hsession]
  · simpa [helloLabels, letIn, marked, hnone, hhello, hreaction, hmark] using hsum

/-! ## The replay rules -/

/-- A step as the replay rules see it. -/
def replayed (d : Daemon) : Label → Option Replay.Label
  | .arrive a answer _ => (judged d a).map fun admitted ↦ .judge admitted.1 a.message answer
  | .mark session m saving => some (.ack session m saving)
  | .restart clock => some (.restart clock)
  | _ => none

/-- The marks are those of the replay, which knows of every message that the daemon has. -/
structure Replays (s : State) (r : Replay.State) : Prop where
  clock : r.clock = s.clock
  marks : r.marks = s.marks
  delivered : r.delivered = s.saved
  covers : ∀ k, load k s ≤ (r.admitted : Multiset (String × Message)).bind (ofSession k)

theorem mem_ofSession {k : String} {entry : String × Message} {m : Message} :
    m ∈ ofSession k entry ↔ entry = (k, m) := by
  obtain ⟨session, message⟩ := entry
  unfold ofSession
  split
  · next h =>
    obtain rfl : k = session := h
    simp [eq_comm]
  · next h => simpa [Prod.ext_iff] using fun heq _ ↦ h heq.symm

/-- What is let in is the message of its arrival. -/
theorem tasked_of_handle {d : Daemon} {marks : Marks} {clock : Clock} {a : Arrival} {task : Task}
    (h : handle d marks clock a = some task) :
    ∃ admitted behind, judged d a = some admitted ∧ a.verdict marks clock = .deliver behind ∧
      ∀ k, tasked k task = ofSession k (admitted.1, a.message) := by
  obtain ⟨⟨session, person, kind⟩, hjudged, htask, behind, hverdict⟩ := handle_eq_some h
  obtain ⟨hsession, -, -, -, -, hmessage, -⟩ := taskOf_head htask
  refine ⟨_, behind, hjudged, hverdict, fun k ↦ ?_⟩
  simp only [tasked, dispatched, ofSession, hsession, hmessage]

namespace Replays

variable {d : Daemon} {s t : State} {r : Replay.State}

/-- A step that lets nothing in leaves no more than there was. -/
theorem load_le {l : Label} (hl : l.isRestart = false) (hstep : Step d s l t) {k : String}
    (hin : letIn k l = 0) : load k t + marked k l ≤ load k s := by
  obtain ⟨gone, -, hsum⟩ := load_step k hl hstep
  rw [hin, add_zero] at hsum
  exact hsum ▸ Multiset.le_add_right _ _

/-- A message that is to be marked is one that the replay let in. -/
theorem mem_admitted (h : Replays s r) {session : String} {m : Message}
    (hm : (session, m) ∈ s.acking) : (session, m) ∈ r.admitted := by
  have hload : m ∈ load session s := by
    refine Multiset.mem_add.mpr (.inr (Multiset.mem_bind.mpr ⟨_, hm, mem_ofSession.mpr rfl⟩))
  obtain ⟨entry, hentry, hmem⟩ := Multiset.mem_bind.mp (Multiset.mem_of_le (h.covers session) hload)
  exact mem_ofSession.mp hmem ▸ hentry

/-- Marking a message takes it off both. -/
theorem mark (h : Replays s r) {session : String} {m : Message} {saving : Saving}
    (hm : (session, m) ∈ s.acking) (hstep : Step d s (.mark session m saving) t) (k : String) :
    load k t ≤ (↑(r.admitted.erase (session, m)) : Multiset (String × Message)).bind
      (ofSession k) := by
  have hle := (load_le rfl hstep (k := k) rfl).trans (h.covers k)
  have hsplit := Multiset.coe_eq_coe.mpr (List.perm_cons_erase (h.mem_admitted hm))
  rw [hsplit, ← Multiset.cons_coe, Multiset.cons_bind, add_comm] at hle
  exact Multiset.le_of_add_le_add_left hle

theorem step (h : Replays s r) {l : Label} (hstep : Step d s l t) :
    ∃ r', Lts.Run Replay.Step r (replayed d l).toList r' ∧ Replays t r' := by
  obtain ⟨clock, marks, delivered, admitted⟩ := r
  obtain ⟨rfl, rfl, rfl, hload⟩ := h
  -- where nothing is let in or marked, the replay stands still
  have hstill (hl : l.isRestart = false) (hin : ∀ k, letIn k l = 0) (hclock : t.clock = s.clock)
      (hmarks : t.marks = s.marks) (hsaved : t.saved = s.saved) :
      Replays t ⟨s.clock, s.marks, s.saved, admitted⟩ :=
    ⟨hclock.symm, hmarks.symm, hsaved.symm, fun k ↦
      (Multiset.le_add_right _ _).trans ((load_le hl hstep (hin k)).trans (hload k))⟩
  cases hstep with
  | arrive a =>
    have hin k := load_step k rfl (Step.arrive (d := d) s a)
    cases hjudged : judged d a with
    | none =>
      refine ⟨_, by simpa [replayed, hjudged] using .nil _, hstill rfl (fun k ↦ ?_) rfl rfl rfl⟩
      rw [handle_eq, hjudged]
      rfl
    | some judgement =>
      have hjudge := Replay.Step.judge ⟨s.clock, s.marks, s.saved, admitted⟩ judgement.1 a.message
      refine ⟨_, by simpa [replayed, hjudged] using .single hjudge, rfl, rfl, rfl, fun k ↦ ?_⟩
      obtain ⟨gone, -, hsum⟩ := hin k
      have hle : load k { s with tasks := ↑(handle d s.marks s.clock a).toList + s.tasks } ≤
          load k s + letIn k (.arrive a (a.verdict s.marks s.clock)
            (handle d s.marks s.clock a)) := by
        rw [hsum, add_assoc]
        exact Multiset.le_add_right _ _
      cases hhandle : handle d s.marks s.clock a with
      | none =>
        rw [hhandle] at hle
        refine (hle.trans (by simpa [letIn] using hload k)).trans ?_
        split
        · rw [← Multiset.cons_coe, Multiset.cons_bind]
          exact Multiset.le_add_left _ _
        · exact le_rfl
      | some task =>
        obtain ⟨judgement', behind, hjudged', hverdict, htasked⟩ := tasked_of_handle hhandle
        obtain rfl : judgement = judgement' := Option.some.inj (hjudged.symm.trans hjudged')
        rw [hhandle] at hle
        simp only [letIn, htasked] at hle
        change Replay.verdict _ _ _ _ = _ at hverdict
        rw [hverdict]
        dsimp only
        rw [← Multiset.cons_coe, Multiset.cons_bind, add_comm (ofSession k _)]
        exact hle.trans (Multiset.add_le_add_right (hload k))
  | fetched | reacted =>
    exact ⟨_, .nil _, hstill rfl (fun _ ↦ rfl) rfl rfl rfl⟩
  | dispatch | delivery => exact ⟨_, .nil _, hstill rfl (fun _ ↦ rfl) rfl rfl rfl⟩
  | newer session m hm hset =>
    have hknown := mem_admitted ⟨rfl, rfl, rfl, hload⟩ hm
    exact ⟨_, .single (.newer _ session m hknown hset), rfl, rfl, rfl,
      mark ⟨rfl, rfl, rfl, hload⟩ hm (Step.newer (d := d) s session m hm hset)⟩
  | saved session m marks hm hset =>
    have hknown := mem_admitted ⟨rfl, rfl, rfl, hload⟩ hm
    exact ⟨_, .single (.saved _ session m marks hknown hset), rfl, rfl, rfl,
      mark ⟨rfl, rfl, rfl, hload⟩ hm (Step.saved (d := d) s session m marks hm hset)⟩
  | failed session m marks hm hset =>
    have hknown := mem_admitted ⟨rfl, rfl, rfl, hload⟩ hm
    exact ⟨_, .single (.failed _ session m marks hknown hset), rfl, rfl, rfl,
      mark ⟨rfl, rfl, rfl, hload⟩ hm (Step.failed (d := d) s session m marks hm hset)⟩
  | restart clock =>
    exact ⟨_, .single (.restart _ clock), rfl, rfl, rfl, fun _ ↦ Multiset.zero_le _⟩

end Replays

theorem replays_run {d : Daemon} {clock : Clock} {ls : List Label} {s : State}
    (h : Lts.Run (Step d) (.start clock) ls s) :
    ∃ r, Lts.Run Replay.Step (.start clock) (ls.filterMap (replayed d)) r ∧ Replays s r :=
  h.simulated (replayed d) (fun _ _ _ _ hr hstep ↦ hr.step hstep)
    ⟨rfl, rfl, rfl, fun _ ↦ Multiset.zero_le _⟩

/-- The daemon follows the replay rules.  Every run of it, with its tasks, its connections and its
backlogs, is a run of them for the same judgements, acknowledgements and restarts, that ends with
the same marks and knows of every message the daemon still has; so what arrives next counts as
delivered exactly if the acknowledgements that the daemon knows of pass it. -/
theorem replay_followed {d : Daemon} {clock : Clock} {ls : List Label} {s : State}
    (h : Lts.Run (Step d) (.start clock) ls s) :
    (∃ r, Lts.Run Replay.Step (.start clock) (ls.filterMap (replayed d)) r ∧ Replays s r) ∧
      ∀ a answer task t, Step d s (.arrive a answer task) t →
        (answer = .alreadyDelivered ↔
          Replay.Passed (Replay.Acks.after (ls.filterMap (replayed d))).recalled a.message) := by
  refine ⟨replays_run h, fun a answer task t hstep ↦ ?_⟩
  obtain ⟨r, hrun, hr⟩ := replays_run h
  cases hstep
  rw [Arrival.verdict, ← hr.marks, ← hr.clock]
  exact Replay.verdict_alreadyDelivered_iff (Replay.stands_run hrun).1 a.message r.clock

theorem replay_followed_hello : ∃ ls : List Label, ∃ s : State, ∃ r,
    Lts.Run Replay.Step (.start ⟨1000, 300000⟩) (ls.filterMap (replayed mindsDaemon)) r ∧
      Replays s r := by
  obtain ⟨ls, s, -, hrun, -⟩ := hello_run
  exact ⟨ls, s, (replay_followed hrun).1⟩

end Arrivals

end Silta
