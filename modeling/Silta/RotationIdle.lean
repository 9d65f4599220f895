import Silta.EffectOrder
import Silta.Lib.Latest
import Silta.ProtocolSteps

/-!
# The moment a rotation starts

What the tracker knows of the session is what the stream has said so far, and it marks a rotation
pending at the ticks that find the session idle by that.
-/

namespace Silta

namespace Rotation

/-- A call with its clock, and the actions that answer it. -/
abbrev Answered := Lts.Call (Call × Nat) (List Action)

/-! ## What the stream has said -/

/-- A message begins a turn or goes on with one, a result ends it. -/
def inTurn : Stream.Event → Option Bool
  | .assistant _ _ _ => some true
  | .user _ => some true
  | .result _ _ => some false
  | _ => none

/-- The size of the context that a main-line message of a model reports. -/
def mainSize : Stream.Event → Option Nat
  | .assistant false contextTokens false => contextTokens
  | _ => none

def isCompaction : Stream.Event → Bool
  | .compacted _ => true
  | _ => false

/-- A line that shows the presence of a person. -/
def ofPerson : Stream.Event → Bool
  | .user person => person
  | .result _ person => person
  | _ => false

/-- The background tasks that are reported as running. -/
def tasks : Stream.Event → Option (List String)
  | .backgroundTasks ids => some ids
  | _ => none

def Answered.event? (c : Answered) : Option Stream.Event :=
  match c.input.1 with
  | .event event => some event
  | _ => none

/-- The events of the stream, oldest first. -/
def events (calls : List Answered) : List Stream.Event := calls.filterMap Answered.event?

/-- No turn is in progress: of the messages and results, a result came last. -/
def turnOver (calls : List Answered) : Bool := Latest.read inTurn (events calls) == some false

/-- The size of the context that was reported last since the last compaction, 0 if none was. -/
def contextSize (calls : List Answered) : Nat :=
  (Latest.read mainSize (Latest.since isCompaction (events calls))).getD 0

/-- When a call brought a line that shows the presence of a person. -/
def seenAt (c : Answered) : Option Nat :=
  if c.event?.any ofPerson then some c.input.2 else none

/-- When a person was seen last, or the start. -/
def lastSeen (start : Nat) (calls : List Answered) : Nat := (Latest.read seenAt calls).getD start

/-- The background tasks that were reported last, none at the start. -/
def lastTasks (calls : List Answered) : List String := (Latest.read tasks (events calls)).getD []

/-- What a tracker knows of the session. -/
structure Senses where
  turn : Bool
  agents : List String
  context : Nat
  lastPerson : Nat
  deriving DecidableEq, Repr

/-- What was said of the session since the start. -/
def heardSince (start : Nat) (calls : List Answered) : Senses where
  turn := !turnOver calls
  agents := lastTasks calls
  context := contextSize calls
  lastPerson := lastSeen start calls

def Senses.hear (s : Senses) (event : Stream.Event) (now : Nat) : Senses where
  turn := (inTurn event).getD s.turn
  agents := (tasks event).getD s.agents
  context := if isCompaction event then 0 else (mainSize event).getD s.context
  lastPerson := if ofPerson event then now else s.lastPerson

theorem events_concat (calls : List Answered) (c : Answered) :
    events (calls ++ [c]) = events calls ++ c.event?.toList := by
  unfold events
  rw [List.filterMap_append]
  cases h : c.event? <;> simp [h]

theorem heardSince_concat_event {c : Answered} {event : Stream.Event} (start : Nat)
    (calls : List Answered) (h : c.event? = some event) :
    heardSince start (calls ++ [c]) = (heardSince start calls).hear event c.input.2 := by
  have hevents : events (calls ++ [c]) = events calls ++ [event] := by
    rw [events_concat, h]
    rfl
  unfold heardSince Senses.hear turnOver lastTasks contextSize lastSeen
  congr 1
  · rw [hevents, Latest.read_concat]
    cases inTurn event with
    | none => rfl
    | some turn => cases turn <;> rfl
  · rw [hevents, Latest.read_concat]
    cases tasks event <;> rfl
  · rw [hevents, Latest.since_concat]
    split
    · rfl
    · rw [Latest.read_concat]
      cases mainSize event <;> rfl
  · rw [Latest.read_concat, seenAt, h, Option.any_some]
    split <;> rfl

theorem heardSince_concat_of_none {c : Answered} (start : Nat) (calls : List Answered)
    (h : c.event? = none) : heardSince start (calls ++ [c]) = heardSince start calls := by
  have hevents : events (calls ++ [c]) = events calls := by
    rw [events_concat, h]
    exact List.append_nil _
  unfold heardSince turnOver lastTasks contextSize lastSeen
  rw [hevents, Latest.read_concat, seenAt, h]
  rfl

namespace Tracker

def react (t : Tracker) (i : Call × Nat) : Tracker × List Action := t.call i.1 i.2

abbrev Calls : Tracker → Answered → Tracker → Prop := Lts.Answers react

def senses (t : Tracker) : Senses := ⟨t.turn, t.agents, t.context, t.lastPerson⟩

/-! ## The tracker hears what is said -/

theorem senses_cut (t : Tracker) (step : Step) : (t.cut step).1.senses = t.senses := by
  unfold cut
  dsimp only
  split <;> rfl

theorem senses_failed (t : Tracker) (step : Step) (now : Nat) :
    (t.failed step now).1.senses = t.senses := by
  unfold failed
  dsimp only
  split <;> rfl

theorem senses_advance (t : Tracker) (now : Nat) : (t.advance now).1.senses = t.senses := by
  cases hexp : t.expires now with
  | true =>
    obtain ⟨step, hadvance⟩ := advance_of_expires hexp
    rw [hadvance]
    exact t.senses_cut step
  | false =>
    rcases advance_of_not_expires hexp with hsame | ⟨-, actions, -, hadvance⟩
    · rw [hsame]
    · rw [hadvance]
      rfl

theorem senses_setPending (t : Tracker) (now : Nat) : (t.setPending now).senses = t.senses := by
  unfold setPending
  split <;> rfl

theorem senses_endTurn (t : Tracker) (isError person : Bool) (now : Nat) :
    (t.endTurn person now).senses = t.senses.hear (.result isError person) now := rfl

theorem senses_result (t : Tracker) (isError person : Bool) (now : Nat) :
    (t.result isError person now).1.senses = t.senses.hear (.result isError person) now := by
  rw [← senses_endTurn]
  unfold result
  dsimp only
  split
  · split
    · rfl
    split
    · exact senses_failed _ _ _
    · rfl
  · split
    · rfl
    split
    · exact senses_failed _ _ _
    · rfl
  · exact senses_advance _ now

theorem senses_note (t : Tracker) (event : Stream.Event) (now : Nat)
    (h : ∀ isError person, event ≠ .result isError person) :
    (t.note event now).senses = t.senses.hear event now := by
  cases event with
  | assistant subagent contextTokens synthetic =>
    cases subagent <;> cases synthetic <;> cases contextTokens <;> rfl
  | result isError person => exact absurd rfl (h isError person)
  | _ => rfl

theorem senses_event (t : Tracker) (event : Stream.Event) (now : Nat) :
    (t.event event now).1.senses = t.senses.hear event now := by
  cases event with
  | result isError person => exact t.senses_result isError person now
  | _ => exact (senses_advance _ now).trans (t.senses_note _ now (by simp))

theorem senses_markerSeen (t : Tracker) (now : Nat) : (t.markerSeen now).1.senses = t.senses := by
  unfold markerSeen
  split
  · rfl
  · exact (senses_advance _ now).trans (t.senses_setPending now)

theorem senses_tick (t : Tracker) (now : Nat) : (t.tick now).1.senses = t.senses := by
  unfold tick
  split
  · exact (senses_advance _ now).trans (t.senses_setPending now)
  · exact t.senses_advance now

theorem senses_cancel (t : Tracker) : t.cancel.1.senses = t.senses := by
  unfold cancel
  split
  · split <;> rfl
  · rfl

/-- A tracker that knows what was said knows it after one more call. -/
theorem senses_step {start : Nat} {calls : List Answered} {t u : Tracker} {c : Answered}
    (h : t.senses = heardSince start calls) (hstep : t.Calls c u) :
    u.senses = heardSince start (calls ++ [c]) := by
  obtain ⟨⟨call, now⟩, actions⟩ := c
  have hcall : (t.call call now).1 = u := congrArg Prod.fst hstep
  rw [← hcall]
  cases call with
  | event event =>
    rw [heardSince_concat_event start calls rfl, ← h]
    exact t.senses_event event now
  | tick =>
    rw [heardSince_concat_of_none start calls rfl, ← h]
    exact t.senses_tick now
  | markerSeen =>
    rw [heardSince_concat_of_none start calls rfl, ← h]
    exact t.senses_markerSeen now
  | cancel =>
    rw [heardSince_concat_of_none start calls rfl, ← h]
    exact t.senses_cancel
  | setNoteWritten written =>
    rw [heardSince_concat_of_none start calls rfl, ← h]
    rfl

end Tracker

/-! ## Where the rotation stands -/

/-- Whether a rotation was begun since the last one that was completed or cancelled. -/
inductive Standing
  | free
  /-- Begun, by the tracker or by the marker, and waiting for its quiet moment. -/
  | waiting
  /-- Its handoff was requested, or a Retry, a Postpone or a GiveUp has ended it. -/
  | begun
  deriving DecidableEq, Repr

/-- What a call says without an action: the marker begins a rotation, and taking it away cancels one
that still waits. -/
def Standing.hear (enabled : Bool) : Standing → Call → Standing
  | .free, .markerSeen => if enabled then .waiting else .free
  | .waiting, .cancel => .free
  | s, _ => s

def Standing.emit : Standing → Action → Standing
  | _, .markPending => .waiting
  | _, .requestHandoff => .begun
  | _, .retry _ _ _ => .begun
  | _, .postpone _ _ _ => .begun
  | _, .giveUp _ _ _ => .begun
  | _, .compacted => .free
  | s, _ => s

/-- Where the rotation stands after some calls of a tracker that started without one. -/
def standing (enabled : Bool) (calls : List Answered) : Standing :=
  calls.foldl (fun s c ↦ c.answer.foldl Standing.emit (s.hear enabled c.input.1)) .free

theorem standing_concat (enabled : Bool) (calls : List Answered) (c : Answered) :
    standing enabled (calls ++ [c]) =
      c.answer.foldl Standing.emit ((standing enabled calls).hear enabled c.input.1) := by
  simp [standing]

def Stage.standing : Stage → Standing
  | .idle => .free
  | .waiting | .copiedBefore => .waiting
  | .requested | .copiedAfter | .compacting _ _ | .ended => .begun

theorem Stage.standing_eq_free_iff (s : Stage) : s.standing = .free ↔ s = .idle := by
  cases s <;> simp [standing]

theorem standing_endAttempt {p q : Protocol} {c : Call} {step : Step} {cut handoff : Bool}
    (h : p.endAttempt c step cut handoff = some q) : q.stage.standing = .begun := by
  obtain ⟨-, hq⟩ := Option.ite_none_right_eq_some.mp h
  obtain rfl := Option.some.inj hq
  rfl

theorem standing_emit {p q : Protocol} {c : Call} {a : Action} (h : p.emit c a = some q) :
    q.stage.standing = p.stage.standing.emit a := by
  cases a with
  | snapshot moment =>
    cases moment with
    | beforeHandoff =>
      obtain ⟨hguard, hq⟩ := Option.ite_none_right_eq_some.mp h
      obtain rfl := Option.some.inj hq
      rw [hguard.1]
      rfl
    | afterHandoff =>
      obtain ⟨hguard, hq⟩ := Option.ite_none_right_eq_some.mp h
      obtain rfl := Option.some.inj hq
      rw [hguard.1]
      rfl
  | retry step attempts handoff =>
    exact standing_endAttempt (Option.ite_none_right_eq_some.mp h).2
  | postpone step attempts handoff =>
    exact standing_endAttempt (Option.ite_none_right_eq_some.mp h).2
  | giveUp step cut handoff =>
    exact standing_endAttempt (Option.ite_none_right_eq_some.mp h).2
  | compact =>
    obtain ⟨hstage, hq⟩ := Option.ite_none_right_eq_some.mp h
    obtain rfl := Option.some.inj hq
    rw [hstage]
    rfl
  | compacted =>
    simp only [Protocol.emit] at h
    split at h
    · obtain ⟨-, hq⟩ := Option.ite_none_right_eq_some.mp h
      obtain rfl := Option.some.inj hq
      rfl
    · cases h
  | _ =>
    obtain ⟨-, hq⟩ := Option.ite_none_right_eq_some.mp h
    obtain rfl := Option.some.inj hq
    rfl

theorem standing_emits {c : Call} {actions : List Action} {p q : Protocol}
    (h : p.emits c actions = some q) :
    q.stage.standing = actions.foldl Standing.emit p.stage.standing := by
  induction actions generalizing p with
  | nil =>
    obtain rfl := Option.some.inj h
    rfl
  | cons a actions ih =>
    obtain ⟨r, hr, hrest⟩ := Option.bind_eq_some_iff.mp h
    rw [List.foldl_cons, ← standing_emit hr]
    exact ih hrest

theorem standing_hear {p : Protocol} (enabled : Bool) (c : Call) (h : p.halfway = false) :
    (p.hear enabled c).stage.standing = p.stage.standing.hear enabled c := by
  cases c with
  | markerSeen => cases hstage : p.stage <;> cases enabled <;>
      simp [Protocol.hear, Standing.hear, Stage.standing, hstage]
  | cancel =>
    cases hstage : p.stage <;>
      simp [Protocol.hear, Standing.hear, Stage.standing, Protocol.halfway, hstage] at h ⊢
  | event event =>
    cases event with
    | compacted auto =>
      cases auto <;> cases hstage : p.stage <;>
        simp [Protocol.hear, Standing.hear, Stage.standing, hstage]
    | _ => cases hstage : p.stage <;> simp [Protocol.hear, Standing.hear, Stage.standing, hstage]
  | _ => cases hstage : p.stage <;> simp [Protocol.hear, Standing.hear, Stage.standing, hstage]

/-- The protocol of a rotation tells where it stands. -/
theorem standing_follow {enabled : Bool} {p q : Protocol} {c : Call} {actions : List Action}
    (hhalf : p.halfway = false) (h : Protocol.follow enabled p (c, actions) = some q) :
    q.stage.standing = actions.foldl Standing.emit (p.stage.standing.hear enabled c) := by
  unfold Protocol.follow at h
  dsimp only at h
  split at h
  · nomatch h
  · obtain ⟨r, hr, hq⟩ := Option.bind_eq_some_iff.mp h
    split at hq
    · nomatch hq
    · obtain rfl := Option.some.inj hq
      rw [standing_emits hr, standing_hear enabled c hhalf]

namespace Tracker

/-- What a tracker that started without a rotation is after some calls. -/
structure Informed (limits : Limits) (start : Nat) (calls : List Answered) (t : Tracker) :
    Prop where
  limits_eq : t.limits = limits
  sound : t.Sound
  standing : t.stage.standing = standing limits.enabled calls
  senses : t.senses = heardSince start calls

theorem informed_new (limits : Limits) (start : Nat) :
    (new limits start).Informed limits start [] :=
  ⟨rfl, fun h ↦ absurd rfl h, rfl, rfl⟩

theorem Informed.step {limits : Limits} {start : Nat} {calls : List Answered} {t u : Tracker}
    {c : Answered} (h : t.Informed limits start calls) (hstep : t.Calls c u) :
    u.Informed limits start (calls ++ [c]) := by
  obtain ⟨hfollow, hsound, hlimits⟩ := follow_call c.input.1 c.input.2 h.sound
  rw [show t.call c.input.1 c.input.2 = (u, c.answer) from hstep] at hfollow hsound hlimits
  refine ⟨hlimits.trans h.limits_eq, hsound, ?_, senses_step h.senses hstep⟩
  have hstanding := standing_follow t.stage_ne_copied hfollow
  rw [standing_concat, ← h.standing, ← h.limits_eq]
  exact hstanding

theorem informed_of_run {limits : Limits} {start : Nat} {calls : List Answered} {t : Tracker}
    (h : Lts.Run Calls (new limits start) calls t) : t.Informed limits start calls :=
  h.history (informed_new limits start) fun _ _ _ _ hinformed hstep ↦ hinformed.step hstep

/-- A rotation is marked pending by the ticks that find the threshold tripped. -/
theorem markPending_mem_call_iff (t : Tracker) (c : Call) (now : Nat) :
    .markPending ∈ (t.call c now).2 ↔ c = .tick ∧ t.thresholdTripped now = true := by
  cases c with
  | event event =>
    show _ ∈ (t.event event now).2 ↔ _
    simpa using markPending_not_mem (t.heardAs_event event now)
  | tick =>
    show _ ∈ (t.tick now).2 ↔ _
    unfold tick
    split
    next htrip => simp [htrip]
    next htrip => simpa [htrip] using markPending_not_mem (t.heardAs_advance now)
  | markerSeen =>
    show _ ∈ (t.markerSeen now).2 ↔ _
    unfold markerSeen
    split
    · simp
    · simpa using markPending_not_mem (heardAs_advance _ now)
  | cancel => simp [call]
  | setNoteWritten written => simp [call]

theorem thresholdTripped_iff (t : Tracker) (now : Nat) :
    t.thresholdTripped now = true ↔
      t.limits.enabled = true ∧ t.stage = .idle ∧ t.turn = false ∧
        t.limits.contextTokens ≤ t.context ∧ t.limits.idle ≤ now - t.lastPerson := by
  have hidle : t.stage = .idle ↔ t.pending = false ∧ t.phase = .idle := by
    cases hphase : t.phase <;> cases hpending : t.pending <;> simp [stage, hphase, hpending]
  rw [hidle]
  simp only [thresholdTripped, Bool.and_eq_true, Bool.not_eq_true', beq_iff_eq,
    decide_eq_true_eq, and_assoc]

theorem quiet_of_opens_call {t : Tracker} {a : Action} {c : Call} {now : Nat}
    (ha : opensHandoff a = true) (h : a ∈ (t.call c now).2) :
    (t.call c now).1.quiet = true := by
  cases c with
  | event event => exact quiet_of_opens_event ha h
  | tick => exact (t.quiet_tick now).trans (quiet_of_opens_tick ha h)
  | markerSeen => exact (t.quiet_markerSeen now).trans (quiet_of_opens_markerSeen ha h)
  | cancel => nomatch h
  | setNoteWritten written => nomatch h

/-- A rotation starts only at an idle moment.  In every run of calls of a tracker that starts
without a rotation, a call marks one pending just when it is a tick, rotation is enabled, none was
begun since the last that was completed or cancelled, no turn is in progress, the context reported
last since the last compaction has reached the threshold, and the idle gap has passed since a person
was seen or, if none was, since the start; and the handoff is requested only after a call at which
no turn is in progress and no background task is running. -/
theorem starts_idle {limits : Limits} {start : Nat} {calls : List Answered} {t : Tracker}
    (h : Lts.Run Calls (new limits start) calls t) {past future : List Answered} {c : Answered}
    (hsplit : calls = past ++ c :: future) :
    (.markPending ∈ c.answer ↔
      c.input.1 = .tick ∧ limits.enabled = true ∧ standing limits.enabled past = .free ∧
        turnOver past = true ∧ limits.contextTokens ≤ contextSize past ∧
        limits.idle ≤ c.input.2 - lastSeen start past) ∧
    (.requestHandoff ∈ c.answer →
      turnOver (past ++ [c]) = true ∧ lastTasks (past ++ [c]) = []) := by
  obtain ⟨u, v, hpast, hstep, -⟩ := h.split hsplit
  have hbefore := informed_of_run hpast
  have hafter := hbefore.step hstep
  have hcall : u.call c.input.1 c.input.2 = (v, c.answer) := hstep
  constructor
  · have hturn : u.turn = !turnOver past := congrArg Senses.turn hbefore.senses
    have hcontext : u.context = contextSize past := congrArg Senses.context hbefore.senses
    have hseen : u.lastPerson = lastSeen start past := congrArg Senses.lastPerson hbefore.senses
    have hmark := u.markPending_mem_call_iff c.input.1 c.input.2
    rw [hcall, thresholdTripped_iff, ← Stage.standing_eq_free_iff, hbefore.standing,
      hbefore.limits_eq, hturn, hcontext, hseen, Bool.not_eq_false'] at hmark
    exact hmark
  · intro hrequest
    have hquiet : (u.call c.input.1 c.input.2).1.quiet = true :=
      quiet_of_opens_call rfl (by rwa [hcall])
    rw [hcall, quiet, Bool.and_eq_true, Bool.not_eq_true', List.isEmpty_iff] at hquiet
    have hturn : v.turn = !turnOver (past ++ [c]) := congrArg Senses.turn hafter.senses
    have hagents : v.agents = lastTasks (past ++ [c]) := congrArg Senses.agents hafter.senses
    rw [hturn, hagents, Bool.not_eq_false'] at hquiet
    exact hquiet

/-- A session that fills up, is left alone and is found idle by the second tick. -/
def idleCalls : List (Call × Nat) :=
  [(.event (.user true), 0), (.event (.assistant false (some 160000) false), 1),
    (.event (.result false false), 2), (.tick, 3), (.tick, 14400)]

theorem starts_idle_tick :
    ∃ c ∈ Lts.callsOf react (new someLimits 0) idleCalls, .markPending ∈ c.answer := by
  have hrun := Lts.run_callsOf react (new someLimits 0) idleCalls
  refine ⟨_, List.getLast_mem (by decide), ?_⟩
  exact (starts_idle hrun (List.dropLast_append_getLast (by decide)).symm).1.mpr (by decide)

end Tracker

end Rotation

end Silta
