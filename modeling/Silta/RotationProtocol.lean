import Silta.Lib.Lts
import Silta.Rotation

/-!
# The protocol of the rotation tracker

The protocol the tracker documents, as a monitor that knows nothing of clocks and turns: it reads
each call with the actions that answered it.  The tracker refines it.
-/

namespace Silta

namespace Rotation

/-- One call of the tracker. -/
inductive Call
  | event (event : Stream.Event)
  | tick
  | markerSeen
  | cancel
  | setNoteWritten (written : Bool)
  deriving DecidableEq, Repr

namespace Tracker

def call (t : Tracker) (c : Call) (now : Nat) : Tracker × List Action :=
  match c with
  | .event event => t.event event now
  | .tick => t.tick now
  | .markerSeen => t.markerSeen now
  | .cancel => (t.cancel.1, [])
  | .setNoteWritten written => (t.setNoteWritten written, [])

/-- The calls with the actions that answer them. -/
def trace (t : Tracker) : List (Call × Nat) → List (Call × List Action)
  | [] => []
  | (c, now) :: cs => (c, (t.call c now).2) :: (t.call c now).1.trace cs

end Tracker

/-- Where a rotation is. -/
inductive Stage
  | idle
  | waiting
  /-- The clean copy is taken, the handoff request follows. -/
  | copiedBefore
  | requested
  /-- The copy after the handoff turn is taken, `/compact` follows. -/
  | copiedAfter
  | compacting (boundary failed : Bool)
  /-- A Retry, a Postpone or a GiveUp was the last word. -/
  | ended
  deriving DecidableEq, Repr

structure Protocol where
  stage : Stage
  /-- The attempts of this rotation that are spent. -/
  spent : Nat
  /-- A handoff turn of this rotation has completed. -/
  handoff : Bool
  /-- What the last `set_note_written` said. -/
  note : Bool
  deriving DecidableEq, Repr

namespace Protocol

/-- What a call tells without an action. -/
def hear (enabled : Bool) (p : Protocol) (c : Call) : Protocol :=
  match c, p.stage with
  | .setNoteWritten written, _ => { p with note := written }
  | .markerSeen, .idle => if enabled then { p with stage := .waiting } else p
  | .cancel, .waiting => { p with stage := .idle, spent := 0, handoff := false }
  | .event (.compacted false), .compacting _ failed =>
    { p with stage := .compacting true failed }
  | .event .compactionFailed, .compacting boundary _ =>
    { p with stage := .compacting boundary true }
  | _, _ => p

/-- The step of the rotation that ends when an attempt ends in this stage. -/
def stepOf : Stage → Option Step
  | .waiting => some .wait
  | .requested => some .handoff
  | .compacting _ _ => some .compaction
  | _ => none

/-- The turn that just ended is the failure of the attempt: an error of the handoff turn, or a
compaction that failed without a boundary. -/
def fails (p : Protocol) (c : Call) : Bool :=
  match c, p.stage with
  | .event (.result isError _), .requested => isError
  | .event (.result isError _), .compacting boundary failed => !boundary && (failed || isError)
  | _, _ => false

/-- A turn ended that this stage was waiting for. -/
def awaited (p : Protocol) (c : Call) : Bool :=
  match c, p.stage with
  | .event (.result _ _), .requested => true
  | .event (.result _ _), .compacting _ _ => true
  | _, _ => false

/-- The attempt ends, by a failed turn or else by a cap. -/
def endAttempt (p : Protocol) (c : Call) (step : Step) (cut handoff : Bool) : Option Protocol :=
  if stepOf p.stage = some step ∧ handoff = p.handoff ∧
      (if cut then p.awaited c = false else p.fails c = true) then
    some { p with stage := .ended, spent := u32Succ p.spent }
  else none

/-- One action in answer to a call. -/
def emit (p : Protocol) (c : Call) : Action → Option Protocol
  | .markPending =>
    if c = .tick ∧ p.stage = .idle then some { p with stage := .waiting } else none
  | .snapshot .beforeHandoff =>
    if p.stage = .waiting ∧ p.spent = 0 then some { p with stage := .copiedBefore } else none
  | .requestHandoff =>
    if p.stage = .copiedBefore ∨ p.stage = .waiting ∧ p.spent ≠ 0 then
      some { p with stage := .requested }
    else none
  | .awaitHandoff =>
    if p.stage = .requested ∧ p.awaited c = true ∧ p.fails c = false ∧ p.note = false then some p
    else none
  | .snapshot .afterHandoff =>
    if p.stage = .requested ∧ p.awaited c = true ∧ p.fails c = false ∧ p.note = true then
      some { p with stage := .copiedAfter }
    else none
  | .compact =>
    if p.stage = .copiedAfter then
      some { p with stage := .compacting false false, handoff := true }
    else none
  | .awaitCompaction =>
    if p.stage = .compacting false false ∧ p.awaited c = true ∧ p.fails c = false then some p
    else none
  | .compacted =>
    match p.stage with
    | .compacting true _ =>
      if p.awaited c = true then some { p with stage := .idle, spent := 0, handoff := false }
      else none
    | _ => none
  | .retry step attempts handoff =>
    if attempts = u32Succ p.spent ∧ attempts < HANDOFF_ATTEMPTS then
      p.endAttempt c step true handoff
    else none
  | .postpone step attempts handoff =>
    if attempts = u32Succ p.spent ∧ attempts < HANDOFF_ATTEMPTS then
      p.endAttempt c step false handoff
    else none
  | .giveUp step cut handoff =>
    if HANDOFF_ATTEMPTS ≤ u32Succ p.spent then p.endAttempt c step cut handoff else none

def emits (p : Protocol) (c : Call) : List Action → Option Protocol
  | [] => some p
  | a :: as => (p.emit c a).bind fun p ↦ p.emits c as

/-- A copy was taken and what must follow it at once did not. -/
def halfway (p : Protocol) : Bool := p.stage == .copiedBefore || p.stage == .copiedAfter

/-- The protocol: every call is heard, every action fits, no pair of actions is left half done, and
an awaited end of a turn is answered. -/
def follow (enabled : Bool) : Lts.Monitor Protocol (Call × List Action) :=
  fun p (c, actions) ↦
    if (p.hear enabled c).awaited c = true ∧ actions = [] then none
    else ((p.hear enabled c).emits c actions).bind fun q ↦ if q.halfway then none else some q

end Protocol

/-! ## The tracker refines the protocol -/

namespace Tracker

/-- Where the tracker's rotation is. -/
def stage (t : Tracker) : Stage :=
  match t.phase with
  | .idle => if t.pending then .ended else .idle
  | .waiting _ => .waiting
  | .handoff _ => .requested
  | .compacting _ boundary failed => .compacting boundary failed

/-- The tracker without its clocks and turns. -/
def protocol (t : Tracker) : Protocol where
  stage := t.stage
  spent := t.attempts
  handoff := t.handoff
  note := t.noteWritten

/-- A rotation that is under way is pending. -/
def Sound (t : Tracker) : Prop := t.phase ≠ .idle → t.pending = true

/-- What a function of the tracker answers is what the protocol allows in answer to the call. -/
structure Follows (t : Tracker) (c : Call) (answer : Tracker × List Action) : Prop where
  emits : t.protocol.emits c answer.2 = some answer.1.protocol
  sound : answer.1.Sound
  limits : answer.1.limits = t.limits

theorem Follows.of_endTurn {t : Tracker} {c : Call} {answer : Tracker × List Action}
    {person : Bool} {now : Nat} (h : (t.endTurn person now).Follows c answer) :
    t.Follows c answer :=
  ⟨h.emits, h.sound, h.limits⟩

theorem stage_ne_copied (t : Tracker) : t.protocol.halfway = false := by
  unfold Protocol.halfway protocol stage
  cases t.phase with
  | idle => cases t.pending <;> rfl
  | _ => rfl

theorem follows_nothing {t : Tracker} {c : Call} (hs : t.Sound) : t.Follows c (t, []) :=
  ⟨rfl, hs, rfl⟩

theorem pending_of_stepOf {t : Tracker} {step : Step} (hs : t.Sound)
    (hstep : Protocol.stepOf t.stage = some step) : t.pending = true := by
  apply hs
  intro hidle
  simp only [stage, hidle] at hstep
  split at hstep <;> cases hstep

/-- The end of an attempt, as `cut` and `failed` leave the tracker. -/
theorem endAttempt_eq {t : Tracker} {c : Call} {step : Step} {cut : Bool} (hs : t.Sound)
    (hstep : Protocol.stepOf t.stage = some step)
    (hguard : if cut then t.protocol.awaited c = false else t.protocol.fails c = true)
    (notBefore : Option Nat) :
    t.protocol.endAttempt c step cut t.handoff =
      some { t with
        phase := .idle, attempts := u32Succ t.attempts, notBefore := notBefore }.protocol := by
  have hp := pending_of_stepOf hs hstep
  unfold Protocol.endAttempt
  rw [if_pos ⟨hstep, rfl, hguard⟩]
  simp [protocol, stage, hp]

theorem emits_singleton {p q : Protocol} {c : Call} {a : Action} (h : p.emit c a = some q) :
    p.emits c [a] = some q := by
  simp [Protocol.emits, h]

theorem follows_cut {t : Tracker} {c : Call} {step : Step} (hs : t.Sound)
    (hstep : Protocol.stepOf t.stage = some step) (ha : t.protocol.awaited c = false) :
    t.Follows c (t.cut step) := by
  have hend := endAttempt_eq (c := c) hs hstep (show if true then _ else _ from ha) t.notBefore
  unfold cut
  dsimp only
  split
  next hlt =>
    refine ⟨emits_singleton ?_, fun h ↦ absurd rfl h, rfl⟩
    exact (if_pos ⟨rfl, hlt⟩).trans hend
  next hge =>
    refine ⟨emits_singleton ?_, fun h ↦ absurd rfl h, rfl⟩
    exact (if_pos (Nat.not_lt.mp hge)).trans hend

theorem follows_failed {t : Tracker} {c : Call} {step : Step} {now : Nat} (hs : t.Sound)
    (hstep : Protocol.stepOf t.stage = some step) (hf : t.protocol.fails c = true) :
    t.Follows c (t.failed step now) := by
  have hend := endAttempt_eq (c := c) hs hstep (show if false then _ else _ from hf)
  unfold failed
  dsimp only
  split
  next hlt =>
    refine ⟨emits_singleton ?_, fun h ↦ absurd rfl h, rfl⟩
    exact (if_pos ⟨rfl, hlt⟩).trans (hend (some (now + t.limits.retryPause)))
  next hge =>
    refine ⟨emits_singleton ?_, fun h ↦ absurd rfl h, rfl⟩
    exact (if_pos (Nat.not_lt.mp hge)).trans (hend t.notBefore)

theorem follows_advance {t : Tracker} {c : Call} (now : Nat) (hs : t.Sound)
    (ha : t.protocol.awaited c = false) : t.Follows c (t.advance now) := by
  unfold advance
  split
  · exact follows_nothing hs
  next deadline hphase =>
    have hstage : t.stage = .waiting := by
      simp [stage, hphase]
    have hp : t.pending = true := hs (by simp [hphase])
    split
    · exact follows_nothing hs
    split
    · dsimp only
      split
      next hzero =>
        refine ⟨?_, fun _ ↦ hp, rfl⟩
        have hz : t.attempts = 0 := hzero
        simp [Protocol.emits, Protocol.emit, protocol, stage, hphase, hz]
      next hnonzero =>
        refine ⟨?_, fun _ ↦ hp, rfl⟩
        have hnz : t.attempts ≠ 0 := hnonzero
        simp [Protocol.emits, Protocol.emit, protocol, stage, hphase, hnz]
    split
    · exact follows_cut hs (by rw [hstage]; rfl) ha
    · exact follows_nothing hs
  next deadline hphase =>
    split
    · exact follows_cut hs (by simp [stage, hphase, Protocol.stepOf]) ha
    · exact follows_nothing hs
  next deadline boundary failed hphase =>
    split
    · exact follows_cut hs (by simp [stage, hphase, Protocol.stepOf]) ha
    · exact follows_nothing hs

/-- A call that is heard as a change of the tracker and then answered. -/
theorem follow_of_follows {enabled : Bool} {t u : Tracker} {c : Call}
    {answer : Tracker × List Action} (hhear : t.protocol.hear enabled c = u.protocol)
    (h : u.Follows c answer) (hanswered : u.protocol.awaited c = true → answer.2 ≠ []) :
    Protocol.follow enabled t.protocol (c, answer.2) = some answer.1.protocol := by
  unfold Protocol.follow
  dsimp only
  rw [hhear, if_neg fun hno ↦ hanswered hno.1 hno.2, h.emits, Option.bind_some,
    if_neg (Bool.eq_false_iff.mp answer.1.stage_ne_copied)]

theorem failed_ne_nil (t : Tracker) (step : Step) (now : Nat) : (t.failed step now).2 ≠ [] := by
  unfold failed
  dsimp only
  split <;> simp

theorem follows_result_handoff {t : Tracker} {isError person : Bool} {now deadline : Nat}
    (hs : t.Sound) (hphase : t.phase = .handoff deadline) :
    t.Follows (.event (.result isError person)) (t.result isError person now) ∧
      (t.result isError person now).2 ≠ [] := by
  have hstage : t.stage = .requested := by
    simp [stage, hphase]
  have hawaited : t.protocol.awaited (.event (.result isError person)) = true := by
    simp [Protocol.awaited, protocol, hstage]
  have hfails : t.protocol.fails (.event (.result isError person)) = isError := by
    simp [Protocol.fails, protocol, hstage]
  have hsound : (t.endTurn person now).Sound := hs
  cases isError with
  | true =>
    have hresult : t.result true person now = (t.endTurn person now).failed .handoff now := by
      simp [result, hphase]
    have hstep : Protocol.stepOf (t.endTurn person now).stage = some .handoff :=
      congrArg Protocol.stepOf hstage
    rw [hresult]
    exact ⟨(follows_failed hsound hstep hfails).of_endTurn, failed_ne_nil _ _ _⟩
  | false =>
    cases hnote : t.noteWritten with
    -- the note is not written yet, and the phase goes on
    | false =>
      have hresult : t.result false person now = (t.endTurn person now, [.awaitHandoff]) := by
        simp [result, hphase, hnote]
      rw [hresult]
      refine ⟨⟨emits_singleton ?_, hsound, rfl⟩, List.cons_ne_nil _ _⟩
      exact if_pos ⟨hstage, hawaited, hfails, hnote⟩
    | true =>
      have hresult : t.result false person now =
          ({ t.endTurn person now with
            handoff := true, phase := .compacting (now + t.limits.compact) false false },
            [.snapshot .afterHandoff, .compact]) := by
        simp [result, hphase, hnote, endTurn]
      have hp : t.pending = true := hs (by simp [hphase])
      have hcopy : t.protocol.emit (.event (.result false person)) (.snapshot .afterHandoff) =
          some { t.protocol with stage := .copiedAfter } :=
        if_pos ⟨hstage, hawaited, hfails, hnote⟩
      rw [hresult]
      refine ⟨⟨?_, fun _ ↦ hp, rfl⟩, List.cons_ne_nil _ _⟩
      simp only [Protocol.emits, hcopy, Option.bind_some]
      rfl

theorem follows_result_compacting {t : Tracker} {isError person : Bool} {now deadline : Nat}
    {boundary failed : Bool} (hs : t.Sound)
    (hphase : t.phase = .compacting deadline boundary failed) :
    t.Follows (.event (.result isError person)) (t.result isError person now) ∧
      (t.result isError person now).2 ≠ [] := by
  have hstage : t.stage = .compacting boundary failed := by
    simp [stage, hphase]
  have hawaited : t.protocol.awaited (.event (.result isError person)) = true := by
    simp [Protocol.awaited, protocol, hstage]
  have hfails : t.protocol.fails (.event (.result isError person)) =
      (!boundary && (failed || isError)) := by
    simp [Protocol.fails, protocol, hstage]
  have hsound : (t.endTurn person now).Sound := hs
  cases boundary with
  -- a boundary was seen, so the turn is the compaction's, error or not
  | true =>
    have hresult : t.result isError person now = ((t.endTurn person now).done, [.compacted]) := by
      simp [result, hphase]
    have hst : t.protocol.stage = .compacting true failed := hstage
    rw [hresult]
    refine ⟨⟨emits_singleton ?_, fun h ↦ absurd rfl h, rfl⟩, List.cons_ne_nil _ _⟩
    simp only [Protocol.emit, hst, if_pos hawaited]
    rfl
  | false =>
    cases hfail : failed || isError with
    | true =>
      have hresult : t.result isError person now =
          (t.endTurn person now).failed .compaction now := by
        simp [result, hphase, hfail]
      have hstep : Protocol.stepOf (t.endTurn person now).stage = some .compaction :=
        congrArg Protocol.stepOf hstage
      rw [hresult]
      exact ⟨(follows_failed hsound hstep (hfails.trans hfail)).of_endTurn, failed_ne_nil _ _ _⟩
    | false =>
      have hresult : t.result isError person now =
          (t.endTurn person now, [.awaitCompaction]) := by
        simp [result, hphase, hfail]
      obtain ⟨rfl, rfl⟩ : failed = false ∧ isError = false := by
        simpa using hfail
      rw [hresult]
      refine ⟨⟨emits_singleton ?_, hsound, rfl⟩, List.cons_ne_nil _ _⟩
      exact if_pos ⟨hstage, hawaited, hfails⟩

theorem follows_result {t : Tracker} {isError person : Bool} {now : Nat} (hs : t.Sound) :
    t.Follows (.event (.result isError person)) (t.result isError person now) ∧
      (t.protocol.awaited (.event (.result isError person)) = true →
        (t.result isError person now).2 ≠ []) := by
  -- outside a handoff turn and a compaction the end of a turn only lets the clock be looked at
  have hclock : t.protocol.awaited (.event (.result isError person)) = false →
      t.result isError person now = (t.endTurn person now).advance now →
      t.Follows (.event (.result isError person)) (t.result isError person now) ∧
        (t.protocol.awaited (.event (.result isError person)) = true →
          (t.result isError person now).2 ≠ []) := by
    intro hquiet hresult
    have hsound : (t.endTurn person now).Sound := hs
    rw [hresult]
    exact ⟨(follows_advance now hsound hquiet).of_endTurn,
      fun h ↦ absurd (hquiet.symm.trans h) Bool.false_ne_true⟩
  cases hphase : t.phase with
  | handoff deadline =>
    obtain ⟨hfollows, hne⟩ := follows_result_handoff hs hphase
    exact ⟨hfollows, fun _ ↦ hne⟩
  | compacting deadline boundary failed =>
    obtain ⟨hfollows, hne⟩ := follows_result_compacting hs hphase
    exact ⟨hfollows, fun _ ↦ hne⟩
  | idle =>
    refine hclock ?_ (by simp only [result, endTurn_phase, hphase])
    cases hp : t.pending <;> simp [Protocol.awaited, protocol, stage, hphase, hp]
  | waiting deadline =>
    refine hclock ?_ (by simp only [result, endTurn_phase, hphase])
    simp [Protocol.awaited, protocol, stage, hphase]

@[simp] theorem note_attempts (t : Tracker) (event : Stream.Event) (now : Nat) :
    (t.note event now).attempts = t.attempts := by
  cases event <;> rfl

@[simp] theorem note_handoff (t : Tracker) (event : Stream.Event) (now : Nat) :
    (t.note event now).handoff = t.handoff := by
  cases event <;> rfl

@[simp] theorem note_noteWritten (t : Tracker) (event : Stream.Event) (now : Nat) :
    (t.note event now).noteWritten = t.noteWritten := by
  cases event <;> rfl

@[simp] theorem note_pending (t : Tracker) (event : Stream.Event) (now : Nat) :
    (t.note event now).pending = t.pending := by
  cases event <;> rfl

@[simp] theorem note_limits (t : Tracker) (event : Stream.Event) (now : Nat) :
    (t.note event now).limits = t.limits := by
  cases event <;> rfl

theorem note_phase_idle {t : Tracker} {event : Stream.Event} {now : Nat} :
    (t.note event now).phase = .idle ↔ t.phase = .idle := by
  cases event with
  | compacted auto =>
    cases auto <;> cases hphase : t.phase <;> simp [note, hphase, Phase.withBoundary]
  | compactionFailed => cases hphase : t.phase <;> simp [note, hphase, Phase.withFailure]
  | _ => rfl

theorem sound_note {t : Tracker} (event : Stream.Event) (now : Nat) (hs : t.Sound) :
    (t.note event now).Sound := by
  intro hne
  rw [note_pending]
  exact hs fun hidle ↦ hne (note_phase_idle.mpr hidle)

theorem hear_note {t : Tracker} {event : Stream.Event} {now : Nat} (enabled : Bool) :
    t.protocol.hear enabled (.event event) = (t.note event now).protocol := by
  cases event with
  | compacted auto =>
    cases auto <;> cases hphase : t.phase <;> cases hp : t.pending <;>
      simp [Protocol.hear, note, protocol, stage, hphase, hp, Phase.withBoundary]
  | compactionFailed =>
    cases hphase : t.phase <;> cases hp : t.pending <;>
      simp [Protocol.hear, note, protocol, stage, hphase, hp, Phase.withFailure]
  | _ => rfl

theorem sound_setPending {t : Tracker} (now : Nat) (hs : t.Sound) : (t.setPending now).Sound := by
  unfold setPending
  split
  · exact hs
  · exact fun _ ↦ rfl

theorem hear_setPending {t : Tracker} (now : Nat) (hs : t.Sound) :
    t.protocol.hear true .markerSeen = (t.setPending now).protocol := by
  cases hp : t.pending with
  | true =>
    have hsame : t.setPending now = t := by
      simp [setPending, hp]
    rw [hsame]
    cases hphase : t.phase <;> simp [Protocol.hear, protocol, stage, hphase, hp]
  | false =>
    -- what is not pending is not under way
    have hidle : t.phase = .idle := by
      by_contra hne
      exact Bool.false_ne_true (hp.symm.trans (hs hne))
    simp [Protocol.hear, protocol, stage, setPending, hidle, hp]

theorem limits_setPending (t : Tracker) (now : Nat) : (t.setPending now).limits = t.limits := by
  unfold setPending
  split <;> rfl

theorem follows_tick {t : Tracker} (now : Nat) (hs : t.Sound) :
    t.Follows .tick (t.tick now) := by
  unfold tick
  split
  next htrip =>
    obtain ⟨hp, hidle⟩ : t.pending = false ∧ t.phase = .idle := by
      simp only [thresholdTripped, Bool.and_eq_true, Bool.not_eq_true', beq_iff_eq] at htrip
      exact ⟨htrip.1.1.1.1.2, htrip.1.1.1.2⟩
    -- the threshold makes the rotation pending, and the clock speaks in the same call
    have hwaiting : t.protocol.emit .tick .markPending = some (t.setPending now).protocol := by
      simp [Protocol.emit, protocol, stage, setPending, hidle, hp]
    have hadvance := follows_advance (c := .tick) now (sound_setPending now hs) rfl
    refine ⟨?_, hadvance.sound, hadvance.limits.trans (t.limits_setPending now)⟩
    simp only [Protocol.emits, hwaiting, Option.bind_some]
    exact hadvance.emits
  · exact follows_advance now hs rfl

theorem cancel_protocol {t : Tracker} (enabled : Bool) (hs : t.Sound) :
    t.protocol.hear enabled .cancel = t.cancel.1.protocol ∧ t.cancel.1.Sound ∧
      t.cancel.1.limits = t.limits := by
  cases hphase : t.phase with
  | waiting deadline =>
    have hp : t.pending = true := hs (by simp [hphase])
    have hcancel : t.cancel = (t.done, true) := by
      simp [cancel, hphase, hp]
    rw [hcancel]
    refine ⟨?_, fun h ↦ absurd rfl h, rfl⟩
    simp [Protocol.hear, protocol, stage, done, hphase]
  | _ =>
    have hcancel : t.cancel = (t, false) := by
      simp [cancel, hphase]
    rw [hcancel]
    refine ⟨?_, hs, rfl⟩
    cases hp : t.pending <;> simp [Protocol.hear, protocol, stage, hphase, hp]

theorem follow_note {t : Tracker} {event : Stream.Event} {now : Nat} (hs : t.Sound)
    (hevent : t.event event now = (t.note event now).advance now)
    (hquiet : ∀ p : Protocol, p.awaited (.event event) = false) :
    Protocol.follow t.limits.enabled t.protocol (.event event, (t.event event now).2) =
        some (t.event event now).1.protocol ∧
      (t.event event now).1.Sound ∧ (t.event event now).1.limits = t.limits := by
  have hfollows := follows_advance now (sound_note event now hs) (hquiet _)
  rw [hevent]
  refine ⟨follow_of_follows (hear_note _) hfollows ?_, hfollows.sound,
    hfollows.limits.trans (note_limits t event now)⟩
  intro h
  exact absurd ((hquiet _).symm.trans h) Bool.false_ne_true

theorem follow_call {t : Tracker} (c : Call) (now : Nat) (hs : t.Sound) :
    Protocol.follow t.limits.enabled t.protocol (c, (t.call c now).2) =
        some (t.call c now).1.protocol ∧
      (t.call c now).1.Sound ∧ (t.call c now).1.limits = t.limits := by
  cases c with
  | event event =>
    cases event with
    | result isError person =>
      obtain ⟨hfollows, hanswered⟩ := follows_result hs
      exact ⟨follow_of_follows rfl hfollows hanswered, hfollows.sound, hfollows.limits⟩
    | _ => exact follow_note hs rfl fun _ ↦ rfl
  | tick =>
    have hfollows := follows_tick now hs
    exact ⟨follow_of_follows rfl hfollows nofun, hfollows.sound, hfollows.limits⟩
  | markerSeen =>
    cases henabled : t.limits.enabled with
    | false =>
      have hcall : t.call .markerSeen now = (t, []) := by
        simp [call, markerSeen, henabled]
      rw [hcall]
      refine ⟨follow_of_follows ?_ (follows_nothing hs) nofun, hs, rfl⟩
      cases hst : t.protocol.stage <;> simp [Protocol.hear, hst]
    | true =>
      have hcall : t.call .markerSeen now = (t.setPending now).advance now := by
        simp [call, markerSeen, henabled]
      rw [hcall, ← henabled]
      have hfollows := follows_advance (c := .markerSeen) now (sound_setPending now hs) rfl
      exact ⟨follow_of_follows (henabled ▸ hear_setPending now hs) hfollows nofun, hfollows.sound,
        hfollows.limits.trans (t.limits_setPending now)⟩
  | cancel =>
    obtain ⟨hhear, hsound, hlimits⟩ := cancel_protocol t.limits.enabled hs
    exact ⟨follow_of_follows hhear (follows_nothing hsound) nofun, hsound, hlimits⟩
  | setNoteWritten written =>
    exact ⟨follow_of_follows rfl (follows_nothing (t := t.setNoteWritten written) hs) nofun, hs,
      rfl⟩

theorem follow_trace {t : Tracker} (hs : t.Sound) (calls : List (Call × Nat)) :
    ((Protocol.follow t.limits.enabled).after t.protocol (t.trace calls)).isSome := by
  induction calls generalizing t with
  | nil => rfl
  | cons call calls ih =>
    obtain ⟨c, now⟩ := call
    obtain ⟨hfollow, hsound, hlimits⟩ := follow_call c now hs
    have hrest := ih hsound
    rw [hlimits] at hrest
    simp only [trace, Lts.Monitor.after_cons, hfollow, Option.bind_some]
    exact hrest

end Tracker

/-- A tracker as the supervisor makes it, with where its rotation then is. -/
inductive Made : Tracker → Protocol → Prop
  | new (limits : Limits) (now : Nat) : Made (Tracker.new limits now) ⟨.idle, 0, false, true⟩
  | pending (limits : Limits) (now now' : Nat) (notBefore : Option Nat) (attempts : Nat)
      (handoff : Bool) :
      Made ((Tracker.new limits now).pendingFrom now' notBefore attempts handoff)
        (if limits.enabled then ⟨.waiting, attempts, handoff, true⟩ else ⟨.idle, 0, false, true⟩)
  | retrying (limits : Limits) (now now' attempts : Nat) (handoff : Bool) :
      Made ((Tracker.new limits now).retrying now' attempts handoff)
        ⟨.requested, attempts, handoff, true⟩

theorem Made.sound {t : Tracker} {p : Protocol} (h : Made t p) : t.protocol = p ∧ t.Sound := by
  cases h with
  | new limits now => exact ⟨rfl, fun h ↦ absurd rfl h⟩
  | pending limits now now' notBefore attempts handoff =>
    cases henabled : limits.enabled with
    | false =>
      have hsame : (Tracker.new limits now).pendingFrom now' notBefore attempts handoff =
          Tracker.new limits now := by
        simp [Tracker.pendingFrom, Tracker.new, henabled]
      rw [hsame]
      exact ⟨rfl, fun h ↦ absurd rfl h⟩
    | true =>
      simp [Tracker.pendingFrom, Tracker.new, henabled, Tracker.protocol, Tracker.stage,
        Tracker.Sound]
  | retrying limits now now' attempts handoff => exact ⟨rfl, fun _ ↦ rfl⟩

/-- The tracker follows its protocol: whatever the calls and the clock, every action it answers
with is one that the protocol allows in answer to that call. -/
theorem trace_follows {t : Tracker} {p : Protocol} (h : Made t p) (calls : List (Call × Nat)) :
    ((Protocol.follow t.limits.enabled).after p (t.trace calls)).isSome := by
  obtain ⟨rfl, hs⟩ := h.sound
  exact Tracker.follow_trace hs calls

/-- Limits for an example, in seconds. -/
def someLimits : Limits where
  enabled := true
  contextTokens := 150000
  idle := 14400
  quiet := 1800
  handoff := 900
  compact := 600
  retryPause := 300

/-- A rotation that is requested by the marker, writes its note and is compacted. -/
theorem trace_follows_rotation :
    ((Protocol.follow true).after ⟨.idle, 0, false, true⟩
      [(.event (.result false false), []),
        (.markerSeen, [.snapshot .beforeHandoff, .requestHandoff]),
        (.setNoteWritten true, []),
        (.event (.result false false), [.snapshot .afterHandoff, .compact]),
        (.event (.compacted false), []),
        (.event (.result false false), [.compacted])]).isSome :=
  trace_follows (.new someLimits 0)
    [(.event (.result false false), 10), (.markerSeen, 20), (.setNoteWritten true, 30),
      (.event (.result false false), 30), (.event (.compacted false), 40),
      (.event (.result false false), 50)]

end Rotation

end Silta
