import Silta.RotationProtocol
import Silta.Attempt

/-!
# The waits of a rotation

A rotation waits for a quiet moment, for its handoff turn and for its compaction.  Each wait has a
deadline that is set when the wait begins and that nothing moves, and no tick leaves a wait past its
deadline.
-/

namespace Silta

namespace Rotation

/-- The wait that a phase is, and its deadline. -/
def Phase.wait : Phase → Option (Step × Nat)
  | .idle => none
  | .waiting deadline => some (.wait, deadline)
  | .handoff deadline => some (.handoff, deadline)
  | .compacting deadline _ _ => some (.compaction, deadline)

@[simp] theorem Phase.wait_withBoundary (phase : Phase) : phase.withBoundary.wait = phase.wait := by
  cases phase <;> rfl

@[simp] theorem Phase.wait_withFailure (phase : Phase) : phase.withFailure.wait = phase.wait := by
  cases phase <;> rfl

theorem Phase.wait_eq_wait_iff (phase : Phase) (deadline : Nat) :
    phase.wait = some (.wait, deadline) ↔ phase = .waiting deadline := by
  cases phase <;> simp [Phase.wait]

/-- How long a wait may take. -/
def Limits.cap (limits : Limits) : Step → Nat
  | .wait => limits.quiet
  | .handoff => limits.handoff
  | .compaction => limits.compact

/-- A use of the tracker: a call, or a rotation that a new run of the supervisor takes up. -/
inductive Input
  | call (c : Call)
  | pending (notBefore : Option Nat) (attempts : Nat) (handoff : Bool)
  | retrying (attempts : Nat) (handoff : Bool)
  deriving DecidableEq, Repr

/-- The rotation was taken up from an earlier run. -/
def Input.takesUp : Input → Bool
  | .call _ => false
  | .pending _ _ _ => true
  | .retrying _ _ => true

/-- From when the cap of a wait counts that begins with this use: the end of the retry pause, where
there is one. -/
def Input.countsFrom : Input → Nat → Nat
  | .pending (some notBefore) _ _, now => max notBefore now
  | _, now => now

namespace Tracker

def use (t : Tracker) : Input × Nat → Tracker × List Action
  | (.call c, now) => t.call c now
  | (.pending notBefore attempts handoff, now) => (t.pendingFrom now notBefore attempts handoff, [])
  | (.retrying attempts handoff, now) => (t.retrying now attempts handoff, [])

abbrev Moves : Tracker → Lts.Call (Input × Nat) (List Action) → Tracker → Prop := Lts.Answers use

/-- A tracker without a rotation has no pause and no wait, and the quiet cap counts from the end of
the pause. -/
structure Timed (t : Tracker) : Prop where
  free : t.pending = false → t.notBefore = none ∧ t.phase = .idle
  paused : ∀ deadline, t.phase = .waiting deadline →
    ∀ nb ∈ t.notBefore, nb + t.limits.quiet ≤ deadline

theorem timed_new (limits : Limits) (now : Nat) : (new limits now).Timed :=
  ⟨fun _ ↦ ⟨rfl, rfl⟩, nofun⟩

theorem Timed.of_not_waiting {t : Tracker} (hpending : t.pending = true)
    (hphase : ∀ deadline, t.phase ≠ .waiting deadline) : t.Timed :=
  ⟨fun h ↦ absurd (h.symm.trans hpending) Bool.false_ne_true,
    fun deadline h ↦ absurd h (hphase deadline)⟩

theorem Timed.pending {t : Tracker} (h : t.Timed) (hphase : t.phase ≠ .idle) :
    t.pending = true := by
  by_contra hfree
  exact hphase (h.free (Bool.eq_false_iff.mpr hfree)).2

/-! ## What one call does to the wait -/

/-- A wait that is under way after a step was under way before, or it begins with the step. -/
def Waits (t : Tracker) (now : Nat) (t' : Tracker) : Prop :=
  ∀ step deadline, t'.phase.wait = some (step, deadline) →
    t.phase.wait = some (step, deadline) ∨
      (∀ d, t.phase.wait ≠ some (step, d)) ∧ deadline = now + t.limits.cap step

theorem Waits.of_eq {t t' : Tracker} (now : Nat) (h : t'.phase.wait = t.phase.wait) :
    t.Waits now t' := fun _ _ hwait ↦ .inl (h ▸ hwait)

theorem Waits.of_idle {t t' : Tracker} (now : Nat) (h : t'.phase = .idle) : t.Waits now t' := by
  intro step deadline hwait
  rw [h] at hwait
  nomatch hwait

theorem phase_cut (t : Tracker) (step : Step) : (t.cut step).1.phase = .idle := by
  unfold cut
  dsimp only
  split <;> rfl

theorem phase_failed (t : Tracker) (step : Step) (now : Nat) :
    (t.failed step now).1.phase = .idle := by
  unfold failed
  dsimp only
  split <;> rfl

theorem pending_cut (t : Tracker) (step : Step) : (t.cut step).1.pending = t.pending := by
  unfold cut
  dsimp only
  split <;> rfl

theorem pending_failed (t : Tracker) (step : Step) (now : Nat) :
    (t.failed step now).1.pending = t.pending := by
  unfold failed
  dsimp only
  split <;> rfl

theorem wait_note (t : Tracker) (event : Stream.Event) (now : Nat) :
    (t.note event now).phase.wait = t.phase.wait := by
  cases event with
  | compacted auto => cases auto <;> simp [note]
  | compactionFailed => simp [note]
  | _ => rfl

/-- The clock leaves a wait as it is, ends it, or asks for the handoff. -/
theorem advance_cases (t : Tracker) (now : Nat) :
    (t.advance now).1 = t ∧ (∀ step deadline, t.phase.wait = some (step, deadline) →
      now < deadline ∨ t.phase = .waiting deadline ∧ ∃ nb ∈ t.notBefore, now < nb) ∨
    (∃ step, (t.advance now).1 = (t.cut step).1 ∧ t.phase ≠ .idle) ∨
    ∃ deadline, t.phase = .waiting deadline ∧
      (t.advance now).1 = { t with phase := .handoff (now + t.limits.handoff) } := by
  cases hphase : t.phase with
  | idle => exact .inl ⟨by simp [advance, hphase], by simp [Phase.wait]⟩
  | waiting deadline =>
    by_cases hpaused : (t.notBefore.any fun nb ↦ decide (now < nb)) = true
    · left
      refine ⟨by simp [advance, hphase, hpaused], ?_⟩
      rintro step d ⟨⟩
      obtain ⟨nb, hnb, hlt⟩ := (Option.any_eq_true _ _).mp hpaused
      exact .inr ⟨rfl, nb, hnb, of_decide_eq_true hlt⟩
    · by_cases hquiet : t.quiet = true
      · right; right
        refine ⟨deadline, rfl, ?_⟩
        by_cases hzero : t.attempts = 0 <;> simp [advance, hphase, hpaused, hquiet, hzero]
      · by_cases hdue : deadline ≤ now
        · exact .inr (.inl ⟨.wait, by simp [advance, hphase, hpaused, hquiet, hdue], by simp⟩)
        · left
          refine ⟨by simp [advance, hphase, hpaused, hquiet, hdue], ?_⟩
          rintro step d ⟨⟩
          exact .inl (not_le.mp hdue)
  | handoff deadline =>
    by_cases hdue : deadline ≤ now
    · exact .inr (.inl ⟨.handoff, by simp [advance, hphase, hdue], by simp⟩)
    · left
      refine ⟨by simp [advance, hphase, hdue], ?_⟩
      rintro step d ⟨⟩
      exact .inl (not_le.mp hdue)
  | compacting deadline boundary failed =>
    by_cases hdue : deadline ≤ now
    · exact .inr (.inl ⟨.compaction, by simp [advance, hphase, hdue], by simp⟩)
    · left
      refine ⟨by simp [advance, hphase, hdue], ?_⟩
      rintro step d ⟨⟩
      exact .inl (not_le.mp hdue)

/-- Every wait that the clock leaves under way is within its deadline. -/
theorem lt_of_advance {t : Tracker} {now : Nat} (h : t.Timed) (hquiet : 0 < t.limits.quiet)
    (hhandoff : 0 < t.limits.handoff) {step : Step} {deadline : Nat}
    (hwait : (t.advance now).1.phase.wait = some (step, deadline)) : now < deadline := by
  rcases t.advance_cases now with ⟨hsame, hbefore⟩ | ⟨step', hcut, -⟩ | ⟨d, hphase, hnext⟩
  · rw [hsame] at hwait
    rcases hbefore step deadline hwait with hlt | ⟨hphase, nb, hnb, hlt⟩
    · exact hlt
    · have hpaused := h.paused deadline hphase nb hnb
      omega
  · rw [hcut, phase_cut] at hwait
    nomatch hwait
  · rw [hnext] at hwait
    obtain ⟨-, rfl⟩ : Step.handoff = step ∧ now + t.limits.handoff = deadline := by
      simpa [Phase.wait] using hwait
    omega

theorem waits_advance (t : Tracker) (now : Nat) : t.Waits now (t.advance now).1 := by
  rcases t.advance_cases now with ⟨hsame, -⟩ | ⟨step', hcut, -⟩ | ⟨d, hphase, hnext⟩
  · exact .of_eq now (by rw [hsame])
  · exact .of_idle now (by rw [hcut, phase_cut])
  · intro step deadline hwait
    rw [hnext] at hwait
    obtain ⟨rfl, rfl⟩ : Step.handoff = step ∧ now + t.limits.handoff = deadline := by
      simpa [Phase.wait] using hwait
    exact .inr ⟨by simp [hphase, Phase.wait], rfl⟩

theorem timed_advance {t : Tracker} (now : Nat) (h : t.Timed) : (t.advance now).1.Timed := by
  rcases t.advance_cases now with ⟨hsame, -⟩ | ⟨step', hcut, hbusy⟩ | ⟨d, hphase, hnext⟩
  · rw [hsame]
    exact h
  · rw [hcut]
    apply Timed.of_not_waiting
    · rw [pending_cut]
      exact h.pending hbusy
    · simp [phase_cut]
  · rw [hnext]
    have hpending : t.pending = true := h.pending (by simp [hphase])
    exact .of_not_waiting hpending (by simp)

theorem setPending_of_pending {t : Tracker} (now : Nat) (h : t.pending = true) :
    t.setPending now = t := if_pos h

theorem setPending_of_free {t : Tracker} (now : Nat) (h : t.pending = false) :
    t.setPending now =
      { t with pending := true, phase := .waiting (now + t.limits.quiet) } := by
  simp [setPending, h]

theorem timed_setPending {t : Tracker} (now : Nat) (h : t.Timed) : (t.setPending now).Timed := by
  cases hpending : t.pending with
  | true =>
    rw [setPending_of_pending now hpending]
    exact h
  | false =>
    rw [setPending_of_free now hpending]
    refine ⟨nofun, fun deadline hphase nb hnb ↦ ?_⟩
    rw [(h.free hpending).1] at hnb
    nomatch hnb

/-- A rotation that begins and the clock that looks at it at once. -/
theorem waits_setPending_advance {t : Tracker} (now : Nat) (h : t.Timed) :
    t.Waits now ((t.setPending now).advance now).1 := by
  cases hpending : t.pending with
  | true =>
    rw [setPending_of_pending now hpending]
    exact t.waits_advance now
  | false =>
    have hidle := (h.free hpending).2
    intro step deadline hwait
    refine .inr ⟨by simp [hidle, Phase.wait], ?_⟩
    rcases waits_advance _ now step deadline hwait with hsame | ⟨-, hdeadline⟩
    · rw [setPending_of_free now hpending] at hsame
      obtain ⟨rfl, rfl⟩ : Step.wait = step ∧ now + t.limits.quiet = deadline := by
        simpa [Phase.wait] using hsame
      rfl
    · rw [hdeadline, limits_setPending]

theorem waits_result (t : Tracker) (isError person : Bool) (now : Nat) :
    t.Waits now (t.result isError person now).1 := by
  unfold result
  dsimp only
  split
  next deadline hphase =>
    split
    · exact .of_eq now rfl
    split
    · exact .of_idle now (phase_failed _ _ _)
    · rintro step d ⟨⟩
      exact .inr ⟨by simp [show t.phase = .handoff deadline from hphase, Phase.wait], rfl⟩
  next deadline boundary failed hphase =>
    split
    · exact .of_idle now rfl
    split
    · exact .of_idle now (phase_failed _ _ _)
    · exact .of_eq now rfl
  next => exact waits_advance (t.endTurn person now) now

theorem timed_result {t : Tracker} (isError person : Bool) (now : Nat) (h : t.Timed) :
    (t.result isError person now).1.Timed := by
  have hend : (t.endTurn person now).Timed := ⟨h.free, h.paused⟩
  unfold result
  dsimp only
  split
  next deadline hphase =>
    have hpending : t.pending = true := h.pending (by simp [show t.phase = _ from hphase])
    split
    · exact hend
    split
    · exact .of_not_waiting ((pending_failed _ _ _).trans hpending) (by simp [phase_failed])
    · exact .of_not_waiting hpending (by simp)
  next deadline boundary failed hphase =>
    have hpending : t.pending = true := h.pending (by simp [show t.phase = _ from hphase])
    split
    · exact ⟨fun _ ↦ ⟨rfl, rfl⟩, nofun⟩
    split
    · exact .of_not_waiting ((pending_failed _ _ _).trans hpending) (by simp [phase_failed])
    · exact hend
  next => exact timed_advance now hend

theorem timed_note {t : Tracker} (event : Stream.Event) (now : Nat) (h : t.Timed) :
    (t.note event now).Timed := by
  have hnotBefore : (t.note event now).notBefore = t.notBefore := by
    cases event <;> rfl
  refine ⟨fun hfree ↦ ?_, fun deadline hphase ↦ ?_⟩
  · rw [note_pending] at hfree
    rw [hnotBefore, note_phase_idle]
    exact h.free hfree
  · rw [← Phase.wait_eq_wait_iff, wait_note, Phase.wait_eq_wait_iff] at hphase
    rw [hnotBefore, note_limits]
    exact h.paused deadline hphase

theorem Waits.congr {t u t' : Tracker} {now : Nat} (h : u.Waits now t')
    (hwait : u.phase.wait = t.phase.wait) (hlimits : u.limits = t.limits) : t.Waits now t' := by
  intro step deadline hnew
  rw [← hwait, ← hlimits]
  exact h step deadline hnew

/-- What the tracker's own calls do to its wait. -/
theorem waits_call {t : Tracker} (c : Call) (now : Nat) (h : t.Timed) :
    t.Waits now (t.call c now).1 := by
  cases c with
  | event event =>
    cases event with
    | result isError person => exact t.waits_result isError person now
    | _ => exact (waits_advance _ now).congr (wait_note t _ now) (note_limits t _ now)
  | tick =>
    show t.Waits now (t.tick now).1
    unfold tick
    split
    · exact waits_setPending_advance now h
    · exact t.waits_advance now
  | markerSeen =>
    show t.Waits now (t.markerSeen now).1
    unfold markerSeen
    split
    · exact .of_eq now rfl
    · exact waits_setPending_advance now h
  | cancel =>
    show t.Waits now t.cancel.1
    unfold cancel
    split
    · split
      · exact .of_idle now rfl
      · exact .of_eq now rfl
    · exact .of_eq now rfl
  | setNoteWritten written => exact .of_eq now rfl

theorem timed_call {t : Tracker} (c : Call) (now : Nat) (h : t.Timed) :
    (t.call c now).1.Timed := by
  cases c with
  | event event =>
    cases event with
    | result isError person => exact timed_result isError person now h
    | _ => exact timed_advance now (timed_note _ now h)
  | tick =>
    show (t.tick now).1.Timed
    unfold tick
    split
    · exact timed_advance now (timed_setPending now h)
    · exact timed_advance now h
  | markerSeen =>
    show (t.markerSeen now).1.Timed
    unfold markerSeen
    split
    · exact h
    · exact timed_advance now (timed_setPending now h)
  | cancel =>
    show t.cancel.1.Timed
    unfold cancel
    split
    · split
      · exact ⟨fun _ ↦ ⟨rfl, rfl⟩, nofun⟩
      · exact h
    · exact h
  | setNoteWritten written => exact ⟨h.free, h.paused⟩

/-! ## What one use does -/

theorem timed_use {t : Tracker} (i : Input × Nat) (h : t.Timed) : (t.use i).1.Timed := by
  obtain ⟨i, now⟩ := i
  cases i with
  | call c => exact timed_call c now h
  | pending notBefore attempts handoff =>
    show (t.pendingFrom now notBefore attempts handoff).Timed
    unfold pendingFrom
    split
    · exact h
    · refine ⟨nofun, ?_⟩
      rintro deadline ⟨⟩ nb hnb
      obtain rfl : notBefore = some nb := hnb
      exact Nat.add_le_add_right (le_max_left nb now) _
  | retrying attempts handoff => exact .of_not_waiting rfl (by simp [retrying, use])

/-- A wait after a use was under way before, or the use begins it and its cap counts from there. -/
theorem wait_use {t : Tracker} (i : Input × Nat) (h : t.Timed) {step : Step} {deadline : Nat}
    (hwait : (t.use i).1.phase.wait = some (step, deadline)) :
    t.phase.wait = some (step, deadline) ∨
      ((∀ d, t.phase.wait ≠ some (step, d)) ∨ i.1.takesUp = true) ∧
        deadline = i.1.countsFrom i.2 + t.limits.cap step := by
  obtain ⟨i, now⟩ := i
  cases i with
  | call c =>
    rcases waits_call c now h step deadline hwait with hsame | ⟨hnew, hdeadline⟩
    · exact .inl hsame
    · exact .inr ⟨.inl hnew, hdeadline⟩
  | pending notBefore attempts handoff =>
    have hpending : (t.pendingFrom now notBefore attempts handoff).phase.wait =
        some (step, deadline) := hwait
    unfold pendingFrom at hpending
    split at hpending
    · exact .inl hpending
    · right
      cases notBefore with
      | none =>
        obtain ⟨rfl, rfl⟩ : Step.wait = step ∧ now + t.limits.quiet = deadline := by
          simpa [Phase.wait] using hpending
        exact ⟨.inr rfl, rfl⟩
      | some nb =>
        obtain ⟨rfl, rfl⟩ : Step.wait = step ∧ max nb now + t.limits.quiet = deadline := by
          simpa [Phase.wait] using hpending
        exact ⟨.inr rfl, rfl⟩
  | retrying attempts handoff =>
    obtain ⟨rfl, rfl⟩ : Step.handoff = step ∧ now + t.limits.handoff = deadline := by
      simpa [use, retrying, Phase.wait] using hwait
    exact .inr ⟨.inr rfl, rfl⟩

theorem limits_use {t : Tracker} (i : Input × Nat) (h : t.Timed) :
    (t.use i).1.limits = t.limits := by
  obtain ⟨i, now⟩ := i
  cases i with
  | call c =>
    have hsound : t.Sound := h.pending
    exact (follow_call c now hsound).2.2
  | pending notBefore attempts handoff =>
    show (t.pendingFrom now notBefore attempts handoff).limits = t.limits
    unfold pendingFrom
    split <;> rfl
  | retrying attempts handoff => rfl

/-- Right after a tick, a wait that is under way is within its deadline. -/
theorem lt_of_tick {t : Tracker} {now : Nat} (h : t.Timed) (hquiet : 0 < t.limits.quiet)
    (hhandoff : 0 < t.limits.handoff) {step : Step} {deadline : Nat}
    (hwait : (t.tick now).1.phase.wait = some (step, deadline)) : now < deadline := by
  unfold tick at hwait
  split at hwait
  · refine lt_of_advance (timed_setPending now h) ?_ ?_ hwait
    · rwa [limits_setPending]
    · rwa [limits_setPending]
  · exact lt_of_advance h hquiet hhandoff hwait

/-! ## Whole runs -/

/-- A step that leaves the tracker in a wait with this deadline. -/
def Keeps (step : Step) (deadline : Nat) (t : Tracker) (c : Lts.Call (Input × Nat) (List Action))
    (t' : Tracker) : Prop :=
  t.Moves c t' ∧ t'.phase.wait = some (step, deadline)

/-- In a run, a wait began with one of the uses, its deadline is its cap from there, and every use
since then has kept the wait and its deadline. -/
def SetOnce (limits : Limits) (start : Nat) (calls : List (Lts.Call (Input × Nat) (List Action)))
    (t : Tracker) (step : Step) (deadline : Nat) : Prop :=
  ∃ past c since u v, calls = past ++ c :: since ∧ Lts.Run Moves (new limits start) past u ∧
    u.Moves c v ∧ v.phase.wait = some (step, deadline) ∧
    ((∀ d, u.phase.wait ≠ some (step, d)) ∨ c.input.1.takesUp = true) ∧
    deadline = c.input.1.countsFrom c.input.2 + limits.cap step ∧
    Lts.Run (Keeps step deadline) v since t

theorem timed_of_run {limits : Limits} {start : Nat}
    {calls : List (Lts.Call (Input × Nat) (List Action))} {t : Tracker}
    (h : Lts.Run Moves (new limits start) calls t) : t.Timed ∧ t.limits = limits := by
  apply h.history (I := fun _ t ↦ t.Timed ∧ t.limits = limits) ⟨timed_new limits start, rfl⟩
  intro _ t c u ⟨htimed, hlimits⟩ hstep
  have huse : t.use c.input = (u, c.answer) := hstep
  have hnext := timed_use c.input htimed
  have hsame := limits_use c.input htimed
  rw [huse] at hnext hsame
  exact ⟨hnext, hsame.trans hlimits⟩

theorem setOnce_of_run {limits : Limits} {start : Nat}
    {calls : List (Lts.Call (Input × Nat) (List Action))} {t : Tracker}
    (h : Lts.Run Moves (new limits start) calls t) {step : Step} {deadline : Nat}
    (hwait : t.phase.wait = some (step, deadline)) :
    SetOnce limits start calls t step deadline := by
  generalize hfirst : new limits start = first at h
  induction h with
  | nil =>
    rw [← hfirst] at hwait
    nomatch hwait
  | @snoc t t' calls c hrun hstep ih =>
    subst hfirst
    obtain ⟨htimed, hlimits⟩ := timed_of_run hrun
    have huse : t.use c.input = (t', c.answer) := hstep
    have hnew := @wait_use t c.input htimed step deadline
    rw [huse] at hnew
    rcases hnew hwait with hsame | ⟨hbegins, hdeadline⟩
    · obtain ⟨past, d, since, u, v, rfl, hpast, hd, hv, hbegins, hdeadline, hkeeps⟩ := ih hsame
      refine ⟨past, d, since ++ [c], u, v, by simp, hpast, hd, hv, hbegins, hdeadline, ?_⟩
      exact hkeeps.snoc ⟨hstep, hwait⟩
    · exact ⟨calls, c, [], t, t', rfl, hrun, hstep, hwait, hbegins, hlimits ▸ hdeadline, .nil t'⟩

/-- The waits of a rotation are bounded.  In every run of calls, and of rotations taken up from
earlier runs, the deadline of a wait is set when the wait begins, to its cap from there or from the
end of the retry pause, and every use keeps it; and right after a tick no rotation waits, or now is
before its deadline. -/
theorem waits_bounded {limits : Limits} (hquiet : 0 < limits.quiet)
    (hhandoff : 0 < limits.handoff) {start : Nat}
    {calls : List (Lts.Call (Input × Nat) (List Action))} {t : Tracker}
    (h : Lts.Run Moves (new limits start) calls t) :
    (∀ step deadline, t.phase.wait = some (step, deadline) →
      SetOnce limits start calls t step deadline) ∧
    ∀ past c now, calls = past ++ [c] → c.input = (.call .tick, now) →
      t.phase = .idle ∨ ∃ step deadline, t.phase.wait = some (step, deadline) ∧ now < deadline := by
  refine ⟨fun step deadline hwait ↦ setOnce_of_run h hwait, ?_⟩
  rintro past c now rfl htick
  obtain ⟨u, hpast, hstep⟩ := h.last
  obtain ⟨htimed, hlimits⟩ := timed_of_run hpast
  have huse : u.use c.input = (t, c.answer) := hstep
  rw [htick] at huse
  have hlast : (u.tick now).1 = t := congrArg Prod.fst huse
  cases hphase : t.phase.wait with
  | none =>
    left
    cases hidle : t.phase <;> simp [Phase.wait, hidle] at hphase ⊢
  | some wait =>
    obtain ⟨step, deadline⟩ := wait
    rw [← hlimits] at hquiet hhandoff
    exact .inr ⟨step, deadline, rfl, lt_of_tick htimed hquiet hhandoff (hlast ▸ hphase)⟩

/-- A postponed handoff, taken up again before its pause is over. -/
def postponedUses : List (Input × Nat) :=
  [(.pending (some 100) 1 false, 10), (.call (.event (.result false false)), 20), (.call .tick, 50)]

theorem waits_bounded_postponed :
    SetOnce someLimits 0 (Lts.callsOf use (new someLimits 0) postponedUses)
      (postponedUses.foldl (fun t i ↦ (t.use i).1) (new someLimits 0)) .wait 1900 :=
  (waits_bounded (by decide) (by decide) (Lts.run_callsOf use _ postponedUses)).1 _ _ (by decide)

end Tracker

end Rotation

end Silta
