import Silta.Rotation

/-!
# The end of an attempt

When an event or the clock ends an attempt of the rotation, said of the tracker before it.
-/

namespace Silta

namespace Rotation

/-- The action stops claude for another start. -/
def Action.endsRun : Action → Bool
  | .retry _ _ _ | .postpone _ _ _ | .giveUp _ _ _ => true
  | _ => false

/-- The action changes neither the rotation's records nor the course of the run. -/
def Action.silent : Action → Bool
  | .snapshot _ | .requestHandoff | .awaitHandoff | .compact | .awaitCompaction => true
  | _ => false

namespace Tracker

/-- The clock alone ends the attempt. -/
def expires (t : Tracker) (now : Nat) : Bool :=
  match t.phase with
  | .idle => false
  | .waiting deadline =>
    !(t.notBefore.any fun nb ↦ decide (now < nb)) && !t.quiet && decide (deadline ≤ now)
  | .handoff deadline => decide (deadline ≤ now)
  | .compacting deadline _ _ => decide (deadline ≤ now)

/-- The event ends an attempt of the rotation: it fails, or the clock cuts it. -/
def attemptEnds (t : Tracker) (event : Stream.Event) (now : Nat) : Bool :=
  match event with
  | .result isError person =>
    match t.phase with
    | .handoff _ => isError
    | .compacting _ boundary failed => !boundary && (failed || isError)
    | _ => (t.endTurn person now).expires now
  | event => (t.note event now).expires now

/-- The event ends the turn of a compaction whose boundary has arrived. -/
def compactionEnds (t : Tracker) (event : Stream.Event) : Bool :=
  match event, t.phase with
  | .result _ _, .compacting _ true _ => true
  | _, _ => false

theorem advance_of_expires {t : Tracker} {now : Nat} (h : t.expires now = true) :
    ∃ step, t.advance now = t.cut step := by
  cases hphase : t.phase with
  | idle => simp [expires, hphase] at h
  | waiting deadline =>
    simp only [expires, hphase, Bool.and_eq_true, Bool.not_eq_true', decide_eq_true_eq] at h
    obtain ⟨⟨hpaused, hquiet⟩, hdue⟩ := h
    exact ⟨.wait, by simp [advance, hphase, hpaused, hquiet, hdue]⟩
  | handoff deadline =>
    have hdue : deadline ≤ now := by simpa [expires, hphase] using h
    exact ⟨.handoff, by simp [advance, hphase, hdue]⟩
  | compacting deadline boundary failed =>
    have hdue : deadline ≤ now := by simpa [expires, hphase] using h
    exact ⟨.compaction, by simp [advance, hphase, hdue]⟩

theorem advance_of_not_expires {t : Tracker} {now : Nat} (h : t.expires now = false) :
    t.advance now = (t, []) ∨
      t.quiet = true ∧ ∃ actions, actions.all Action.silent = true ∧
        t.advance now = ({ t with phase := .handoff (now + t.limits.handoff) }, actions) := by
  cases hphase : t.phase with
  | idle => exact .inl (by simp [advance, hphase])
  | waiting deadline =>
    cases hpaused : t.notBefore.any fun nb ↦ decide (now < nb) with
    | true => exact .inl (by simp [advance, hphase, hpaused])
    | false =>
      cases hquiet : t.quiet with
      -- the quiet moment has come: the handoff is requested, on the first attempt with a copy
      | true =>
        right
        by_cases hzero : t.attempts = 0
        · exact ⟨rfl, [.snapshot .beforeHandoff, .requestHandoff], rfl, by
            simp [advance, hphase, hpaused, hquiet, hzero]⟩
        · exact ⟨rfl, [.requestHandoff], rfl, by
            simp [advance, hphase, hpaused, hquiet, hzero]⟩
      | false =>
        have hnot : ¬deadline ≤ now := by simpa [expires, hphase, hpaused, hquiet] using h
        exact .inl (by simp [advance, hphase, hpaused, hquiet, hnot])
  | handoff deadline =>
    have hnot : ¬deadline ≤ now := by simpa [expires, hphase] using h
    exact .inl (by simp [advance, hphase, hnot])
  | compacting deadline boundary failed =>
    have hnot : ¬deadline ≤ now := by simpa [expires, hphase] using h
    exact .inl (by simp [advance, hphase, hnot])

/-- What actions come to: the end of the attempt, the end of the compaction, or nothing that the
run or the records show. -/
inductive HeardAs : Bool → Bool → List Action → Prop
  | ends (a : Action) (h : a.endsRun = true) : HeardAs true false [a]
  | compacts : HeardAs false true [.compacted]
  | silent (actions : List Action) (h : actions.all Action.silent = true) :
      HeardAs false false actions

theorem cut_ends (t : Tracker) (step : Step) :
    ∃ a, a.endsRun = true ∧ (t.cut step).2 = [a] := by
  unfold cut
  dsimp only
  split
  · exact ⟨_, rfl, rfl⟩
  · exact ⟨_, rfl, rfl⟩

theorem failed_ends (t : Tracker) (step : Step) (now : Nat) :
    ∃ a, a.endsRun = true ∧ (t.failed step now).2 = [a] := by
  unfold failed
  dsimp only
  split
  · exact ⟨_, rfl, rfl⟩
  · exact ⟨_, rfl, rfl⟩

theorem heardAs_cut (t : Tracker) (step : Step) : HeardAs true false (t.cut step).2 := by
  obtain ⟨a, ha, hcut⟩ := cut_ends t step
  rw [hcut]
  exact .ends a ha

theorem heardAs_failed (t : Tracker) (step : Step) (now : Nat) :
    HeardAs true false (t.failed step now).2 := by
  obtain ⟨a, ha, hfailed⟩ := failed_ends t step now
  rw [hfailed]
  exact .ends a ha

theorem heardAs_advance (t : Tracker) (now : Nat) :
    HeardAs (t.expires now) false (t.advance now).2 := by
  cases hexp : t.expires now with
  | true =>
    obtain ⟨step, hcut⟩ := advance_of_expires hexp
    rw [hcut]
    exact t.heardAs_cut step
  | false =>
    rcases advance_of_not_expires hexp with hsame | ⟨_, actions, hsilent, hadvance⟩
    · rw [hsame]
      exact .silent [] rfl
    · rw [hadvance]
      exact .silent actions hsilent

theorem heardAs_event (t : Tracker) (event : Stream.Event) (now : Nat) :
    HeardAs (t.attemptEnds event now) (t.compactionEnds event) (t.event event now).2 := by
  cases event with
  | result isError person =>
    cases hphase : t.phase with
    | handoff deadline =>
      have hends : t.attemptEnds (.result isError person) now = isError := by
        simp [attemptEnds, hphase]
      have hcompacts : t.compactionEnds (.result isError person) = false := by
        simp [compactionEnds, hphase]
      rw [hends, hcompacts]
      cases isError with
      | true =>
        have hresult : t.event (.result true person) now =
            (t.endTurn person now).failed .handoff now := by
          simp [Tracker.event, result, hphase]
        rw [hresult]
        exact heardAs_failed _ _ _
      | false =>
        apply HeardAs.silent
        cases hnote : t.noteWritten with
        | false => simp [Tracker.event, result, hphase, hnote, Action.silent]
        | true => simp [Tracker.event, result, hphase, hnote, Action.silent]
    | compacting deadline boundary failed =>
      simp only [Tracker.event, attemptEnds, compactionEnds, result, endTurn_phase, hphase]
      cases boundary with
      | true => exact .compacts
      | false =>
        cases hfail : failed || isError with
        | true => exact heardAs_failed _ _ _
        | false => exact .silent _ rfl
    | _ =>
      simp only [Tracker.event, attemptEnds, compactionEnds, result, endTurn_phase, hphase]
      exact heardAs_advance _ now
  | _ => exact heardAs_advance _ now

end Tracker

end Rotation

end Silta
