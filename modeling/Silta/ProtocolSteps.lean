import Silta.Attempt
import Silta.RotationProtocol

/-!
# The steps of the rotation's protocol

What each action says of the protocol that allows it, and what the calls of the tracker come to in
its terms.
-/

namespace Silta

namespace Rotation

namespace Protocol

theorem emits_of_follow {enabled : Bool} {p q : Protocol} {c : Call} {actions : List Action}
    (h : Protocol.follow enabled p (c, actions) = some q) :
    (p.hear enabled c).emits c actions = some q := by
  unfold Protocol.follow at h
  dsimp only at h
  split at h
  · cases h
  · cases hemits : (p.hear enabled c).emits c actions with
    | none => simp [hemits] at h
    | some q' =>
      rw [hemits, Option.bind_some] at h
      split at h
      · cases h
      · exact h

/-- What an action says of the rotation, whatever call it answers. -/
inductive Emitted (p : Protocol) : Action → Protocol → Prop
  | markPending (h : p.stage = .idle) : Emitted p .markPending { p with stage := .waiting }
  | copyBefore (h : p.stage = .waiting) :
      Emitted p (.snapshot .beforeHandoff) { p with stage := .copiedBefore }
  | requestHandoff (h : p.stage = .copiedBefore ∨ p.stage = .waiting) :
      Emitted p .requestHandoff { p with stage := .requested }
  | awaitHandoff (h : p.stage = .requested) : Emitted p .awaitHandoff p
  | copyAfter (h : p.stage = .requested) :
      Emitted p (.snapshot .afterHandoff) { p with stage := .copiedAfter }
  | compact (h : p.stage = .copiedAfter) :
      Emitted p .compact { p with stage := .compacting false false, handoff := true }
  | awaitCompaction (h : p.stage = .compacting false false) : Emitted p .awaitCompaction p
  | compacted (failed : Bool) (h : p.stage = .compacting true failed) :
      Emitted p .compacted { p with stage := .idle, spent := 0, handoff := false }
  | retry (step : Step) (h : stepOf p.stage = some step)
      (hleft : u32Succ p.spent < HANDOFF_ATTEMPTS) :
      Emitted p (.retry step (u32Succ p.spent) p.handoff)
        { p with stage := .ended, spent := u32Succ p.spent }
  | postpone (step : Step) (h : stepOf p.stage = some step)
      (hleft : u32Succ p.spent < HANDOFF_ATTEMPTS) :
      Emitted p (.postpone step (u32Succ p.spent) p.handoff)
        { p with stage := .ended, spent := u32Succ p.spent }
  | giveUp (step : Step) (cut : Bool) (h : stepOf p.stage = some step)
      (hlast : HANDOFF_ATTEMPTS ≤ u32Succ p.spent) :
      Emitted p (.giveUp step cut p.handoff)
        { p with stage := .ended, spent := u32Succ p.spent }

theorem endAttempt_eq_some {p q : Protocol} {c : Call} {step : Step} {cut handoff : Bool}
    (h : p.endAttempt c step cut handoff = some q) :
    stepOf p.stage = some step ∧ handoff = p.handoff ∧
      q = { p with stage := .ended, spent := u32Succ p.spent } := by
  simp only [endAttempt, Option.ite_none_right_eq_some, Option.some.injEq] at h
  obtain ⟨⟨hstep, hhandoff, -⟩, rfl⟩ := h
  exact ⟨hstep, hhandoff, rfl⟩

theorem emitted {p q : Protocol} {c : Call} {a : Action} (h : p.emit c a = some q) :
    Emitted p a q := by
  cases a with
  | markPending =>
    simp only [emit, Option.ite_none_right_eq_some, Option.some.injEq] at h
    obtain ⟨⟨-, hstage⟩, rfl⟩ := h
    exact .markPending hstage
  | snapshot moment =>
    cases moment with
    | beforeHandoff =>
      simp only [emit, Option.ite_none_right_eq_some, Option.some.injEq] at h
      obtain ⟨⟨hstage, -⟩, rfl⟩ := h
      exact .copyBefore hstage
    | afterHandoff =>
      simp only [emit, Option.ite_none_right_eq_some, Option.some.injEq] at h
      obtain ⟨⟨hstage, -⟩, rfl⟩ := h
      exact .copyAfter hstage
  | requestHandoff =>
    simp only [emit, Option.ite_none_right_eq_some, Option.some.injEq] at h
    obtain ⟨hstage, rfl⟩ := h
    exact .requestHandoff (hstage.imp_right And.left)
  | awaitHandoff =>
    simp only [emit, Option.ite_none_right_eq_some, Option.some.injEq] at h
    obtain ⟨⟨hstage, -⟩, rfl⟩ := h
    exact .awaitHandoff hstage
  | compact =>
    simp only [emit, Option.ite_none_right_eq_some, Option.some.injEq] at h
    obtain ⟨hstage, rfl⟩ := h
    exact .compact hstage
  | awaitCompaction =>
    simp only [emit, Option.ite_none_right_eq_some, Option.some.injEq] at h
    obtain ⟨⟨hstage, -⟩, rfl⟩ := h
    exact .awaitCompaction hstage
  | compacted =>
    simp only [emit] at h
    split at h
    next failed hstage =>
      simp only [Option.ite_none_right_eq_some, Option.some.injEq] at h
      obtain ⟨-, rfl⟩ := h
      exact .compacted failed hstage
    next => cases h
  | retry step attempts handoff =>
    simp only [emit, Option.ite_none_right_eq_some] at h
    obtain ⟨⟨rfl, hleft⟩, hend⟩ := h
    obtain ⟨hstep, rfl, rfl⟩ := endAttempt_eq_some hend
    exact .retry step hstep hleft
  | postpone step attempts handoff =>
    simp only [emit, Option.ite_none_right_eq_some] at h
    obtain ⟨⟨rfl, hleft⟩, hend⟩ := h
    obtain ⟨hstep, rfl, rfl⟩ := endAttempt_eq_some hend
    exact .postpone step hstep hleft
  | giveUp step cut handoff =>
    simp only [emit, Option.ite_none_right_eq_some] at h
    obtain ⟨hlast, hend⟩ := h
    obtain ⟨hstep, rfl, rfl⟩ := endAttempt_eq_some hend
    exact .giveUp step cut hstep hlast

/-- An attempt has ended exactly with an action that ends the run, and nothing is emitted after. -/
theorem emit_stage {p q : Protocol} {c : Call} {a : Action} (h : p.emit c a = some q) :
    p.stage ≠ .ended ∧ (q.stage = .ended ↔ a.endsRun = true) := by
  have hstep : ∀ step, stepOf p.stage = some step → p.stage ≠ .ended := by
    rintro step hstep hended
    rw [hended] at hstep
    cases hstep
  have hemitted := emitted h
  clear h
  cases hemitted with
  | requestHandoff h => rcases h with h | h <;> simp [h, Action.endsRun]
  | retry step h => exact ⟨hstep step h, by simp [Action.endsRun]⟩
  | postpone step h => exact ⟨hstep step h, by simp [Action.endsRun]⟩
  | giveUp step cut h => exact ⟨hstep step h, by simp [Action.endsRun]⟩
  | compacted failed h => simp [h, Action.endsRun]
  | _ h => simp [h, Action.endsRun]

theorem emits_stage {p q : Protocol} {c : Call} {actions : List Action}
    (h : p.emits c actions = some q) (hp : p.stage ≠ .ended) :
    q.stage = .ended ↔ actions.any Action.endsRun = true := by
  induction actions generalizing p with
  | nil =>
    obtain rfl : p = q := Option.some.inj h
    simpa using hp
  | cons a as ih =>
    cases ha : p.emit c a with
    | none => simp [emits, ha] at h
    | some p' =>
      have hrest : p'.emits c as = some q := by
        simpa [emits, ha] using h
      obtain ⟨-, hstage⟩ := emit_stage ha
      cases hends : a.endsRun with
      | false =>
        rw [hends] at hstage
        rw [List.any_cons, hends, Bool.false_or]
        exact ih hrest (by simpa using hstage)
      | true =>
        -- nothing follows the action that ends the attempt
        have hended : p'.stage = .ended := hstage.mpr hends
        cases as with
        | nil =>
          obtain rfl : p' = q := Option.some.inj hrest
          simp [hends, hended]
        | cons b bs =>
          cases hb : p'.emit c b with
          | none => simp [emits, hb] at hrest
          | some p'' => exact absurd hended (emit_stage hb).1

end Protocol

namespace Tracker

/-- A call of the tracker in the terms of its protocol. -/
theorem call_emits {t : Tracker} (c : Call) (now : Nat) (hs : t.Sound) :
    (t.protocol.hear t.limits.enabled c).emits c (t.call c now).2 =
        some (t.call c now).1.protocol ∧
      (t.call c now).1.Sound ∧ (t.call c now).1.limits = t.limits := by
  obtain ⟨hfollow, hrest⟩ := follow_call c now hs
  exact ⟨Protocol.emits_of_follow hfollow, hrest⟩

theorem markPending_not_mem {ends compacts : Bool} {actions : List Action}
    (h : HeardAs ends compacts actions) : .markPending ∉ actions := by
  cases h with
  | ends a ha =>
    rintro hmem
    obtain rfl := List.mem_singleton.mp hmem
    cases ha
  | compacts => simp
  | silent actions hs =>
    intro hmem
    have hsilent := List.all_eq_true.mp hs _ hmem
    cases hsilent

/-- A rotation is marked pending only by a supervisor that rotates. -/
theorem enabled_of_markPending {t : Tracker} {c : Call} {now : Nat}
    (h : .markPending ∈ (t.call c now).2) : t.limits.enabled = true := by
  cases c with
  | event event => exact absurd h (markPending_not_mem (t.heardAs_event event now))
  | tick =>
    simp only [call, tick] at h
    split at h
    next htrip =>
      simp only [thresholdTripped, Bool.and_eq_true] at htrip
      exact htrip.1.1.1.1.1
    next => exact absurd h (markPending_not_mem (t.heardAs_advance now))
  | markerSeen =>
    simp only [call, markerSeen] at h
    split at h
    next => cases h
    next henabled => simpa using henabled
  | cancel => cases h
  | setNoteWritten written => cases h

theorem stage_of_cancel {t : Tracker} (h : t.cancel.2 = true) : t.stage = .waiting := by
  cases hphase : t.phase with
  | waiting deadline => simp [stage, hphase]
  | _ => simp [cancel, hphase] at h

theorem tick_of_ended {t : Tracker} (h : t.stage = .ended) (now : Nat) : t.tick now = (t, []) := by
  have hidle : t.phase = .idle ∧ t.pending = true := by
    cases hphase : t.phase with
    | idle =>
      cases hpending : t.pending with
      | true => exact ⟨rfl, rfl⟩
      | false => simp [stage, hphase, hpending] at h
    | _ => simp [stage, hphase] at h
  have hno : t.thresholdTripped now = false := by
    simp [thresholdTripped, hidle.2]
  simp [tick, hno, advance, hidle.1]

end Tracker

end Rotation

end Silta
