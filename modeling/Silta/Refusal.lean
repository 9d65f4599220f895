import Silta.ExitRace

/-!
# A refused resume

Whether a resume that Claude Code refuses is tried again: the id is dropped at the exit of a run
that nothing has ended before.
-/

namespace Silta

namespace Rotation

namespace Tracker

/-- A tracker in the middle of a turn, of a supervisor that rotates or not. -/
structure Busy (enabled : Bool) (t : Tracker) : Prop where
  turn : t.turn = true
  limits : t.limits.enabled = enabled

theorem busy_note {enabled : Bool} {t : Tracker} (h : t.Busy enabled) (event : Stream.Event)
    (now : Nat) : (t.note event now).Busy enabled := by
  refine ⟨?_, (note_limits t event now).symm ▸ h.limits⟩
  cases event with
  | assistant subagent contextTokens synthetic => rfl
  | user person => rfl
  | _ => exact h.turn

theorem busy_setPending {enabled : Bool} {t : Tracker} (h : t.Busy enabled) (now : Nat) :
    (t.setPending now).Busy enabled := by
  unfold setPending
  split
  · exact h
  · exact ⟨h.turn, h.limits⟩

theorem busy_cancel {enabled : Bool} {t : Tracker} (h : t.Busy enabled) :
    t.cancel.1.Busy enabled := by
  unfold cancel
  split
  · split
    · exact ⟨h.turn, h.limits⟩
    · exact h
  · exact h

theorem cancel_of_false {t : Tracker} (h : t.cancel.2 = false) : t.cancel.1 = t := by
  cases hphase : t.phase with
  | waiting deadline =>
    cases hpending : t.pending with
    | true => simp [cancel, hphase, hpending] at h
    | false => simp [cancel, hphase, hpending]
  | _ => simp [cancel, hphase]

/-- In the middle of a turn nothing but the clock moves the tracker. -/
theorem advance_of_busy {enabled : Bool} {t : Tracker} {now : Nat} (h : t.Busy enabled)
    (hexp : t.expires now = false) : t.advance now = (t, []) := by
  rcases advance_of_not_expires hexp with hsame | ⟨hquiet, _⟩
  · exact hsame
  · simp [quiet, h.turn] at hquiet

theorem tick_of_busy {enabled : Bool} {t : Tracker} (h : t.Busy enabled) (now : Nat) :
    t.tick now = t.advance now := by
  have hno : t.thresholdTripped now = false := by
    simp [thresholdTripped, h.turn]
  simp [tick, hno]

/-- What ends with the cap: the attempt is retried, or the rotation is given up. -/
theorem cut_action (t : Tracker) (step : Step) :
    (t.cut step).2 =
      [if u32Succ t.attempts < HANDOFF_ATTEMPTS then .retry step (u32Succ t.attempts) t.handoff
        else .giveUp step true t.handoff] := by
  unfold cut
  dsimp only
  split
  · rfl
  · rfl

/-- After a cut the clock has nothing more to say. -/
theorem advance_cut (t : Tracker) (step : Step) (now : Nat) :
    (t.cut step).1.advance now = ((t.cut step).1, []) := by
  unfold cut
  dsimp only
  split
  · rfl
  · rfl

theorem busy_cut {enabled : Bool} {t : Tracker} (h : t.Busy enabled) (step : Step) :
    (t.cut step).1.Busy enabled := by
  unfold cut
  dsimp only
  split
  · exact ⟨h.turn, h.limits⟩
  · exact ⟨h.turn, h.limits⟩

/-- Within a turn the clock does not speak twice at one instant. -/
theorem tick_advance_of_busy {enabled : Bool} {t : Tracker} (h : t.Busy enabled) (now : Nat) :
    (t.advance now).1.tick now = ((t.advance now).1, []) := by
  cases hexp : t.expires now with
  | true =>
    obtain ⟨step, hcut⟩ := advance_of_expires hexp
    rw [hcut, tick_of_busy (busy_cut h step), advance_cut]
  | false =>
    rw [advance_of_busy h hexp, tick_of_busy h, advance_of_busy h hexp]

end Tracker

end Rotation

namespace Supervisor

open Rotation (Action HANDOFF_ATTEMPTS Tracker u32Succ)
open State (Next Paths)

/-- The tracker once a tick has looked for the marker. -/
def Run.lookedTracker (cfg : Config) (p : Paths) (r : Run) (now : Nat) : Tracker :=
  if cfg.rotate && (r.ticks + 1) % 5 == 0 then
    if p.markerExists then r.tracker.setPending now else r.tracker.cancel.1
  else r.tracker

/-- A cap expires, and an attempt is left for another try of the same session. -/
def Retries (t : Tracker) (expires : Bool) : Prop :=
  expires = true ∧ u32Succ t.attempts < HANDOFF_ATTEMPTS

/-- What ends a run that goes on so far in such a way that the next start takes the same session: a
line that ends it with an exit code, the deadline of the window check, or a cap of the rotation that
is not its last. -/
def EndsKeeping (cfg : Config) (s : Paths × Run) : Happening → Prop
  -- the tracker sees the line where the window was not checked before it
  | .input (.out event _) now =>
    s.2.after = none ∧
      (s.2.endsWith cfg event ≠ none ∨
        s.2.checked cfg event = true ∧
          Retries s.2.tracker (s.2.tracker.attemptEnds event now))
  | .input .tick now =>
    s.2.after = none ∧
      match s.2.intro with
      -- while the window is asked for, its deadline is all that a tick looks at
      | some (_, deadline) => deadline ≤ now
      | none =>
        Retries (s.2.lookedTracker cfg s.1 now) ((s.2.lookedTracker cfg s.1 now).expires now)
  | _ => False

/-- Some step of the run ends it so. -/
def EndsAlong (cfg : Config) : Paths × Run → List Happening → Prop
  | _, [] => False
  | s, h :: hs => EndsKeeping cfg s h ∨ EndsAlong cfg (h.step cfg s) hs

/-- No answer of a model, and no stop. -/
def unanswered : Happening → Bool
  | .input (.out (.assistant false _ false) _) _ => false
  | .input .shutdown _ => false
  | _ => true

/-- The next start does not resume the session, whatever transcripts there are. -/
def NotResumed (id : String) (p : Paths) : Prop :=
  ∀ transcripts newId,
    (planStart { p with transcripts := transcripts } newId).1.resume = true →
      (planStart { p with transcripts := transcripts } newId).1.id ≠ id

theorem keepsSaved_of_resume {p : Paths} {newId : String}
    (hresume : (planStart p newId).1.resume = true) :
    KeepsSaved (planStart p newId).1.id p ∧ (planStart p newId).1.id ∈ p.transcripts := by
  -- a start that resumes takes what is resumable
  have hsome : p.resumable = some (planStart p newId).1.id := by
    have hplan := planned p newId
    generalize planStart p newId = plan at hplan hresume ⊢
    cases hplan with
    | rotated => cases hresume
    | fresh => cases hresume
    | _ => assumption
  obtain ⟨hid, ht⟩ := Paths.resumable_eq_some.mp hsome
  refine ⟨⟨hid, fun handoff hfresh ↦ ?_⟩, ht⟩
  simp [planStart, Paths.readNext, hfresh, rotated, freshStart] at hresume

theorem notResumed_of_dropped {id : String} {p : Paths} (h : p.savedId = none) :
    NotResumed id p := by
  intro transcripts newId hresume
  -- without a saved id every start is a new session
  obtain ⟨⟨hsaved, -⟩, -⟩ := keepsSaved_of_resume hresume
  exact absurd (h.symm.trans hsaved) nofun

theorem notResumed_of_fresh {id : String} {p : Paths} {handoff : Bool}
    (h : p.rotation = .holds (.fresh handoff)) : NotResumed id p := by
  intro transcripts newId hresume
  obtain ⟨⟨-, hkept⟩, -⟩ := keepsSaved_of_resume hresume
  exact absurd h (hkept handoff)

theorem KeepsSaved.not_notResumed {id : String} {p : Paths} (h : KeepsSaved id p) :
    ¬NotResumed id p := by
  intro hnot
  have hkeeps : KeepsSaved id { p with transcripts := [id] } := h
  obtain ⟨hid, hresume, -⟩ := hkeeps.plan (List.mem_singleton.mpr rfl) ""
  exact hnot [id] "" hresume hid

/-! ## One step of an unanswered run -/

/-- Nothing has ended the run, and no model has answered in it. -/
structure Live (cfg : Config) (id : String) (s : Paths × Run) : Prop where
  after : s.2.after = none
  keeps : KeepsSaved id s.1
  ready : s.2.ready = false
  busy : s.2.tracker.Busy cfg.rotate

/-- The run has ended, and the next start takes the same session. -/
def Kept (id : String) (s : Paths × Run) : Prop := s.2.after.isSome = true ∧ KeepsSaved id s.1

/-- The run has ended, and the session is rotated out. -/
def GivenUp (s : Paths × Run) : Prop :=
  s.2.after.isSome = true ∧ ∃ handoff, s.1.rotation = .holds (.fresh handoff)

theorem ready_hear (cfg : Config) (r : Run) {event : Stream.Event} {now : Nat} {written : Bool}
    (h : unanswered (.input (.out event written) now) = true) :
    (r.hear cfg event now).1.ready = r.ready := by
  have hend : ∀ (r : Run) (code : Int), (r.«end» code now).ready = r.ready := by
    intro r code
    unfold Run.end
    split <;> rfl
  have hheard := Run.heard cfg r event now
  generalize r.hear cfg event now = x at hheard
  cases hheard with
  | starts requestId maxTokens line deadline hintro =>
    obtain ⟨deadline, hstart⟩ := Run.start_eq cfg { r with intro := none } line now
    rw [hstart]
  | refuses => exact hend _ _
  | outage => exact hend _ _
  | done =>
    show (r.done cfg now).ready = r.ready
    unfold Run.done
    split <;> rfl
  | fails => exact hend _ _
  | opens => cases h
  | _ => rfl

@[simp] theorem act_ready (cfg : Config) (r : Run) (now : Nat) (actions : List Action) :
    (r.act cfg now actions).1.ready = r.ready := by
  induction actions generalizing r with
  | nil => rfl
  | cons a as ih =>
    show ((r.perform cfg now a).1.act cfg now as).1.ready = _
    rw [ih]
    cases a <;> rfl

@[simp] theorem act_tracker (cfg : Config) (r : Run) (now : Nat) (actions : List Action) :
    (r.act cfg now actions).1.tracker = r.tracker := by
  induction actions generalizing r with
  | nil => rfl
  | cons a as ih =>
    show ((r.perform cfg now a).1.act cfg now as).1.tracker = _
    rw [ih]
    cases a <;> rfl

theorem ready_out (cfg : Config) (r : Run) {event : Stream.Event} {now : Nat} {written : Bool}
    (h : unanswered (.input (.out event written) now) = true) :
    (r.out cfg event written now).1.ready = r.ready := by
  show ((r.hear cfg event now).1.drive cfg event written now).1.ready = _
  rw [← ready_hear cfg r h]
  unfold Run.drive
  split
  · exact act_ready _ _ _ _
  · rfl

/-- What the tracker makes of a line within a turn. -/
theorem event_of_busy {enabled : Bool} {t : Tracker} {event : Stream.Event} {now : Nat}
    (hno : Run.isResult event = false) (h : t.Busy enabled) :
    (t.event event now).1.Busy enabled ∧
      (t.attemptEnds event now = true → ∃ step,
        (t.event event now).2 = [if u32Succ t.attempts < HANDOFF_ATTEMPTS then
          .retry step (u32Succ t.attempts) t.handoff else .giveUp step true t.handoff]) := by
  have hnote := Tracker.busy_note h event now
  have hevent : t.event event now = (t.note event now).advance now ∧
      t.attemptEnds event now = (t.note event now).expires now := by
    cases event with
    | result isError person => cases hno
    | _ => exact ⟨rfl, rfl⟩
  rw [hevent.1, hevent.2]
  cases hexp : (t.note event now).expires now with
  | true =>
    obtain ⟨step, hcut⟩ := Tracker.advance_of_expires hexp
    rw [hcut]
    refine ⟨Tracker.busy_cut hnote step, fun _ ↦ ⟨step, ?_⟩⟩
    rw [Tracker.cut_action, Tracker.note_attempts, Tracker.note_handoff]
  | false =>
    rw [Tracker.advance_of_busy hnote hexp]
    exact ⟨hnote, nofun⟩

theorem busy_out {cfg : Config} {r : Run} {enabled : Bool} {event : Stream.Event} {written : Bool}
    {now : Nat} (hafter : r.after = none) (hends : r.endsWith cfg event = none)
    (hno : Run.isResult event = false) (h : r.tracker.Busy enabled) :
    (r.out cfg event written now).1.tracker.Busy enabled := by
  have hgoes := Run.goesOn_hear hafter hends now
  show ((r.hear cfg event now).1.drive cfg event written now).1.tracker.Busy enabled
  cases hfree : ((r.hear cfg event now).1.stopping.isNone &&
      (r.hear cfg event now).1.intro.isNone) with
  | false =>
    rw [Run.drive_of_held hfree, hgoes.tracker]
    exact h
  | true =>
    obtain ⟨u, actions, hdrive, -, hplain⟩ := Run.drive_of_free cfg event written now hfree
    rw [hdrive, act_tracker]
    show u.Busy enabled
    have hu : u = (r.tracker.event event now).1 := by
      rw [← hgoes.tracker, ← hplain hno]
    rw [hu]
    exact (event_of_busy hno h).1

/-- What a step of a live run comes to: the run lives on or its session is given up, unless the step
ends the run and keeps the session. -/
def Decides (cfg : Config) (id : String) (ends : Prop) (t : Paths × Run) : Prop :=
  ¬ends ∧ (Live cfg id t ∨ GivenUp t) ∨ ends ∧ Kept id t

theorem decides_input {cfg : Config} {id : String} {s : Paths × Run} {i : Input} {now : Nat}
    {ends : Prop} {x : Answer} (hx : s.2.react cfg s.1 i now = x)
    (h : Decides cfg id ends (Effect.applyAll s.1 x.2, x.1)) :
    Decides cfg id ends ((Happening.input i now).step cfg s) := by
  obtain ⟨killed, hstep⟩ := step_input cfg s i now
  rw [hstep, hx]
  rcases h with ⟨hends, hlive | hgiven⟩ | ⟨hends, hkept⟩
  · exact .inl ⟨hends, .inl ⟨hlive.after, hlive.keeps, hlive.ready, hlive.busy⟩⟩
  · exact .inl ⟨hends, .inr hgiven⟩
  · exact .inr ⟨hends, hkept⟩

theorem oneShot_of_none {cfg : Config} (h : cfg.emergency = none) :
    cfg.oneShot = false ∧ cfg.compaction = false := by
  simp [Config.oneShot, Config.compaction, h]

/-- The end of a turn that no model has answered ends the run. -/
theorem endsWith_result {cfg : Config} {r : Run} {event : Stream.Event}
    (hcfg : cfg.emergency = none) (hready : r.ready = false)
    (hresult : Run.isResult event = true) : r.endsWith cfg event = some 1 := by
  obtain ⟨hone, hcompaction⟩ := oneShot_of_none hcfg
  cases event with
  | result isError person => simp [Run.endsWith, hone, hcompaction, hready]
  | _ => cases hresult

theorem not_isResult_of_endsWith {cfg : Config} {r : Run} {event : Stream.Event}
    (hcfg : cfg.emergency = none) (hready : r.ready = false)
    (hends : r.endsWith cfg event = none) : Run.isResult event = false := by
  cases hresult : Run.isResult event with
  | false => rfl
  | true =>
    rw [endsWith_result hcfg hready hresult] at hends
    cases hends

theorem keepsSaved_of_rotation {id : String} {p q : Paths} (h : KeepsSaved id p)
    (hid : q.savedId = p.savedId) (hrot : q.rotation = p.rotation) : KeepsSaved id q :=
  ⟨hid.trans h.1, fun handoff ↦ hrot ▸ h.2 handoff⟩

theorem decides_out {cfg : Config} {id : String} {s : Paths × Run} {event : Stream.Event}
    {written : Bool} {now : Nat} (hcfg : cfg.emergency = none) (hs : s.2.Coherent)
    (h : Live cfg id s) (hquiet : unanswered (.input (.out event written) now) = true) :
    Decides cfg id (EndsKeeping cfg s (.input (.out event written) now))
      ((Happening.input (.out event written) now).step cfg s) := by
  apply decides_input rfl
  have hclears : s.2.clears cfg event = false := by
    simp [Run.clears, (oneShot_of_none hcfg).1]
  have hready : (s.2.out cfg event written now).1.ready = false :=
    (ready_out cfg s.2 hquiet).trans h.ready
  have hreads : Reads cfg s.1 s.2 event now _ _ := (reads_out hs s.1 event written now).1
  show Decides cfg id _ (Effect.applyAll s.1 (s.2.out cfg event written now).2,
    (s.2.out cfg event written now).1)
  generalize hq : Effect.applyAll s.1 (s.2.out cfg event written now).2 = q at hreads ⊢
  generalize hafter : (s.2.out cfg event written now).1.after = outcome at hreads
  -- by what the line comes to: an exit code, a rotation, a compaction, or nothing
  cases hreads with
  | ending hsome ready =>
    rw [h.after] at hsome
    cases hsome
  | ends code _ hends =>
    right
    simp only [hclears, Bool.false_eq_true, if_false]
    refine ⟨⟨h.after, .inl (by simp [hends])⟩, ?_, h.keeps⟩
    show (s.2.out cfg event written now).1.after.isSome = true
    simp [hafter]
  | rotates a notBefore ready _ hends hchecked hattempt ha hmem =>
    have hno := not_isResult_of_endsWith hcfg h.ready hends
    obtain ⟨step, haction⟩ := (event_of_busy hno h.busy).2 hattempt
    have ha := hmem hno
    rw [haction, List.mem_singleton] at ha
    have hsome : (s.2.out cfg event written now).1.after.isSome = true := by
      simp [hafter]
    -- an attempt is left and the session is kept, or the rotation is given up for a fresh one
    by_cases hlt : u32Succ s.2.tracker.attempts < HANDOFF_ATTEMPTS
    · rw [if_pos hlt] at ha
      right
      refine ⟨⟨h.after, .inr ⟨hchecked, hattempt, hlt⟩⟩, hsome, ?_⟩
      rw [ha]
      exact ⟨h.keeps.1, fun handoff hmarker ↦ by cases hmarker⟩
    · rw [if_neg hlt] at ha
      left
      refine ⟨?_, .inr ⟨hsome, s.2.tracker.handoff, ?_⟩⟩
      · rintro ⟨-, hsome | ⟨-, hretries⟩⟩
        · exact hsome hends
        · exact hlt hretries.2
      · rw [ha]
        rfl
  | compacts ready _ hends hchecked hattempt hcompacts =>
    -- a compaction is seen at the end of a turn, which here ends the run
    have hresult : Run.isResult event = true := by
      cases event <;> first | rfl | cases hcompacts
    rw [endsWith_result hcfg h.ready hresult] at hends
    cases hends
  | goesOn ready _ hends hgo =>
    have hno := not_isResult_of_endsWith hcfg h.ready hends
    left
    refine ⟨?_, .inl ⟨hafter, h.keeps, hready, busy_out h.after hends hno h.busy⟩⟩
    rintro ⟨-, hsome | ⟨hchecked, hretries⟩⟩
    · exact hsome hends
    · exact absurd ((hgo hchecked).1.symm.trans hretries.1) Bool.false_ne_true

/-- Looking for the marker: the tracker is as it was looked at, and possibly moved on by the
clock. -/
theorem lookForMarker_cases {cfg : Config} {r : Run} (h : r.tracker.Busy cfg.rotate) (p : Paths)
    (now : Nat) :
    let t := r.lookedTracker cfg p now
    let r' := { r with ticks := r.ticks + 1 }
    t.Busy cfg.rotate ∧
      (r'.lookForMarker cfg p now = (r'.withTracker t, []) ∨
        r'.lookForMarker cfg p now = (r'.withTracker t, [.writeNext .normal]) ∨
        r'.lookForMarker cfg p now = r'.take cfg (t.advance now) now) := by
  unfold Run.lookedTracker Run.lookForMarker
  dsimp only
  cases hdue : cfg.rotate && (r.ticks + 1) % 5 == 0 with
  | false => exact ⟨h, .inl rfl⟩
  | true =>
    have hrotate : cfg.rotate = true := by
      simp only [Bool.and_eq_true] at hdue
      exact hdue.1
    cases hmarker : p.markerExists with
    | true =>
      refine ⟨Tracker.busy_setPending h now, ?_⟩
      cases hpending : r.tracker.pending with
      | true =>
        left
        have hsame : r.tracker.setPending now = r.tracker := by
          simp [Tracker.setPending, hpending]
        simp [Tracker.isPending, hpending, hsame, Run.withTracker]
      | false =>
        right; right
        have hseen : r.tracker.markerSeen now = (r.tracker.setPending now).advance now := by
          simp [Tracker.markerSeen, h.limits, hrotate]
        simp [Tracker.isPending, hpending, hseen]
    | false =>
      refine ⟨Tracker.busy_cancel h, ?_⟩
      cases hcancel : r.tracker.cancel.2 with
      | true =>
        right; left
        simp
      | false =>
        left
        simp [Tracker.cancel_of_false hcancel, Run.withTracker]

/-- A tick within a turn: the clock speaks once, to the tracker that has looked for the marker. -/
theorem watchRotation_of_busy {cfg : Config} {r : Run} (h : r.tracker.Busy cfg.rotate) (p : Paths)
    (now : Nat) :
    let t := r.lookedTracker cfg p now
    let r' := { r with ticks := r.ticks + 1 }
    t.Busy cfg.rotate ∧
      (r.watchRotation cfg p now).1 = (r'.take cfg (t.advance now) now).1 ∧
      ∃ q, q.savedId = p.savedId ∧ (q.rotation = p.rotation ∨ q.rotation = .absent) ∧
        Effect.applyAll p (r.watchRotation cfg p now).2 =
          (t.advance now).2.foldl recordAction q := by
  obtain ⟨hbusy, hcases⟩ := lookForMarker_cases h p now
  generalize r.lookedTracker cfg p now = t at hbusy hcases ⊢
  intro t r'
  refine ⟨hbusy, ?_⟩
  have hdisk : ∀ (q : Paths) (r : Run) (answer : Tracker × List Action),
      Effect.applyAll q (r.take cfg answer now).2 = answer.2.foldl recordAction q :=
    fun q r answer ↦ Run.applyAll_act cfg q (r.withTracker answer.1) now answer.2
  have htick : t.tick now = t.advance now := Tracker.tick_of_busy hbusy now
  unfold Run.watchRotation Answer.andThen
  rcases hcases with hlook | hlook | hlook
  · rw [hlook]
    show ((r'.withTracker t).take cfg (t.tick now) now).1 = _ ∧ _
    rw [htick]
    refine ⟨rfl, p, rfl, .inl rfl, ?_⟩
    show Effect.applyAll p ((r'.withTracker t).take cfg (t.tick now) now).2 = _
    rw [htick, hdisk]
  · rw [hlook]
    show ((r'.withTracker t).take cfg (t.tick now) now).1 = _ ∧ _
    rw [htick]
    refine ⟨rfl, p.writeNext .normal, rfl, .inr rfl, ?_⟩
    show Effect.applyAll (p.writeNext .normal) ((r'.withTracker t).take cfg (t.tick now) now).2 = _
    rw [htick, hdisk]
  -- the marker was new, so the clock has spoken already, and does not speak again
  · have htracker : (r'.take cfg (t.advance now) now).1.tracker = (t.advance now).1 :=
      act_tracker cfg (r'.withTracker (t.advance now).1) now (t.advance now).2
    have hagain : ∀ u : Run, u.tracker = (t.advance now).1 →
        u.take cfg (u.tracker.tick now) now = (u, []) := by
      intro u hu
      rw [hu, Tracker.tick_advance_of_busy hbusy, ← hu]
      rfl
    rw [hlook]
    dsimp only
    rw [hagain _ htracker]
    exact ⟨rfl, p, rfl, .inl rfl, by rw [List.append_nil, hdisk]⟩

theorem decides_tick {cfg : Config} {id : String} {s : Paths × Run} {now : Nat}
    (hcfg : cfg.emergency = none) (hs : s.2.Coherent) (h : Live cfg id s) :
    Decides cfg id (EndsKeeping cfg s (.input .tick now))
      ((Happening.input .tick now).step cfg s) := by
  have hstop : s.2.stopping = none := by
    rw [← Option.not_isSome_iff_eq_none, ← hs, h.after]
    exact Bool.false_ne_true
  cases hintro : s.2.intro with
  -- claude has not answered what its window is
  | some waiting =>
    have hends : EndsKeeping cfg s (.input .tick now) ↔ waiting.2 ≤ now := by
      simp [EndsKeeping, h.after, hintro]
    rw [hends]
    by_cases hdue : waiting.2 ≤ now
    · have htick : s.2.tick cfg s.1 now = (s.2.«end» 1 now, []) := by
        simp [Run.tick, hstop, hintro, hdue]
      obtain ⟨hend, -⟩ := Run.end_of_none h.after 1 now
      exact decides_input htick (.inr ⟨hdue, by simp [hend], h.keeps⟩)
    · have htick : s.2.tick cfg s.1 now = (s.2, []) := by
        simp [Run.tick, hstop, hintro, hdue]
      exact decides_input htick (.inl ⟨hdue, .inl ⟨h.after, h.keeps, h.ready, h.busy⟩⟩)
  | none =>
    have htick : s.2.react cfg s.1 .tick now = s.2.watchRotation cfg s.1 now := by
      simp [Run.react, Run.tick, hstop, hintro, (oneShot_of_none hcfg).1]
    obtain ⟨hbusy, hrun, q, hid, hrot, hdisk⟩ := watchRotation_of_busy h.busy s.1 now
    have hkeeps : KeepsSaved id q := by
      refine ⟨hid.trans h.keeps.1, fun handoff hfresh ↦ ?_⟩
      rcases hrot with hsame | habsent
      · exact h.keeps.2 handoff (hsame ▸ hfresh)
      · rw [habsent] at hfresh
        cases hfresh
    have hends : EndsKeeping cfg s (.input .tick now) ↔ Retries (s.2.lookedTracker cfg s.1 now)
        ((s.2.lookedTracker cfg s.1 now).expires now) := by
      simp [EndsKeeping, h.after, hintro]
    apply decides_input htick
    rw [hends, hdisk, hrun]
    -- what counts from here on is the tracker that has looked for the marker
    generalize s.2.lookedTracker cfg s.1 now = t at hbusy ⊢
    cases hexp : t.expires now with
    | false =>
      rw [Tracker.advance_of_busy hbusy hexp]
      exact .inl ⟨fun hretries ↦ Bool.false_ne_true hretries.1,
        .inl ⟨h.after, hkeeps, h.ready, hbusy⟩⟩
    | true =>
      obtain ⟨step, hcut⟩ := Tracker.advance_of_expires hexp
      have haction := t.cut_action step
      rw [hcut]
      unfold Run.take
      by_cases hlt : u32Succ t.attempts < HANDOFF_ATTEMPTS
      · rw [if_pos hlt] at haction
        rw [haction]
        exact .inr ⟨⟨rfl, hlt⟩, rfl, hid.trans h.keeps.1, nofun⟩
      · rw [if_neg hlt] at haction
        rw [haction]
        exact .inl ⟨fun hretries ↦ hlt hretries.2, .inr ⟨rfl, t.handoff, rfl⟩⟩

theorem decides_step {cfg : Config} {id : String} {s : Paths × Run} {h : Happening}
    (hcfg : cfg.emergency = none) (hs : s.2.Coherent) (hlive : Live cfg id s)
    (hquiet : unanswered h = true) : Decides cfg id (EndsKeeping cfg s h) (h.step cfg s) := by
  have hstays : ∀ t : Paths × Run, ¬EndsKeeping cfg s h → Live cfg id t →
      Decides cfg id (EndsKeeping cfg s h) t :=
    fun t hends hlive ↦ .inl ⟨hends, .inl hlive⟩
  cases h with
  | input i now =>
    cases i with
    | out event written => exact decides_out hcfg hs hlive hquiet
    | err line =>
      have herr : (s.2.err line).after = s.2.after ∧ (s.2.err line).ready = s.2.ready ∧
          (s.2.err line).tracker = s.2.tracker := by
        unfold Run.err
        split
        · exact ⟨rfl, rfl, rfl⟩
        · exact ⟨rfl, rfl, rfl⟩
      apply decides_input rfl
      apply hstays _ nofun
      refine ⟨herr.1.trans hlive.after, hlive.keeps, herr.2.1.trans hlive.ready, ?_⟩
      show (s.2.err line).tracker.Busy cfg.rotate
      rw [herr.2.2]
      exact hlive.busy
    | tick => exact decides_tick hcfg hs hlive
    | shutdown => cases hquiet
  | mark => exact hstays _ nofun ⟨hlive.after, hlive.keeps, hlive.ready, hlive.busy⟩
  | unmark => exact hstays _ nofun ⟨hlive.after, hlive.keeps, hlive.ready, hlive.busy⟩

theorem ended_step {cfg : Config} {s : Paths × Run} {h : Happening} (hcfg : cfg.emergency = none)
    (hs : s.2.Coherent) (hended : s.2.after.isSome = true) (hquiet : unanswered h = true) :
    ¬EndsKeeping cfg s h ∧ (h.step cfg s).2.after.isSome = true ∧
      (h.step cfg s).1.savedId = s.1.savedId ∧ (h.step cfg s).1.rotation = s.1.rotation := by
  have hnone : s.2.after ≠ none := Option.isSome_iff_ne_none.mp hended
  have hnot : ¬EndsKeeping cfg s h := by
    intro hends
    cases h with
    | input i now => cases i <;> first | exact hnone hends.1 | exact hends
    | _ => exact hends
  refine ⟨hnot, ?_⟩
  cases h with
  | input i now =>
    obtain ⟨killed, hstep⟩ := step_input cfg s i now
    rw [hstep]
    cases i with
    | out event written =>
      have hclears : s.2.clears cfg event = false := by
        simp [Run.clears, (oneShot_of_none hcfg).1]
      have hreads : Reads cfg s.1 s.2 event now _ _ := (reads_out hs s.1 event written now).1
      show (s.2.out cfg event written now).1.after.isSome = true ∧
        (Effect.applyAll s.1 (s.2.out cfg event written now).2).savedId = _ ∧
        (Effect.applyAll s.1 (s.2.out cfg event written now).2).rotation = _
      generalize Effect.applyAll s.1 (s.2.out cfg event written now).2 = q at hreads ⊢
      generalize (s.2.out cfg event written now).1.after = outcome at hreads ⊢
      cases hreads with
      | ending hsome ready =>
        rw [hclears]
        exact ⟨hsome, rfl, rfl⟩
      | ends _ h => exact absurd h hnone
      | rotates _ _ _ h => exact absurd h hnone
      | compacts _ h => exact absurd h hnone
      | goesOn _ h => exact absurd h hnone
    | err line =>
      refine ⟨?_, rfl, rfl⟩
      show (s.2.err line).after.isSome = true
      unfold Run.err
      split
      · exact hended
      · exact hended
    | tick =>
      obtain ⟨deadline, hstop⟩ := Option.isSome_iff_exists.mp (hs.symm.trans hended)
      show (s.2.tick cfg s.1 now).1.after.isSome = true ∧
        (Effect.applyAll s.1 (s.2.tick cfg s.1 now).2).savedId = _ ∧
        (Effect.applyAll s.1 (s.2.tick cfg s.1 now).2).rotation = _
      simp only [Run.tick, hstop]
      split
      · exact ⟨hended, rfl, rfl⟩
      · exact ⟨hended, rfl, rfl⟩
    | shutdown => cases hquiet
  | mark => exact ⟨hended, rfl, rfl⟩
  | unmark => exact ⟨hended, rfl, rfl⟩

theorem coherent_step {cfg : Config} {s : Paths × Run} (hs : s.2.Coherent) (h : Happening) :
    (h.step cfg s).2.Coherent :=
  coherent_runLoop hs [h]

theorem ended_run {cfg : Config} {s : Paths × Run} {hs : List Happening}
    (hcfg : cfg.emergency = none) (hc : s.2.Coherent) (hended : s.2.after.isSome = true)
    (hquiet : ∀ h ∈ hs, unanswered h = true) :
    ¬EndsAlong cfg s hs ∧ (runLoop cfg s hs).2.after.isSome = true ∧
      (runLoop cfg s hs).1.savedId = s.1.savedId ∧
      (runLoop cfg s hs).1.rotation = s.1.rotation := by
  induction hs generalizing s with
  | nil => exact ⟨id, hended, rfl, rfl⟩
  | cons h rest ih =>
    obtain ⟨hnot, hended', hid, hrot⟩ := ended_step hcfg hc hended (hquiet h List.mem_cons_self)
    obtain ⟨hnots, hlast, hids, hrots⟩ :=
      ih (coherent_step hc h) hended' fun h' hmem ↦ hquiet h' (List.mem_cons_of_mem h hmem)
    exact ⟨not_or.mpr ⟨hnot, hnots⟩, hlast, hids.trans hid, hrots.trans hrot⟩

theorem decides_run {cfg : Config} {id : String} {s : Paths × Run} {hs : List Happening}
    (hcfg : cfg.emergency = none) (hc : s.2.Coherent) (hlive : Live cfg id s)
    (hquiet : ∀ h ∈ hs, unanswered h = true) :
    Decides cfg id (EndsAlong cfg s hs) (runLoop cfg s hs) := by
  -- from the first step that ends the run on, nothing that is asked about changes
  induction hs generalizing s with
  | nil => exact .inl ⟨fun h ↦ h, .inl hlive⟩
  | cons h rest ih =>
    have hrest : ∀ h' ∈ rest, unanswered h' = true :=
      fun h' hmem ↦ hquiet h' (List.mem_cons_of_mem h hmem)
    have hcs : (h.step cfg s).2.Coherent := coherent_step hc h
    rcases decides_step hcfg hc hlive (hquiet h List.mem_cons_self) with
      ⟨hnot, hlive' | hgiven⟩ | ⟨hends, hkept⟩
    · rcases ih hcs hlive' hrest with ⟨hnots, hlast⟩ | ⟨hends, hlast⟩
      · exact .inl ⟨not_or.mpr ⟨hnot, hnots⟩, hlast⟩
      · exact .inr ⟨.inr hends, hlast⟩
    · obtain ⟨hnots, hended, -, hrot⟩ := ended_run hcfg hcs hgiven.1 hrest
      obtain ⟨handoff, hfresh⟩ := hgiven.2
      exact .inl ⟨not_or.mpr ⟨hnot, hnots⟩, .inr ⟨hended, handoff, hrot.trans hfresh⟩⟩
    · obtain ⟨-, hended, hid, hrot⟩ := ended_run hcfg hcs hkept.1 hrest
      exact .inr ⟨.inl hends, hended, keepsSaved_of_rotation hkept.2 hid hrot⟩

/-! ## The exit -/

/-- The happening is the line of a refused resume. -/
def Happening.refuses : Happening → Bool
  | .input (.err line) _ => Run.refuses line
  | _ => false

theorem noConversation_tick (cfg : Config) (p : Paths) (r : Run) (now : Nat) :
    (r.tick cfg p now).1.noConversation = r.noConversation := by
  have htake : ∀ (r : Run) (answer : Tracker × List Action),
      (r.take cfg answer now).1.noConversation = r.noConversation :=
    fun r answer ↦ Run.act_noConversation cfg (r.withTracker answer.1) now answer.2
  unfold Run.tick
  split
  · split <;> rfl
  split
  · split
    · exact Run.noConversation_end _ _ _
    · rfl
  split
  · split
    · exact Run.noConversation_end _ _ _
    · rfl
  · unfold Run.watchRotation Answer.andThen
    rw [htake]
    unfold Run.lookForMarker
    split
    · split
      · exact htake _ _
      split
      · rfl
      · rfl
    · rfl

theorem noConversation_step {cfg : Config} {s : Paths × Run} {h : Happening}
    (hquiet : unanswered h = true) :
    (h.step cfg s).2.noConversation = (s.2.noConversation || h.refuses) := by
  cases h with
  | input i now =>
    obtain ⟨killed, hstep⟩ := step_input cfg s i now
    rw [hstep]
    cases i with
    | out event written =>
      show (s.2.out cfg event written now).1.noConversation = _
      rw [noConversation_out]
      simp [Happening.refuses]
    | err line =>
      exact noConversation_err s.2 line
    | tick =>
      show (s.2.tick cfg s.1 now).1.noConversation = _
      rw [noConversation_tick]
      simp [Happening.refuses]
    | shutdown => cases hquiet
  | mark => simp [Happening.step, Happening.refuses]
  | unmark => simp [Happening.step, Happening.refuses]

theorem noConversation_run {cfg : Config} {s : Paths × Run} {hs : List Happening}
    (hquiet : ∀ h ∈ hs, unanswered h = true) :
    (runLoop cfg s hs).2.noConversation = (s.2.noConversation || hs.any Happening.refuses) := by
  induction hs generalizing s with
  | nil => simp [runLoop]
  | cons h rest ih =>
    show (runLoop cfg (h.step cfg s) rest).2.noConversation = _
    rw [ih fun h' hmem ↦ hquiet h' (List.mem_cons_of_mem h hmem),
      noConversation_step (hquiet h List.mem_cons_self), List.any_cons, Bool.or_assoc]

theorem offRecord_launch (cfg : Config) (p : Paths) (start : Start) (notBefore : Option Nat)
    (now : Nat) : ∀ e ∈ (launch cfg p start notBefore now).2, e.offRecord = true := by
  intro e he
  rcases List.mem_append.mp he with hbefore | hline
  · rcases List.mem_append.mp hbefore with hspawn | hcopy
    · rcases List.mem_pair.mp hspawn with rfl | rfl
      · rfl
      · rfl
    · split at hcopy
      · obtain rfl := List.mem_singleton.mp hcopy
        rfl
      · cases hcopy
  · dsimp only at hline
    split at hline
    · dsimp only at hline
      exact Run.offRecord_write _ rfl e hline
    · exact Run.offRecord_start _ _ _ _ e hline

theorem busy_startTracker (cfg : Config) (p : Paths) (start : Start) (notBefore : Option Nat)
    (now : Nat) : (startTracker cfg p start notBefore now).Busy cfg.rotate := by
  unfold startTracker
  dsimp only
  split
  · exact ⟨rfl, rfl⟩
  split
  · unfold Tracker.pendingFrom
    split
    · exact ⟨rfl, rfl⟩
    · exact ⟨rfl, rfl⟩
  · exact ⟨rfl, rfl⟩

theorem live_begun {cfg : Config} {p : Paths} {start : Start} {es : List Effect} {id : String}
    (h : KeepsSaved id (Effect.applyAll p es)) (notBefore : Option Nat) (now : Nat) :
    Live cfg id (begun cfg p start es notBefore now) := by
  have hbusy := busy_startTracker cfg (Effect.applyAll p es) start notBefore now
  obtain ⟨ready, hdisk⟩ := Effect.applyAll_offRecord (Effect.applyAll p es)
    (offRecord_launch cfg (Effect.applyAll p es) start notBefore now)
  have hkeeps : KeepsSaved id (begun cfg p start es notBefore now).1 := by
    show KeepsSaved id (Effect.applyAll _ _)
    rw [hdisk]
    exact h
  obtain ⟨hafter, -, hready, htracker⟩ :=
    launch_begins cfg (Effect.applyAll p es) start notBefore now
  exact ⟨hafter, hkeeps, hready, htracker.symm ▸ hbusy⟩

theorem leave_of_ended {r : Run} (hended : r.after.isSome = true) (cfg : Config) (start : Start)
    (drained : List Line) (code : Int) : (r.leave cfg start drained code).2 = [] := by
  obtain ⟨outcome, hafter⟩ := Option.isSome_iff_exists.mp hended
  simp [Run.leave, hafter]

/-- The next start does not take up a refused resume again, exactly if nothing had ended the run
that keeps the session before the exit was noticed: for every order of its lines and ticks, with
any lines left in the pipes. -/
theorem notResumed_iff {cfg : Config} (hcfg : cfg.emergency = none) {p : Paths} {newId : String}
    (hresume : (planStart p newId).1.resume = true) (notBefore : Option Nat) (now : Nat)
    {happenings : List Happening} (hquiet : ∀ h ∈ happenings, unanswered h = true)
    {drained : List Line}
    (hrefused : (happenings.any Happening.refuses || drained.any Line.refuses) = true)
    (code : Int) :
    let plan := planStart p newId
    let s := begun cfg p plan.1 plan.2 notBefore now
    let t := runLoop cfg s happenings
    NotResumed plan.1.id (Effect.applyAll t.1 (t.2.leave cfg plan.1 drained code).2) ↔
      ¬EndsAlong cfg s happenings := by
  intro plan s t
  obtain ⟨hkeeps, ht⟩ := keepsSaved_of_resume hresume
  have hlive : Live cfg plan.1.id s := live_begun (hkeeps.plan ht newId).2.2 notBefore now
  have hc : s.2.Coherent := coherent_begun cfg p plan.1 plan.2 notBefore now
  have hnoticed : (t.2.noConversation || drained.any Line.refuses) = true := by
    rw [noConversation_run hquiet, Bool.or_assoc, hrefused, Bool.or_true]
  rcases decides_run hcfg hc hlive hquiet with ⟨hnot, hlast | hlast⟩ | ⟨hends, hlast⟩
  · -- the exit comes first, and drops the id
    refine iff_of_true ?_ hnot
    apply notResumed_of_dropped
    have hdrop : (t.2.leave cfg plan.1 drained code).2 = [.dropId] := by
      have hlast' : t.2.after = none := hlast.after
      simp only [Run.leave, hlast']
      rw [hnoticed, (oneShot_of_none hcfg).1, show plan.1.resume = true from hresume]
      rfl
    rw [hdrop]
    rfl
  · -- the session is rotated out
    refine iff_of_true ?_ hnot
    obtain ⟨handoff, hfresh⟩ := hlast.2
    have hnone : (t.2.leave cfg plan.1 drained code).2 = [] :=
      leave_of_ended hlast.1 cfg plan.1 drained code
    rw [hnone]
    exact notResumed_of_fresh hfresh
  · -- the run had ended for another reason, and the refusal goes unheard
    refine iff_of_false ?_ (not_not.mpr hends)
    have hnone : (t.2.leave cfg plan.1 drained code).2 = [] :=
      leave_of_ended hlast.1 cfg plan.1 drained code
    rw [hnone]
    exact hlast.2.not_notResumed

/-- A refusal whose lines are still in the pipes when the exit is noticed. -/
theorem notResumed_iff_drained :
    let plan := planStart savedPaths "new"
    let s := begun someConfig savedPaths plan.1 plan.2 none 0
    NotResumed plan.1.id
        (Effect.applyAll s.1 (s.2.leave someConfig plan.1 (refusal.map Prod.fst) 1).2) ↔
      ¬EndsAlong someConfig s [] :=
  notResumed_iff rfl (by decide) none 0 (List.forall_mem_nil _) (by decide +kernel) 1

/-- A refusal whose lines are read before the exit is noticed: the error `result` ends the run for a
restart, and the restart resumes the same session. -/
theorem resumed_after_refusal :
    let plan := planStart savedPaths "new"
    let s := begun someConfig savedPaths plan.1 plan.2 none 0
    let t := readLines someConfig s refusal
    ¬NotResumed plan.1.id (Effect.applyAll t.1 (t.2.leave someConfig plan.1 [] 1).2) := by
  intro plan s t hnot
  refine hnot ["51209dfc"] "newer" ?_ ?_
  · decide +kernel
  · decide +kernel

end Supervisor

end Silta
