import Silta.Lifetimes
import Silta.ProtocolSteps

/-!
# Crash triples of a run

What a monitor of effects and a relation between files, tracker and monitor must satisfy to be
carried through every turn of the loop of a run, with the supervisor gone after any effect.
-/

namespace Silta

namespace Supervisor

open Rotation (Action Call Protocol Tracker)
open State (Next Paths)

/-- The effect shows nothing of a rotation: no file but `channel-ready` changes, and no line that
starts a turn of the session goes out. -/
def Effect.aside : Effect → Bool
  | .clearChannelReady | .writeChannelReady _ | .spawn _ | .snapshot _ | .control _ | .kill
  | .send .handoff | .send .compact | .send .compacted => true
  | _ => false

section

variable {μ : Type} (mon : Lts.Monitor μ Effect) (C R : Paths → μ → Prop)
  (J : Protocol → Paths → μ → Prop) (cfg : Config) (start : Start)

/-- What is asked of a monitor of effects, of a crash condition `C`, of a relation `R` between the
files and the monitor where no records are half removed, and of a relation `J` that takes in the
tracker of a run that goes on, up to the first line of the run. -/
structure Begins : Prop where
  crash : ∀ {p m}, R p m → C p m
  rest : ∀ {q p m}, J q p m → R p m
  aside : ∀ {e} m, e.aside = true → mon m e = some m
  ready_rest : ∀ {p m} ready, R p m → R { p with channelReady := ready } m
  ready : ∀ {q p m} ready, J q p m → J q { p with channelReady := ready } m
  first : ∀ {q p m}, J q p m → ∃ m', mon m (.send (firstLine cfg start)) = some m' ∧ J q p m'

/-- What is asked besides of every turn of the loop and of the end of the run, where no records are
removed. -/
structure Goes : Prop extends Begins mon C R J cfg start where
  drop : ∀ {p m}, cfg.oneShot = false → R p m → ∃ m', mon m .dropId = some m' ∧ R p.dropId m'
  hear : ∀ {q p m c}, J q p m → c ≠ .cancel →
    (c = .markerSeen → cfg.rotate = true ∧ p.marker = true) → J (q.hear cfg.rotate c) p m
  cancel : ∀ {q p m}, J q p m → cfg.rotate = true → p.marker = false → q.stage = .waiting →
    ∃ m', mon m (.writeNext .normal) = some m' ∧
      J (q.hear cfg.rotate .cancel) (p.writeNext .normal) m'
  emit : ∀ {q p m c a q'}, J q p m → (a = .markPending → cfg.rotate = true) → a ≠ .compacted →
    q.emit c a = some q' → ∃ m', mon m (.action a) = some m' ∧ J q' (recordAction p a) m'

/-- What is asked besides of the removal of the records. -/
structure Carries : Prop extends Goes mon C R J cfg start where
  clear : ∀ {p m}, cfg.oneShot = true → R p m →
    Crash.Ensures mon Effect.apply C R p m Effect.clearRotation
  compacted : ∀ {q p m c q'}, J q p m → q.emit c .compacted = some q' →
    Crash.Ensures mon Effect.apply C (J q') p m (Effect.records .compacted)

/-- A run whose books are in order. -/
structure Tracks (r : Run) (p : Paths) (m : μ) : Prop where
  rest : R p m
  coherent : r.Coherent
  closed : r.stopping.isSome = true → r.stdin = false
  line : ∀ line deadline, r.intro = some (line, deadline) → line = firstLine cfg start
  live : r.stopping = none → r.tracker.Sound ∧ r.tracker.limits.enabled = cfg.rotate ∧
    r.tracker.stage ≠ .ended ∧ J r.tracker.protocol p m

end

/-! ## Records that are half removed -/

/-- The records of a rotation that is over are still to be removed: from its compaction, or the
removal of its marker, to the removal of `rotation.json`. -/
def Effect.clearing (c : Bool) : Effect → Bool
  | .action .compacted | .removeMarker => true
  | .removeRotation => false
  | _ => c

/-- The supervisor is lost while the records of a rotation that is over are still to be removed, and
leaves a next step on file that is gone on with. -/
def Torn (goesOn : Next → Bool) (s : System) : Label → Prop
  | .lost _ es =>
    es.foldl Effect.clearing false = true ∧ goesOn (Effect.applyAll s.paths es).readNext = true
  | _ => False

/-- A step after which a rotation that is over is not gone on with. -/
def WholeStep (goesOn : Next → Bool) (s : System) (l : Label) (t : System) : Prop :=
  Step s l t ∧ ¬Torn goesOn s l

section

variable {μ : Type} {mon : Lts.Monitor μ Effect} {R Half : Paths → μ → Prop}
  {J : Protocol → Paths → μ → Prop} {cfg : Config} {start : Start}

/-- No records are half removed. -/
def Whole (R : Paths → μ → Prop) (p : Paths) (m : μ × Bool) : Prop := m.2 = false ∧ R p m.1

/-- What is left where records may be half removed. -/
def Cut (Half R : Paths → μ → Prop) (p : Paths) (m : μ × Bool) : Prop :=
  Whole R p m ∨ m.2 = true ∧ Half p m.1

theorem Effect.clearing_aside {e : Effect} (h : e.aside = true) (c : Bool) :
    e.clearing c = c := by
  cases e <;> first | rfl | cases h

/-- An effect that removes no records, for the monitor that knows of their removal. -/
theorem whole_of_kept {Q : μ → Prop} {e : Effect} {m : μ} (h : ∃ m', mon m e = some m' ∧ Q m')
    (he : e.clearing false = false) :
    ∃ m', mon.keeping Effect.clearing (m, false) e = some m' ∧ m'.2 = false ∧ Q m'.1 := by
  obtain ⟨m', hmon, hq⟩ := h
  exact ⟨(m', e.clearing false), Lts.Monitor.keeping_of hmon _ _, he, hq⟩

theorem Begins.keeping (h : Begins mon R R J cfg start) :
    Begins (mon.keeping Effect.clearing) (Cut Half R) (Whole R) (fun q ↦ Whole (J q)) cfg
      start where
  crash := .inl
  rest hj := ⟨hj.1, h.rest hj.2⟩
  aside m he := by
    rw [Lts.Monitor.keeping_of (h.aside m.1 he), Effect.clearing_aside he]
  ready_rest ready hr := ⟨hr.1, h.ready_rest ready hr.2⟩
  ready ready hj := ⟨hj.1, h.ready ready hj.2⟩
  first := by
    rintro q p ⟨m, c⟩ ⟨rfl, hj⟩
    exact whole_of_kept (h.first hj) rfl

theorem Goes.keeping (h : Goes mon R R J cfg start) :
    Goes (mon.keeping Effect.clearing) (Cut Half R) (Whole R) (fun q ↦ Whole (J q)) cfg start where
  toBegins := h.toBegins.keeping
  drop := by
    rintro p ⟨m, c⟩ hone ⟨rfl, hr⟩
    exact whole_of_kept (h.drop hone hr) rfl
  hear hj hcancel hseen := ⟨hj.1, h.hear hj.2 hcancel hseen⟩
  cancel := by
    rintro q p ⟨m, c⟩ ⟨rfl, hj⟩ hrotate hmarker hwaiting
    exact whole_of_kept (h.cancel hj hrotate hmarker hwaiting) rfl
  emit := by
    rintro q p ⟨m, c⟩ call a q' ⟨rfl, hj⟩ hmark hgoes hemit
    apply whole_of_kept (h.emit hj hmark hgoes hemit)
    cases a with
    | compacted => exact absurd rfl hgoes
    | _ => rfl

theorem ensures_cons_keeping {Q : Paths → μ × Bool → Prop} {p : Paths} {m n : μ} {e : Effect}
    {es : List Effect} (hr : R p m) (hmon : mon m e = some n) (he : e.clearing false = false)
    (h : Crash.Ensures (mon.keeping Effect.clearing) Effect.apply (Cut Half R) Q (e.apply p)
      (n, false) es) :
    Crash.Ensures (mon.keeping Effect.clearing) Effect.apply (Cut Half R) Q p (m, false)
      (e :: es) := by
  apply Crash.Ensures.cons (.inl ⟨rfl, hr⟩) (Lts.Monitor.keeping_of hmon _ _)
  rw [he]
  exact h

/-- The effects of `clear_rotation`, which may be cut in between. -/
theorem ensures_clear_keeping {Q : Paths → μ × Bool → Prop} {p : Paths} {m n k : μ} {c : Bool}
    (hcut : Cut Half R p (m, c)) (hmarker : mon m .removeMarker = some n)
    (hhalf : Half p.removeMarker n) (hrotation : mon n .removeRotation = some k)
    (hr : R p.clearRotation k) (hq : Q p.clearRotation (k, false)) :
    Crash.Ensures (mon.keeping Effect.clearing) Effect.apply (Cut Half R) Q p (m, c)
      Effect.clearRotation := by
  apply Crash.Ensures.cons hcut (Lts.Monitor.keeping_of hmarker _ _)
  apply Crash.Ensures.cons (.inr ⟨rfl, hhalf⟩) (Lts.Monitor.keeping_of hrotation _ _)
  exact .nil (.inl ⟨rfl, hr⟩) hq

/-- A compaction, which may be cut before or between the removals of its records. -/
theorem ensures_compacted_keeping {Q : Paths → μ × Bool → Prop} {p : Paths} {m l n k : μ}
    (hr : R p m) (haction : mon m (.action .compacted) = some l) (hbefore : Half p l)
    (hmarker : mon l .removeMarker = some n) (hhalf : Half p.removeMarker n)
    (hrotation : mon n .removeRotation = some k) (hcleared : R p.clearRotation k)
    (hq : Q p.clearRotation (k, false)) :
    Crash.Ensures (mon.keeping Effect.clearing) Effect.apply (Cut Half R) Q p (m, false)
      (Effect.records .compacted) := by
  apply Crash.Ensures.cons (.inl ⟨rfl, hr⟩) (Lts.Monitor.keeping_of haction _ _)
  exact ensures_clear_keeping (.inr ⟨rfl, hbefore⟩) hmarker hhalf hrotation hcleared hq

end

/-! ## What a turn of the loop leaves of the fields -/

theorem Effect.apply_of_aside {e : Effect} (h : e.aside = true) (p : Paths) :
    ∃ ready, e.apply p = { p with channelReady := ready } := by
  cases e with
  | clearChannelReady => exact ⟨none, rfl⟩
  | writeChannelReady id => exact ⟨some id, rfl⟩
  | _ => first | exact ⟨p.channelReady, rfl⟩ | cases h

namespace Run

theorem perform_effects (cfg : Config) (r : Run) (now : Nat) (a : Action) :
    ∃ es, (r.perform cfg now a).2 = Effect.records a ++ es ∧ ∀ e ∈ es, e.aside = true := by
  have hwrite : ∀ line, (Effect.send line).aside = true →
      ∀ e ∈ r.write (.send line), e.aside = true := by
    intro line hline
    unfold write
    split
    · simpa using hline
    · exact List.forall_mem_nil _
  cases a with
  | snapshot moment => exact ⟨[.snapshot moment.name], rfl, by simp [Effect.aside]⟩
  | requestHandoff => exact ⟨r.write (.send .handoff), rfl, hwrite .handoff rfl⟩
  | compact => exact ⟨r.write (.send .compact), rfl, hwrite .compact rfl⟩
  | compacted => exact ⟨r.write (.send .compacted), rfl, hwrite .compacted rfl⟩
  | _ => exact ⟨[], rfl, List.forall_mem_nil _⟩

theorem act_stopping (cfg : Config) (r : Run) (now : Nat) (actions : List Action) :
    (r.act cfg now actions).1.stopping.isSome =
      (r.stopping.isSome || actions.any Action.endsRun) := by
  induction actions generalizing r with
  | nil => simp [act]
  | cons a as ih =>
    show ((r.perform cfg now a).1.act cfg now as).1.stopping.isSome = _
    rw [ih, List.any_cons, ← Bool.or_assoc]
    congr 1
    cases a <;> simp [perform, Action.endsRun, (r.again_after cfg _ now).2]

theorem act_closed {r : Run} (h : r.stopping.isSome = true → r.stdin = false) (cfg : Config)
    (now : Nat) (actions : List Action) :
    (r.act cfg now actions).1.stopping.isSome = true →
      (r.act cfg now actions).1.stdin = false := by
  induction actions generalizing r with
  | nil => exact h
  | cons a as ih =>
    apply ih
    cases a with
    | retry step attempts handoff => exact fun _ ↦ rfl
    | postpone step attempts handoff => exact fun _ ↦ rfl
    | giveUp step cut handoff => exact fun _ ↦ rfl
    | _ => exact h

@[simp] theorem act_intro (cfg : Config) (r : Run) (now : Nat) (actions : List Action) :
    (r.act cfg now actions).1.intro = r.intro := by
  induction actions generalizing r with
  | nil => rfl
  | cons a as ih =>
    show ((r.perform cfg now a).1.act cfg now as).1.intro = _
    rw [ih]
    cases a <;> rfl

end Run

section

variable {μ : Type} {mon : Lts.Monitor μ Effect} {C R : Paths → μ → Prop}
  {J : Protocol → Paths → μ → Prop} {cfg : Config} {start : Start}

theorem Begins.ensures_aside (hC : Begins mon C R J cfg start) {p : Paths} {m : μ}
    {es : List Effect} {Q : Paths → μ → Prop} (hes : ∀ e ∈ es, e.aside = true) (hr : R p m)
    (hq : ∀ ready, Q { p with channelReady := ready } m) :
    Crash.Ensures mon Effect.apply C Q p m es := by
  induction es generalizing p with
  | nil => exact .nil (hC.crash hr) (hq p.channelReady)
  | cons e es ih =>
    have he := hes e List.mem_cons_self
    obtain ⟨ready, happly⟩ := Effect.apply_of_aside he p
    apply Crash.Ensures.cons (hC.crash hr) (hC.aside m he)
    rw [happly]
    exact ih (fun f hf ↦ hes f (List.mem_cons_of_mem e hf)) (hC.ready_rest ready hr) hq

/-- An action with its records: but for a compaction, the action makes them by itself. -/
theorem Carries.ensures_records (hC : Carries mon C R J cfg start) {p : Paths} {m : μ} {c : Call}
    {q q' : Protocol} {a : Action} (hj : J q p m) (hmark : a = .markPending → cfg.rotate = true)
    (h : q.emit c a = some q') :
    Crash.Ensures mon Effect.apply C (J q') p m (Effect.records a) := by
  by_cases ha : a = .compacted
  · subst ha
    exact hC.compacted hj h
  · obtain ⟨m', hmon, hj'⟩ := hC.emit hj hmark ha h
    have hone : Effect.records a = [.action a] ∧ Effect.apply p (.action a) = recordAction p a := by
      cases a with
      | compacted => exact absurd rfl ha
      | _ => exact ⟨rfl, rfl⟩
    rw [← hone.2] at hj'
    rw [hone.1]
    exact .cons (hC.crash (hC.rest hj)) hmon (.nil (hC.crash (hC.rest hj')) hj')

theorem Carries.ensures_act (hC : Carries mon C R J cfg start) {p : Paths} {m : μ} {c : Call}
    {q q' : Protocol} {actions : List Action} (r : Run) (now : Nat) (hj : J q p m)
    (hmark : .markPending ∈ actions → cfg.rotate = true) (h : q.emits c actions = some q') :
    Crash.Ensures mon Effect.apply C (J q') p m (r.act cfg now actions).2 := by
  -- each action leaves its record first, and then what shows nothing of the rotation
  induction actions generalizing r q p m with
  | nil =>
    obtain rfl : q = q' := Option.some.inj h
    exact .nil (hC.crash (hC.rest hj)) hj
  | cons a as ih =>
    cases ha : q.emit c a with
    | none => simp [Protocol.emits, ha] at h
    | some q₁ =>
      have hrest : q₁.emits c as = some q' := by
        simpa [Protocol.emits, ha] using h
      have hrecords := hC.ensures_records hj (fun heq ↦ hmark (heq ▸ List.mem_cons_self)) ha
      obtain ⟨es, hes, haside⟩ := r.perform_effects cfg now a
      have hone : Crash.Ensures mon Effect.apply C (J q₁) p m (r.perform cfg now a).2 := by
        rw [hes]
        apply hrecords.append
        intro p₁ m₁ hj₁
        exact hC.ensures_aside haside (hC.rest hj₁) fun ready ↦ hC.ready ready hj₁
      exact hone.append fun s m hj ↦
        ih _ hj (fun hmem ↦ hmark (List.mem_cons_of_mem a hmem)) hrest

theorem hear_stage {enabled : Bool} {q : Protocol} (c : Call) (h : q.stage ≠ .ended) :
    (q.hear enabled c).stage ≠ .ended := by
  unfold Protocol.hear
  split
  · exact h
  · split
    · exact nofun
    · exact h
  · exact nofun
  · exact nofun
  · exact nofun
  · exact h

/-- A call of the tracker and what is done about its answer. -/
theorem Carries.ensures_take (hC : Carries mon C R J cfg start) {r : Run} {p : Paths} {m : μ}
    (hr : Tracks R J cfg start r p m) (hlive : r.stopping = none) {c : Call} (now : Nat)
    (hcancel : c ≠ .cancel) (hseen : c = .markerSeen → cfg.rotate = true ∧ p.marker = true) :
    Crash.Ensures mon Effect.apply C
      (fun p' m' ↦ Tracks R J cfg start (r.take cfg (r.tracker.call c now) now).1 p' m' ∧
        ((r.take cfg (r.tracker.call c now) now).1.stopping.isSome = true →
          (r.take cfg (r.tracker.call c now) now).1.tracker.stage = .ended))
      p m (r.take cfg (r.tracker.call c now) now).2 := by
  obtain ⟨hsound, henabled, hstage, hj⟩ := hr.live hlive
  obtain ⟨hemits, hsound', hlimits⟩ := r.tracker.call_emits c now hsound
  rw [henabled] at hemits
  have hended := Protocol.emits_stage hemits (hear_stage c hstage)
  have hmark : .markPending ∈ (r.tracker.call c now).2 → cfg.rotate = true :=
    fun hmem ↦ henabled ▸ Tracker.enabled_of_markPending hmem
  have hstop : (r.take cfg (r.tracker.call c now) now).1.stopping.isSome =
      (r.tracker.call c now).2.any Action.endsRun := by
    show ((r.withTracker (r.tracker.call c now).1).act cfg now
      (r.tracker.call c now).2).1.stopping.isSome = _
    rw [Run.act_stopping]
    show (r.stopping.isSome || _) = _
    rw [hlive]
    rfl
  have htracker : (r.take cfg (r.tracker.call c now) now).1.tracker = (r.tracker.call c now).1 :=
    act_tracker cfg (r.withTracker (r.tracker.call c now).1) now (r.tracker.call c now).2
  apply (hC.ensures_act (r.withTracker (r.tracker.call c now).1) now (hC.hear hj hcancel hseen)
    hmark hemits).mono
  intro p' m' hj'
  constructor
  · refine ⟨hC.rest hj', Run.coherent_take hr.coherent cfg _ now, ?_, ?_, fun hnone ↦ ?_⟩
    · exact Run.act_closed (r := r.withTracker (r.tracker.call c now).1) hr.closed cfg now
        (r.tracker.call c now).2
    · intro line deadline hline
      have hintro : (r.take cfg (r.tracker.call c now) now).1.intro = r.intro :=
        Run.act_intro cfg (r.withTracker (r.tracker.call c now).1) now (r.tracker.call c now).2
      exact hr.line line deadline (hintro ▸ hline)
    -- a run that goes on has a rotation that has not ended
    · have hgoes : (r.tracker.call c now).2.any Action.endsRun = false := by
        rw [← hstop, hnone]
        rfl
      rw [htracker]
      refine ⟨hsound', hlimits.symm ▸ henabled, fun hend ↦ ?_, hj'⟩
      exact Bool.false_ne_true (hgoes.symm.trans (hended.mp hend))
  · intro hsome
    rw [htracker]
    exact hended.mpr (hstop ▸ hsome)

/-! ## The arms of the loop -/

theorem tracks_end {r : Run} {p : Paths} {m : μ} (hr : Tracks R J cfg start r p m) (code : Int)
    (now : Nat) : Tracks R J cfg start (r.«end» code now) p m := by
  cases hafter : r.after with
  | some outcome =>
    rw [Run.end_of_some (by simp [hafter])]
    exact hr
  | none =>
    obtain ⟨-, hstop⟩ := Run.end_of_none hafter code now
    have hends : (r.«end» code now).stdin = false ∧ (r.«end» code now).intro = none := by
      simp [Run.end, hafter]
    refine ⟨hr.rest, Run.coherent_end hr.coherent code now, fun _ ↦ hends.1, ?_, ?_⟩
    · intro line deadline hline
      rw [hends.2] at hline
      cases hline
    · intro hnone
      rw [hnone] at hstop
      cases hstop

theorem tracks_beginStop {r : Run} {p : Paths} {m : μ} (hr : Tracks R J cfg start r p m)
    (outcome : Outcome) (now : Nat) :
    Tracks R J cfg start (Run.beginStop cfg { r with after := some outcome } now) p m := by
  have hstop : (Run.beginStop cfg { r with after := some outcome } now).stopping.isSome = true := by
    cases r.stopping <;> simp [Run.beginStop]
  refine ⟨hr.rest, Run.coherent_of_isSome rfl hstop, fun _ ↦ rfl, hr.line, ?_⟩
  intro hnone
  rw [hnone] at hstop
  cases hstop

theorem tracks_done {r : Run} {p : Paths} {m : μ} (hr : Tracks R J cfg start r p m) (now : Nat) :
    Tracks R J cfg start (r.done cfg now) p m := by
  unfold Run.done
  split
  · exact hr
  · exact tracks_beginStop hr _ now

theorem tracks_shutdown {r : Run} {p : Paths} {m : μ} (hr : Tracks R J cfg start r p m)
    (now : Nat) : Tracks R J cfg start (r.shutdown cfg now) p m := by
  unfold Run.shutdown
  split
  · exact hr
  · exact hr
  · exact tracks_beginStop hr _ now

theorem tracks_paths {r : Run} {p p' : Paths} {m m' : μ} (hr : Tracks R J cfg start r p m)
    (hrest : R p m → R p' m') (hj : ∀ q, J q p m → J q p' m') :
    Tracks R J cfg start r p' m' := by
  refine ⟨hrest hr.rest, hr.coherent, hr.closed, hr.line, fun hnone ↦ ?_⟩
  obtain ⟨hsound, henabled, hstage, hlive⟩ := hr.live hnone
  exact ⟨hsound, henabled, hstage, hj _ hlive⟩

theorem tracks_ready (hC : Begins mon C R J cfg start) {r : Run} {p : Paths} {m : μ}
    (hr : Tracks R J cfg start r p m) (ready : Option String) :
    Tracks R J cfg start r { p with channelReady := ready } m :=
  tracks_paths hr (hC.ready_rest ready) fun _ ↦ hC.ready ready

theorem Begins.ensures_start (hC : Begins mon C R J cfg start) {r : Run} {p : Paths} {m : μ}
    (hr : Tracks R J cfg start r p m) (now : Nat) :
    Crash.Ensures mon Effect.apply C
      (Tracks R J cfg start (r.start cfg (firstLine cfg start) now).1) p m
      (r.start cfg (firstLine cfg start) now).2 := by
  have hline : Crash.Ensures mon Effect.apply C (Tracks R J cfg start r) p m
      (r.write (.send (firstLine cfg start))) := by
    unfold Run.write
    split
    next hopen =>
      -- a stop closes stdin, so that none is in progress
      have hnone : r.stopping = none := by
        rw [← Option.not_isSome_iff_eq_none]
        intro hsome
        exact Bool.false_ne_true ((hr.closed hsome).symm.trans hopen)
      obtain ⟨hsound, henabled, hstage, hj⟩ := hr.live hnone
      obtain ⟨m', hmon, hj'⟩ := hC.first hj
      apply Crash.Ensures.cons (hC.crash hr.rest) hmon
      apply Crash.Ensures.nil (hC.crash (hC.rest hj'))
      exact ⟨hC.rest hj', hr.coherent, hr.closed, hr.line, fun _ ↦ ⟨hsound, henabled, hstage, hj'⟩⟩
    next => exact .nil (hC.crash hr.rest) hr
  unfold Run.start
  split
  · apply Crash.Ensures.cons (hC.crash hr.rest) (hC.aside m rfl)
    apply hline.mono
    intro p' m' hr'
    exact ⟨hr'.rest, hr'.coherent, hr'.closed, hr'.line, hr'.live⟩
  · exact hline

/-- What an output line does before the tracker hears of it. -/
theorem Carries.ensures_hear (hC : Carries mon C R J cfg start) {r : Run} {p : Paths} {m : μ}
    (hr : Tracks R J cfg start r p m) (event : Stream.Event) (now : Nat) :
    Crash.Ensures mon Effect.apply C (Tracks R J cfg start (r.hear cfg event now).1) p m
      (r.hear cfg event now).2 := by
  have hheard := Run.heard cfg r event now
  generalize r.hear cfg event now = x at hheard
  have hchecked : Tracks R J cfg start { r with intro := none } p m :=
    ⟨hr.rest, hr.coherent, hr.closed, nofun, hr.live⟩
  cases hheard with
  | nothing => exact .nil (hC.crash hr.rest) hr
  | starts requestId maxTokens line deadline hintro =>
    obtain rfl := hr.line line deadline hintro
    exact hC.ensures_start hchecked now
  | refuses => exact .nil (hC.crash hr.rest) (tracks_end hchecked EXIT_MODEL now)
  | outage => exact .nil (hC.crash hr.rest) (tracks_end hr EXIT_MODEL now)
  | fails => exact .nil (hC.crash hr.rest) (tracks_end hr 1 now)
  | compacted => exact .nil (hC.crash hr.rest) ⟨hr.rest, hr.coherent, hr.closed, hr.line, hr.live⟩
  | compactionFailed =>
    exact .nil (hC.crash hr.rest) ⟨hr.rest, hr.coherent, hr.closed, hr.line, hr.live⟩
  | opens =>
    apply Crash.Ensures.cons (hC.crash hr.rest) (hC.aside m rfl)
    have hready := tracks_ready hC.toGoes.toBegins hr (some r.id)
    apply Crash.Ensures.nil (hC.crash hready.rest)
    exact ⟨hready.rest, hready.coherent, hready.closed, hready.line, hready.live⟩
  | done isError person hone =>
    have hdone := tracks_done hr now
    show Crash.Ensures mon Effect.apply C (Tracks R J cfg start (r.done cfg now)) p m
      (if r.compacted then Effect.clearRotation else [])
    split
    next =>
      -- the one-turn emergency has compacted: the run is over when its records go
      apply (hC.clear hone hr.rest).mono
      intro p' m' hrest
      refine ⟨hrest, hdone.coherent, hdone.closed, hdone.line, fun hnone ↦ ?_⟩
      have hafter : (r.done cfg now).after.isSome = true := by
        unfold Run.done
        split
        next hsome => exact hsome
        next => rfl
      rw [hdone.coherent, hnone] at hafter
      cases hafter
    next => exact .nil (hC.crash hr.rest) hdone

theorem Carries.ensures_drive (hC : Carries mon C R J cfg start) {r : Run} {p : Paths} {m : μ}
    (hr : Tracks R J cfg start r p m) (event : Stream.Event) (written : Bool) (now : Nat) :
    Crash.Ensures mon Effect.apply C (Tracks R J cfg start (r.drive cfg event written now).1) p m
      (r.drive cfg event written now).2 := by
  unfold Run.drive
  split
  next hfree =>
    simp only [Bool.and_eq_true, Option.isNone_iff_eq_none] at hfree
    have hnone := hfree.1
    split
    next =>
      -- what the look for the note found is told before the end of the turn
      have htold : Tracks R J cfg start
          (r.withTracker (r.tracker.setNoteWritten (r.watch && written))) p m := by
        refine ⟨hr.rest, hr.coherent, hr.closed, hr.line, fun _ ↦ ?_⟩
        obtain ⟨hsound, henabled, hstage, hj⟩ := hr.live hnone
        exact ⟨hsound, henabled, hstage,
          hC.hear (c := .setNoteWritten (r.watch && written)) hj nofun nofun⟩
      exact (hC.ensures_take htold hnone (c := .event event) now nofun nofun).mono fun _ _ h ↦ h.1
    next =>
      exact (hC.ensures_take hr hnone (c := .event event) now nofun nofun).mono fun _ _ h ↦ h.1
  next => exact .nil (hC.crash hr.rest) hr

/-- Every fifth tick looks whether the marker came or went. -/
theorem Carries.ensures_lookForMarker (hC : Carries mon C R J cfg start) {r : Run} {p : Paths}
    {m : μ} (hr : Tracks R J cfg start r p m) (hnone : r.stopping = none) (now : Nat) :
    Crash.Ensures mon Effect.apply C
      (fun p' m' ↦ Tracks R J cfg start (r.lookForMarker cfg p now).1 p' m' ∧
        ((r.lookForMarker cfg p now).1.stopping.isSome = true →
          (r.lookForMarker cfg p now).1.tracker.stage = .ended))
      p m (r.lookForMarker cfg p now).2 := by
  have hidle : Crash.Ensures mon Effect.apply C
      (fun p' m' ↦ Tracks R J cfg start r p' m' ∧
        (r.stopping.isSome = true → r.tracker.stage = .ended)) p m [] := by
    apply Crash.Ensures.nil (hC.crash hr.rest)
    exact ⟨hr, by simp [hnone]⟩
  unfold Run.lookForMarker
  split
  next hlook =>
    have hrotate : cfg.rotate = true := (Bool.and_eq_true _ _ ▸ hlook).1
    split
    next hseen =>
      have hmarker : p.marker = true := (Bool.and_eq_true _ _ ▸ hseen).1
      exact hC.ensures_take hr hnone (c := .markerSeen) now (by simp) fun _ ↦ ⟨hrotate, hmarker⟩
    split
    next hgone =>
      obtain ⟨hmarker, hcancel⟩ : p.marker = false ∧ r.tracker.cancel.2 = true := by
        simpa [Paths.markerExists] using hgone
      obtain ⟨hsound, henabled, -, hj⟩ := hr.live hnone
      obtain ⟨hhear, hsound', hlimits⟩ := Tracker.cancel_protocol cfg.rotate hsound
      have hwaiting : r.tracker.stage = .waiting := Tracker.stage_of_cancel hcancel
      obtain ⟨m', hmon, hj'⟩ := hC.cancel hj hrotate hmarker hwaiting
      have hidle' : r.tracker.cancel.1.stage = .idle := by
        show r.tracker.cancel.1.protocol.stage = .idle
        rw [← hhear]
        have hstage : r.tracker.protocol.stage = .waiting := hwaiting
        simp [Protocol.hear, hstage]
      apply Crash.Ensures.cons (hC.crash hr.rest) hmon
      apply Crash.Ensures.nil (hC.crash (hC.rest hj'))
      constructor
      · refine ⟨hC.rest hj', hr.coherent, hr.closed, hr.line, fun _ ↦ ?_⟩
        refine ⟨hsound', hlimits.symm ▸ henabled, ?_, hhear ▸ hj'⟩
        show r.tracker.cancel.1.stage ≠ .ended
        rw [hidle']
        simp
      · show r.stopping.isSome = true → _
        simp [hnone]
    next => exact hidle
  next => exact hidle

theorem Carries.ensures_tick (hC : Carries mon C R J cfg start) {r : Run} {p : Paths} {m : μ}
    (hr : Tracks R J cfg start r p m) (now : Nat) :
    Crash.Ensures mon Effect.apply C (Tracks R J cfg start (r.tick cfg p now).1) p m
      (r.tick cfg p now).2 := by
  unfold Run.tick
  split
  next =>
    split
    · apply Crash.Ensures.cons (hC.crash hr.rest) (hC.aside m rfl)
      exact .nil (hC.crash hr.rest) ⟨hr.rest, hr.coherent, hr.closed, hr.line, hr.live⟩
    · exact .nil (hC.crash hr.rest) hr
  next hnone =>
    split
    next =>
      split
      · exact .nil (hC.crash hr.rest) (tracks_end hr 1 now)
      · exact .nil (hC.crash hr.rest) hr
    next =>
      split
      next =>
        split
        · exact .nil (hC.crash hr.rest) (tracks_end hr EXIT_EMERGENCY now)
        · exact .nil (hC.crash hr.rest) hr
      next =>
        have hcounted : Tracks R J cfg start { r with ticks := r.ticks + 1 } p m :=
          ⟨hr.rest, hr.coherent, hr.closed, hr.line, hr.live⟩
        have hlook := hC.ensures_lookForMarker hcounted hnone now
        unfold Run.watchRotation Answer.andThen
        apply hlook.append
        intro p' m' hlooked
        obtain ⟨hr', hended⟩ := hlooked
        generalize ({ r with ticks := r.ticks + 1 }.lookForMarker cfg p now).1 = r' at hr' hended
        cases hstop : r'.stopping with
        | none =>
          exact (hC.ensures_take hr' hstop (c := .tick) now nofun nofun).mono fun _ _ h ↦ h.1
        | some deadline =>
          -- the marker was seen, and the attempt has ended with it
          have hquiet : r'.tracker.tick now = (r'.tracker, []) :=
            Tracker.tick_of_ended (hended (by simp [hstop])) now
          show Crash.Ensures mon Effect.apply C
            (Tracks R J cfg start (r'.take cfg (r'.tracker.tick now) now).1) p' m'
            (r'.take cfg (r'.tracker.tick now) now).2
          rw [hquiet]
          exact .nil (hC.crash hr'.rest) ⟨hr'.rest, hr'.coherent, hr'.closed, hr'.line, hr'.live⟩

theorem Carries.ensures_react (hC : Carries mon C R J cfg start) {r : Run} {p : Paths} {m : μ}
    (hr : Tracks R J cfg start r p m) (input : Input) (now : Nat) :
    Crash.Ensures mon Effect.apply C (Tracks R J cfg start (r.react cfg p input now).1) p m
      (r.react cfg p input now).2 := by
  cases input with
  | out event written =>
    exact (hC.ensures_hear hr event now).append fun _ _ hr' ↦
      hC.ensures_drive hr' event written now
  | err line =>
    apply Crash.Ensures.nil (hC.crash hr.rest)
    show Tracks R J cfg start (r.err line) p m
    unfold Run.err
    split
    · exact ⟨hr.rest, hr.coherent, hr.closed, hr.line, hr.live⟩
    · exact hr
  | tick => exact hC.ensures_tick hr now
  | shutdown => exact .nil (hC.crash hr.rest) (tracks_shutdown hr now)

theorem Carries.ensures_handle (hC : Carries mon C R J cfg start) {r : Run} {p : Paths} {m : μ}
    (hr : Tracks R J cfg start r p m) (input : Input) (now : Nat) :
    Crash.Ensures mon Effect.apply C (Tracks R J cfg start (r.handle cfg p input now).1) p m
      (r.handle cfg p input now).2 := by
  unfold Run.handle Answer.andThen
  apply (hC.ensures_react hr input now).append
  intro p' m' hr'
  generalize (r.react cfg p input now).1 = r' at hr'
  unfold Run.reap
  split
  · apply Crash.Ensures.cons (hC.crash hr'.rest) (hC.aside m' rfl)
    exact .nil (hC.crash hr'.rest) ⟨hr'.rest, hr'.coherent, hr'.closed, hr'.line, hr'.live⟩
  · exact .nil (hC.crash hr'.rest) hr'

/-! ## The two ends of a run -/

theorem Carries.ensures_leave (hC : Carries mon C R J cfg start) {r : Run} {p : Paths} {m : μ}
    (hr : R p m) (drained : List Line) (code : Int) :
    Crash.Ensures mon Effect.apply C R p m (r.leave cfg start drained code).2 := by
  unfold Run.leave
  split
  · exact .nil (hC.crash hr) hr
  · split
    next hdrops =>
      have hone : cfg.oneShot = false := by
        simp only [Bool.and_eq_true, Bool.not_eq_true'] at hdrops
        exact hdrops.2
      obtain ⟨m', hmon, hr'⟩ := hC.drop hone hr
      exact .cons (hC.crash hr) hmon (.nil (hC.crash hr') hr')
    next => exact .nil (hC.crash hr) hr

end

/-- Where the rotation is when a run begins. -/
def startProtocol (cfg : Config) (p : Paths) (start : Start) : Protocol :=
  match start.kind with
  | .retry => ⟨.requested, start.attempts, start.handoff, true⟩
  | _ =>
    if cfg.rotate && p.marker then ⟨.waiting, start.attempts, start.handoff, true⟩
    else ⟨.idle, 0, false, true⟩

theorem startTracker_protocol (cfg : Config) (p : Paths) (start : Start) (notBefore : Option Nat)
    (now : Nat) :
    (startTracker cfg p start notBefore now).protocol = startProtocol cfg p start ∧
      (startTracker cfg p start notBefore now).Sound := by
  have hplain : (startTracker cfg p start notBefore now) =
      (if cfg.rotate && p.marker then
        (Tracker.new { cfg.limits with enabled := cfg.rotate } now).pendingFrom now notBefore
          start.attempts start.handoff
      else Tracker.new { cfg.limits with enabled := cfg.rotate } now) → start.kind ≠ .retry →
      (startTracker cfg p start notBefore now).protocol = startProtocol cfg p start ∧
        (startTracker cfg p start notBefore now).Sound := by
    intro htracker hkind
    have hprotocol : startProtocol cfg p start =
        if cfg.rotate && p.marker then ⟨.waiting, start.attempts, start.handoff, true⟩
        else ⟨.idle, 0, false, true⟩ := by
      unfold startProtocol
      split
      next hretry => exact absurd hretry hkind
      next => rfl
    rw [htracker, hprotocol]
    cases hpending : cfg.rotate && p.marker with
    | false =>
      exact (Rotation.Made.new { cfg.limits with enabled := cfg.rotate } now).sound
    | true =>
      have hrotate : cfg.rotate = true := (Bool.and_eq_true _ _ ▸ hpending).1
      have hmade := (Rotation.Made.pending { cfg.limits with enabled := cfg.rotate } now now
        notBefore start.attempts start.handoff).sound
      simpa [hrotate] using hmade
  cases hkind : start.kind with
  | retry =>
    have htracker : startTracker cfg p start notBefore now =
        (Tracker.new { cfg.limits with enabled := cfg.rotate } now).retrying now start.attempts
          start.handoff := by
      simp [startTracker, hkind]
    have hprotocol : startProtocol cfg p start =
        ⟨.requested, start.attempts, start.handoff, true⟩ := by
      simp [startProtocol, hkind]
    rw [htracker, hprotocol]
    exact (Rotation.Made.retrying { cfg.limits with enabled := cfg.rotate } now now start.attempts
      start.handoff).sound
  | _ =>
    apply hplain
    · simp [startTracker, hkind, Paths.markerExists]
    · simp [hkind]

section

variable {μ : Type} {mon : Lts.Monitor μ Effect} {C R : Paths → μ → Prop}
  {J : Protocol → Paths → μ → Prop} {cfg : Config} {start : Start}

theorem Begins.ensures_launch (hC : Begins mon C R J cfg start) {p : Paths} {m : μ}
    (hj : J (startProtocol cfg p start) p m) (notBefore : Option Nat) (now : Nat) :
    Crash.Ensures mon Effect.apply C
      (Tracks R J cfg start (launch cfg p start notBefore now).1) p m
      (launch cfg p start notBefore now).2 := by
  obtain ⟨hprotocol, hsound⟩ := startTracker_protocol cfg p start notBefore now
  have hbusy := busy_startTracker cfg p start notBefore now
  have hstage : (startTracker cfg p start notBefore now).stage ≠ .ended := by
    show (startTracker cfg p start notBefore now).protocol.stage ≠ .ended
    rw [hprotocol]
    unfold startProtocol
    split
    · exact nofun
    split
    · exact nofun
    · exact nofun
  -- with the tracker of the start in it, a run is in order before its first line
  have hbefore : ∀ run : Run, run.stopping = none → run.after = none → run.intro = none →
      run.tracker = startTracker cfg p start notBefore now →
      ∀ ready, Tracks R J cfg start run { p with channelReady := ready } m := by
    intro run hstop hafter hintro htracker ready
    have hj' := hC.ready ready hj
    refine ⟨hC.rest hj', ?_, ?_, ?_, fun _ ↦ ?_⟩
    · rw [Run.Coherent, hafter, hstop]
      rfl
    · simp [hstop]
    · simp [hintro]
    · rw [htracker, hprotocol]
      exact ⟨hsound, hbusy.limits, hstage, hj'⟩
  unfold launch Answer.andThen
  dsimp only
  apply Crash.Ensures.append
    (Q := fun p' m' ↦ m' = m ∧ ∃ ready, p' = { p with channelReady := ready })
  · apply hC.ensures_aside _ (hC.rest hj) fun ready ↦ ⟨rfl, ready, rfl⟩
    intro e he
    rcases List.mem_append.mp he with hspawn | hcopy
    · rcases List.mem_pair.mp hspawn with rfl | rfl
      · rfl
      · rfl
    · split at hcopy
      · obtain rfl := List.mem_singleton.mp hcopy
        rfl
      · cases hcopy
  · rintro p' m' ⟨rfl, ready, rfl⟩
    split
    · -- no turn before the check: the line waits for its answer
      have htracks := hbefore { Run.new cfg start now with
        tracker := startTracker cfg p start notBefore now
        watch := start.kind == .retry } rfl rfl rfl rfl ready
      apply Crash.Ensures.cons (hC.crash htracks.rest) (hC.aside m' rfl)
      apply Crash.Ensures.nil (hC.crash htracks.rest)
      refine ⟨htracks.rest, htracks.coherent, htracks.closed, ?_, htracks.live⟩
      intro line deadline hline
      exact (congrArg Prod.fst (Option.some.inj hline)).symm
    · exact hC.ensures_start (hbefore { Run.new cfg start now with
        tracker := startTracker cfg p start notBefore now
        watch := start.kind == .retry } rfl rfl rfl rfl ready) now

end

/-! ## The deeds of the supervisor -/

/-- A session that a rotation made. -/
def Kind.rotatedOut : Kind → Bool
  | .afterRotation _ => true
  | _ => false

/-- The deed starts a session that a rotation made. -/
def Deed.rotatedOut : Deed → Bool
  | .start st _ => st.kind.rotatedOut
  | _ => false

section

variable {μ : Type} (mon : Bool → Lts.Monitor μ Effect) (admits : Config → Prop)
  (Rest C R : Paths → μ → Prop) (J : Config → Start → Protocol → Paths → μ → Prop)

/-- What holds of the files and of the monitor, wherever the supervisor is. -/
def At : Process → Paths → μ → Prop
  | .down, p, m => R p m
  | .between cfg _, p, m => admits cfg ∧ R p m
  | .running cfg start run, p, m => admits cfg ∧ Tracks R (J cfg start) cfg start run p m

/-- Every run is carried, and a plan that begins at rest leads to a run that is.  The monitor is
told whether the deed starts a session that a rotation made. -/
structure Governs : Prop where
  begins : ∀ {cfg} start rotatedOut, admits cfg →
    Begins (mon rotatedOut) C R (J cfg start) cfg start
  run : ∀ {cfg} start, admits cfg → Carries (mon false) C R (J cfg start) cfg start
  plan : ∀ {cfg p m newId start es}, admits cfg → Rest p m →
    plan cfg p newId = some (start, es) →
    Crash.Ensures (mon start.kind.rotatedOut) Effect.apply C
      (fun p' m' ↦ p' = Effect.applyAll p es ∧ J cfg start (startProtocol cfg p' start) p' m')
      p m es

end

section

variable {μ : Type} {mon : Bool → Lts.Monitor μ Effect} {admits : Config → Prop}
  {Rest C R : Paths → μ → Prop} {J : Config → Start → Protocol → Paths → μ → Prop}

theorem At.rest {process : Process} {p : Paths} {m : μ} (h : At admits R J process p m) :
    R p m := by
  cases process with
  | down => exact h
  | between cfg notBefore => exact h.2
  | running cfg start run => exact h.2.rest

theorem At.paths {process : Process} {p p' : Paths} {m m' : μ} (h : At admits R J process p m)
    (hrest : R p m → R p' m') (hj : ∀ cfg start q, J cfg start q p m → J cfg start q p' m') :
    At admits R J process p' m' := by
  cases process with
  | down => exact hrest h
  | between cfg notBefore => exact ⟨h.1, hrest h.2⟩
  | running cfg start run => exact ⟨h.1, tracks_paths h.2 hrest (hj cfg start)⟩

/-- A deed of the supervisor, cut short or carried through. -/
theorem Governs.ensures_does (hG : Governs mon admits Rest C R J) {p : Paths} {m : μ}
    {process process' : Process} {deed : Deed} {es : List Effect}
    (h : Does p process deed es process') (hat : At admits R J process p m)
    (hrest : ∀ cfg notBefore, process = .between cfg notBefore → Rest p m) :
    Crash.Ensures (mon deed.rotatedOut) Effect.apply C (At admits R J process') p m es := by
  cases h with
  | stop cfg notBefore =>
    exact .nil ((hG.run (freshStart "" .fresh) hat.1).crash hat.rest) hat.rest
  | start cfg notBefore newId start es now hplan =>
    have hadmits : admits cfg := hat.1
    apply (hG.plan hadmits (hrest cfg notBefore rfl) hplan).append
    rintro p' m' ⟨rfl, hj⟩
    have hlaunch := (hG.begins start start.kind.rotatedOut hadmits).ensures_launch hj notBefore now
    exact hlaunch.mono fun p' m' hr ↦ ⟨hadmits, hr⟩
  | turn cfg start run input now =>
    have hadmits : admits cfg := hat.1
    have hturn := (hG.run start hadmits).ensures_handle hat.2 input now
    exact hturn.mono fun p' m' hr ↦ ⟨hadmits, hr⟩
  | leave cfg start run drained code cancelled =>
    have hadmits : admits cfg := hat.1
    have hleave := (hG.run start hadmits).ensures_leave (r := run) hat.rest drained code
    apply hleave.mono
    intro p' m' hr
    cases settle cfg cancelled (run.leave cfg start drained code).1 with
    | exits code => exact hr
    | again notBefore => exact ⟨hadmits, hr⟩

end

end Supervisor

end Silta
