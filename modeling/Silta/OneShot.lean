import Silta.Lifetimes

/-!
# The one-turn emergency

`supervise` over all its runs, with the effects of each, and what is left of them where a one-turn
emergency line is configured.
-/

namespace Silta

namespace Supervisor

open Rotation (Action Tracker)
open State (Paths)

/-! ## The loop of the supervisor -/

/-- The loop of a run, with its effects. -/
def Run.loop (cfg : Config) (p : Paths) (r : Run) : List (Input × Nat) → Answer
  | [] => (r, [])
  | (input, now) :: rest =>
    Answer.andThen (r.handle cfg p input now) fun r' ↦
      r'.loop cfg (Effect.applyAll p (r.handle cfg p input now).2) rest

theorem runLoop_eq_loop (cfg : Config) (p : Paths) (r : Run) (inputs : List (Input × Nat)) :
    runLoop cfg (p, r) (inputs.map fun i ↦ .input i.1 i.2) =
      (Effect.applyAll p (r.loop cfg p inputs).2, (r.loop cfg p inputs).1) := by
  induction inputs generalizing p r with
  | nil => rfl
  | cons head rest ih =>
    obtain ⟨input, now⟩ := head
    show runLoop cfg (Effect.applyAll p (r.handle cfg p input now).2,
      (r.handle cfg p input now).1) _ = _
    rw [ih]
    simp only [Run.loop, Answer.andThen, Effect.applyAll_append]

/-- What the world does in one pass of the supervisor's loop. -/
structure Course where
  /-- The unit has stopped before claude is started. -/
  stopped : Bool
  newId : String
  now : Nat
  /-- claude can be started. -/
  spawns : Bool
  inputs : List (Input × Nat)
  drained : List Line
  code : Int
  /-- The unit has stopped when the outcome is looked at. -/
  cancelled : Bool
  deriving DecidableEq, Repr

/-- One run of claude, from its start to its outcome. -/
def runOnce (cfg : Config) (p : Paths) (start : Start) (notBefore : Option Nat) (c : Course) :
    Outcome × List Effect :=
  if c.spawns then
    let launched := launch cfg p start notBefore c.now
    let looped := launched.1.loop cfg (Effect.applyAll p launched.2) c.inputs
    let left := looped.1.leave cfg start c.drained c.code
    (left.1, launched.2 ++ (looped.2 ++ left.2))
  else (.exit 1, [.clearChannelReady])

/-- The supervisor's exit code, none while it is not done, and its effects. -/
def supervise (cfg : Config) (p : Paths) (notBefore : Option Nat) :
    List Course → Option Int × List Effect
  | [] => (none, [])
  | c :: cs =>
    if c.stopped then (some 0, [])
    else
      match plan cfg p c.newId with
      | none => (some EXIT_EMERGENCY, [])
      | some (start, es) =>
        let ran := runOnce cfg (Effect.applyAll p es) start notBefore c
        match settle cfg c.cancelled ran.1 with
        | .exits code => (some code, es ++ ran.2)
        | .again pause =>
          let rest := supervise cfg (Effect.applyAll p (es ++ ran.2)) pause cs
          (rest.1, es ++ ran.2 ++ rest.2)

/-! ## What is spared -/

/-- A boundary of a compaction that was asked for. -/
def Input.boundary : Input → Bool
  | .out (.compacted false) _ => true
  | _ => false

def Input.result : Input → Bool
  | .out (.result _ _) _ => true
  | _ => false

/-- A compaction's boundary was read, and later the end of a turn. -/
def CompactedByHand (inputs : List (Input × Nat)) : Prop :=
  ∃ boundary result, List.Sublist [boundary, result] inputs ∧ boundary.1.boundary = true ∧
    result.1.result = true

def Effect.starts : Effect → Bool
  | .spawn _ => true
  | _ => false

def Effect.sends : Effect → Bool
  | .send _ => true
  | _ => false

/-- What the one-turn emergency touches of the session: at most the records of a rotation that is
done by hand.  claude is started once, and gets one line. -/
structure Spared (p : Paths) (inputs : List (Input × Nat)) (es : List Effect) : Prop where
  savedId : (Effect.applyAll p es).savedId = p.savedId
  records :
    ((Effect.applyAll p es).marker = p.marker ∧ (Effect.applyAll p es).rotation = p.rotation) ∨
      ((Effect.applyAll p es).marker = false ∧ (Effect.applyAll p es).rotation = .absent ∧
        CompactedByHand inputs)
  channel : ∀ id, .writeChannelReady id ∉ es
  actions : ∀ a, .action a ∉ es
  starts : es.countP Effect.starts ≤ 1
  lines : es.countP Effect.sends ≤ 1

/-! ## One turn of the loop -/

/-- The effects of an emergency's turn. -/
def Effect.ofTurn : Effect → Bool
  | .removeMarker | .removeRotation | .snapshot _ | .control _ | .send _ | .kill => true
  | _ => false

/-- Both records of a rotation are removed, and only under a condition, or neither. -/
structure Clears (es : List Effect) (P : Prop) : Prop where
  both : .removeMarker ∈ es ↔ .removeRotation ∈ es
  only : .removeMarker ∈ es → P

theorem Clears.none {es : List Effect} {P : Prop} (hmarker : .removeMarker ∉ es)
    (hrotation : .removeRotation ∉ es) : Clears es P :=
  ⟨iff_of_false hmarker hrotation, fun h ↦ absurd h hmarker⟩

theorem Clears.nil {P : Prop} : Clears [] P := .none List.not_mem_nil List.not_mem_nil

theorem Clears.imp {es : List Effect} {P Q : Prop} (h : Clears es P) (hpq : P → Q) : Clears es Q :=
  ⟨h.both, fun hmem ↦ hpq (h.only hmem)⟩

theorem Clears.append {es fs : List Effect} {P : Prop} (h : Clears es P) (k : Clears fs P) :
    Clears (es ++ fs) P := by
  constructor
  · rw [List.mem_append, List.mem_append, h.both, k.both]
  · intro hmem
    rcases List.mem_append.mp hmem with hmem | hmem
    · exact h.only hmem
    · exact k.only hmem

theorem Clears.clearRotation {P : Prop} (h : P) : Clears Effect.clearRotation P :=
  ⟨iff_of_true (by decide) (by decide), fun _ ↦ h⟩

/-- The outcome of a one-turn run, which is never another run. -/
def Outcome.final : Outcome → Bool
  | .exit _ => true
  | .ended code => code == 1 || code == EXIT_MODEL || code == EXIT_EMERGENCY
  | .again _ => false

theorem settle_final {cfg : Config} (hone : cfg.oneShot = true) (cancelled : Bool)
    {outcome : Outcome} (h : outcome.final = true) :
    ∃ code, settle cfg cancelled outcome = .exits code ∧
      (cancelled = false → code = EXIT_MODEL ∨ code = EXIT_EMERGENCY) := by
  cases outcome with
  | exit code =>
    refine ⟨_, rfl, fun hgoes ↦ ?_⟩
    rw [hone, hgoes]
    exact .inr rfl
  | ended code =>
    refine ⟨_, rfl, fun _ ↦ ?_⟩
    simp only [Outcome.final, Bool.or_eq_true, beq_iff_eq] at h
    rw [hone]
    rcases h with (rfl | rfl) | rfl
    · exact .inr rfl
    · exact .inl rfl
    · exact .inr rfl
  | again notBefore => cases h

/-- No rotation is under way, and what comes after the run is not another run. -/
structure OneTurn (r : Run) : Prop where
  idle : r.tracker.phase = .idle
  final : ∀ outcome, r.after = some outcome → outcome.final = true

/-- The lines that are still to be sent. -/
def Run.held (r : Run) : Nat := r.intro.isSome.toNat

/-- What a one-turn run does about an input. -/
structure Turns (r : Run) (input : Input) (x : Answer) : Prop where
  oneTurn : OneTurn x.1
  effects : ∀ e ∈ x.2, e.ofTurn = true
  lines : x.2.countP Effect.sends + x.1.held ≤ r.held
  boundary : x.1.compacted = true → r.compacted = true ∨ input.boundary = true
  clears : Clears x.2 (r.compacted = true ∧ input.result = true)

theorem Turns.self {r : Run} (h : OneTurn r) (input : Input) : Turns r input (r, []) :=
  ⟨h, List.forall_mem_nil _, le_of_eq (Nat.zero_add _), .inl, .nil⟩

/-- An idle tracker has nothing to do about a line. -/
theorem event_idle {t : Tracker} (h : t.phase = .idle) (event : Stream.Event) (now : Nat) :
    (t.event event now).1.phase = .idle ∧ (t.event event now).2 = [] := by
  have hadvance : ∀ {u : Tracker}, u.phase = .idle →
      (u.advance now).1.phase = .idle ∧ (u.advance now).2 = [] := by
    intro u hu
    rw [Tracker.advance, hu]
    exact ⟨hu, rfl⟩
  cases event with
  | result isError person =>
    show (t.result isError person now).1.phase = .idle ∧ (t.result isError person now).2 = []
    have hresult : t.result isError person now = (t.endTurn person now).advance now := by
      rw [Tracker.result, Tracker.endTurn_phase, h]
    rw [hresult]
    exact hadvance (u := t.endTurn person now) h
  | compacted auto =>
    apply hadvance
    show (if auto then t.phase else t.phase.withBoundary) = .idle
    rw [h]
    exact ite_self _
  | compactionFailed =>
    apply hadvance
    show t.phase.withFailure = .idle
    rw [h]
    rfl
  | _ => exact hadvance h

section

variable {cfg : Config} {r : Run}

/-- A run that is ended, unless it was ending before. -/
theorem turns_end (h : OneTurn r) (input : Input) (code : Int)
    (hcode : (Outcome.ended code).final = true) (now : Nat) :
    Turns r input (r.«end» code now, []) := by
  unfold Run.end
  split
  · exact .self h input
  · refine ⟨⟨h.idle, ?_⟩, List.forall_mem_nil _, Nat.zero_le _, .inl, .nil⟩
    rintro outcome ⟨⟩
    exact hcode

theorem turns_done (h : OneTurn r) (input : Input) (now : Nat) {es : List Effect}
    (hes : es = [] ∨ es = Effect.clearRotation ∧ r.compacted = true ∧ input.result = true) :
    Turns r input (r.done cfg now, es) := by
  have hone : OneTurn (r.done cfg now) ∧ (r.done cfg now).held = r.held ∧
      (r.done cfg now).compacted = r.compacted := by
    unfold Run.done
    split
    · exact ⟨h, rfl, rfl⟩
    · refine ⟨⟨h.idle, ?_⟩, rfl, rfl⟩
      rintro outcome ⟨⟩
      rfl
  obtain ⟨hone, hheld, hcompacted⟩ := hone
  rcases hes with rfl | ⟨rfl, hclears⟩
  · exact ⟨hone, List.forall_mem_nil _, by simp [hheld], fun hc ↦ .inl (hcompacted ▸ hc), .nil⟩
  · refine ⟨hone, by simp [Effect.ofTurn], ?_, fun hc ↦ .inl (hcompacted ▸ hc),
      .clearRotation hclears⟩
    simp [hheld, Effect.clearRotation, Effect.sends]

/-- A line that is sent is not held any more. -/
theorem turns_start (hone : cfg.oneShot = true) (h : OneTurn r) (hheld : r.held = 1)
    (input : Input) (line : HostLine) (now : Nat) :
    Turns r input ({ r with intro := none }.start cfg line now) := by
  have hstart : { r with intro := none }.start cfg line now =
      ({ r with intro := none, deadline := some (now + cfg.limits.compact) },
        .snapshot "before-emergency" :: r.write (.send line)) := if_pos hone
  have hwrite : r.write (.send line) = [] ∨ r.write (.send line) = [.send line] := by
    unfold Run.write
    split
    · exact .inr rfl
    · exact .inl rfl
  rw [hstart]
  refine ⟨⟨h.idle, h.final⟩, ?_, ?_, .inl, ?_⟩
  · rcases hwrite with hnone | hsends
    · simp [hnone, Effect.ofTurn]
    · simp [hsends, Effect.ofTurn]
  · show _ + 0 ≤ r.held
    rcases hwrite with hnone | hsends
    · simp [hnone, Effect.sends]
    · simp [hsends, Effect.sends, hheld]
  · rcases hwrite with hnone | hsends
    · exact .none (by simp [hnone]) (by simp [hnone])
    · exact .none (by simp [hsends]) (by simp [hsends])

theorem turns_hear (hone : cfg.oneShot = true) (h : OneTurn r) (event : Stream.Event)
    (written : Bool) (now : Nat) :
    Turns r (.out event written) (r.hear cfg event now) := by
  have hheard := Run.heard cfg r event now
  generalize r.hear cfg event now = x at hheard
  have hno : cfg.oneShot ≠ false := by
    rw [hone]
    exact nofun
  cases hheard with
  | nothing => exact .self h _
  | starts requestId maxTokens line deadline hintro =>
    exact turns_start hone h (by simp [Run.held, hintro]) _ line now
  | refuses requestId maxTokens =>
    have hends := turns_end (r := { r with intro := none }) ⟨h.idle, h.final⟩
      (.out (.contextUsage requestId maxTokens) written) EXIT_MODEL rfl now
    refine ⟨hends.oneTurn, hends.effects, ?_, hends.boundary, hends.clears⟩
    exact le_trans hends.lines (Nat.zero_le _)
  | outage => exact turns_end h _ _ rfl now
  | compacted =>
    exact ⟨⟨h.idle, h.final⟩, List.forall_mem_nil _, le_of_eq (Nat.zero_add _),
      fun _ ↦ .inr rfl, .nil⟩
  | compactionFailed =>
    exact ⟨⟨h.idle, h.final⟩, List.forall_mem_nil _, le_of_eq (Nat.zero_add _), .inl, .nil⟩
  | done =>
    apply turns_done h
    split
    · next hcompacted => exact .inr ⟨rfl, hcompacted, rfl⟩
    · exact .inl rfl
  | fails _ _ hmany => exact absurd hmany hno
  | opens _ hmany => exact absurd hmany hno

/-- The tracker of a one-turn run has nothing to say about a line. -/
theorem drive_idle (cfg : Config) (h : r.tracker.phase = .idle) (event : Stream.Event)
    (written : Bool) (now : Nat) :
    ∃ t : Tracker, t.phase = .idle ∧ r.drive cfg event written now = (r.withTracker t, []) := by
  unfold Run.drive
  split
  · have hawaits : r.tracker.awaitingHandoff = false := by
      rw [Tracker.awaitingHandoff, h]
    obtain ⟨hphase, hactions⟩ := event_idle h event now
    refine ⟨(r.tracker.event event now).1, hphase, ?_⟩
    simp only [hawaits, Bool.and_false, Bool.false_eq_true, if_false]
    rw [Run.take, hactions]
    rfl
  · exact ⟨r.tracker, h, rfl⟩

theorem turns_react (hone : cfg.oneShot = true) (h : OneTurn r) (p : Paths) (input : Input)
    (now : Nat) : Turns r input (r.react cfg p input now) := by
  cases input with
  | out event written =>
    have hhear : Turns r (.out event written) (r.hear cfg event now) :=
      turns_hear hone h event written now
    obtain ⟨t, ht, hdrive⟩ := drive_idle cfg hhear.oneTurn.idle event written now
    have hout : r.react cfg p (.out event written) now =
        ((r.hear cfg event now).1.withTracker t, (r.hear cfg event now).2) := by
      show (((r.hear cfg event now).1.drive cfg event written now).1,
        (r.hear cfg event now).2 ++ ((r.hear cfg event now).1.drive cfg event written now).2) = _
      rw [hdrive, List.append_nil]
    rw [hout]
    exact ⟨⟨ht, hhear.oneTurn.final⟩, hhear.effects, hhear.lines, hhear.boundary, hhear.clears⟩
  | err line =>
    show Turns r _ (r.err line, [])
    unfold Run.err
    split
    · exact ⟨⟨h.idle, h.final⟩, List.forall_mem_nil _, le_of_eq (Nat.zero_add _), .inl, .nil⟩
    · exact .self h _
  | tick =>
    show Turns r _ (r.tick cfg p now)
    unfold Run.tick
    split
    · split
      · refine ⟨⟨h.idle, h.final⟩, by simp [Effect.ofTurn], ?_, .inl, .none (by simp) (by simp)⟩
        exact le_of_eq (Nat.zero_add _)
      · exact .self h _
    split
    · split
      · exact turns_end h _ _ rfl now
      · exact .self h _
    · rw [if_pos hone]
      split
      · exact turns_end h _ _ rfl now
      · exact .self h _
  | shutdown =>
    show Turns r _ (r.shutdown cfg now, [])
    unfold Run.shutdown
    split
    · exact .self h _
    · exact .self h _
    · refine ⟨⟨h.idle, ?_⟩, List.forall_mem_nil _, le_of_eq (Nat.zero_add _), .inl, .nil⟩
      rintro outcome ⟨⟩
      rfl

theorem turns_handle (hone : cfg.oneShot = true) (h : OneTurn r) (p : Paths) (input : Input)
    (now : Nat) : Turns r input (r.handle cfg p input now) := by
  have hreact : Turns r input (r.react cfg p input now) := turns_react hone h p input now
  show Turns r input ((r.react cfg p input now).1.reap.1,
    (r.react cfg p input now).2 ++ (r.react cfg p input now).1.reap.2)
  unfold Run.reap
  split
  · refine ⟨⟨hreact.oneTurn.idle, hreact.oneTurn.final⟩, ?_, ?_, hreact.boundary, ?_⟩
    · intro e he
      rcases List.mem_append.mp he with hone | hkill
      · exact hreact.effects e hone
      · obtain rfl := List.mem_singleton.mp hkill
        rfl
    · rw [List.countP_append]
      exact hreact.lines
    · exact hreact.clears.append (.none (by simp) (by simp))
  · simpa using hreact

/-! ## A whole run -/

/-- What a one-turn run has done about its inputs. -/
structure Looped (r : Run) (inputs : List (Input × Nat)) (x : Answer) : Prop where
  oneTurn : OneTurn x.1
  effects : ∀ e ∈ x.2, e.ofTurn = true
  lines : x.2.countP Effect.sends + x.1.held ≤ r.held
  clears : Clears x.2
    ((r.compacted = true ∧ ∃ i ∈ inputs, i.1.result = true) ∨ CompactedByHand inputs)

theorem looped (hone : cfg.oneShot = true) (h : OneTurn r) (p : Paths)
    (inputs : List (Input × Nat)) : Looped r inputs (r.loop cfg p inputs) := by
  induction inputs generalizing p r with
  | nil => exact ⟨h, List.forall_mem_nil _, le_of_eq (Nat.zero_add _), .nil⟩
  | cons head rest ih =>
    obtain ⟨input, now⟩ := head
    have hhead : Turns r input (r.handle cfg p input now) := turns_handle hone h p input now
    have hrest := ih hhead.oneTurn (Effect.applyAll p (r.handle cfg p input now).2)
    rw [Run.loop, Answer.andThen]
    refine ⟨hrest.oneTurn, ?_, ?_, ?_⟩
    · intro e he
      rcases List.mem_append.mp he with he | he
      · exact hhead.effects e he
      · exact hrest.effects e he
    · have hlines := hhead.lines
      have hmore := hrest.lines
      dsimp only
      rw [List.countP_append]
      omega
    · apply (hhead.clears.imp ?_).append (hrest.clears.imp ?_)
      · rintro ⟨hcompacted, hresult⟩
        exact .inl ⟨hcompacted, _, List.mem_cons_self, hresult⟩
      · rintro (⟨hcompacted, i, hi, hresult⟩ | hhand)
        · rcases hhead.boundary hcompacted with hbefore | hboundary
          · exact .inl ⟨hbefore, i, List.mem_cons_of_mem _ hi, hresult⟩
          · right
            exact ⟨_, i, List.Sublist.cons_cons _ (List.singleton_sublist.mpr hi), hboundary,
              hresult⟩
        · obtain ⟨boundary, result, hsub, hboth⟩ := hhand
          exact .inr ⟨boundary, result, hsub.cons _, hboth⟩

/-- A one-turn run at the top of its loop has sent its line or holds it. -/
theorem launch_oneShot (hone : cfg.oneShot = true) (p : Paths) {start : Start}
    (hkind : start.kind = .resumed) (notBefore : Option Nat) (now : Nat) :
    ∃ es, (launch cfg p start notBefore now).2 = .clearChannelReady :: .spawn start :: es ∧
      (∀ e ∈ es, e.ofTurn = true) ∧ Clears es False ∧
      OneTurn (launch cfg p start notBefore now).1 ∧
      (launch cfg p start notBefore now).1.compacted = false ∧
      es.countP Effect.sends + (launch cfg p start notBefore now).1.held ≤ 1 := by
  have hidle : (startTracker cfg p start notBefore now).phase = .idle := by
    simp [startTracker, hkind, Config.rotate, hone, Tracker.new]
  have hretry : ¬(start.kind = .retry ∧ start.snapshot = true) := by simp [hkind]
  simp only [launch, Answer.andThen, if_neg hretry]
  split
  · refine ⟨[.control WINDOW_REQUEST], rfl, by simp [Effect.ofTurn], .none (by simp) (by simp),
      ⟨hidle, fun outcome hafter ↦ by cases hafter⟩, rfl, ?_⟩
    simp [Effect.sends, Run.held]
  · let r : Run := { Run.new cfg start now with
      tracker := startTracker cfg p start notBefore now
      watch := start.kind == .retry }
    -- as if it had been held until now
    have hstart := turns_start (r := { r with intro := some (firstLine cfg start, now) }) hone
      ⟨hidle, fun outcome hafter ↦ by cases hafter⟩ rfl .tick (firstLine cfg start) now
    refine ⟨_, rfl, hstart.effects, hstart.clears.imp ?_, hstart.oneTurn, ?_, hstart.lines⟩
    · exact fun h ↦ Bool.false_ne_true h.2
    · obtain ⟨deadline, hsame⟩ := Run.start_eq cfg r (firstLine cfg start) now
      exact congrArg Run.compacted hsame

theorem leave_oneShot (hone : cfg.oneShot = true) (start : Start) (h : OneTurn r)
    (drained : List Line) (code : Int) :
    (r.leave cfg start drained code).1.final = true ∧
      (r.leave cfg start drained code).2 = [] := by
  unfold Run.leave
  split
  · next outcome hafter => exact ⟨h.final outcome hafter, rfl⟩
  · simp [hone, Outcome.final]

end

/-! ## What is left of it -/

/-- The effect changes no file but the records of a rotation, and does not open the channel. -/
def Effect.spares : Effect → Bool
  | .removeMarker | .removeRotation => true
  | .writeChannelReady _ => false
  | e => e.offRecord

theorem Effect.spares_of_ofTurn {e : Effect} (h : e.ofTurn = true) : e.spares = true := by
  cases e <;> first | rfl | cases h

theorem applyAll_spares (p : Paths) {es : List Effect} (h : ∀ e ∈ es, e.spares = true) :
    (Effect.applyAll p es).savedId = p.savedId ∧
      ((Effect.applyAll p es).marker = if .removeMarker ∈ es then false else p.marker) ∧
      (Effect.applyAll p es).rotation =
        if .removeRotation ∈ es then .absent else p.rotation := by
  induction es generalizing p with
  | nil => exact ⟨rfl, rfl, rfl⟩
  | cons e es ih =>
    obtain ⟨hid, hmarker, hrotation⟩ := ih (e.apply p) fun f hf ↦ h f (List.mem_cons_of_mem e hf)
    show (Effect.applyAll (e.apply p) es).savedId = _ ∧
      (Effect.applyAll (e.apply p) es).marker = _ ∧ (Effect.applyAll (e.apply p) es).rotation = _
    rw [hid, hmarker, hrotation]
    have hspares := h e List.mem_cons_self
    -- what is removed stays removed; no other effect is about the records
    cases e with
    | removeMarker => simp [Effect.apply, Paths.removeMarker]
    | removeRotation => simp [Effect.apply, Paths.removeRotation]
    | clearChannelReady => simp [Effect.apply, Paths.clearChannelReady]
    | writeId _ | dropId | writeNext _ | writeChannelReady _ | action _ => cases hspares
    | _ => simp [Effect.apply]

/-- Effects of one run that spare the session. -/
theorem spared_of_effects (p : Paths) {inputs : List (Input × Nat)} {es : List Effect}
    (h : ∀ e ∈ es, e.spares = true) (hclears : Clears es (CompactedByHand inputs))
    (hstarts : es.countP Effect.starts ≤ 1) (hlines : es.countP Effect.sends ≤ 1) :
    Spared p inputs es := by
  obtain ⟨hid, hmarker, hrotation⟩ := applyAll_spares p h
  refine ⟨hid, ?_, fun id hmem ↦ ?_, fun a hmem ↦ ?_, hstarts, hlines⟩
  · by_cases hcleared : .removeMarker ∈ es
    · rw [if_pos hcleared] at hmarker
      rw [if_pos (hclears.both.mp hcleared)] at hrotation
      exact .inr ⟨hmarker, hrotation, hclears.only hcleared⟩
    · rw [if_neg hcleared] at hmarker
      rw [if_neg (hcleared ∘ hclears.both.mpr)] at hrotation
      exact .inl ⟨hmarker, hrotation⟩
  · exact Bool.false_ne_true (h _ hmem)
  · exact Bool.false_ne_true (h _ hmem)

theorem runOnce_oneShot {cfg : Config} (hone : cfg.oneShot = true) (p : Paths) {start : Start}
    (hkind : start.kind = .resumed) (notBefore : Option Nat) (c : Course) :
    (runOnce cfg p start notBefore c).1.final = true ∧
      Spared p c.inputs (runOnce cfg p start notBefore c).2 := by
  unfold runOnce
  split
  · obtain ⟨es, hlaunch, hturn, hkeeps, hbegins, hcompacted, hheld⟩ :=
      launch_oneShot hone p hkind notBefore c.now
    generalize launch cfg p start notBefore c.now = launched at *
    have hloop := looped hone hbegins (Effect.applyAll p launched.2) c.inputs
    obtain ⟨hfinal, hleave⟩ := leave_oneShot hone start hloop.oneTurn c.drained c.code
    refine ⟨hfinal, ?_⟩
    dsimp only
    rw [hleave, List.append_nil]
    generalize launched.1.loop cfg (Effect.applyAll p launched.2) c.inputs = x at *
    rw [hlaunch]
    -- after claude is started, all the effects are those of its turn
    have hrest : ∀ e ∈ es ++ x.2, e.ofTurn = true := by
      intro e he
      rcases List.mem_append.mp he with he | he
      · exact hturn e he
      · exact hloop.effects e he
    apply spared_of_effects
    · intro e he
      rcases List.mem_cons.mp he with rfl | he
      · rfl
      rcases List.mem_cons.mp he with rfl | he
      · rfl
      · exact Effect.spares_of_ofTurn (hrest e he)
    · have hnone : Clears [.clearChannelReady, .spawn start] (CompactedByHand c.inputs) :=
        .none (by simp) (by simp)
      apply hnone.append ((hkeeps.imp False.elim).append (hloop.clears.imp _))
      rintro (⟨hbefore, -⟩ | hhand)
      · rw [hcompacted] at hbefore
        cases hbefore
      · exact hhand
    · have hnone : (es ++ x.2).countP Effect.starts = 0 := by
        rw [List.countP_eq_zero]
        intro e he hstarts
        have hofTurn := hrest e he
        cases e with
        | spawn start => cases hofTurn
        | _ => cases hstarts
      show List.countP Effect.starts (.clearChannelReady :: .spawn start :: (es ++ x.2)) ≤ 1
      rw [List.countP_cons_of_neg Bool.false_ne_true, List.countP_cons_of_pos rfl, hnone]
    · have hlines := hloop.lines
      show List.countP Effect.sends (.clearChannelReady :: .spawn start :: (es ++ x.2)) ≤ 1
      simp only [List.countP_cons, List.countP_append, Effect.sends, Bool.false_eq_true, if_false]
      omega
  · refine ⟨rfl, spared_of_effects p ?_ (.none (by simp) (by simp)) ?_ ?_⟩
    · simp [Effect.spares, Effect.offRecord]
    · decide
    · decide

/-- The one-turn emergency: whatever claude prints and however it ends, the supervisor is done after
one run, which touches nothing else; unless the unit is stopped, its code is one that the unit is
not started again on. -/
theorem supervise_oneShot {cfg : Config} (hone : cfg.oneShot = true) (p : Paths)
    (notBefore : Option Nat) (c : Course) (cs : List Course) :
    Spared p c.inputs (supervise cfg p notBefore (c :: cs)).2 ∧
      ∃ code, (supervise cfg p notBefore (c :: cs)).1 = some code ∧
        (c.stopped = false → c.cancelled = false → code = EXIT_MODEL ∨ code = EXIT_EMERGENCY) := by
  have hnothing : Spared p c.inputs [] :=
    spared_of_effects p (List.forall_mem_nil _) .nil (Nat.zero_le _) (Nat.zero_le _)
  rw [supervise]
  split
  · next hstopped => exact ⟨hnothing, 0, rfl, fun hgoes ↦ absurd (hstopped.symm.trans hgoes) nofun⟩
  · rw [plan, if_pos hone]
    cases p.resumable with
    | none => exact ⟨hnothing, _, rfl, fun _ _ ↦ .inr rfl⟩
    | some id =>
      dsimp only [Option.map_some]
      let start : Start := ⟨id, true, .resumed, 0, false, false⟩
      have hkind : start.kind = .resumed := rfl
      obtain ⟨hfinal, hspared⟩ := runOnce_oneShot hone (Effect.applyAll p []) hkind notBefore c
      obtain ⟨code, hsettle, hcode⟩ := settle_final hone c.cancelled hfinal
      rw [hsettle]
      exact ⟨hspared, code, rfl, fun _ ↦ hcode⟩

/-- Emergency mode of the one-turn kind. -/
def emergencyConfig : Config := { someConfig with emergency := some (.oneShot "/compact") }

/-- The records of a rotation are there; the emergency's line compacts. -/
theorem supervise_oneShot_compacts :
    let p : Paths := { savedPaths with marker := true, rotation := .holds (.retry false 1 false) }
    let c : Course :=
      { stopped := false
        newId := "new"
        now := 0
        spawns := true
        inputs :=
          [(.out (.result false false) false, 1), (.out (.compacted false) false, 2),
            (.out (.result false false) false, 3)]
        drained := []
        code := 0
        cancelled := false }
    Spared p c.inputs (supervise emergencyConfig p none [c]).2 ∧
      ∃ code, (supervise emergencyConfig p none [c]).1 = some code ∧
        (code = EXIT_MODEL ∨ code = EXIT_EMERGENCY) := by
  have hone : emergencyConfig.oneShot = true := rfl
  obtain ⟨hspared, code, hcode, hstays⟩ := supervise_oneShot hone _ none
    (Course.mk false "new" 0 true _ [] 0 false) []
  exact ⟨hspared, code, hcode, hstays rfl rfl⟩

end Supervisor

end Silta
