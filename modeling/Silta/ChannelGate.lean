import Silta.RunTriples

/-!
# When the channel opens

The plugin takes messages once the channel-ready file is written: on which lines of a run that is,
and how that stands to the window check.
-/

namespace Silta

namespace Supervisor

open Rotation (Action)
open State (Paths)

/-! ## What a run reads -/

/-- A line of a model's answer on the main line. -/
def Happening.answers : Happening → Bool
  | .input (.out (.assistant false _ false) _) _ => true
  | _ => false

/-- An answer to the window check, and whether it accepts the window. -/
def Happening.checks (cfg : Config) : Happening → Option Bool
  | .input (.out (.contextUsage requestId maxTokens) _) _ =>
    if requestId = WINDOW_REQUEST then
      some (cfg.window.any fun want ↦ maxTokens.any fun n ↦ decide (want ≤ n))
    else
      none
  | _ => none

/-- The first answer to the window check decides it. -/
def checkAnswer (cfg : Config) (hs : List Happening) : Option Bool :=
  hs.findSome? (Happening.checks cfg)

/-- The channel-ready file is written. -/
def Opens (cfg : Config) (s : Paths × Run) : Happening → Prop
  | .input i now => ∃ id, .writeChannelReady id ∈ (s.2.handle cfg s.1 i now).2
  | _ => False

def Effect.opens : Effect → Bool
  | .writeChannelReady _ => true
  | _ => false

/-! ## The effects -/

namespace Run

theorem opens_act (cfg : Config) (r : Run) (now : Nat) (actions : List Action) :
    ∀ e ∈ (r.act cfg now actions).2, e.opens = false :=
  forall_mem_act (fun _ ↦ rfl) (by decide) (fun _ ↦ rfl) (fun _ ↦ rfl) cfg r now actions

theorem opens_drive (cfg : Config) (r : Run) (event : Stream.Event) (written : Bool) (now : Nat) :
    ∀ e ∈ (r.drive cfg event written now).2, e.opens = false :=
  forall_mem_drive (fun r ↦ opens_act cfg r now) r event written

theorem opens_tick (cfg : Config) (p : Paths) (r : Run) (now : Nat) :
    ∀ e ∈ (r.tick cfg p now).2, e.opens = false :=
  forall_mem_tick (fun r ↦ opens_act cfg r now) rfl rfl p r

theorem opens_reap (r : Run) : ∀ e ∈ r.reap.2, e.opens = false :=
  forall_mem_reap (P := fun e ↦ e.opens = false) rfl r

theorem opens_start {cfg : Config} (r : Run) (line : HostLine) (now : Nat) :
    ∀ e ∈ (r.start cfg line now).2, e.opens = false := by
  unfold start write
  split <;> split <;> simp [Effect.opens]

theorem opens_hear_assistant {cfg : Config} (hone : cfg.oneShot = false) (r : Run)
    (subagent synthetic : Bool) (contextTokens : Option Nat) (now : Nat) :
    (∃ id, .writeChannelReady id ∈
        (r.hear cfg (.assistant subagent contextTokens synthetic) now).2) ↔
      subagent = false ∧ synthetic = false ∧ r.ready = false ∧ r.after = none := by
  by_cases hopen : (!cfg.oneShot && !subagent && !synthetic && !r.ready) = true
  · have hhear : r.hear cfg (.assistant subagent contextTokens synthetic) now = r.openChannel := by
      simp only [hear, hopen, if_true]
    simp only [hone, Bool.not_false, Bool.true_and, Bool.and_eq_true, Bool.not_eq_true'] at hopen
    rw [hhear, openChannel]
    cases hafter : r.after with
    | some outcome => simp
    | none => simp [hopen]
  · have hhear : r.hear cfg (.assistant subagent contextTokens synthetic) now = (r, []) := by
      simp only [hear, hopen, if_false, Bool.false_eq_true]
    rw [hhear]
    simp only [hone, Bool.not_false, Bool.true_and, Bool.and_eq_true, Bool.not_eq_true'] at hopen
    constructor
    · rintro ⟨id, ⟨⟩⟩
    · rintro ⟨hsub, hsyn, hready, -⟩
      exact absurd ⟨⟨hsub, hsyn⟩, hready⟩ hopen

theorem opens_hear_of_ne {cfg : Config} (r : Run) {event : Stream.Event} (now : Nat)
    (h : ∀ subagent contextTokens synthetic, event ≠ .assistant subagent contextTokens synthetic) :
    ∀ e ∈ (r.hear cfg event now).2, e.opens = false := by
  have hheard := heard cfg r event now
  generalize r.hear cfg event now = x at hheard
  cases hheard with
  | starts => exact opens_start _ _ now
  | done =>
    show ∀ e ∈ if r.compacted then Effect.clearRotation else [], e.opens = false
    split
    · simp [Effect.opens]
    · exact List.forall_mem_nil _
  | opens => exact absurd rfl (h _ _ _)
  | _ => exact List.forall_mem_nil _

end Run

/-- The channel opens where a model answers first, unless the run is ending. -/
theorem opens_iff {cfg : Config} (hone : cfg.oneShot = false) (s : Paths × Run) (h : Happening) :
    Opens cfg s h ↔ h.answers = true ∧ s.2.ready = false ∧ s.2.after = none := by
  have hquiet : ∀ {es : List Effect}, (∀ e ∈ es, e.opens = false) →
      ∀ id, .writeChannelReady id ∉ es := fun hes id hmem ↦ Bool.false_ne_true (hes _ hmem).symm
  cases h with
  | mark => exact ⟨nofun, fun h ↦ absurd h.1 Bool.false_ne_true⟩
  | unmark => exact ⟨nofun, fun h ↦ absurd h.1 Bool.false_ne_true⟩
  | input i now =>
    have hreact : Opens cfg s (.input i now) ↔
        ∃ id, .writeChannelReady id ∈ (s.2.react cfg s.1 i now).2 := by
      apply exists_congr
      intro id
      show _ ∈ _ ++ _ ↔ _
      rw [List.mem_append, or_iff_left (hquiet (Run.opens_reap _) id)]
    rw [hreact]
    cases i with
    | err line => exact ⟨nofun, fun h ↦ absurd h.1 Bool.false_ne_true⟩
    | shutdown => exact ⟨nofun, fun h ↦ absurd h.1 Bool.false_ne_true⟩
    | tick =>
      exact ⟨fun ⟨id, h⟩ ↦ absurd h (hquiet (s.2.opens_tick cfg s.1 now) id),
        fun h ↦ absurd h.1 Bool.false_ne_true⟩
    | out event written =>
      have hhear : (∃ id, .writeChannelReady id ∈ (s.2.react cfg s.1 (.out event written) now).2) ↔
          ∃ id, .writeChannelReady id ∈ (s.2.hear cfg event now).2 := by
        apply exists_congr
        intro id
        show _ ∈ _ ++ _ ↔ _
        rw [List.mem_append, or_iff_left (hquiet (Run.opens_drive cfg _ event written now) id)]
      rw [hhear]
      by_cases hassistant : ∃ subagent contextTokens synthetic,
          event = .assistant subagent contextTokens synthetic
      · obtain ⟨subagent, contextTokens, synthetic, rfl⟩ := hassistant
        rw [Run.opens_hear_assistant hone]
        cases subagent <;> cases synthetic <;> simp [Happening.answers]
      · have hne : (Happening.input (.out event written) now).answers = false := by
          cases event with
          | assistant subagent contextTokens synthetic => exact absurd ⟨_, _, _, rfl⟩ hassistant
          | _ => rfl
        rw [hne]
        constructor
        · rintro ⟨id, hmem⟩
          exact absurd hmem (hquiet (s.2.opens_hear_of_ne now fun _ _ _ heq ↦
            hassistant ⟨_, _, _, heq⟩) id)
        · exact fun h ↦ absurd h.1 Bool.false_ne_true

/-! ## One step -/

/-- What happens to a run that goes on: an answer to the check that still waits is taken, and
accepts the window. -/
structure Gate (cfg : Config) (r r' : Run) (h : Happening) : Prop where
  after : r.after = none
  ready : r'.ready = (r.ready || h.answers)
  intro : r'.intro.isSome = (r.intro.isSome && (h.checks cfg).isNone)
  accepted : r.intro.isSome = true → h.checks cfg ≠ some false

theorem gate_self {cfg : Config} {r : Run} {h : Happening} (hafter : r.after = none)
    (hanswers : h.answers = false) (hchecks : h.checks cfg = none) : Gate cfg r r h where
  after := hafter
  ready := by simp [hanswers]
  intro := by simp [hchecks]
  accepted := by simp [hchecks]

theorem after_end (r : Run) (code : Int) (now : Nat) : (r.«end» code now).after ≠ none := by
  unfold Run.end
  split
  · next h =>
    intro hnone
    rw [hnone] at h
    cases h
  · exact nofun

/-- The answer to the window check lets the first line go, or the run ends. -/
theorem gate_window {cfg : Config} (hone : cfg.oneShot = false) (hwindow : cfg.window.isSome = true)
    {r : Run} {requestId : String} (hid : requestId = WINDOW_REQUEST) {maxTokens : Option Nat}
    {now : Nat} (written : Bool) (hafter : (r.window cfg maxTokens now).1.after = none) :
    Gate cfg r (r.window cfg maxTokens now).1
      (.input (.out (.contextUsage requestId maxTokens) written) now) := by
  obtain ⟨want, hwant⟩ := Option.isSome_iff_exists.mp hwindow
  have hchecks : (Happening.input (.out (.contextUsage requestId maxTokens) written) now).checks
      cfg = some (maxTokens.any fun n ↦ decide (want ≤ n)) := by
    rw [Happening.checks, if_pos hid, hwant, Option.any_some]
  cases hintro : r.intro with
  | none =>
    have hself : r.window cfg maxTokens now = (r, []) := by
      simp only [Run.window, hwant, hintro]
    rw [hself] at hafter ⊢
    exact ⟨hafter, by simp [Happening.answers], by simp [hintro], by simp [hintro]⟩
  | some held =>
    obtain ⟨line, deadline⟩ := held
    simp only [Run.window, hwant, hintro] at hafter ⊢
    split at hafter
    · next haccepts =>
      rw [if_pos haccepts]
      have hstart : ∀ r : Run, (r.start cfg line now).1 = r := by
        intro r
        rw [Run.start, if_neg (by simp [hone])]
      rw [hstart] at hafter ⊢
      exact ⟨hafter, by simp [Happening.answers], by simp [hintro, hchecks], by
        rw [hchecks, haccepts]
        exact fun _ ↦ by simp⟩
    · exact absurd hafter (after_end _ _ _)

/-- A model's answer opens the channel, unless it is open or a subagent's. -/
theorem gate_assistant {cfg : Config} (hone : cfg.oneShot = false) {r : Run}
    {subagent synthetic : Bool} {contextTokens : Option Nat} {now : Nat} (written : Bool)
    (hafter : (r.hear cfg (.assistant subagent contextTokens synthetic) now).1.after = none) :
    Gate cfg r (r.hear cfg (.assistant subagent contextTokens synthetic) now).1
      (.input (.out (.assistant subagent contextTokens synthetic) written) now) := by
  cases hopen : !subagent && !synthetic && !r.ready with
  | true =>
    have hhear : r.hear cfg (.assistant subagent contextTokens synthetic) now =
        r.openChannel := by
      simp only [Run.hear, hone, Bool.not_false, Bool.true_and, hopen, if_true]
    simp only [Bool.and_eq_true, Bool.not_eq_true'] at hopen
    obtain ⟨⟨rfl, rfl⟩, hready⟩ := hopen
    rw [hhear, Run.openChannel] at hafter ⊢
    split at hafter
    · next hsome =>
      rw [hafter] at hsome
      cases hsome
    · next hnone =>
      rw [if_neg hnone]
      exact ⟨hafter, by simp [Happening.answers], by simp [Happening.checks],
        by simp [Happening.checks]⟩
  | false =>
    have hhear : r.hear cfg (.assistant subagent contextTokens synthetic) now = (r, []) := by
      simp only [Run.hear, hone, Bool.not_false, Bool.true_and, hopen, Bool.false_eq_true,
        if_false]
    rw [hhear] at hafter ⊢
    refine ⟨hafter, ?_, by simp [Happening.checks], by simp [Happening.checks]⟩
    cases subagent <;> cases synthetic <;> simp_all [Happening.answers]

theorem gate_hear {cfg : Config} (hone : cfg.oneShot = false) (hwindow : cfg.window.isSome = true)
    {r : Run} {event : Stream.Event} {now : Nat} (written : Bool)
    (hafter : (r.hear cfg event now).1.after = none) :
    Gate cfg r (r.hear cfg event now).1 (.input (.out event written) now) := by
  cases event with
  | contextUsage requestId maxTokens =>
    by_cases hid : requestId = WINDOW_REQUEST
    · have hhear : r.hear cfg (.contextUsage requestId maxTokens) now =
          r.window cfg maxTokens now := if_pos hid
      rw [hhear] at hafter ⊢
      exact gate_window hone hwindow hid written hafter
    · have hhear : r.hear cfg (.contextUsage requestId maxTokens) now = (r, []) := if_neg hid
      rw [hhear] at hafter ⊢
      exact gate_self hafter rfl (if_neg hid)
  | modelFallback trigger =>
    simp only [Run.hear, Run.fallback] at hafter ⊢
    split at hafter
    · exact absurd hafter (after_end _ _ _)
    · next hok =>
      rw [if_neg hok]
      exact gate_self hafter rfl rfl
  | compacted auto =>
    have hhear : r.hear cfg (.compacted auto) now = (r, []) := by
      simp only [Run.hear, hone, Bool.and_false, Bool.false_eq_true, if_false]
    rw [hhear] at hafter ⊢
    exact gate_self hafter rfl rfl
  | compactionFailed =>
    have hhear : r.hear cfg .compactionFailed now = (r, []) := by
      simp only [Run.hear, hone, Bool.false_eq_true, if_false]
    rw [hhear] at hafter ⊢
    exact gate_self hafter rfl rfl
  | result isError person =>
    have hhear : (r.hear cfg (.result isError person) now).1 = r ∨
        (r.hear cfg (.result isError person) now).1 = r.«end» 1 now := by
      simp only [Run.hear, hone, Bool.false_eq_true, if_false]
      split
      · exact .inl rfl
      split
      · exact .inr rfl
      · exact .inl rfl
    rcases hhear with hself | hend
    · rw [hself] at hafter ⊢
      exact gate_self hafter rfl rfl
    · rw [hend] at hafter
      exact absurd hafter (after_end _ _ _)
  | assistant subagent contextTokens synthetic => exact gate_assistant hone written hafter
  | _ => exact gate_self hafter rfl rfl

theorem after_act {cfg : Config} {r : Run} {now : Nat} {actions : List Action}
    (h : (r.act cfg now actions).1.after = none) : r.after = none := by
  induction actions generalizing r with
  | nil => exact h
  | cons a as ih =>
    have hone : (r.perform cfg now a).1.after = none := ih h
    cases a with
    | retry step attempts handoff => cases hone
    | postpone step attempts handoff => cases hone
    | giveUp step cut handoff => cases hone
    | _ => exact hone

/-- The tracker's answer leaves the gate alone. -/
theorem gate_take {cfg : Config} {r r' : Run} {h : Happening} {now : Nat}
    (answer : Rotation.Tracker × List Action) (hgate : r'.after = none → Gate cfg r r' h)
    (hafter : (r'.take cfg answer now).1.after = none) :
    Gate cfg r (r'.take cfg answer now).1 h := by
  unfold Run.take at hafter ⊢
  have hnone : (r'.withTracker answer.1).after = none := after_act hafter
  have hg := hgate hnone
  refine ⟨hg.after, ?_, ?_, hg.accepted⟩
  · rw [act_ready, ← hg.ready]
    rfl
  · rw [Run.act_intro, ← hg.intro]
    rfl

theorem gate_tick {cfg : Config} (hone : cfg.oneShot = false) (p : Paths) {r : Run}
    (hr : r.Coherent) {now : Nat} (hafter : (r.tick cfg p now).1.after = none) :
    Gate cfg r (r.tick cfg p now).1 (.input .tick now) := by
  have hself : ∀ {r' : Run}, r'.after = r.after ∧ r'.ready = r.ready ∧ r'.intro = r.intro →
      r'.after = none → Gate cfg r r' (.input .tick now) := by
    intro r' hsame hnone
    obtain ⟨hsame, hready, hintro⟩ := hsame
    exact ⟨hsame ▸ hnone, by simp [hready, Happening.answers], by simp [hintro, Happening.checks],
      by simp [Happening.checks]⟩
  unfold Run.tick at hafter ⊢
  split at hafter
  · next deadline hstop =>
    -- it is known what comes after a run that is being stopped
    exfalso
    have hnone : r.after = none := by
      split at hafter
      · exact hafter
      · exact hafter
    rw [Run.Coherent, hnone, hstop] at hr
    cases hr
  · split at hafter
    · split at hafter
      · exact absurd hafter (after_end _ _ _)
      · next hearly =>
        rw [if_neg hearly]
        exact hself ⟨rfl, rfl, rfl⟩ hafter
    · rw [if_neg (by simp [hone])] at hafter ⊢
      have hlook : ({ r with ticks := r.ticks + 1 }.lookForMarker cfg p now).1.after = none →
          Gate cfg r ({ r with ticks := r.ticks + 1 }.lookForMarker cfg p now).1
            (.input .tick now) := by
        intro hlooked
        unfold Run.lookForMarker at hlooked ⊢
        split at hlooked
        · next hfifth =>
          rw [if_pos hfifth]
          split at hlooked
          · next hseen =>
            rw [if_pos hseen]
            exact gate_take _ (hself ⟨rfl, rfl, rfl⟩) hlooked
          · next hunseen =>
            rw [if_neg hunseen]
            split at hlooked
            · next hcancel =>
              rw [if_pos hcancel]
              exact hself ⟨rfl, rfl, rfl⟩ hlooked
            · next hstays =>
              rw [if_neg hstays]
              exact hself ⟨rfl, rfl, rfl⟩ hlooked
        · next hother =>
          rw [if_neg hother]
          exact hself ⟨rfl, rfl, rfl⟩ hlooked
      exact gate_take _ hlook hafter

theorem gate_step {cfg : Config} (hone : cfg.oneShot = false) (hwindow : cfg.window.isSome = true)
    {s : Paths × Run} (hs : s.2.Coherent) {h : Happening} (hafter : (h.step cfg s).2.after = none) :
    Gate cfg s.2 (h.step cfg s).2 h := by
  cases h with
  | mark => exact gate_self hafter rfl rfl
  | unmark => exact gate_self hafter rfl rfl
  | input i now =>
    obtain ⟨killed, hstep⟩ := step_input cfg s i now
    rw [hstep] at hafter ⊢
    have hgate : Gate cfg s.2 (s.2.react cfg s.1 i now).1 (.input i now) := by
      have hreact : (s.2.react cfg s.1 i now).1.after = none := hafter
      cases i with
      | out event written =>
        have hhear : (s.2.hear cfg event now).1.after = none →
            Gate cfg s.2 (s.2.hear cfg event now).1 (.input (.out event written) now) :=
          gate_hear hone hwindow written
        show Gate cfg s.2 ((s.2.hear cfg event now).1.drive cfg event written now).1 _
        have hdrive : ((s.2.hear cfg event now).1.drive cfg event written now).1.after = none :=
          hreact
        unfold Run.drive at hdrive ⊢
        split at hdrive
        · next hfree =>
          rw [if_pos hfree]
          exact gate_take _ hhear hdrive
        · next hheld =>
          rw [if_neg hheld]
          exact hhear hdrive
      | err line =>
        show Gate cfg s.2 (s.2.err line) _
        have herr : (s.2.err line).after = none := hreact
        unfold Run.err at herr ⊢
        split at herr
        · next hrefuses =>
          rw [if_pos hrefuses]
          exact ⟨herr, by simp [Happening.answers], by simp [Happening.checks], by
            simp [Happening.checks]⟩
        · next hother =>
          rw [if_neg hother]
          exact gate_self herr rfl rfl
      | tick => exact gate_tick hone s.1 hs hreact
      | shutdown =>
        -- a stop says what comes after
        exfalso
        have hshutdown : (s.2.shutdown cfg now).after = none := hreact
        unfold Run.shutdown at hshutdown
        split at hshutdown
        · next heq =>
          rw [heq] at hshutdown
          cases hshutdown
        · next heq =>
          rw [heq] at hshutdown
          cases hshutdown
        · cases hshutdown
    exact ⟨hgate.after, hgate.ready, hgate.intro, hgate.accepted⟩

/-! ## Whole runs -/

theorem runLoop_concat (cfg : Config) (s : Paths × Run) (hs : List Happening) (h : Happening) :
    runLoop cfg s (hs ++ [h]) = h.step cfg (runLoop cfg s hs) := by
  rw [runLoop, List.foldl_append]
  rfl

section

variable {cfg : Config} {s : Paths × Run}

theorem checkAnswer_concat (hs : List Happening) (h : Happening) :
    checkAnswer cfg (hs ++ [h]) = (checkAnswer cfg hs).or (h.checks cfg) := by
  rw [checkAnswer, checkAnswer, List.findSome?_append]
  congr 1
  rw [List.findSome?_cons]
  cases h.checks cfg <;> rfl

/-- A run that goes on waits for the check's answer until there is one, which accepts the window. -/
theorem checked_run (hone : cfg.oneShot = false) (hwindow : cfg.window.isSome = true)
    (hs : s.2.Coherent) (hbegin : s.2.intro.isSome = true) (hl : List Happening)
    (hafter : (runLoop cfg s hl).2.after = none) :
    (runLoop cfg s hl).2.intro.isSome = (checkAnswer cfg hl).isNone ∧
      checkAnswer cfg hl ≠ some false := by
  induction hl using List.reverseRecOn with
  | nil => exact ⟨hbegin, nofun⟩
  | append_singleton hl h ih =>
    rw [runLoop_concat] at hafter ⊢
    have hgate := gate_step hone hwindow (coherent_runLoop hs hl) hafter
    obtain ⟨hintro, hrefused⟩ := ih hgate.after
    rw [checkAnswer_concat, hgate.intro, hintro]
    cases hanswer : checkAnswer cfg hl with
    | some b =>
      rw [hanswer] at hrefused
      exact ⟨rfl, hrefused⟩
    | none =>
      rw [hanswer] at hintro
      exact ⟨by simp, by simpa using hgate.accepted hintro⟩

/-- A channel that is open was opened by a line. -/
theorem opened_run (hone : cfg.oneShot = false) (hwindow : cfg.window.isSome = true)
    (hs : s.2.Coherent) (hbegin : s.2.ready = false) (hl : List Happening)
    (hafter : (runLoop cfg s hl).2.after = none) (hready : (runLoop cfg s hl).2.ready = true) :
    ∃ before h after, hl = before ++ h :: after ∧ Opens cfg (runLoop cfg s before) h := by
  induction hl using List.reverseRecOn with
  | nil =>
    rw [show (runLoop cfg s []).2.ready = s.2.ready from rfl, hbegin] at hready
    cases hready
  | append_singleton hl h ih =>
    rw [runLoop_concat] at hafter hready
    have hgate := gate_step hone hwindow (coherent_runLoop hs hl) hafter
    cases hwas : (runLoop cfg s hl).2.ready with
    | true =>
      obtain ⟨before, g, after, rfl, hopens⟩ := ih hgate.after hwas
      exact ⟨before, g, after ++ [h], by simp, hopens⟩
    | false =>
      rw [hgate.ready, hwas, Bool.false_or] at hready
      exact ⟨hl, h, [], rfl, (opens_iff hone _ h).mpr ⟨hready, hwas, hgate.after⟩⟩

/-- The channel opens only on a served turn: after an answer to the check that accepts the window,
on a model's answer, in a run that is neither stopping nor ending. -/
def OpensServed (cfg : Config) (s : Paths × Run) (hl : List Happening) : Prop :=
  ∀ before h after, hl = before ++ h :: after → Opens cfg (runLoop cfg s before) h →
    h.answers = true ∧ checkAnswer cfg before = some true ∧
      (runLoop cfg s before).2.after = none ∧ (runLoop cfg s before).2.stopping = none

theorem opensServed_iff (hone : cfg.oneShot = false) (hwindow : cfg.window.isSome = true)
    (hs : s.2.Coherent) (hbegin : s.2.intro.isSome = true) (hready : s.2.ready = false)
    (hl : List Happening) :
    OpensServed cfg s hl ↔ ∀ before h after, hl = before ++ h :: after → h.answers = true →
      checkAnswer cfg before = none → (runLoop cfg s before).2.after.isSome = true := by
  constructor
  · intro hserved before h after hsplit hanswers hcheck
    by_contra hafter
    rw [Option.not_isSome_iff_eq_none] at hafter
    cases hopen : (runLoop cfg s before).2.ready with
    | false =>
      have hopens := (opens_iff hone _ h).mpr ⟨hanswers, hopen, hafter⟩
      obtain ⟨-, haccepted, -⟩ := hserved before h after hsplit hopens
      rw [hcheck] at haccepted
      cases haccepted
    | true =>
      -- it was opened by an earlier line, before which there was no answer either
      obtain ⟨first, g, rest, rfl, hopens⟩ := opened_run hone hwindow hs hready before hafter hopen
      obtain ⟨-, haccepted, -⟩ := hserved first g (rest ++ h :: after)
        (by rw [hsplit, List.append_assoc, List.cons_append]) hopens
      rw [checkAnswer, List.findSome?_append, ← checkAnswer, haccepted] at hcheck
      cases hcheck
  · intro hearly before h after hsplit hopens
    obtain ⟨hanswers, -, hafter⟩ := (opens_iff hone _ h).mp hopens
    have hcoherent : (runLoop cfg s before).2.Coherent := coherent_runLoop hs before
    have hrefused := (checked_run hone hwindow hs hbegin before hafter).2
    refine ⟨hanswers, ?_, hafter, ?_⟩
    · cases hcheck : checkAnswer cfg before with
      | none =>
        have hsome := hearly before h after hsplit hanswers hcheck
        rw [hafter] at hsome
        cases hsome
      | some b =>
        cases b with
        | true => rfl
        | false => exact absurd hcheck hrefused
    · rw [Run.Coherent, hafter] at hcoherent
      exact Option.isNone_iff_eq_none.mp (by simpa using hcoherent.symm)

theorem opens_launch (cfg : Config) (p : Paths) (start : Start) (notBefore : Option Nat)
    (now : Nat) : ∀ e ∈ (launch cfg p start notBefore now).2, e.opens = false := by
  intro e he
  rcases List.mem_append.mp he with hbefore | hafter
  · rcases List.mem_append.mp hbefore with hspawn | hsnapshot
    · rcases List.mem_pair.mp hspawn with rfl | rfl
      · rfl
      · rfl
    · split at hsnapshot
      · obtain rfl := List.mem_singleton.mp hsnapshot
        rfl
      · cases hsnapshot
  · dsimp only at hafter
    split at hafter
    · dsimp only at hafter
      unfold Run.write at hafter
      split at hafter
      · obtain rfl := List.mem_singleton.mp hafter
        rfl
      · cases hafter
    · exact Run.opens_start _ _ now e hafter

theorem opens_leave (cfg : Config) (start : Start) (r : Run) (drained : List Line) (code : Int) :
    ∀ e ∈ (r.leave cfg start drained code).2, e.opens = false :=
  Run.forall_mem_leave (P := fun e ↦ e.opens = false) rfl cfg start r drained code

end

/-- From its start to its exit, a run opens the channel only on a served turn. -/
structure ChannelGated (cfg : Config) (p : Paths) (start : Start) (es : List Effect)
    (notBefore : Option Nat) (now : Nat) (hl : List Happening) : Prop where
  launch : ∀ id,
    .writeChannelReady id ∉ (launch cfg (Effect.applyAll p es) start notBefore now).2
  loop : OpensServed cfg (begun cfg p start es notBefore now) hl
  leave : ∀ drained code id, .writeChannelReady id ∉
    ((runLoop cfg (begun cfg p start es notBefore now) hl).2.leave cfg start drained code).2

/-- The channel opens only on served turns just when no model's answer is read before an answer to
the window check, unless the run is already stopping or ending. -/
theorem channelGated_iff {cfg : Config} (hone : cfg.oneShot = false)
    (hwindow : cfg.window.isSome = true) (p : Paths) (start : Start) (es : List Effect)
    (notBefore : Option Nat) (now : Nat) (hl : List Happening) :
    ChannelGated cfg p start es notBefore now hl ↔
      ∀ before h after, hl = before ++ h :: after → h.answers = true →
        checkAnswer cfg before = none →
        (runLoop cfg (begun cfg p start es notBefore now) before).2.after.isSome = true := by
  have hbegin : (begun cfg p start es notBefore now).2.intro.isSome = true := by
    show (launch cfg (Effect.applyAll p es) start notBefore now).1.intro.isSome = true
    simp only [launch, Answer.andThen, hwindow, if_true, Option.isSome_some]
  have hready : (begun cfg p start es notBefore now).2.ready = false :=
    (launch_begins cfg (Effect.applyAll p es) start notBefore now).2.2.1
  rw [← opensServed_iff hone hwindow (coherent_begun cfg p start es notBefore now) hbegin hready]
  constructor
  · exact ChannelGated.loop
  · intro hloop
    refine ⟨fun id hmem ↦ ?_, hloop, fun drained code id hmem ↦ ?_⟩
    · exact Bool.false_ne_true (opens_launch cfg _ start notBefore now _ hmem).symm
    · exact Bool.false_ne_true (opens_leave cfg start _ drained code _ hmem).symm

/-- The window is checked. -/
def checkedConfig : Config where
  window := some 200000
  windowWait := 60
  stopGrace := 90
  limits := Rotation.someLimits
  emergency := none

/-- The check is answered, and then the model. -/
theorem channelGated_iff_answered :
    ChannelGated checkedConfig Paths.empty (freshStart "51209dfc" .fresh)
      [.writeId "51209dfc"] none 0
      [.input (.out (.contextUsage WINDOW_REQUEST (some 500000)) false) 1,
        .input (.out (.assistant false (some 15000) false) false) 5] := by
  refine (channelGated_iff rfl rfl _ _ _ _ _ _).mpr ?_
  intro before h after hsplit hanswers hcheck
  rcases before with _ | ⟨first, _ | ⟨second, rest⟩⟩
  · obtain ⟨rfl, -⟩ := List.cons.inj hsplit
    cases hanswers
  · obtain ⟨rfl, -⟩ := List.cons.inj hsplit
    exact absurd hcheck (by decide)
  · simp at hsplit

/-- A model's answer is read while the check is still out. -/
theorem not_channelGated_early :
    ¬ChannelGated checkedConfig Paths.empty (freshStart "51209dfc" .fresh)
      [.writeId "51209dfc"] none 0
      [.input (.out (.assistant false (some 15000) false) false) 1] := by
  intro h
  have hopens : Opens checkedConfig (begun checkedConfig Paths.empty (freshStart "51209dfc" .fresh)
      [.writeId "51209dfc"] none 0) (.input (.out (.assistant false (some 15000) false) false) 1) :=
    (opens_iff rfl _ _).mpr (by decide)
  obtain ⟨-, haccepted, -⟩ := h.loop [] _ [] rfl hopens
  cases haccepted

end Supervisor

end Silta
