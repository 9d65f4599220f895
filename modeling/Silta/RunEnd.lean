import Silta.Attempt
import Silta.Supervisor

/-!
# How a run ends

Which output lines end a run, said of the state before them, and the loop of a run.
-/

namespace Silta

namespace Supervisor

open Rotation (Action HANDOFF_ATTEMPTS Tracker u32Succ)
open State (Next Paths)

namespace Effect

/-- The effect changes no file that outlives the run but `channel-ready`. -/
def offRecord : Effect → Bool
  | .clearChannelReady | .writeChannelReady _ | .spawn _ | .snapshot _ | .control _ | .send _
  | .kill => true
  | _ => false

theorem applyAll_append (p : Paths) (es fs : List Effect) :
    applyAll p (es ++ fs) = applyAll (applyAll p es) fs :=
  List.foldl_append

theorem applyAll_offRecord (p : Paths) {es : List Effect} (h : ∀ e ∈ es, e.offRecord = true) :
    ∃ ready, applyAll p es = { p with channelReady := ready } := by
  induction es generalizing p with
  | nil => exact ⟨p.channelReady, rfl⟩
  | cons e es ih =>
    have hrest := fun f hf ↦ h f (List.mem_cons_of_mem e hf)
    have he : ∃ ready, e.apply p = { p with channelReady := ready } := by
      have hoff := h e List.mem_cons_self
      cases e with
      | clearChannelReady => exact ⟨none, rfl⟩
      | writeChannelReady id => exact ⟨some id, rfl⟩
      | _ => first | exact ⟨p.channelReady, rfl⟩ | cases hoff
    obtain ⟨ready, he⟩ := he
    obtain ⟨ready', hes⟩ := ih (e.apply p) hrest
    exact ⟨ready', by rw [applyAll, List.foldl_cons, ← applyAll, hes, he]⟩

end Effect

namespace Run

theorem reap_eq (r : Run) : ∃ killed, r.reap.1 = { r with killed := killed } := by
  unfold reap
  split
  · exact ⟨true, rfl⟩
  · exact ⟨r.killed, rfl⟩

/-- What a turn of the loop ends with is the kill, where it is due. -/
theorem forall_mem_reap {P : Effect → Prop} (hkill : P .kill) (r : Run) : ∀ e ∈ r.reap.2, P e := by
  unfold reap
  split
  · simpa using hkill
  · exact List.forall_mem_nil _

theorem offRecord_reap (r : Run) : ∀ e ∈ r.reap.2, e.offRecord = true :=
  forall_mem_reap (P := fun e ↦ e.offRecord = true) rfl r

theorem offRecord_write (r : Run) {e : Effect} (he : e.offRecord = true) :
    ∀ f ∈ r.write e, f.offRecord = true := by
  unfold write
  split
  · simpa using he
  · simp

/-! ## The actions of the tracker -/

theorem act_silent (r : Run) (cfg : Config) (now : Nat) {actions : List Action}
    (h : actions.all Action.silent = true) :
    ∃ watch, (r.act cfg now actions).1 = { r with watch := watch } := by
  -- only the request for a handoff changes the run, which then watches for the note
  induction actions generalizing r with
  | nil => exact ⟨r.watch, rfl⟩
  | cons a as ih =>
    simp only [List.all_cons, Bool.and_eq_true] at h
    have hone : ∃ watch, (r.perform cfg now a).1 = { r with watch := watch } := by
      cases a with
      | requestHandoff => exact ⟨true, rfl⟩
      | _ => first | exact ⟨r.watch, rfl⟩ | exact absurd h.1 Bool.false_ne_true
    obtain ⟨watch, hone⟩ := hone
    obtain ⟨watch', hrest⟩ := ih (r.perform cfg now a).1 h.2
    refine ⟨watch', ?_⟩
    show ((r.perform cfg now a).1.act cfg now as).1 = _
    rw [hrest, hone]

theorem act_endsRun (r : Run) (cfg : Config) (now : Nat) {a : Action} (h : a.endsRun = true) :
    ∃ notBefore, (r.act cfg now [a]).1 = r.again cfg notBefore now := by
  cases a with
  | postpone step attempts handoff => exact ⟨some (now + cfg.limits.retryPause), rfl⟩
  | retry step attempts handoff => exact ⟨none, rfl⟩
  | giveUp step cut handoff => exact ⟨none, rfl⟩
  | _ => cases h

theorem applyAll_write (p : Paths) (r : Run) (line : HostLine) :
    Effect.applyAll p (r.write (.send line)) = p := by
  unfold write
  split
  · rfl
  · rfl

theorem applyAll_perform (cfg : Config) (p : Paths) (r : Run) (now : Nat) (a : Action) :
    Effect.applyAll p (r.perform cfg now a).2 = recordAction p a := by
  cases a with
  | requestHandoff => exact applyAll_write p r .handoff
  | compact => exact applyAll_write p r .compact
  | compacted =>
    show Effect.applyAll p (Effect.records .compacted ++ r.write (.send .compacted)) = _
    rw [Effect.applyAll_append]
    exact applyAll_write _ r .compacted
  | _ => rfl

theorem applyAll_act (cfg : Config) (p : Paths) (r : Run) (now : Nat) (actions : List Action) :
    Effect.applyAll p (r.act cfg now actions).2 = actions.foldl recordAction p := by
  induction actions generalizing p r with
  | nil => rfl
  | cons a as ih =>
    show Effect.applyAll p
      ((r.perform cfg now a).2 ++ ((r.perform cfg now a).1.act cfg now as).2) = _
    rw [Effect.applyAll_append, applyAll_perform, ih, List.foldl_cons]

theorem foldl_recordAction_silent (p : Paths) {actions : List Action}
    (h : actions.all Action.silent = true) : actions.foldl recordAction p = p := by
  induction actions with
  | nil => rfl
  | cons a as ih =>
    simp only [List.all_cons, Bool.and_eq_true] at h
    have hone : recordAction p a = p := by
      cases a with
      | _ => first | rfl | exact absurd h.1 Bool.false_ne_true
    rw [List.foldl_cons, hone]
    exact ih h.2

/-! ## An output line -/

/-- The line accepts the window. -/
def accepts (cfg : Config) (event : Stream.Event) : Bool :=
  match event with
  | .contextUsage requestId maxTokens =>
    decide (requestId = WINDOW_REQUEST) &&
      cfg.window.any fun want ↦ maxTokens.any fun n ↦ decide (want ≤ n)
  | _ => false

/-- The code with which a line ends a run that is not ending yet: a window check that is refused or
falls short, a fallback that points at the model, the end of the emergency's turn, and the end of
the first turn where no model has answered. -/
def endsWith (cfg : Config) (r : Run) (event : Stream.Event) : Option Int :=
  match event with
  | .contextUsage requestId _ =>
    if requestId = WINDOW_REQUEST ∧ cfg.window.isSome = true ∧ r.intro.isSome = true ∧
        accepts cfg event = false then
      some EXIT_MODEL
    else none
  | .modelFallback trigger => if FALLBACK_FATAL.contains trigger then some EXIT_MODEL else none
  | .result isError _ =>
    -- the emergency's `/compact` has not come to its end
    if !isError && cfg.compaction && !r.compacted && !r.compactFailed then none
    else if cfg.oneShot then some EXIT_EMERGENCY
    else if !r.ready then some 1
    else none
  | _ => none

/-- The turn of the emergency line ends after its compaction. -/
def clears (cfg : Config) (r : Run) (event : Stream.Event) : Bool :=
  isResult event && cfg.oneShot && r.compacted

/-- Once the line is read, no window check is outstanding. -/
def checked (cfg : Config) (r : Run) (event : Stream.Event) : Bool :=
  r.intro.isNone || accepts cfg event

/-- A run is being stopped exactly when it is known what comes after it. -/
def Coherent (r : Run) : Prop := r.after.isSome = r.stopping.isSome

theorem end_of_none {r : Run} (h : r.after = none) (code : Int) (now : Nat) :
    (r.«end» code now).after = some (.ended code) ∧
      (r.«end» code now).stopping.isSome = true := by
  cases hs : r.stopping <;> simp [«end», h, hs]

theorem end_of_some {r : Run} (h : r.after.isSome = true) (code : Int) (now : Nat) :
    r.«end» code now = r := by
  simp [«end», h]

theorem done_of_none (cfg : Config) {r : Run} (h : r.after = none) (now : Nat) :
    (r.done cfg now).after = some (.ended EXIT_EMERGENCY) ∧
      (r.done cfg now).stopping.isSome = true := by
  cases hs : r.stopping <;> simp [done, beginStop, h, hs]

theorem done_of_some (cfg : Config) {r : Run} (h : r.after.isSome = true) (now : Nat) :
    r.done cfg now = r := by
  simp [done, h]

@[simp] theorem noConversation_end (r : Run) (code : Int) (now : Nat) :
    (r.«end» code now).noConversation = r.noConversation := by
  unfold «end»
  split <;> rfl

@[simp] theorem noConversation_done (cfg : Config) (r : Run) (now : Nat) :
    (r.done cfg now).noConversation = r.noConversation := by
  unfold done
  split <;> rfl

/-- A line that ends the run: what the run comes to is settled, and only the end of an emergency's
turn after its compaction touches the records. -/
theorem hear_of_endsWith {cfg : Config} {r : Run} {event : Stream.Event} {code : Int}
    (hafter : r.after = none) (h : r.endsWith cfg event = some code) (now : Nat) :
    (r.hear cfg event now).1.after = some (.ended code) ∧
      (r.hear cfg event now).1.stopping.isSome = true ∧
      (r.hear cfg event now).2 = if r.clears cfg event then Effect.clearRotation else [] := by
  cases event with
  | contextUsage requestId maxTokens =>
    simp only [endsWith] at h
    split at h
    next hrefused =>
      obtain ⟨hid, hwindow, hintro, hnot⟩ := hrefused
      obtain rfl : EXIT_MODEL = code := Option.some.inj h
      obtain ⟨hend, hstop⟩ := end_of_none (r := { r with intro := none }) hafter EXIT_MODEL now
      have hhear : r.hear cfg (.contextUsage requestId maxTokens) now =
          ({ r with intro := none }.«end» EXIT_MODEL now, []) := by
        -- the answer is to our request, and says less than what is wanted
        obtain ⟨want, hwant⟩ := Option.isSome_iff_exists.mp hwindow
        obtain ⟨⟨line, deadline⟩, hline⟩ := Option.isSome_iff_exists.mp hintro
        have hbelow : (maxTokens.any fun n ↦ decide (want ≤ n)) = false := by
          simpa [accepts, hid, hwant] using hnot
        simp [hear, window, hid, hwant, hline, hbelow]
      rw [hhear]
      exact ⟨hend, hstop, rfl⟩
    next => cases h
  | modelFallback trigger =>
    simp only [endsWith] at h
    split at h
    next hfatal =>
      obtain rfl : EXIT_MODEL = code := Option.some.inj h
      obtain ⟨hend, hstop⟩ := end_of_none hafter EXIT_MODEL now
      have hhear : r.hear cfg (.modelFallback trigger) now = (r.«end» EXIT_MODEL now, []) := by
        simp only [hear, fallback, if_pos hfatal]
      rw [hhear]
      exact ⟨hend, hstop, rfl⟩
    next => cases h
  | result isError person =>
    simp only [endsWith] at h
    simp only [hear]
    split at h
    next => cases h
    next hwaits =>
      rw [if_neg hwaits]
      split at h
      next hone =>
        obtain rfl : EXIT_EMERGENCY = code := Option.some.inj h
        obtain ⟨hend, hstop⟩ := done_of_none cfg hafter now
        rw [if_pos hone]
        exact ⟨hend, hstop, by simp [clears, isResult, hone]⟩
      next hmany =>
        rw [if_neg hmany]
        split at h
        next hready =>
          obtain rfl : 1 = code := Option.some.inj h
          obtain ⟨hend, hstop⟩ := end_of_none hafter 1 now
          rw [if_pos hready]
          exact ⟨hend, hstop, by simp [clears, hmany]⟩
        next => cases h
  | _ => cases h

theorem start_eq (cfg : Config) (r : Run) (line : HostLine) (now : Nat) :
    ∃ deadline, (r.start cfg line now).1 = { r with deadline := deadline } := by
  unfold start
  split
  · exact ⟨some (now + cfg.limits.compact), rfl⟩
  · exact ⟨r.deadline, rfl⟩

theorem offRecord_start (cfg : Config) (r : Run) (line : HostLine) (now : Nat) :
    ∀ e ∈ (r.start cfg line now).2, e.offRecord = true := by
  unfold start
  split
  · intro e he
    rcases List.mem_cons.mp he with rfl | he
    · rfl
    · exact r.offRecord_write rfl e he
  · exact r.offRecord_write rfl

/-- A line that does not end the run leaves its course as it is; it may answer the window check, and
set the flags of the first answer and of the emergency's turn. -/
structure GoesOn (cfg : Config) (r : Run) (event : Stream.Event) (x : Answer) : Prop where
  after : x.1.after = r.after
  stopping : x.1.stopping = r.stopping
  tracker : x.1.tracker = r.tracker
  checked : x.1.intro.isNone = r.checked cfg event
  clears : r.clears cfg event = false
  offRecord : ∀ e ∈ x.2, e.offRecord = true

theorem goesOn_self {cfg : Config} {r : Run} {event : Stream.Event}
    (haccepts : accepts cfg event = true → r.intro = none) (hclears : r.clears cfg event = false) :
    GoesOn cfg r event (r, []) where
  after := rfl
  stopping := rfl
  tracker := rfl
  checked := by
    cases hintro : r.intro with
    | none => simp [Run.checked, hintro]
    | some line =>
      cases hacc : accepts cfg event with
      | true =>
        rw [haccepts hacc] at hintro
        cases hintro
      | false => simp [Run.checked, hintro, hacc]
  clears := hclears
  offRecord := by simp

theorem goesOn_hear {cfg : Config} {r : Run} {event : Stream.Event}
    (hafter : r.after = none) (h : r.endsWith cfg event = none) (now : Nat) :
    GoesOn cfg r event (r.hear cfg event now) := by
  cases event with
  | contextUsage requestId maxTokens =>
    by_cases hid : requestId = WINDOW_REQUEST
    · cases hwant : cfg.window with
      | none =>
        have hhear : r.hear cfg (.contextUsage requestId maxTokens) now = (r, []) := by
          simp [hear, window, hid, hwant]
        rw [hhear]
        exact goesOn_self (by simp [accepts, hwant]) rfl
      | some want =>
        cases hintro : r.intro with
        | none =>
          have hhear : r.hear cfg (.contextUsage requestId maxTokens) now = (r, []) := by
            simp [hear, window, hid, hwant, hintro]
          rw [hhear]
          exact goesOn_self (fun _ ↦ hintro) rfl
        | some waiting =>
          -- it does not end the run, so it accepts the window
          have hacc : accepts cfg (.contextUsage requestId maxTokens) = true := by
            simpa [endsWith, hid, hwant, hintro] using h
          have henough : (maxTokens.any fun n ↦ decide (want ≤ n)) = true := by
            simpa [accepts, hid, hwant] using hacc
          have hhear : r.hear cfg (.contextUsage requestId maxTokens) now =
              { r with intro := none }.start cfg waiting.1 now := by
            simp [hear, window, hid, hwant, hintro, henough]
          obtain ⟨deadline, hstart⟩ := start_eq cfg { r with intro := none } waiting.1 now
          rw [hhear]
          refine ⟨?_, ?_, ?_, ?_, rfl, offRecord_start _ _ _ _⟩
          · rw [hstart]
          · rw [hstart]
          · rw [hstart]
          · simp [hstart, checked, hacc]
    · have hhear : r.hear cfg (.contextUsage requestId maxTokens) now = (r, []) := by
        simp [hear, hid]
      rw [hhear]
      exact goesOn_self (by simp [accepts, hid]) rfl
  | modelFallback trigger =>
    have houtage : ¬FALLBACK_FATAL.contains trigger = true := by
      intro hfatal
      simp only [endsWith, if_pos hfatal] at h
      cases h
    have hhear : r.hear cfg (.modelFallback trigger) now = (r, []) := by
      simp only [hear, fallback, if_neg houtage]
    rw [hhear]
    exact goesOn_self nofun rfl
  | result isError person =>
    simp only [endsWith] at h
    simp only [hear]
    split at h
    next hwaits =>
      rw [if_pos hwaits]
      refine goesOn_self nofun ?_
      simp only [Bool.and_eq_true, Bool.not_eq_true'] at hwaits
      simp [clears, hwaits.1.2]
    next hwaits =>
      split at h
      next => cases h
      next hmany =>
        split at h
        next => cases h
        next hready =>
          rw [if_neg hwaits, if_neg hmany, if_neg hready]
          exact goesOn_self nofun (by simp [clears, hmany])
  | assistant subagent contextTokens synthetic =>
    simp only [hear]
    split
    next =>
      have hopen : r.openChannel = ({ r with ready := true }, [.writeChannelReady r.id]) := by
        simp [openChannel, hafter]
      rw [hopen]
      exact ⟨rfl, rfl, rfl, by simp [checked, accepts], rfl, by simp [Effect.offRecord]⟩
    next => exact goesOn_self nofun rfl
  | compacted auto =>
    simp only [hear]
    split
    next => exact ⟨rfl, rfl, rfl, by simp [checked, accepts], rfl, by simp⟩
    next => exact goesOn_self nofun rfl
  | compactionFailed =>
    simp only [hear]
    split
    next => exact ⟨rfl, rfl, rfl, by simp [checked, accepts], rfl, by simp⟩
    next => exact goesOn_self nofun rfl
  | _ => exact goesOn_self nofun rfl

/-- A run that is ending stays as it is; only the end of an emergency's turn after its compaction
still touches the records. -/
structure StaysEnding (cfg : Config) (r : Run) (event : Stream.Event) (x : Answer) : Prop where
  after : x.1.after = r.after
  stopping : x.1.stopping = r.stopping
  effects : if r.clears cfg event then x.2 = Effect.clearRotation else ∀ e ∈ x.2, e.offRecord = true

theorem staysEnding_self {cfg : Config} {r : Run} {event : Stream.Event}
    (hclears : r.clears cfg event = false) : StaysEnding cfg r event (r, []) :=
  ⟨rfl, rfl, by simp [hclears]⟩

theorem staysEnding_hear {cfg : Config} {r : Run} (hafter : r.after.isSome = true)
    (event : Stream.Event) (now : Nat) : StaysEnding cfg r event (r.hear cfg event now) := by
  cases event with
  | contextUsage requestId maxTokens =>
    simp only [hear, window]
    split
    next =>
      split
      next want line deadline _ _ =>
        split
        next =>
          obtain ⟨deadline, hstart⟩ := start_eq cfg { r with intro := none } line now
          refine ⟨?_, ?_, offRecord_start _ _ _ _⟩
          · rw [hstart]
          · rw [hstart]
        next =>
          rw [end_of_some (r := { r with intro := none }) hafter]
          exact ⟨rfl, rfl, List.forall_mem_nil _⟩
      next => exact staysEnding_self rfl
    next => exact staysEnding_self rfl
  | modelFallback trigger =>
    have hhear : r.hear cfg (.modelFallback trigger) now = (r, []) := by
      simp only [hear, fallback, end_of_some hafter, ite_self]
    rw [hhear]
    exact staysEnding_self rfl
  | result isError person =>
    simp only [hear, end_of_some hafter, done_of_some cfg hafter, ite_self]
    split
    next hwaits =>
      have hno : r.compacted = false := by
        simp only [Bool.and_eq_true, Bool.not_eq_true'] at hwaits
        exact hwaits.1.2
      exact staysEnding_self (by simp [clears, hno])
    next =>
      split
      next hone =>
        refine ⟨rfl, rfl, ?_⟩
        cases hcompacted : r.compacted <;> simp [clears, isResult, hone, hcompacted]
      next hmany => exact staysEnding_self (by simp [clears, hmany])
  | assistant subagent contextTokens synthetic =>
    have hhear : r.hear cfg (.assistant subagent contextTokens synthetic) now = (r, []) := by
      simp only [hear, openChannel, hafter, if_true, ite_self]
    rw [hhear]
    exact staysEnding_self rfl
  | compacted auto =>
    simp only [hear]
    split
    next => exact ⟨rfl, rfl, List.forall_mem_nil _⟩
    next => exact staysEnding_self rfl
  | compactionFailed =>
    simp only [hear]
    split
    next => exact ⟨rfl, rfl, List.forall_mem_nil _⟩
    next => exact staysEnding_self rfl
  | _ => exact staysEnding_self rfl

/-- What an output line comes to by itself. -/
inductive Heard (cfg : Config) (r : Run) (now : Nat) : Stream.Event → Answer → Prop
  | nothing (event : Stream.Event) : Heard cfg r now event (r, [])
  /-- The window check lets the first line go. -/
  | starts (requestId : String) (maxTokens : Option Nat) (line : HostLine) (deadline : Nat)
      (hintro : r.intro = some (line, deadline)) :
      Heard cfg r now (.contextUsage requestId maxTokens)
        ({ r with intro := none }.start cfg line now)
  | refuses (requestId : String) (maxTokens : Option Nat) (hintro : r.intro.isSome = true) :
      Heard cfg r now (.contextUsage requestId maxTokens)
        ({ r with intro := none }.«end» EXIT_MODEL now, [])
  | outage (trigger : String) :
      Heard cfg r now (.modelFallback trigger) (r.«end» EXIT_MODEL now, [])
  | compacted (hone : cfg.oneShot = true) :
      Heard cfg r now (.compacted false) ({ r with compacted := true }, [])
  | compactionFailed (hone : cfg.oneShot = true) :
      Heard cfg r now .compactionFailed ({ r with compactFailed := true }, [])
  | done (isError person : Bool) (hone : cfg.oneShot = true) :
      Heard cfg r now (.result isError person)
        (r.done cfg now, if r.compacted then Effect.clearRotation else [])
  | fails (isError person : Bool) (hone : cfg.oneShot = false) :
      Heard cfg r now (.result isError person) (r.«end» 1 now, [])
  | opens (contextTokens : Option Nat) (hone : cfg.oneShot = false) (hafter : r.after = none) :
      Heard cfg r now (.assistant false contextTokens false)
        ({ r with ready := true }, [.writeChannelReady r.id])

theorem heard (cfg : Config) (r : Run) (event : Stream.Event) (now : Nat) :
    Heard cfg r now event (r.hear cfg event now) := by
  cases event with
  | contextUsage requestId maxTokens =>
    simp only [hear, window]
    split
    · split
      next want line deadline _ hintro =>
        split
        · exact .starts requestId maxTokens line deadline hintro
        · exact .refuses requestId maxTokens (by simp [hintro])
      next => exact .nothing _
    · exact .nothing _
  | modelFallback trigger =>
    simp only [hear, fallback]
    split
    · exact .outage trigger
    · exact .nothing _
  | result isError person =>
    simp only [hear]
    split
    · exact .nothing _
    split
    next hone => exact .done isError person hone
    next hmany =>
      split
      · exact .fails isError person (Bool.eq_false_iff.mpr hmany)
      · exact .nothing _
  | assistant subagent contextTokens synthetic =>
    simp only [hear, openChannel]
    split
    next hopens =>
      simp only [Bool.and_eq_true, Bool.not_eq_true'] at hopens
      obtain ⟨⟨⟨hone, rfl⟩, rfl⟩, -⟩ := hopens
      split
      · exact .nothing _
      next hafter => exact .opens contextTokens hone (Option.not_isSome_iff_eq_none.mp hafter)
    next => exact .nothing _
  | compacted auto =>
    simp only [hear]
    split
    next hmanual =>
      simp only [Bool.and_eq_true, Bool.not_eq_true'] at hmanual
      obtain ⟨rfl, hone⟩ := hmanual
      exact .compacted hone
    next => exact .nothing _
  | compactionFailed =>
    simp only [hear]
    split
    next hone => exact .compactionFailed hone
    next => exact .nothing _
  | _ => exact .nothing _

theorem noConversation_hear (cfg : Config) (r : Run) (event : Stream.Event) (now : Nat) :
    (r.hear cfg event now).1.noConversation = r.noConversation := by
  have hheard := heard cfg r event now
  generalize r.hear cfg event now = x at hheard
  cases hheard with
  | starts requestId maxTokens line deadline hintro =>
    obtain ⟨deadline, hstart⟩ := start_eq cfg { r with intro := none } line now
    rw [hstart]
  | refuses => exact noConversation_end _ _ _
  | outage => exact noConversation_end _ _ _
  | done => exact noConversation_done _ _ _
  | fails => exact noConversation_end _ _ _
  | _ => rfl

theorem drive_of_held {cfg : Config} {r : Run} {event : Stream.Event} {written : Bool} {now : Nat}
    (h : (r.stopping.isNone && r.intro.isNone) = false) :
    r.drive cfg event written now = (r, []) := by
  simp [drive, h]

/-- The tracker hears of the line; what it found of the handoff note does not decide whether the
attempt ends. -/
theorem drive_of_free (cfg : Config) {r : Run} (event : Stream.Event) (written : Bool) (now : Nat)
    (h : (r.stopping.isNone && r.intro.isNone) = true) :
    ∃ u actions, r.drive cfg event written now = (r.withTracker u).act cfg now actions ∧
      Tracker.HeardAs (r.tracker.attemptEnds event now) (r.tracker.compactionEnds event) actions ∧
      (isResult event = false → (u, actions) = r.tracker.event event now) := by
  -- before the end of the handoff turn the tracker is told of the note
  by_cases hawaits : (isResult event && r.tracker.awaitingHandoff) = true
  · let t := r.tracker.setNoteWritten (r.watch && written)
    refine ⟨(t.event event now).1, (t.event event now).2, ?_, ?_, ?_⟩
    · simp [drive, h, hawaits, take, t]
    · have hheard := t.heardAs_event event now
      cases event with
      | result isError person => exact hheard
      | _ => cases hawaits
    · intro hno
      simp [hno] at hawaits
  · refine ⟨(r.tracker.event event now).1, (r.tracker.event event now).2, ?_, ?_, fun _ ↦ rfl⟩
    · simp [drive, h, hawaits, take]
    · exact r.tracker.heardAs_event event now

@[simp] theorem act_noConversation (cfg : Config) (r : Run) (now : Nat) (actions : List Action) :
    (r.act cfg now actions).1.noConversation = r.noConversation := by
  induction actions generalizing r with
  | nil => rfl
  | cons a as ih =>
    show ((r.perform cfg now a).1.act cfg now as).1.noConversation = _
    rw [ih]
    cases a <;> rfl

theorem again_after (r : Run) (cfg : Config) (notBefore : Option Nat) (now : Nat) :
    (r.again cfg notBefore now).after = some (.again notBefore) ∧
      (r.again cfg notBefore now).stopping.isSome = true := by
  cases hs : r.stopping <;> simp [again, beginStop, hs]

end Run

/-! ## What a line comes to -/

/-- What reading an output line does to the records and to what comes after the run. -/
inductive Reads (cfg : Config) (p : Paths) (r : Run) (event : Stream.Event) (now : Nat) :
    Paths → Option Outcome → Prop
  | ending (h : r.after.isSome = true) (ready : Option String) :
      Reads cfg p r event now
        { (if r.clears cfg event then p.clearRotation else p) with channelReady := ready } r.after
  | ends (code : Int) (h : r.after = none) (hends : r.endsWith cfg event = some code) :
      Reads cfg p r event now (if r.clears cfg event then p.clearRotation else p)
        (some (.ended code))
  | rotates (a : Action) (notBefore : Option Nat) (ready : Option String) (h : r.after = none)
      (hends : r.endsWith cfg event = none) (hchecked : r.checked cfg event = true)
      (hattempt : r.tracker.attemptEnds event now = true) (ha : a.endsRun = true)
      (hmem : Run.isResult event = false → a ∈ (r.tracker.event event now).2) :
      Reads cfg p r event now (recordAction { p with channelReady := ready } a)
        (some (.again notBefore))
  | compacts (ready : Option String) (h : r.after = none) (hends : r.endsWith cfg event = none)
      (hchecked : r.checked cfg event = true)
      (hattempt : r.tracker.attemptEnds event now = false)
      (hcompaction : r.tracker.compactionEnds event = true) :
      Reads cfg p r event now { p.clearRotation with channelReady := ready } none
  | goesOn (ready : Option String) (h : r.after = none) (hends : r.endsWith cfg event = none)
      (hquiet : r.checked cfg event = true → r.tracker.attemptEnds event now = false ∧
        r.tracker.compactionEnds event = false) :
      Reads cfg p r event now { p with channelReady := ready } none

theorem out_of_held {cfg : Config} {r : Run} {event : Stream.Event} {written : Bool} {now : Nat}
    (h : ((r.hear cfg event now).1.stopping.isNone && (r.hear cfg event now).1.intro.isNone) =
      false) :
    r.out cfg event written now = r.hear cfg event now := by
  simp [Run.out, Answer.andThen, Run.drive_of_held h]

theorem reads_out {cfg : Config} {r : Run} (hr : r.Coherent) (p : Paths) (event : Stream.Event)
    (written : Bool) (now : Nat) :
    Reads cfg p r event now (Effect.applyAll p (r.out cfg event written now).2)
        (r.out cfg event written now).1.after ∧
      (r.out cfg event written now).1.Coherent := by
  cases hafter : r.after with
  -- the run is ending, and its tracker hears nothing more
  | some outcome =>
    have hsome : r.after.isSome = true := by simp [hafter]
    have hstays : Run.StaysEnding cfg r event _ := Run.staysEnding_hear hsome event now
    have hstop : (r.hear cfg event now).1.stopping.isSome = true := by
      rw [hstays.stopping, ← hr, hsome]
    have hheld : ((r.hear cfg event now).1.stopping.isNone &&
        (r.hear cfg event now).1.intro.isNone) = false := by
      simp [Option.isNone_eq_false_iff.mpr hstop]
    rw [out_of_held hheld]
    refine ⟨?_, by rw [Run.Coherent, hstays.after, hstays.stopping, hr]⟩
    rw [hstays.after]
    have heffects := hstays.effects
    split at heffects
    next hclears =>
      have hread : Reads cfg p r event now _ _ := .ending hsome p.channelReady
      rw [if_pos hclears] at hread
      rw [heffects]
      exact hread
    next hclears =>
      obtain ⟨ready, happly⟩ := Effect.applyAll_offRecord p heffects
      have hread : Reads cfg p r event now _ _ := .ending hsome ready
      rw [if_neg hclears] at hread
      rw [happly]
      exact hread
  | none =>
    cases hends : r.endsWith cfg event with
    | some code =>
      obtain ⟨hcode, hstop, heffects⟩ := Run.hear_of_endsWith hafter hends now
      have hheld : ((r.hear cfg event now).1.stopping.isNone &&
          (r.hear cfg event now).1.intro.isNone) = false := by
        simp [Option.isNone_eq_false_iff.mpr hstop]
      rw [out_of_held hheld, hcode, heffects]
      refine ⟨?_, by rw [Run.Coherent, hcode, hstop]; rfl⟩
      have hread : Reads cfg p r event now _ _ := .ends code hafter hends
      cases hclears : r.clears cfg event with
      | true => simpa [hclears, Effect.applyAll_clearRotation] using hread
      | false => simpa [hclears, Effect.applyAll] using hread
    | none =>
      have hgoes := Run.goesOn_hear hafter hends now
      have hnone : (r.hear cfg event now).1.after = none := hgoes.after.trans hafter
      have hstop : (r.hear cfg event now).1.stopping = none := by
        rw [hgoes.stopping, ← Option.not_isSome_iff_eq_none, ← hr, hafter]
        exact Bool.false_ne_true
      have hcoherent : (r.hear cfg event now).1.Coherent := by
        rw [Run.Coherent, hnone, hstop]
        rfl
      obtain ⟨ready, happly⟩ := Effect.applyAll_offRecord p hgoes.offRecord
      cases hchecked : r.checked cfg event with
      -- the window check is outstanding, so the tracker does not hear the line
      | false =>
        have hheld : ((r.hear cfg event now).1.stopping.isNone &&
            (r.hear cfg event now).1.intro.isNone) = false := by
          rw [hgoes.checked, hchecked, Bool.and_false]
        rw [out_of_held hheld, hnone, happly]
        refine ⟨.goesOn ready hafter hends ?_, hcoherent⟩
        intro htrue
        exact absurd (hchecked.symm.trans htrue) Bool.false_ne_true
      | true =>
        have hfree : ((r.hear cfg event now).1.stopping.isNone &&
            (r.hear cfg event now).1.intro.isNone) = true := by
          rw [hgoes.checked, hchecked, hstop]
          rfl
        obtain ⟨u, actions, hdrive, hheard, hplain⟩ :=
          Run.drive_of_free cfg event written now hfree
        rw [hgoes.tracker] at hheard hplain
        have hrun : (r.out cfg event written now).1 =
            (((r.hear cfg event now).1.withTracker u).act cfg now actions).1 := by
          show ((r.hear cfg event now).1.drive cfg event written now).1 = _
          rw [hdrive]
        have hdisk : Effect.applyAll p (r.out cfg event written now).2 =
            actions.foldl recordAction { p with channelReady := ready } := by
          show Effect.applyAll p ((r.hear cfg event now).2 ++
            ((r.hear cfg event now).1.drive cfg event written now).2) = _
          rw [Effect.applyAll_append, happly, hdrive, Run.applyAll_act]
        rw [hrun, hdisk]
        -- what is left to say is what the tracker answers
        generalize hattempt : r.tracker.attemptEnds event now = attempt at hheard
        generalize hcompaction : r.tracker.compactionEnds event = compaction at hheard
        cases hheard with
        | ends a ha =>
          obtain ⟨notBefore, hact⟩ :=
            ((r.hear cfg event now).1.withTracker u).act_endsRun cfg now ha
          obtain ⟨hagain, hstopping⟩ :=
            ((r.hear cfg event now).1.withTracker u).again_after cfg notBefore now
          rw [hact, hagain]
          refine ⟨.rotates a notBefore ready hafter hends hchecked hattempt ha ?_, ?_⟩
          · intro hno
            simp [← hplain hno]
          · rw [Run.Coherent, hagain, hstopping]
            rfl
        | compacts =>
          have hsame : (((r.hear cfg event now).1.withTracker u).act cfg now [.compacted]).1 =
              (r.hear cfg event now).1.withTracker u := rfl
          rw [hsame]
          refine ⟨?_, hcoherent⟩
          show Reads cfg p r event now _ (r.hear cfg event now).1.after
          rw [hnone]
          exact .compacts ready hafter hends hchecked hattempt hcompaction
        | silent _ hsilent =>
          obtain ⟨watch, hact⟩ :=
            ((r.hear cfg event now).1.withTracker u).act_silent cfg now hsilent
          rw [hact, Run.foldl_recordAction_silent _ hsilent]
          refine ⟨?_, hcoherent⟩
          show Reads cfg p r event now _ (r.hear cfg event now).1.after
          rw [hnone]
          exact .goesOn ready hafter hends fun _ ↦ ⟨hattempt, hcompaction⟩

/-! ## The loop -/

namespace Run

theorem coherent_of_isSome {r : Run} (h : r.after.isSome = true) (hs : r.stopping.isSome = true) :
    r.Coherent :=
  h.trans hs.symm

theorem coherent_end {r : Run} (hr : r.Coherent) (code : Int) (now : Nat) :
    (r.«end» code now).Coherent := by
  cases hafter : r.after with
  | none =>
    obtain ⟨hend, hstop⟩ := end_of_none hafter code now
    exact coherent_of_isSome (by simp [hend]) hstop
  | some outcome => rwa [end_of_some (by simp [hafter])]

theorem coherent_act {r : Run} (hr : r.Coherent) (cfg : Config) (now : Nat)
    (actions : List Action) : (r.act cfg now actions).1.Coherent := by
  induction actions generalizing r with
  | nil => exact hr
  | cons a as ih =>
    have hagain : ∀ notBefore, (r.again cfg notBefore now).Coherent := fun notBefore ↦ by
      obtain ⟨hafter, hstop⟩ := r.again_after cfg notBefore now
      exact coherent_of_isSome (by simp [hafter]) hstop
    apply ih
    cases a with
    | retry step attempts handoff => exact hagain _
    | postpone step attempts handoff => exact hagain _
    | giveUp step cut handoff => exact hagain _
    | _ => exact hr

theorem coherent_take {r : Run} (hr : r.Coherent) (cfg : Config)
    (answer : Tracker × List Action) (now : Nat) : (r.take cfg answer now).1.Coherent :=
  coherent_act (r := r.withTracker answer.1) hr cfg now answer.2

theorem coherent_lookForMarker {r : Run} (hr : r.Coherent) (cfg : Config) (p : Paths) (now : Nat) :
    (r.lookForMarker cfg p now).1.Coherent := by
  unfold lookForMarker
  split
  · split
    · exact coherent_take hr cfg _ now
    split
    · exact hr
    · exact hr
  · exact hr

theorem coherent_tick {r : Run} (hr : r.Coherent) (cfg : Config) (p : Paths) (now : Nat) :
    (r.tick cfg p now).1.Coherent := by
  unfold tick
  split
  · split
    · exact hr
    · exact hr
  split
  · split
    · exact coherent_end hr _ _
    · exact hr
  split
  · split
    · exact coherent_end hr _ _
    · exact hr
  · have hlook := coherent_lookForMarker (r := { r with ticks := r.ticks + 1 }) hr cfg p now
    exact coherent_take hlook cfg _ now

theorem coherent_shutdown {r : Run} (hr : r.Coherent) (cfg : Config) (now : Nat) :
    (r.shutdown cfg now).Coherent := by
  unfold shutdown
  split
  · exact hr
  · exact hr
  · simp [Coherent, beginStop]

theorem coherent_handle {r : Run} (hr : r.Coherent) (cfg : Config) (p : Paths) (input : Input)
    (now : Nat) : (r.handle cfg p input now).1.Coherent := by
  have hreact : (r.react cfg p input now).1.Coherent := by
    cases input with
    | out event written => exact (reads_out hr p event written now).2
    | err line =>
      show (r.err line).Coherent
      unfold err
      split
      · exact hr
      · exact hr
    | tick => exact coherent_tick hr cfg p now
    | shutdown => exact coherent_shutdown hr cfg now
  obtain ⟨killed, hreap⟩ := (r.react cfg p input now).1.reap_eq
  show (r.react cfg p input now).1.reap.1.Coherent
  rw [hreap]
  exact hreact

end Run

theorem applyAll_reap (p : Paths) (r : Run) : Effect.applyAll p r.reap.2 = p := by
  unfold Run.reap
  split
  · rfl
  · rfl

/-- One turn of the loop is its arm; the kill of an ended run is all that may follow. -/
theorem handle_eq (cfg : Config) (p : Paths) (r : Run) (input : Input) (now : Nat) :
    Effect.applyAll p (r.handle cfg p input now).2 =
        Effect.applyAll p (r.react cfg p input now).2 ∧
      ∃ killed, (r.handle cfg p input now).1 =
        { (r.react cfg p input now).1 with killed := killed } := by
  constructor
  · show Effect.applyAll p ((r.react cfg p input now).2 ++ (r.react cfg p input now).1.reap.2) = _
    rw [Effect.applyAll_append, applyAll_reap]
  · exact (r.react cfg p input now).1.reap_eq

/-- What happens to a run and its files while claude is there: the loop handles an input, or the
marker comes (from the hook) or goes (by hand). -/
inductive Happening
  | input (input : Input) (now : Nat)
  | mark
  | unmark
  deriving DecidableEq, Repr

def Happening.step (cfg : Config) (s : Paths × Run) : Happening → Paths × Run
  | .input i now => (Effect.applyAll s.1 (s.2.handle cfg s.1 i now).2, (s.2.handle cfg s.1 i now).1)
  | .mark => (s.1.writeMarker, s.2)
  | .unmark => ({ s.1 with marker := false }, s.2)

theorem step_input (cfg : Config) (s : Paths × Run) (i : Input) (now : Nat) :
    ∃ killed, (Happening.input i now).step cfg s =
      (Effect.applyAll s.1 (s.2.react cfg s.1 i now).2,
        { (s.2.react cfg s.1 i now).1 with killed := killed }) := by
  obtain ⟨hpaths, killed, hrun⟩ := handle_eq cfg s.1 s.2 i now
  exact ⟨killed, Prod.ext hpaths hrun⟩

/-- The loop of a run. -/
def runLoop (cfg : Config) (s : Paths × Run) (hs : List Happening) : Paths × Run :=
  hs.foldl (Happening.step cfg) s

/-- A run at the top of its loop. -/
def begun (cfg : Config) (p : Paths) (start : Start) (es : List Effect) (notBefore : Option Nat)
    (now : Nat) : Paths × Run :=
  let p := Effect.applyAll p es
  (Effect.applyAll p (launch cfg p start notBefore now).2, (launch cfg p start notBefore now).1)

theorem coherent_runLoop {cfg : Config} {s : Paths × Run} (hs : s.2.Coherent)
    (happenings : List Happening) : (runLoop cfg s happenings).2.Coherent := by
  induction happenings generalizing s with
  | nil => exact hs
  | cons h rest ih =>
    apply ih
    cases h with
    | input i now => exact Run.coherent_handle hs cfg s.1 i now
    | mark => exact hs
    | unmark => exact hs

/-- A run at the top of its loop: nothing has happened yet. -/
theorem launch_begins (cfg : Config) (p : Paths) (start : Start) (notBefore : Option Nat)
    (now : Nat) :
    (launch cfg p start notBefore now).1.after = none ∧
      (launch cfg p start notBefore now).1.stopping = none ∧
      (launch cfg p start notBefore now).1.ready = false ∧
      (launch cfg p start notBefore now).1.tracker = startTracker cfg p start notBefore now := by
  simp only [launch, Answer.andThen]
  split
  · exact ⟨rfl, rfl, rfl, rfl⟩
  · unfold Run.start
    split
    · exact ⟨rfl, rfl, rfl, rfl⟩
    · exact ⟨rfl, rfl, rfl, rfl⟩

theorem coherent_begun (cfg : Config) (p : Paths) (start : Start) (es : List Effect)
    (notBefore : Option Nat) (now : Nat) : (begun cfg p start es notBefore now).2.Coherent := by
  obtain ⟨hafter, hstop, -⟩ := launch_begins cfg (Effect.applyAll p es) start notBefore now
  show Option.isSome _ = Option.isSome _
  rw [begun, hafter, hstop]
  rfl

end Supervisor

end Silta
