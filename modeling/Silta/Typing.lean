import Mathlib.Logic.Function.Basic
import Silta.Lib.Lts
import Silta.Protocol

/-!
# The typing indicator

The tasks that keep the indicator of a room alive, one for each room, from an acknowledgement to the
first visible action, and the report of a silent session at the cap.
-/

namespace Silta

namespace Typing

open Lts

/-- A delivered message that saw no visible action within the typing cap. -/
structure Silence where
  session : String
  roomId : String
  deliveredMs : Nat
  deriving DecidableEq, Repr

/-- How long the typing indicator is kept alive for one delivery at most, in milliseconds. -/
def TYPING_MAX : Nat := 600 * 1000

structure TypingTask where
  session : String
  generation : Nat
  deriving DecidableEq, Repr

/-- Where a spawned task stands. -/
inductive Phase
  | spawned
  /-- In the loop, since its start. -/
  | polling (startedMs : Nat)
  /-- Out of the loop, with its entry still to remove. -/
  | leaving
  deriving DecidableEq, Repr

structure Spawned where
  roomId : String
  session : String
  phase : Phase
  deriving DecidableEq, Repr

/-- Whoever takes a task out of the map cancels it, so the token of a task is cancelled just when
its room has another task or none. -/
structure State where
  nowMs : Nat
  typing : String → Option TypingTask
  /-- Counts the tasks. -/
  generation : Nat
  /-- The flag of each task, shared by its entry and the task itself. -/
  watch : Nat → Bool
  spawned : Nat → Option Spawned
  silence : List Silence

namespace State

def init (nowMs : Nat) : State where
  nowMs := nowMs
  typing _ := none
  generation := 0
  watch _ := false
  spawned _ := none
  silence := []

/-- Keep sending the typing notice in a room until the reply goes out or the cap. -/
def typingStart (s : State) (session roomId : String) (watch : Bool) : State :=
  match s.typing roomId with
  | some task =>
    -- a running task is kept, and its flag is only ever cleared
    if watch then s else { s with watch := Function.update s.watch task.generation false }
  | none =>
    let generation := s.generation + 1
    { s with
      generation := generation
      typing := Function.update s.typing roomId (some ⟨session, generation⟩)
      watch := Function.update s.watch generation watch
      spawned := Function.update s.spawned generation (some ⟨roomId, session, .spawned⟩) }

/-- Stop the typing refresh for a room. -/
def typingStop (s : State) (roomId : String) : State :=
  { s with typing := Function.update s.typing roomId none }

/-- Stop every typing refresh started for a session. -/
def typingStopSession (s : State) (session : String) : State :=
  { s with typing := fun roomId ↦ (s.typing roomId).filter fun task ↦ task.session ≠ session }

/-- The end of `acked`; `found` says whether the client knows the room. -/
def acked (s : State) (session roomId : String) (kind : EventKind) (found : Bool) : State :=
  if found && kind == .message then s.typingStart session roomId true else s

/-- After a successful send: end the indicator, or keep it going. -/
def afterSend (s : State) (session roomId : String) (more : Bool) : State :=
  if more then s.typingStart session roomId false else s.typingStop roomId

def setPhase (s : State) (generation : Nat) (task : Spawned) (phase : Phase) : State :=
  { s with spawned := Function.update s.spawned generation (some { task with phase := phase }) }

/-- A task past its cap. -/
def cap (s : State) (generation : Nat) (task : Spawned) (startedMs : Nat) : State :=
  let s' := s.setPhase generation task .leaving
  if s.watch generation then
    { s' with silence := s.silence ++ [⟨task.session, task.roomId, startedMs⟩] }
  else s'

/-- A task removes its own entry only. -/
def leave (s : State) (generation : Nat) (task : Spawned) : State :=
  { s with
    typing := if (s.typing task.roomId).map TypingTask.generation = some generation then
      Function.update s.typing task.roomId none else s.typing
    spawned := Function.update s.spawned generation none }

@[simp] theorem typingStop_typing (s : State) (roomId : String) :
    (s.typingStop roomId).typing = Function.update s.typing roomId none := rfl

@[simp] theorem setPhase_spawned (s : State) (generation : Nat) (task : Spawned) (phase : Phase) :
    (s.setPhase generation task phase).spawned =
      Function.update s.spawned generation (some { task with phase := phase }) := rfl

@[simp] theorem leave_spawned (s : State) (generation : Nat) (task : Spawned) :
    (s.leave generation task).spawned = Function.update s.spawned generation none := rfl

end State

inductive Label
  /-- The session has acknowledged an event. -/
  | acked (session roomId : String) (kind : EventKind) (found : Bool)
  /-- A reply, a reaction, an edit or a file of the session was sent. -/
  | sent (session roomId : String) (more : Bool)
  /-- A reply that could not be sent whole. -/
  | failed (session roomId : String)
  /-- A typing request. -/
  | typing (session roomId : String)
  | disconnected (session : String)
  | begin (generation : Nat)
  | cap (generation : Nat)
  /-- A cancelled task sees that it is. -/
  | stop (generation : Nat)
  | leave (generation : Nat)
  | elapse (ms : Nat)
  deriving DecidableEq, Repr

/-- One command, or one step of a task. -/
inductive Step : State → Label → State → Prop
  | acked {s : State} (session roomId : String) (kind : EventKind) (found : Bool) :
      Step s (.acked session roomId kind found) (s.acked session roomId kind found)
  | sent {s : State} (session roomId : String) (more : Bool) :
      Step s (.sent session roomId more) (s.afterSend session roomId more)
  | failed {s : State} (session roomId : String) :
      Step s (.failed session roomId) (s.typingStop roomId)
  | typing {s : State} (session roomId : String) :
      Step s (.typing session roomId) (s.typingStart session roomId false)
  | disconnected {s : State} (session : String) :
      Step s (.disconnected session) (s.typingStopSession session)
  | begin {s : State} {generation : Nat} {task : Spawned} :
      s.spawned generation = some task → task.phase = .spawned →
        Step s (.begin generation) (s.setPhase generation task (.polling s.nowMs))
  | cap {s : State} {generation startedMs : Nat} {task : Spawned} :
      s.spawned generation = some task → task.phase = .polling startedMs →
        TYPING_MAX < s.nowMs - startedMs →
          Step s (.cap generation) (s.cap generation task startedMs)
  | stop {s : State} {generation startedMs : Nat} {task : Spawned} :
      s.spawned generation = some task → task.phase = .polling startedMs →
        (s.typing task.roomId).map TypingTask.generation ≠ some generation →
          Step s (.stop generation) (s.setPhase generation task .leaving)
  | leave {s : State} {generation : Nat} {task : Spawned} :
      s.spawned generation = some task → task.phase = .leaving →
        Step s (.leave generation) (s.leave generation task)
  | elapse {s : State} (ms : Nat) : Step s (.elapse ms) { s with nowMs := s.nowMs + ms }

/-! ## What is said of a run -/

/-- The step shows the session in the room: a send or a typing request. -/
def Label.Shows (session roomId : String) : Label → Prop
  | .sent session' roomId' _ => session' = session ∧ roomId' = roomId
  | .typing session' roomId' => session' = session ∧ roomId' = roomId
  | _ => False

/-- The step clears the flag of a task that runs in the room, whichever session it is of. -/
def Label.Unwatches (roomId : String) : Label → Prop
  | .sent _ roomId' more => roomId' = roomId ∧ more = true
  | .typing _ roomId' => roomId' = roomId
  | _ => False

/-- Since the last message acknowledged in the room, the session that acknowledged it has shown
nothing there. -/
def Silent (ls : List Label) (roomId : String) : Prop :=
  ∃ before session found after, ls = before ++ .acked session roomId .message found :: after ∧
    (∀ session' found', .acked session' roomId .message found' ∉ after) ∧
    ∀ l ∈ after, ¬l.Shows session roomId

/-- The task was started by an acknowledgement, in a room without a task, and no part sent with
`more` nor typing request came in the room since. -/
def Watched (nowMs : Nat) (ls : List Label) (s : State) (roomId : String) (generation : Nat) :
    Prop :=
  ∃ before session after s₁ s₂, ls = before ++ .acked session roomId .message true :: after ∧
    Run Step (.init nowMs) before s₁ ∧ s₁.typing roomId = none ∧ s₁.generation + 1 = generation ∧
    Step s₁ (.acked session roomId .message true) s₂ ∧ Run Step s₂ after s ∧
    ∀ l ∈ after, ¬l.Unwatches roomId

/-! ## The tasks and their entries -/

/-- Each entry is of a task that was spawned, of its own room. -/
structure State.Ok (s : State) : Prop where
  entry : ∀ roomId task, s.typing roomId = some task → ∃ spawned,
    s.spawned task.generation = some spawned ∧ spawned.roomId = roomId ∧
      spawned.session = task.session
  counted : ∀ generation spawned, s.spawned generation = some spawned →
    generation ≤ s.generation

namespace State.Ok

variable {s : State} (h : s.Ok)
include h

theorem generation_le {roomId : String} {task : TypingTask} (htask : s.typing roomId = some task) :
    task.generation ≤ s.generation := by
  obtain ⟨spawned, hspawned, -⟩ := h.entry roomId task htask
  exact h.counted _ _ hspawned

/-- Two rooms have two tasks. -/
theorem roomId_eq {roomId roomId' : String} {task task' : TypingTask}
    (htask : s.typing roomId = some task) (htask' : s.typing roomId' = some task')
    (hgeneration : task.generation = task'.generation) : roomId = roomId' := by
  obtain ⟨spawned, hspawned, hroom, -⟩ := h.entry roomId task htask
  obtain ⟨spawned', hspawned', hroom', -⟩ := h.entry roomId' task' htask'
  rw [hgeneration, hspawned'] at hspawned
  obtain rfl := Option.some.inj hspawned
  rw [← hroom, hroom']

theorem typingStart (session roomId : String) (watch : Bool) :
    (s.typingStart session roomId watch).Ok := by
  unfold State.typingStart
  split
  · split
    · exact h
    · exact ⟨h.entry, h.counted⟩
  refine ⟨fun roomId' task htask ↦ ?_, fun generation spawned hspawned ↦ ?_⟩
  · dsimp only at htask ⊢
    by_cases hroom : roomId' = roomId
    · subst hroom
      rw [Function.update_self] at htask
      obtain rfl := Option.some.inj htask
      exact ⟨_, Function.update_self .., rfl, rfl⟩
    -- the tasks of other rooms are older than the new one
    · rw [Function.update_of_ne hroom] at htask
      have hle := h.generation_le htask
      rw [Function.update_of_ne (by omega)]
      exact h.entry roomId' task htask
  · dsimp only at hspawned ⊢
    by_cases hnew : generation = s.generation + 1
    · omega
    · rw [Function.update_of_ne hnew] at hspawned
      have hle := h.counted generation spawned hspawned
      omega

theorem typingStop (roomId : String) : (s.typingStop roomId).Ok := by
  refine ⟨fun roomId' task htask ↦ h.entry roomId' task ?_, h.counted⟩
  by_cases hroom : roomId' = roomId
  · subst hroom
    simp at htask
  · rwa [State.typingStop_typing, Function.update_of_ne hroom] at htask

theorem typingStopSession (session : String) : (s.typingStopSession session).Ok :=
  ⟨fun roomId task htask ↦ h.entry roomId task (Option.eq_some_of_filter_eq_some htask), h.counted⟩

theorem setPhase {generation : Nat} {task : Spawned} (htask : s.spawned generation = some task)
    (phase : Phase) : (s.setPhase generation task phase).Ok := by
  refine ⟨fun roomId task' htask' ↦ ?_, fun generation' spawned hspawned ↦ ?_⟩
  · obtain ⟨spawned, hspawned, hroom, hsession⟩ := h.entry roomId task' htask'
    by_cases hgeneration : task'.generation = generation
    · rw [hgeneration, htask] at hspawned
      obtain rfl := Option.some.inj hspawned
      rw [hgeneration]
      exact ⟨_, Function.update_self .., hroom, hsession⟩
    · refine ⟨spawned, ?_, hroom, hsession⟩
      rwa [State.setPhase_spawned, Function.update_of_ne hgeneration]
  · by_cases hgeneration : generation' = generation
    · rw [hgeneration]
      exact h.counted generation task htask
    · rw [State.setPhase_spawned, Function.update_of_ne hgeneration] at hspawned
      exact h.counted generation' spawned hspawned

theorem leave {generation : Nat} {task : Spawned} (htask : s.spawned generation = some task) :
    (s.leave generation task).Ok := by
  refine ⟨fun roomId task' htask' ↦ ?_, fun generation' spawned hspawned ↦ ?_⟩
  · have hold : s.typing roomId = some task' ∧ task'.generation ≠ generation := by
      unfold State.leave at htask'
      dsimp only at htask'
      split at htask'
      · next howner =>
        by_cases hroom : roomId = task.roomId
        · subst hroom
          simp at htask'
        · rw [Function.update_of_ne hroom] at htask'
          refine ⟨htask', fun hgeneration ↦ hroom ?_⟩
          obtain ⟨owner, howns, hown⟩ := Option.map_eq_some_iff.mp howner
          exact h.roomId_eq htask' howns (hgeneration.trans hown.symm)
      -- another task has the room by now
      · next howner =>
        refine ⟨htask', fun hgeneration ↦ howner ?_⟩
        obtain ⟨spawned, hspawned, hroom, -⟩ := h.entry roomId task' htask'
        rw [hgeneration, htask] at hspawned
        obtain rfl := Option.some.inj hspawned
        rw [hroom, htask', Option.map_some, hgeneration]
    obtain ⟨htyping, hne⟩ := hold
    rw [State.leave_spawned, Function.update_of_ne hne]
    exact h.entry roomId task' htyping
  · by_cases hgeneration : generation' = generation
    · subst hgeneration
      simp at hspawned
    · rw [State.leave_spawned, Function.update_of_ne hgeneration] at hspawned
      exact h.counted generation' spawned hspawned

end State.Ok

theorem Step.ok {s t : State} {l : Label} (hs : s.Ok) (h : Step s l t) : t.Ok := by
  cases h with
  | acked session roomId kind found =>
    unfold State.acked
    split
    · exact hs.typingStart session roomId true
    · exact hs
  | sent session roomId more =>
    unfold State.afterSend
    split
    · exact hs.typingStart session roomId false
    · exact hs.typingStop roomId
  | failed session roomId => exact hs.typingStop roomId
  | typing session roomId => exact hs.typingStart session roomId false
  | disconnected session => exact hs.typingStopSession session
  | begin htask _ => exact hs.setPhase htask _
  | cap htask _ _ =>
    have hleaving := hs.setPhase htask .leaving
    unfold State.cap
    split
    · exact ⟨hleaving.entry, hleaving.counted⟩
    · exact hleaving
  | stop htask _ _ => exact hs.setPhase htask .leaving
  | leave htask _ => exact hs.leave htask
  | elapse ms => exact ⟨hs.entry, hs.counted⟩

theorem ok_of_run {nowMs : Nat} {ls : List Label} {s : State}
    (h : Run Step (.init nowMs) ls s) : s.Ok := by
  refine h.invariant (P := fun _ ↦ True) (fun _ _ _ hs _ hstep ↦ hstep.ok hs) ?_ fun _ _ ↦ trivial
  exact ⟨nofun, nofun⟩

/-! ## The flag of a task -/

/-- What a step does to the map of tasks and their flags: it starts a task with the flag, it starts
one without or clears the flag of the one that runs, or it takes tasks away. -/
theorem Step.cases_start {s t : State} {l : Label} (h : Step s l t) :
    (∃ session roomId, l = .acked session roomId .message true ∧
        t = s.typingStart session roomId true) ∨
      (∃ session roomId, (∀ r, l.Unwatches r ↔ roomId = r) ∧
        t = s.typingStart session roomId false) ∨
      ((∀ r, ¬l.Unwatches r) ∧ t.watch = s.watch ∧ t.generation = s.generation ∧
        ∀ r task, t.typing r = some task → s.typing r = some task) := by
  have hstop : ∀ roomId r task, (s.typingStop roomId).typing r = some task →
      s.typing r = some task := by
    intro roomId r task htask
    by_cases hroom : r = roomId
    · subst hroom
      simp at htask
    · rwa [State.typingStop_typing, Function.update_of_ne hroom] at htask
  cases h with
  | acked session roomId kind found =>
    unfold State.acked
    split
    · next hmessage =>
      obtain ⟨rfl, hkind⟩ := Bool.and_eq_true_iff.mp hmessage
      obtain rfl := eq_of_beq hkind
      exact .inl ⟨session, roomId, rfl, rfl⟩
    · exact .inr (.inr ⟨fun _ ↦ id, rfl, rfl, fun _ _ ↦ id⟩)
  | sent session roomId more =>
    unfold State.afterSend
    cases more with
    | true => exact .inr (.inl ⟨session, roomId, fun r ↦ and_iff_left rfl, rfl⟩)
    | false => exact .inr (.inr ⟨fun r hr ↦ Bool.false_ne_true hr.2, rfl, rfl, hstop roomId⟩)
  | failed session roomId => exact .inr (.inr ⟨fun _ ↦ id, rfl, rfl, hstop roomId⟩)
  | typing session roomId => exact .inr (.inl ⟨session, roomId, fun r ↦ Iff.rfl, rfl⟩)
  | disconnected session =>
    exact .inr (.inr ⟨fun _ ↦ id, rfl, rfl, fun _ _ ↦ Option.eq_some_of_filter_eq_some⟩)
  | begin _ _ => exact .inr (.inr ⟨fun _ ↦ id, rfl, rfl, fun _ _ ↦ id⟩)
  | cap _ _ _ =>
    unfold State.cap
    split
    · exact .inr (.inr ⟨fun _ ↦ id, rfl, rfl, fun _ _ ↦ id⟩)
    · exact .inr (.inr ⟨fun _ ↦ id, rfl, rfl, fun _ _ ↦ id⟩)
  | stop _ _ _ => exact .inr (.inr ⟨fun _ ↦ id, rfl, rfl, fun _ _ ↦ id⟩)
  | @leave generation task _ _ =>
    refine .inr (.inr ⟨fun _ ↦ id, rfl, rfl, fun r entry hentry ↦ ?_⟩)
    unfold State.leave at hentry
    dsimp only at hentry
    split at hentry
    · exact hstop task.roomId r entry hentry
    · exact hentry
  | elapse ms => exact .inr (.inr ⟨fun _ ↦ id, rfl, rfl, fun _ _ ↦ id⟩)

/-- A start in a room without a task. -/
theorem State.typingStart_of_none {s : State} {session roomId : String} {watch : Bool}
    (h : s.typing roomId = none) :
    (s.typingStart session roomId watch).generation = s.generation + 1 ∧
      (s.typingStart session roomId watch).typing =
        Function.update s.typing roomId (some ⟨session, s.generation + 1⟩) ∧
      (s.typingStart session roomId watch).watch =
        Function.update s.watch (s.generation + 1) watch := by
  unfold State.typingStart
  rw [h]
  exact ⟨rfl, rfl, rfl⟩

/-- A start in a room with a task. -/
theorem State.typingStart_of_some {s : State} {session roomId : String} {watch : Bool}
    {task : TypingTask} (h : s.typing roomId = some task) :
    (s.typingStart session roomId watch).generation = s.generation ∧
      (s.typingStart session roomId watch).typing = s.typing ∧
      (s.typingStart session roomId watch).watch =
        if watch then s.watch else Function.update s.watch task.generation false := by
  unfold State.typingStart
  rw [h]
  cases watch with
  | true => exact ⟨rfl, rfl, rfl⟩
  | false => exact ⟨rfl, rfl, rfl⟩

section Step

variable {s t : State} {l : Label}

theorem Step.generation_le (h : Step s l t) : s.generation ≤ t.generation := by
  have hstart : ∀ session roomId watch,
      s.generation ≤ (s.typingStart session roomId watch).generation := by
    intro session roomId watch
    cases hroom : s.typing roomId with
    | none => exact (State.typingStart_of_none hroom).1 ▸ Nat.le_succ _
    | some task => exact (State.typingStart_of_some hroom).1.ge
  rcases h.cases_start with ⟨session, roomId, -, rfl⟩ | ⟨session, roomId, -, rfl⟩ | ⟨-, -, hg, -⟩
  · exact hstart session roomId true
  · exact hstart session roomId false
  · exact hg.ge

/-- An entry of a task that was there before was there before. -/
theorem Step.typing_old (h : Step s l t) {roomId : String} {task : TypingTask}
    (htask : t.typing roomId = some task) (hle : task.generation ≤ s.generation) :
    s.typing roomId = some task := by
  have hstart : ∀ session roomId' watch,
      (s.typingStart session roomId' watch).typing roomId = some task →
        s.typing roomId = some task := by
    intro session roomId' watch hentry
    cases hroom : s.typing roomId' with
    | none =>
      rw [(State.typingStart_of_none hroom).2.1] at hentry
      by_cases heq : roomId = roomId'
      · subst heq
        rw [Function.update_self] at hentry
        obtain rfl := Option.some.inj hentry
        -- the new task has a new generation
        exact absurd hle (by simp)
      · rwa [Function.update_of_ne heq] at hentry
    | some _ => rwa [(State.typingStart_of_some hroom).2.1] at hentry
  rcases h.cases_start with ⟨session, r, -, rfl⟩ | ⟨session, r, -, rfl⟩ | ⟨-, -, -, hold⟩
  · exact hstart session r true htask
  · exact hstart session r false htask
  · exact hold roomId task htask

/-- The flag of a task stays as it is, unless the step clears it. -/
theorem Step.watch_eq (h : Step s l t) {generation : Nat} (hle : generation ≤ s.generation)
    (hkeep : ∀ roomId task, s.typing roomId = some task → task.generation = generation →
      ¬l.Unwatches roomId) : t.watch generation = s.watch generation := by
  have hne : generation ≠ s.generation + 1 := by omega
  rcases h.cases_start with ⟨session, roomId, -, rfl⟩ | ⟨session, roomId, hunwatches, rfl⟩ |
    ⟨-, hwatch, -⟩
  · cases hroom : s.typing roomId with
    | none => rw [(State.typingStart_of_none hroom).2.2, Function.update_of_ne hne]
    | some task => rw [(State.typingStart_of_some hroom).2.2, if_pos rfl]
  · cases hroom : s.typing roomId with
    | none => rw [(State.typingStart_of_none hroom).2.2, Function.update_of_ne hne]
    | some task =>
      have hother : generation ≠ task.generation := fun heq ↦
        hkeep roomId task hroom heq.symm ((hunwatches roomId).mpr rfl)
      rw [(State.typingStart_of_some hroom).2.2, if_neg Bool.false_ne_true,
        Function.update_of_ne hother]
  · rw [hwatch]

/-- A flag that is set was set before, and the step does not clear it. -/
theorem Step.watch_old (h : Step s l t) {roomId : String} {task : TypingTask}
    (htask : s.typing roomId = some task) (hle : task.generation ≤ s.generation)
    (hwatch : t.watch task.generation = true) :
    s.watch task.generation = true ∧ ¬l.Unwatches roomId := by
  have hne : task.generation ≠ s.generation + 1 := by omega
  rcases h.cases_start with ⟨session, r, rfl, rfl⟩ | ⟨session, r, hunwatches, rfl⟩ |
    ⟨hkeeps, heq, -⟩
  · refine ⟨?_, id⟩
    cases hroom : s.typing r with
    | none => rwa [(State.typingStart_of_none hroom).2.2, Function.update_of_ne hne] at hwatch
    | some task' => rwa [(State.typingStart_of_some hroom).2.2, if_pos rfl] at hwatch
  · cases hroom : s.typing r with
    | none =>
      rw [(State.typingStart_of_none hroom).2.2, Function.update_of_ne hne] at hwatch
      refine ⟨hwatch, fun hclears ↦ ?_⟩
      rw [(hunwatches roomId).mp hclears, htask] at hroom
      nomatch hroom
    | some task' =>
      rw [(State.typingStart_of_some hroom).2.2, if_neg Bool.false_ne_true] at hwatch
      by_cases hsame : task.generation = task'.generation
      · rw [hsame, Function.update_self] at hwatch
        nomatch hwatch
      · rw [Function.update_of_ne hsame] at hwatch
        refine ⟨hwatch, fun hclears ↦ hsame ?_⟩
        rw [(hunwatches roomId).mp hclears, htask] at hroom
        rw [Option.some.inj hroom]
  · rw [heq] at hwatch
    exact ⟨hwatch, hkeeps roomId⟩

/-- A new task is of a room without one, and has the flag if an acknowledgement started it. -/
theorem Step.started (h : Step s l t) {roomId : String} {task : TypingTask}
    (htask : t.typing roomId = some task) (hnew : s.generation < task.generation) (hs : s.Ok)
    (hwatch : t.watch task.generation = true) :
    ∃ session, l = .acked session roomId .message true ∧ s.typing roomId = none ∧
      s.generation + 1 = task.generation := by
  have hstart : ∀ session r watch, t = s.typingStart session r watch →
      roomId = r ∧ s.typing roomId = none ∧ s.generation + 1 = task.generation ∧
        watch = true := by
    rintro session r watch rfl
    cases hroom : s.typing r with
    | none =>
      rw [(State.typingStart_of_none hroom).2.1] at htask
      by_cases heq : roomId = r
      · subst heq
        rw [Function.update_self] at htask
        obtain rfl := Option.some.inj htask
        rw [(State.typingStart_of_none hroom).2.2, Function.update_self] at hwatch
        exact ⟨rfl, hroom, rfl, hwatch⟩
      · rw [Function.update_of_ne heq] at htask
        have hle := hs.generation_le htask
        omega
    | some _ =>
      rw [(State.typingStart_of_some hroom).2.1] at htask
      have hle := hs.generation_le htask
      omega
  rcases h.cases_start with ⟨session, r, rfl, heq⟩ | ⟨session, r, -, heq⟩ | ⟨-, -, -, hold⟩
  · obtain ⟨rfl, hnone, hgeneration, -⟩ := hstart session r true heq
    exact ⟨session, rfl, hnone, hgeneration⟩
  · obtain ⟨-, -, -, hfalse⟩ := hstart session r false heq
    nomatch hfalse
  -- an entry that was there is of an older task
  · have hle := hs.generation_le (hold roomId task htask)
    omega

end Step

/-! ## Silence at the cap -/

/-- A task of a room whose flag is set was started by an acknowledgement, and nothing has cleared
the flag since. -/
theorem watched_of_watch {nowMs : Nat} {ls : List Label} {s : State}
    (h : Run Step (.init nowMs) ls s) {roomId : String} {task : TypingTask}
    (htask : s.typing roomId = some task) (hwatch : s.watch task.generation = true) :
    Watched nowMs ls s roomId task.generation := by
  induction h with
  | nil => nomatch htask
  | @snoc s t ls l hrun hstep ih =>
    have hs := ok_of_run hrun
    rcases Nat.lt_or_ge s.generation task.generation with hnew | hold
    · -- the task is started by this step
      obtain ⟨session, rfl, hnone, hgeneration⟩ := hstep.started htask hnew hs hwatch
      exact ⟨ls, session, [], s, t, rfl, hrun, hnone, hgeneration, hstep, .nil t, nofun⟩
    · have hbefore := hstep.typing_old htask hold
      obtain ⟨hset, hkeeps⟩ := hstep.watch_old hbefore hold hwatch
      obtain ⟨before, session, after, s₁, s₂, rfl, hrun₁, hnone, hgeneration, hack, hrun₂,
        hafter⟩ := ih hbefore hset
      refine ⟨before, session, after ++ [l], s₁, s₂, by simp, hrun₁, hnone, hgeneration, hack,
        hrun₂.snoc hstep, ?_⟩
      rw [List.forall_mem_append, List.forall_mem_singleton]
      exact ⟨hafter, hkeeps⟩

/-- From the start of a watched task on: it is of one room only, and its flag is set. -/
structure Flagged (roomId : String) (generation : Nat) (s : State) : Prop where
  counted : generation ≤ s.generation
  room : ∀ r task, s.typing r = some task → task.generation = generation → r = roomId
  watch : s.watch generation = true

theorem Flagged.step {roomId : String} {generation : Nat} {s t : State} {l : Label}
    (h : Flagged roomId generation s) (hkeeps : ¬l.Unwatches roomId) (hstep : Step s l t) :
    Flagged roomId generation t where
  counted := h.counted.trans hstep.generation_le
  room := by
    rintro r task htask rfl
    exact h.room r task (hstep.typing_old htask h.counted) rfl
  watch := by
    rw [hstep.watch_eq h.counted ?_, h.watch]
    intro r task htask hgeneration
    rw [h.room r task htask hgeneration]
    exact hkeeps

theorem watch_of_watched {nowMs : Nat} {ls : List Label} {s : State} {roomId : String}
    {generation : Nat} (h : Watched nowMs ls s roomId generation) :
    s.watch generation = true := by
  obtain ⟨before, session, after, s₁, s₂, -, hrun, hnone, rfl, hack, hafter, hkeeps⟩ := h
  have hs := ok_of_run hrun
  have hstart : Flagged roomId (s₁.generation + 1) s₂ := by
    cases hack
    obtain ⟨hgeneration, htyping, hwatch⟩ :=
      @State.typingStart_of_none s₁ session roomId true hnone
    exact {
      counted := hgeneration.ge
      room := by
        intro r task htask hnew
        by_contra hne
        have hother : s₁.typing r = some task := by
          rw [← Function.update_of_ne hne (some ⟨session, s₁.generation + 1⟩) s₁.typing, ← htyping]
          exact htask
        have hle := hs.generation_le hother
        omega
      watch := by
        show (s₁.typingStart session roomId true).watch _ = true
        rw [hwatch, Function.update_self] }
  exact (hafter.invariant (fun _ _ _ hf hl hstep ↦ hf.step hl hstep) hstart hkeeps).watch

/-- A silent session is reported just when the task that reaches the cap was started by an
acknowledgement, and no part sent with `more` nor typing request came in the room since. -/
theorem silence_iff {nowMs : Nat} {ls : List Label} {s t : State} {roomId : String}
    {task : TypingTask} (hrun : Run Step (.init nowMs) ls s)
    (htask : s.typing roomId = some task) (hcap : Step s (.cap task.generation) t) :
    (Silent ls roomId → ∃ startedMs,
        t.silence = s.silence ++ [⟨task.session, roomId, startedMs⟩]) ↔
      (Silent ls roomId → Watched nowMs ls s roomId task.generation) := by
  refine imp_congr_right fun _ ↦ ?_
  obtain ⟨spawned, hspawned, hroom, hsession⟩ := (ok_of_run hrun).entry roomId task htask
  cases hcap with
  | @cap _ startedMs spawned' hspawned' _ _ =>
    rw [hspawned] at hspawned'
    obtain rfl := Option.some.inj hspawned'
    -- the flag decides, and it says what the run has been
    cases hwatch : s.watch task.generation with
    | true =>
      refine iff_of_true ⟨startedMs, ?_⟩ (watched_of_watch hrun htask hwatch)
      rw [State.cap, if_pos hwatch, hroom, hsession]
    | false =>
      refine iff_of_false ?_ fun hwatched ↦ ?_
      · rintro ⟨startedMs', hreported⟩
        rw [State.cap, hwatch, if_neg Bool.false_ne_true] at hreported
        exact List.cons_ne_nil _ _ (List.self_eq_append_right.mp hreported)
      · rw [watch_of_watched hwatched] at hwatch
        nomatch hwatch

/-- Bob's mind has taken a message, and the task for it runs. -/
def taken : State :=
  ((State.init 0).acked "bob" "!dm:silta.test" .message true).setPhase 1
    ⟨"!dm:silta.test", "bob", .spawned⟩ (.polling 0)

theorem taken_run :
    Run Step (.init 0) [.acked "bob" "!dm:silta.test" .message true, .begin 1] taken :=
  ((Run.nil _).snoc (.acked _ _ _ _)).snoc (.begin rfl rfl)

/-- Ten minutes later. -/
def waited (s : State) : State := { s with nowMs := s.nowMs + 600001 }

theorem silence_iff_taken :
    (Silent [.acked "bob" "!dm:silta.test" .message true, .begin 1, .elapse 600001]
        "!dm:silta.test" → ∃ startedMs,
      ((waited taken).cap 1 ⟨"!dm:silta.test", "bob", .polling 0⟩ 0).silence =
        (waited taken).silence ++ [⟨"bob", "!dm:silta.test", startedMs⟩]) ↔
      (Silent [.acked "bob" "!dm:silta.test" .message true, .begin 1, .elapse 600001]
          "!dm:silta.test" →
        Watched 0 [.acked "bob" "!dm:silta.test" .message true, .begin 1, .elapse 600001]
          (waited taken) "!dm:silta.test" 1) := by
  have hrun : Run Step (.init 0) [.acked "bob" "!dm:silta.test" .message true, .begin 1,
      .elapse 600001] (waited taken) := taken_run.snoc (.elapse 600001)
  have htask : (waited taken).typing "!dm:silta.test" = some ⟨"bob", 1⟩ := rfl
  have hspawned : (waited taken).spawned 1 =
      some ⟨"!dm:silta.test", "bob", .polling 0⟩ := rfl
  exact silence_iff hrun htask (.cap hspawned rfl (by decide))

/-- The mind has sent a part with more to come, which clears the flag, and has taken another
message, which does not set it again: nobody is told that this one gets nothing back. -/
theorem silence_unreported :
    ¬∀ (nowMs : Nat) (ls : List Label) (s t : State) (roomId : String) (task : TypingTask),
      Run Step (.init nowMs) ls s → s.typing roomId = some task →
        Step s (.cap task.generation) t → Silent ls roomId →
          ∃ startedMs, t.silence = s.silence ++ [⟨task.session, roomId, startedMs⟩] := by
  intro h
  have hrun : Run Step (.init 0) ([.acked "bob" "!dm:silta.test" .message true, .begin 1] ++
      [.sent "bob" "!dm:silta.test" true] ++ [.acked "bob" "!dm:silta.test" .message true] ++
        [.elapse 600001]) (waited ((taken.afterSend "bob" "!dm:silta.test" true).acked "bob"
          "!dm:silta.test" .message true)) :=
    ((taken_run.snoc (.sent _ _ _)).snoc (.acked _ _ _ _)).snoc (.elapse 600001)
  have hsilent : Silent ([.acked "bob" "!dm:silta.test" .message true, .begin 1] ++
      [.sent "bob" "!dm:silta.test" true] ++ [.acked "bob" "!dm:silta.test" .message true] ++
        [.elapse 600001]) "!dm:silta.test" := by
    refine ⟨_, "bob", true, [.elapse 600001], List.append_assoc _ _ _, by simp, ?_⟩
    rw [List.forall_mem_singleton]
    exact id
  have hspawned : (waited ((taken.afterSend "bob" "!dm:silta.test" true).acked "bob"
      "!dm:silta.test" .message true)).spawned 1 =
        some ⟨"!dm:silta.test", "bob", .polling 0⟩ := rfl
  obtain ⟨startedMs, hreported⟩ :=
    h 0 _ _ _ "!dm:silta.test" ⟨"bob", 1⟩ hrun rfl (.cap hspawned rfl (by decide)) hsilent
  have hnone : [] = [Silence.mk "bob" "!dm:silta.test" startedMs] := hreported
  nomatch hnone

end Typing

end Silta
