import Mathlib.Algebra.BigOperators.Group.List.Basic
import Mathlib.Algebra.Ring.Nat
import Silta.Lib.Lts

/-!
# The shared socket

The two ends of a session's connection with bounded socket buffers, byte by byte.  The daemon
writes the welcome and the whole backlog before it reads anything; then one task writes what is
queued and one reads commands and queues a result for each.  The plugin either reads or writes.
-/

namespace Silta

namespace Socket

/-- An entry of the plugin's queue: an acknowledgement, or a command behind the file it names. -/
structure Outgoing where
  bytes : Nat
  isCommand : Bool
  pos : 0 < bytes

/-- The sizes that do not change while the connection lasts. -/
structure Setup where
  /-- The socket buffer from the plugin to the daemon. -/
  toDaemon : Nat
  /-- The socket buffer from the daemon to the plugin. -/
  toPlugin : Nat
  /-- The places in the queue of events and results. -/
  queue : Nat
  welcome : Nat
  /-- Each message of the backlog with its attachments. -/
  backlog : List Nat
  outgoing : List Outgoing
  toDaemon_pos : 0 < toDaemon
  toPlugin_pos : 0 < toPlugin
  queue_pos : 0 < queue

structure State where
  /-- The backlog is out: the writer task and the reader run. -/
  serving : Bool
  /-- Bytes of the message being written that are not in the socket yet. -/
  left : Nat
  rest : List Nat
  queue : List Nat
  /-- Bytes in the socket buffer to the plugin. -/
  inSocket : Nat
  /-- Bytes of the welcome that the plugin has not read. -/
  welcomeLeft : Nat
  /-- How many outgoing entries the plugin has taken up. -/
  picked : Nat
  /-- Bytes the plugin has put in the socket. -/
  sent : Nat
  /-- Bytes the daemon has taken out of the socket. -/
  got : Nat
  /-- Bytes the daemon's reader has gone over. -/
  parsed : Nat
  /-- How many outgoing entries the daemon's reader has finished. -/
  done : Nat
  /-- The result of the last command waits for a place in the queue. -/
  waiting : Bool
  deriving DecidableEq

inductive Act
  | next
  | write (n : Nat)
  | serve
  | take
  | dispatch (bytes : Nat)
  | fill (n : Nat)
  | parse (n : Nat)
  | answer (bytes : Nat)
  | read (n : Nat)
  | pick
  | send (n : Nat)

def bytesOf (os : List Outgoing) : Nat := (os.map (·.bytes)).sum

/-- Bytes of the outgoing entries behind the first command. -/
def bytesAfterCommand : List Outgoing → Nat
  | [] => 0
  | o :: os => if o.isCommand then bytesOf os else bytesAfterCommand os

/-- Bytes of the first entries of the plugin's queue. -/
def Setup.upTo (c : Setup) (k : Nat) : Nat := bytesOf (c.outgoing.take k)

def State.init (c : Setup) : State where
  serving := false
  left := c.welcome
  rest := c.backlog
  queue := []
  inSocket := 0
  welcomeLeft := c.welcome
  picked := 0
  sent := 0
  got := 0
  parsed := 0
  done := 0
  waiting := false

def step (c : Setup) (s : State) : Act → Option State
  -- the daemon writes the welcome and the backlog, one message after the other
  | .next =>
    match s.rest with
    | m :: rest =>
      if s.serving = false ∧ s.left = 0 then some { s with left := m, rest := rest } else none
    | [] => none
  | .serve =>
    if s.serving = false ∧ s.left = 0 ∧ s.rest = [] then some { s with serving := true } else none
  -- then the writer task takes from the queue
  | .take =>
    match s.queue with
    | m :: queue =>
      if s.serving = true ∧ s.left = 0 then some { s with left := m, queue := queue } else none
    | [] => none
  | .write n =>
    if n ≤ s.left ∧ s.inSocket + n ≤ c.toPlugin then
      some { s with left := s.left - n, inSocket := s.inSocket + n }
    else none
  -- an event for the session, queued from the moment the name is claimed
  | .dispatch bytes =>
    if s.queue.length < c.queue then some { s with queue := s.queue ++ [bytes] } else none
  -- the reader fills its buffer when it is empty, and goes over one entry at a time
  | .fill n =>
    if s.serving = true ∧ s.waiting = false ∧ s.got = s.parsed ∧ s.got + n ≤ s.sent then
      some { s with got := s.got + n }
    else none
  | .parse n =>
    if h : s.done < c.outgoing.length then
      if s.serving = true ∧ s.waiting = false ∧ s.parsed + n ≤ s.got then
        if s.parsed + n < c.upTo (s.done + 1) then some { s with parsed := s.parsed + n }
        else if s.parsed + n = c.upTo (s.done + 1) then
          some { s with
            parsed := s.parsed + n
            done := s.done + 1
            waiting := c.outgoing[s.done].isCommand }
        else none
      else none
    else none
  | .answer bytes =>
    if s.waiting = true ∧ s.queue.length < c.queue then
      some { s with queue := s.queue ++ [bytes], waiting := false }
    else none
  -- the plugin reads the welcome first, and later whenever it is not in the middle of a write
  | .read n =>
    if s.sent = c.upTo s.picked ∧ n ≤ s.inSocket then
      some { s with inSocket := s.inSocket - n, welcomeLeft := s.welcomeLeft - n }
    else none
  | .pick =>
    if s.welcomeLeft = 0 ∧ s.sent = c.upTo s.picked ∧ s.picked < c.outgoing.length then
      some { s with picked := s.picked + 1 }
    else none
  | .send n =>
    if s.sent + n ≤ c.upTo s.picked ∧ s.sent + n ≤ s.got + c.toDaemon then
      some { s with sent := s.sent + n }
    else none

def Step (c : Setup) (s : State) (a : Act) (t : State) : Prop := step c s a = some t

/-- The plugin is in the middle of a write and the socket buffer to the daemon is full. -/
def PluginBlocked (c : Setup) (s : State) : Prop :=
  s.sent < c.upTo s.picked ∧ s.sent = s.got + c.toDaemon

/-- The daemon is in the middle of a write and the socket buffer to the plugin is full. -/
def WriteBlocked (c : Setup) (s : State) : Prop := 0 < s.left ∧ s.inSocket = c.toPlugin

/-- No task of the daemon can go on: it is still writing the backlog, or the reader too is blocked,
on queueing a result. -/
def DaemonBlocked (c : Setup) (s : State) : Prop :=
  WriteBlocked c s ∧ (s.serving = false ∨ s.waiting = true ∧ c.queue ≤ s.queue.length)

def Deadlocked (c : Setup) (s : State) : Prop := DaemonBlocked c s ∧ PluginBlocked c s

/-! ## Bytes of the plugin's queue -/

theorem bytesOf_le_of_command {os : List Outgoing} {j : Nat} (hj : j < os.length)
    (hcmd : os[j].isCommand = true) :
    bytesOf os ≤ bytesOf (os.take (j + 1)) + bytesAfterCommand os := by
  -- over the queue: at the first command the sum is all of it, before it the entries go along
  induction os generalizing j with
  | nil => exact absurd hj (Nat.not_lt_zero _)
  | cons o os ih =>
    simp only [bytesOf, List.take_succ_cons, List.map_cons, List.sum_cons, bytesAfterCommand]
    split
    · omega
    next hno =>
      cases j with
      | zero => exact absurd hcmd hno
      | succ j =>
        have hrest := ih (Nat.lt_of_succ_lt_succ hj) hcmd
        simp only [bytesOf] at hrest
        omega

/-- The first command, where there is something behind it. -/
theorem exists_first_command {os : List Outgoing} (h : 0 < bytesAfterCommand os) :
    ∃ i, ∃ hi : i < os.length, os[i].isCommand = true ∧
      bytesOf os = bytesOf (os.take (i + 1)) + bytesAfterCommand os ∧
      ∀ j (hj : j < i), os[j].isCommand = false := by
  induction os with
  | nil => exact absurd h (Nat.lt_irrefl 0)
  | cons o os ih =>
    cases hcmd : o.isCommand with
    | true =>
      refine ⟨0, Nat.zero_lt_succ _, hcmd, ?_, fun j hj ↦ absurd hj (Nat.not_lt_zero j)⟩
      simp [bytesOf, bytesAfterCommand, hcmd]
    | false =>
      rw [bytesAfterCommand, hcmd, if_neg Bool.false_ne_true] at h
      obtain ⟨i, hi, hic, hsum, hbefore⟩ := ih h
      refine ⟨i + 1, Nat.succ_lt_succ hi, hic, ?_, ?_⟩
      · simp only [bytesOf, List.take_succ_cons, List.map_cons, List.sum_cons, bytesAfterCommand,
          hcmd, Bool.false_eq_true, if_false] at hsum ⊢
        omega
      · intro j hj
        cases j with
        | zero => exact hcmd
        | succ j => exact hbefore j (Nat.lt_of_succ_lt_succ hj)

theorem Setup.upTo_succ (c : Setup) {k : Nat} (hk : k < c.outgoing.length) :
    c.upTo (k + 1) = c.upTo k + c.outgoing[k].bytes := by
  unfold Setup.upTo bytesOf
  rw [List.take_succ_eq_append_getElem hk, List.map_append, List.sum_append, List.map_singleton,
    List.sum_singleton]

theorem Setup.upTo_mono (c : Setup) {j k : Nat} (h : j ≤ k) : c.upTo j ≤ c.upTo k := by
  obtain ⟨d, rfl⟩ := Nat.exists_eq_add_of_le h
  unfold Setup.upTo bytesOf
  rw [List.take_add, List.map_append, List.sum_append]
  exact Nat.le_add_right _ _

theorem Setup.upTo_length (c : Setup) : c.upTo c.outgoing.length = bytesOf c.outgoing := by
  rw [Setup.upTo, List.take_length]

theorem Setup.upTo_le (c : Setup) (k : Nat) : c.upTo k ≤ bytesOf c.outgoing := by
  rcases Nat.le_total k c.outgoing.length with h | h
  · exact (c.upTo_mono h).trans_eq c.upTo_length
  · rw [Setup.upTo, List.take_of_length_le h]

/-! ## When the buffers are large enough -/

private theorem eq_of_guard {p : Prop} [Decidable p] {s t : State}
    (h : (if p then some s else none) = some t) : p ∧ s = t := by
  obtain ⟨hp, hst⟩ := Option.ite_none_right_eq_some.mp h
  exact ⟨hp, Option.some.inj hst⟩

/-- The condition under which the two ends cannot block each other. -/
def FitsBuffers (c : Setup) : Prop :=
  bytesAfterCommand c.outgoing ≤ c.toDaemon ∧
    (c.backlog.sum ≤ c.toPlugin ∨ bytesOf c.outgoing ≤ c.toDaemon)

/-- What holds in every reachable state. -/
structure Inv (c : Setup) (s : State) : Prop where
  inSocket_le : s.inSocket ≤ c.toPlugin
  parsed_le : c.upTo s.done ≤ s.parsed
  got_le : s.parsed ≤ s.got
  /-- A result waits only once a command was gone over. -/
  command : s.waiting = true → ∃ j, ∃ hj : j < c.outgoing.length, j < s.done ∧
    c.outgoing[j].isCommand = true
  /-- The plugin writes nothing before it has read the welcome. -/
  welcome : s.welcomeLeft = 0 ∨ s.picked = 0
  /-- Before the daemon serves it takes nothing out of the socket, and each byte it has written was
  read or is in the socket. -/
  sending : s.serving = false → s.got = 0 ∧ s.waiting = false ∧
    ∃ read, s.welcomeLeft = c.welcome - read ∧
      c.welcome + c.backlog.sum = s.left + s.rest.sum + s.inSocket + read

theorem inv_init (c : Setup) : Inv c (State.init c) where
  inSocket_le := Nat.zero_le _
  parsed_le := Nat.le_refl _
  got_le := Nat.le_refl _
  command := nofun
  welcome := Or.inr rfl
  sending _ := ⟨rfl, rfl, 0, rfl, rfl⟩

theorem inv_step {c : Setup} {s t : State} {a : Act} (hi : Inv c s) (h : Step c s a t) :
    Inv c t := by
  obtain ⟨hin, hparsed, hgot, hcmd, hwel, hsend⟩ := hi
  unfold Step step at h
  cases a with
  | next =>
    dsimp only at h
    split at h
    next m rest hrest =>
      obtain ⟨⟨hs, hl⟩, rfl⟩ := eq_of_guard h
      refine ⟨hin, hparsed, hgot, hcmd, hwel, fun _ ↦ ?_⟩
      obtain ⟨hg, hw, read, hwl, hsum⟩ := hsend hs
      refine ⟨hg, hw, read, hwl, ?_⟩
      rw [hsum, hrest, hl, List.sum_cons]
      dsimp only
      omega
    · cases h
  | serve =>
    obtain ⟨-, rfl⟩ := eq_of_guard h
    exact ⟨hin, hparsed, hgot, hcmd, hwel, nofun⟩
  | take =>
    dsimp only at h
    split at h
    next m queue hq =>
      obtain ⟨⟨hs, hl⟩, rfl⟩ := eq_of_guard h
      exact ⟨hin, hparsed, hgot, hcmd, hwel, fun hs' ↦ absurd (hs.symm.trans hs') (by decide)⟩
    · cases h
  | write n =>
    obtain ⟨⟨hn, hroom⟩, rfl⟩ := eq_of_guard h
    refine ⟨hroom, hparsed, hgot, hcmd, hwel, fun hs ↦ ?_⟩
    obtain ⟨hg, hw, read, hwl, hsum⟩ := hsend hs
    refine ⟨hg, hw, read, hwl, ?_⟩
    dsimp only
    omega
  | dispatch bytes =>
    obtain ⟨-, rfl⟩ := eq_of_guard h
    exact ⟨hin, hparsed, hgot, hcmd, hwel, hsend⟩
  | fill n =>
    obtain ⟨⟨hs, hw, -, hn⟩, rfl⟩ := eq_of_guard h
    exact ⟨hin, hparsed, Nat.le_add_right_of_le hgot, hcmd, hwel,
      fun hs' ↦ absurd (hs.symm.trans hs') (by decide)⟩
  | parse n =>
    dsimp only at h
    split at h
    next hlt =>
      obtain ⟨⟨hs, hw, hn⟩, h⟩ := Option.ite_none_right_eq_some.mp h
      split at h
      -- in the middle of an entry, or at its end, where a command makes the reader wait
      · obtain rfl := Option.some.inj h
        exact ⟨hin, Nat.le_add_right_of_le hparsed, hn, hcmd, hwel,
          fun hs' ↦ absurd (hs.symm.trans hs') (by decide)⟩
      · obtain ⟨heq, rfl⟩ := eq_of_guard h
        exact ⟨hin, heq.ge, hn, fun hc ↦ ⟨s.done, hlt, Nat.lt_succ_self _, hc⟩, hwel,
          fun hs' ↦ absurd (hs.symm.trans hs') (by decide)⟩
    · cases h
  | answer bytes =>
    obtain ⟨-, rfl⟩ := eq_of_guard h
    refine ⟨hin, hparsed, hgot, nofun, hwel, fun hs ↦ ?_⟩
    obtain ⟨hg, -, hread⟩ := hsend hs
    exact ⟨hg, rfl, hread⟩
  | read n =>
    obtain ⟨⟨-, hn⟩, rfl⟩ := eq_of_guard h
    refine ⟨(Nat.sub_le _ _).trans hin, hparsed, hgot, hcmd, ?_, fun hs ↦ ?_⟩
    · rcases hwel with hz | hp
      · exact Or.inl (by dsimp only; omega)
      · exact Or.inr hp
    · obtain ⟨hg, hw, read, hwl, hsum⟩ := hsend hs
      exact ⟨hg, hw, read + n, by dsimp only; omega, by dsimp only; omega⟩
  | pick =>
    obtain ⟨⟨hz, -, -⟩, rfl⟩ := eq_of_guard h
    exact ⟨hin, hparsed, hgot, hcmd, Or.inl hz, hsend⟩
  | send n =>
    obtain ⟨-, rfl⟩ := eq_of_guard h
    exact ⟨hin, hparsed, hgot, hcmd, hwel, hsend⟩

theorem not_deadlocked_of_fits {c : Setup} {s : State} (hi : Inv c s) (h : FitsBuffers c) :
    ¬ Deadlocked c s := by
  rintro ⟨⟨⟨hleft, hfull⟩, hphase⟩, hmid, hsock⟩
  have htotal := c.upTo_le s.picked
  rcases hphase with hs | ⟨hw, -⟩
  · -- the plugin has read the welcome, so what fills the socket is backlog
    obtain ⟨hgot, -, read, hwl, hsum⟩ := hi.sending hs
    have hz : s.welcomeLeft = 0 := by
      rcases hi.welcome with hz | hp
      · exact hz
      · rw [hp] at hmid
        exact absurd hmid (Nat.not_lt_zero _)
    have := h.2
    omega
  · -- the reader has gone over a command, so what fills the socket is behind it
    obtain ⟨j, hj, hdone, hcmd⟩ := hi.command hw
    have hsplit : bytesOf c.outgoing ≤ c.upTo (j + 1) + bytesAfterCommand c.outgoing :=
      bytesOf_le_of_command hj hcmd
    have hafter : c.upTo (j + 1) ≤ c.upTo s.done := c.upTo_mono hdone
    have hparsed := hi.parsed_le
    have hgot := hi.got_le
    have hfits := h.1
    omega

/-! ## When they are not -/

section Reach

variable {c : Setup} {s : State}

theorem step_write {n : Nat} (hn : n ≤ s.left) (hroom : s.inSocket + n ≤ c.toPlugin) :
    Step c s (.write n) { s with left := s.left - n, inSocket := s.inSocket + n } :=
  if_pos ⟨hn, hroom⟩

theorem step_read {n : Nat} (hidle : s.sent = c.upTo s.picked) (hn : n ≤ s.inSocket) :
    Step c s (.read n)
      { s with inSocket := s.inSocket - n, welcomeLeft := s.welcomeLeft - n } :=
  if_pos ⟨hidle, hn⟩

theorem step_send {n : Nat} (hn : s.sent + n ≤ c.upTo s.picked)
    (hroom : s.sent + n ≤ s.got + c.toDaemon) :
    Step c s (.send n) { s with sent := s.sent + n } :=
  if_pos ⟨hn, hroom⟩

theorem step_pick (hwel : s.welcomeLeft = 0) (hidle : s.sent = c.upTo s.picked)
    (hmore : s.picked < c.outgoing.length) :
    Step c s .pick { s with picked := s.picked + 1 } :=
  if_pos ⟨hwel, hidle, hmore⟩

theorem step_fill {n : Nat} (hs : s.serving = true) (hw : s.waiting = false)
    (hempty : s.got = s.parsed) (hn : s.got + n ≤ s.sent) :
    Step c s (.fill n) { s with got := s.got + n } :=
  if_pos ⟨hs, hw, hempty, hn⟩

theorem step_parse {n : Nat} (hs : s.serving = true) (hw : s.waiting = false)
    (hlt : s.done < c.outgoing.length) (hn : s.parsed + n ≤ s.got)
    (hmid : s.parsed + n < c.upTo (s.done + 1)) :
    Step c s (.parse n) { s with parsed := s.parsed + n } := by
  simp only [Step, step, dif_pos hlt]
  rw [if_pos ⟨hs, hw, hn⟩, if_pos hmid]

theorem step_parse_end {n : Nat} (hs : s.serving = true) (hw : s.waiting = false)
    (hlt : s.done < c.outgoing.length) (hn : s.parsed + n ≤ s.got)
    (hend : s.parsed + n = c.upTo (s.done + 1)) :
    Step c s (.parse n)
      { s with
        parsed := s.parsed + n
        done := s.done + 1
        waiting := c.outgoing[s.done].isCommand } := by
  simp only [Step, step, dif_pos hlt]
  rw [if_pos ⟨hs, hw, hn⟩, if_neg hend.not_lt, if_pos hend]

theorem step_next {m : Nat} {rest : List Nat} (hs : s.serving = false) (hl : s.left = 0)
    (hrest : s.rest = m :: rest) : Step c s .next { s with left := m, rest := rest } := by
  simp only [Step, step, hrest]
  exact if_pos ⟨hs, hl⟩

theorem step_take {m : Nat} {queue : List Nat} (hs : s.serving = true) (hl : s.left = 0)
    (hq : s.queue = m :: queue) : Step c s .take { s with left := m, queue := queue } := by
  simp only [Step, step, hq]
  exact if_pos ⟨hs, hl⟩

theorem step_dispatch {n : Nat} (hroom : s.queue.length < c.queue) :
    Step c s (.dispatch n) { s with queue := s.queue ++ [n] } :=
  if_pos hroom

theorem reaches_written (hidle : s.sent = c.upTo s.picked) (l w : Nat) :
    Lts.Reaches (Step c) { s with left := l, inSocket := 0, welcomeLeft := w }
      { s with left := 0, inSocket := 0, welcomeLeft := w - l } := by
  -- byte by byte, for the socket has room for one
  induction l generalizing w with
  | zero => exact Lts.Reaches.refl _
  | succ l ih =>
    have hrest := ih (w - 1)
    rw [Nat.sub_sub, Nat.add_comm 1 l] at hrest
    refine Lts.Reaches.head (step_write (n := 1) (Nat.le_add_left 1 l) ?_) ?_
    · exact Nat.succ_le_of_lt c.toPlugin_pos
    · exact Lts.Reaches.head (step_read (n := 1) hidle (Nat.le_refl 1)) hrest

/-- The whole backlog can go out to a plugin that keeps reading. -/
theorem reaches_backlog_written (hs : s.serving = false) (hidle : s.sent = c.upTo s.picked)
    (ms : List Nat) :
    Lts.Reaches (Step c) { s with left := 0, rest := ms, inSocket := 0, welcomeLeft := 0 }
      { s with left := 0, rest := [], inSocket := 0, welcomeLeft := 0 } := by
  induction ms with
  | nil => exact Lts.Reaches.refl _
  | cons m ms ih =>
    refine Lts.Reaches.head (step_next hs rfl rfl) ?_
    have hm := reaches_written (s := { s with rest := ms }) hidle m 0
    rw [Nat.zero_sub] at hm
    exact hm.trans ih

theorem reaches_filled {l p : Nat} (hp : p ≤ c.toPlugin) (hl : c.toPlugin - p ≤ l) :
    Lts.Reaches (Step c) { s with left := l, inSocket := p }
      { s with left := l - (c.toPlugin - p), inSocket := c.toPlugin } := by
  have hstep := step_write (c := c) (s := { s with left := l, inSocket := p }) hl
    (by dsimp only; omega)
  rw [show p + (c.toPlugin - p) = c.toPlugin by omega] at hstep
  exact Lts.Reaches.single hstep

/-- The daemon fills the socket while there is more to write than it holds. -/
theorem reaches_writeBlocked (hs : s.serving = false) (ms : List Nat) (l p : Nat)
    (hp : p ≤ c.toPlugin) (hmore : c.toPlugin < p + l + ms.sum) :
    ∃ l' ms', 0 < l' ∧ Lts.Reaches (Step c) { s with left := l, rest := ms, inSocket := p }
      { s with left := l', rest := ms', inSocket := c.toPlugin } := by
  induction ms generalizing l p with
  | nil =>
    rw [List.sum_nil] at hmore
    have hfill := reaches_filled (s := { s with rest := [] }) hp (show c.toPlugin - p ≤ l by omega)
    exact ⟨l - (c.toPlugin - p), [], by omega, hfill⟩
  | cons m ms ih =>
    by_cases hl : l ≤ c.toPlugin - p
    -- the message fits, and the next one follows
    · rw [List.sum_cons] at hmore
      obtain ⟨l', ms', hpos, hreach⟩ := ih m (p + l) (by omega) (by omega)
      refine ⟨l', ms', hpos, ?_⟩
      refine Lts.Reaches.head (step_write (n := l) (Nat.le_refl l) (by dsimp only; omega)) ?_
      exact Lts.Reaches.head (step_next hs (Nat.sub_self l) rfl) hreach
    · have hfill := reaches_filled (s := { s with rest := m :: ms }) hp
        (show c.toPlugin - p ≤ l by omega)
      exact ⟨l - (c.toPlugin - p), m :: ms, by omega, hfill⟩

theorem reaches_sent {k m n : Nat} (hmn : m ≤ n) (hk : n ≤ c.upTo k)
    (hroom : n ≤ s.got + c.toDaemon) :
    Lts.Reaches (Step c) { s with picked := k, sent := m } { s with picked := k, sent := n } := by
  have hstep := step_send (c := c) (s := { s with picked := k, sent := m }) (n := n - m)
    (by dsimp only; omega) (by dsimp only; omega)
  rw [show m + (n - m) = n by omega] at hstep
  exact Lts.Reaches.single hstep

/-- The plugin fills the socket while there is more to send than it holds. -/
theorem reaches_pluginBlocked (hwel : s.welcomeLeft = 0)
    (hmore : s.got + c.toDaemon < bytesOf c.outgoing) (d k m : Nat)
    (hd : k + d = c.outgoing.length) (hk : m ≤ c.upTo k) (hm : m ≤ s.got + c.toDaemon) :
    ∃ k', s.got + c.toDaemon < c.upTo k' ∧
      Lts.Reaches (Step c) { s with picked := k, sent := m }
        { s with picked := k', sent := s.got + c.toDaemon } := by
  induction d generalizing k m with
  | zero =>
    rw [← c.upTo_length, ← hd, Nat.add_zero] at hmore
    exact ⟨k, hmore, reaches_sent hm hmore.le (Nat.le_refl _)⟩
  | succ d ih =>
    -- the entries picked so far go over the room there is, or the next one is picked
    by_cases hfit : s.got + c.toDaemon < c.upTo k
    · exact ⟨k, hfit, reaches_sent hm hfit.le (Nat.le_refl _)⟩
    · obtain ⟨k', hk', hreach⟩ := ih (k + 1) (c.upTo k) (by omega)
        (c.upTo_mono (Nat.le_succ k)) (by omega)
      refine ⟨k', hk', ?_⟩
      refine Lts.Reaches.trans (reaches_sent hk (Nat.le_refl _) (by omega)) ?_
      exact Lts.Reaches.head (step_pick hwel rfl (by dsimp only; omega)) hreach

/-- One entry goes over byte by byte, the reader keeping up with the plugin. -/
theorem reaches_entry_bytes (hs : s.serving = true) (hw : s.waiting = false) {k : Nat}
    (hk : k < c.outgoing.length) (d m : Nat) (hd : m + (d + 1) = c.upTo (k + 1)) :
    Lts.Reaches (Step c)
      { s with picked := k + 1, done := k, sent := m, got := m, parsed := m }
      { s with
        picked := k + 1
        done := k + 1
        sent := c.upTo (k + 1)
        got := c.upTo (k + 1)
        parsed := c.upTo (k + 1)
        waiting := c.outgoing[k].isCommand } := by
  induction d generalizing m with
  | zero =>
    have hroom := c.toDaemon_pos
    refine Lts.Reaches.head (step_send (n := 1) hd.le (by dsimp only; omega)) ?_
    refine Lts.Reaches.head (step_fill (n := 1) hs hw rfl (Nat.le_refl _)) ?_
    have hend := step_parse_end (c := c)
      (s := { s with picked := k + 1, done := k, sent := m + 1, got := m + 1, parsed := m })
      (n := 1) hs hw hk (Nat.le_refl _) hd
    rw [← hd]
    exact Lts.Reaches.single hend
  | succ d ih =>
    have hroom := c.toDaemon_pos
    refine Lts.Reaches.head (step_send (n := 1) (by dsimp only; omega) (by dsimp only; omega)) ?_
    refine Lts.Reaches.head (step_fill (n := 1) hs hw rfl (Nat.le_refl _)) ?_
    refine Lts.Reaches.head (step_parse (n := 1) hs hw hk (Nat.le_refl _) (by dsimp only; omega)) ?_
    exact ih (m + 1) (by omega)

/-- The state in which the daemon has gone over the first entries. -/
def State.caughtUp (c : Setup) (s : State) (k : Nat) (waiting : Bool) : State :=
  { s with
    picked := k
    done := k
    sent := c.upTo k
    got := c.upTo k
    parsed := c.upTo k
    waiting := waiting }

theorem reaches_entry (hs : s.serving = true) (hwel : s.welcomeLeft = 0) {k : Nat}
    (hk : k < c.outgoing.length) :
    Lts.Reaches (Step c) (s.caughtUp c k false)
      (s.caughtUp c (k + 1) c.outgoing[k].isCommand) := by
  refine Lts.Reaches.head (step_pick hwel rfl hk) ?_
  have hpos := c.outgoing[k].pos
  have hsucc := c.upTo_succ hk
  exact reaches_entry_bytes (s := { s with waiting := false }) hs rfl hk
    (c.outgoing[k].bytes - 1) (c.upTo k) (by omega)

theorem reaches_entries (hs : s.serving = true) (hwel : s.welcomeLeft = 0) {i : Nat}
    (hi : i < c.outgoing.length)
    (hbefore : ∀ j (hj : j < i), c.outgoing[j].isCommand = false) :
    Lts.Reaches (Step c) (s.caughtUp c 0 false) (s.caughtUp c i false) := by
  induction i with
  | zero => exact Lts.Reaches.refl _
  | succ i ih =>
    have hprev := ih (Nat.lt_of_succ_lt hi) fun j hj ↦ hbefore j (Nat.lt_succ_of_lt hj)
    have hentry := reaches_entry hs hwel (Nat.lt_of_succ_lt hi)
    rw [hbefore i (Nat.lt_succ_self i)] at hentry
    exact hprev.trans hentry

theorem reaches_queueFull (d : Nat) (queue : List Nat) (hd : queue.length + d = c.queue) :
    ∃ queue', queue'.length = c.queue ∧
      Lts.Reaches (Step c) { s with queue := queue } { s with queue := queue' } := by
  induction d generalizing queue with
  | zero => exact ⟨queue, hd, Lts.Reaches.refl _⟩
  | succ d ih =>
    obtain ⟨queue', hfull, hreach⟩ := ih (queue ++ [1]) (by simp; omega)
    refine ⟨queue', hfull, ?_⟩
    exact Lts.Reaches.head (step_dispatch (by dsimp only; omega)) hreach

/-- The welcome can be read before anything else happens. -/
theorem reaches_welcomed :
    Lts.Reaches (Step c) (State.init c) { State.init c with left := 0, welcomeLeft := 0 } := by
  have hwritten := reaches_written (c := c) (s := State.init c) rfl c.welcome c.welcome
  rw [Nat.sub_self] at hwritten
  exact hwritten

/-- A backlog and a queue of the plugin that are each larger than the socket buffer they go
through: both ends write and neither reads. -/
theorem deadlock_of_backlog (hbacklog : c.toPlugin < c.backlog.sum)
    (hqueue : c.toDaemon < bytesOf c.outgoing) :
    ∃ t, Lts.Reaches (Step c) (State.init c) t ∧ Deadlocked c t := by
  obtain ⟨l, ms, hl, hwrite⟩ :=
    reaches_writeBlocked (c := c) (s := { State.init c with welcomeLeft := 0 }) rfl c.backlog 0 0
      (Nat.zero_le _) (by omega)
  obtain ⟨k, hk, hsend⟩ :=
    reaches_pluginBlocked (c := c)
      (s := { State.init c with
        welcomeLeft := 0, left := l, rest := ms, inSocket := c.toPlugin })
      rfl (by simpa [State.init] using hqueue) c.outgoing.length 0 0 (Nat.zero_add _)
      (Nat.zero_le _) (Nat.zero_le _)
  exact ⟨_, (reaches_welcomed.trans hwrite).trans hsend, ⟨⟨hl, rfl⟩, Or.inl rfl⟩, hk, rfl⟩

/-- The daemon serves, its writer is in the middle of a long event, and its queue is full. -/
def State.writerStuck (c : Setup) (queue : List Nat) : State :=
  { State.init c with
    serving := true
    left := 1
    rest := []
    queue := queue
    inSocket := c.toPlugin
    welcomeLeft := 0 }

theorem reaches_writerStuck : ∃ queue, queue.length = c.queue ∧
    Lts.Reaches (Step c) (State.init c) (State.writerStuck c queue) := by
  obtain ⟨queue, hfull, hqueue⟩ :=
    reaches_queueFull (c := c) (s := State.writerStuck c []) c.queue [] (Nat.zero_add _)
  refine ⟨queue, hfull, Lts.Reaches.trans ?_ hqueue⟩
  have hbacklog := reaches_backlog_written (c := c) (s := State.init c) rfl rfl c.backlog
  refine (reaches_welcomed.trans hbacklog).trans ?_
  have hserve : Step c { State.init c with left := 0, rest := [], inSocket := 0, welcomeLeft := 0 }
      .serve { State.init c with
        serving := true, left := 0, rest := [], inSocket := 0, welcomeLeft := 0 } := rfl
  refine Lts.Reaches.head hserve ?_
  -- an event one byte longer than the socket buffer
  refine Lts.Reaches.head (step_dispatch (n := c.toPlugin + 1) c.queue_pos) ?_
  refine Lts.Reaches.head (step_take rfl rfl rfl) ?_
  have hfill := reaches_filled (c := c)
    (s := { State.init c with serving := true, rest := [], welcomeLeft := 0 })
    (Nat.zero_le c.toPlugin) (Nat.le_succ c.toPlugin)
  rw [show c.toPlugin + 1 - (c.toPlugin - 0) = 1 by omega] at hfill
  exact hfill

/-- Behind a command, the plugin's queue is larger than the socket buffer: a result that finds the
queue full of events stops the reader while the plugin writes. -/
theorem deadlock_of_command (hcmd : c.toDaemon < bytesAfterCommand c.outgoing) :
    ∃ t, Lts.Reaches (Step c) (State.init c) t ∧ Deadlocked c t := by
  obtain ⟨i, hi, hic, hsum, hbefore⟩ := exists_first_command (Nat.zero_lt_of_lt hcmd)
  obtain ⟨queue, hfull, hstuck⟩ := reaches_writerStuck (c := c)
  have hentries := reaches_entries (c := c) (s := State.writerStuck c queue) rfl rfl hi hbefore
  have hentry := reaches_entry (c := c) (s := State.writerStuck c queue) rfl rfl hi
  rw [hic] at hentry
  have hmore : c.upTo (i + 1) + c.toDaemon < bytesOf c.outgoing := by
    change bytesOf (c.outgoing.take (i + 1)) + _ < _
    omega
  obtain ⟨k, hk, hsend⟩ :=
    reaches_pluginBlocked (c := c) (s := (State.writerStuck c queue).caughtUp c (i + 1) true) rfl
      hmore (c.outgoing.length - (i + 1)) (i + 1) (c.upTo (i + 1)) (by omega) (Nat.le_refl _)
      (Nat.le_add_right _ _)
  exact ⟨_, ((hstuck.trans hentries).trans hentry).trans hsend,
    ⟨⟨Nat.one_pos, rfl⟩, Or.inr ⟨rfl, hfull.ge⟩⟩, hk, rfl⟩

end Reach

theorem deadlocked_step {c : Setup} {s t : State} {a : Act} (hd : Deadlocked c s)
    (h : Step c s a t) : Deadlocked c t := by
  obtain ⟨⟨⟨hleft, hfull⟩, hphase⟩, hmid, hsock⟩ := hd
  unfold Step step at h
  -- a write of no bytes is the one step of either end that is left
  cases a with
  | next =>
    dsimp only at h
    split at h
    · obtain ⟨⟨-, hl⟩, -⟩ := eq_of_guard h
      exact absurd hl hleft.ne'
    · cases h
  | serve =>
    obtain ⟨⟨-, hl, -⟩, -⟩ := eq_of_guard h
    exact absurd hl hleft.ne'
  | take =>
    dsimp only at h
    split at h
    · obtain ⟨⟨-, hl⟩, -⟩ := eq_of_guard h
      exact absurd hl hleft.ne'
    · cases h
  | write n =>
    obtain ⟨⟨-, hroom⟩, rfl⟩ := eq_of_guard h
    obtain rfl : n = 0 := by omega
    exact ⟨⟨⟨hleft, hfull⟩, hphase⟩, hmid, hsock⟩
  | dispatch bytes =>
    obtain ⟨hroom, rfl⟩ := eq_of_guard h
    refine ⟨⟨⟨hleft, hfull⟩, ?_⟩, hmid, hsock⟩
    rcases hphase with hs | ⟨-, hq⟩
    · exact Or.inl hs
    · exact absurd hq hroom.not_ge
  | fill n =>
    obtain ⟨⟨hs, hw, -⟩, -⟩ := eq_of_guard h
    rcases hphase with hs' | ⟨hw', -⟩
    · exact absurd (hs.symm.trans hs') (by decide)
    · exact absurd (hw.symm.trans hw') (by decide)
  | parse n =>
    dsimp only at h
    split at h
    · obtain ⟨⟨hs, hw, -⟩, -⟩ := Option.ite_none_right_eq_some.mp h
      rcases hphase with hs' | ⟨hw', -⟩
      · exact absurd (hs.symm.trans hs') (by decide)
      · exact absurd (hw.symm.trans hw') (by decide)
    · cases h
  | answer bytes =>
    obtain ⟨⟨hw, hroom⟩, rfl⟩ := eq_of_guard h
    rcases hphase with hs | ⟨-, hq⟩
    · exact ⟨⟨⟨hleft, hfull⟩, Or.inl hs⟩, hmid, hsock⟩
    · exact absurd hq hroom.not_ge
  | read n =>
    obtain ⟨⟨hidle, -⟩, -⟩ := eq_of_guard h
    exact absurd hidle hmid.ne
  | pick =>
    obtain ⟨⟨-, hidle, -⟩, -⟩ := eq_of_guard h
    exact absurd hidle hmid.ne
  | send n =>
    obtain ⟨⟨-, hroom⟩, rfl⟩ := eq_of_guard h
    obtain rfl : n = 0 := by omega
    exact ⟨⟨⟨hleft, hfull⟩, hphase⟩, hmid, hsock⟩

/-- The daemon and the plugin never deadlock exactly when the buffers are large enough. -/
theorem never_deadlocked_iff (c : Setup) :
    (∀ acts t, Lts.Run (Step c) (State.init c) acts t → ¬ Deadlocked c t) ↔ FitsBuffers c := by
  constructor
  · intro hnever
    have hfree : ∀ t, Lts.Reaches (Step c) (State.init c) t → ¬ Deadlocked c t :=
      fun t ⟨acts, hrun⟩ ↦ hnever acts t hrun
    constructor
    · by_contra hcmd
      obtain ⟨t, hreach, hdead⟩ := deadlock_of_command (Nat.not_le.mp hcmd)
      exact hfree t hreach hdead
    · by_contra hboth
      obtain ⟨hbacklog, hqueue⟩ := not_or.mp hboth
      obtain ⟨t, hreach, hdead⟩ :=
        deadlock_of_backlog (Nat.not_le.mp hbacklog) (Nat.not_le.mp hqueue)
      exact hfree t hreach hdead
  · intro hfits acts t hrun
    have hinv : Inv c t := hrun.invariant (P := fun _ ↦ True)
      (fun _ _ _ hi _ hs ↦ inv_step hi hs) (inv_init c) (fun _ _ ↦ trivial)
    exact not_deadlocked_of_fits hinv hfits

theorem queue_places : 0 < 256 := by decide

/-- A backlog with an attachment of a megabyte for a plugin that has a file of a megabyte to send,
over socket buffers of the usual size. -/
def crossing : Setup where
  toDaemon := 212992
  toPlugin := 212992
  queue := 256
  welcome := 200
  backlog := [1400000]
  outgoing := [⟨1400000, true, by decide⟩]
  toDaemon_pos := by decide
  toPlugin_pos := by decide
  queue_pos := queue_places

theorem deadlocked_crossing :
    ¬ ∀ (c : Setup) (acts : List Act) (t : State),
      Lts.Run (Step c) (State.init c) acts t → ¬ Deadlocked c t := by
  intro hnever
  obtain ⟨t, ⟨acts, hrun⟩, hdead⟩ := deadlock_of_backlog (c := crossing) (by decide) (by decide)
  exact hnever crossing acts t hrun hdead

end Socket

end Silta
