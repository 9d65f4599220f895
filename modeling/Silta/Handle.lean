import Silta.Alert
import Silta.Lib.Lts
import Silta.RoomAccess

/-!
# The handling of a connection

`handle` from the hello to its return, on any number of connections at once, with the registry's
names and the away watch it reports to.
-/

namespace Silta

namespace Handle

open Alert (Watch)

def PROTOCOL_VERSION : Nat := 4

structure Hello where
  protocol : Nat
  session : String
  client : String
  deriving DecidableEq, Repr

inductive ErrorCode
  | protocolMismatch
  | unknownSession
  | sessionBusy
  | badRequest
  | wrongUser
  deriving DecidableEq, Repr

structure Daemon where
  routing : Routing
  /-- The uid behind each session's user. -/
  users : String → Option Nat

/-- Why a hello is refused before the session is claimed. -/
def Daemon.refusal (d : Daemon) (hello : Hello) (peerUid : Option Nat) : Option ErrorCode :=
  if hello.protocol ≠ PROTOCOL_VERSION then some .protocolMismatch
  else if (d.routing.session hello.session).isNone then some .unknownSession
  else match d.users hello.session, peerUid with
    | some uid, some peer => if uid = peer then none else some .wrongUser
    | _, _ => some .wrongUser

/-- How the reading of a connection comes to its end. -/
inductive Ending
  | shutdown
  | writerGone
  | readError
  | endOfStream
  | notJson
  | resultsClosed
  deriving DecidableEq, Repr

/-- How the handling of a connection that has its session comes to its end. -/
inductive Exit
  | welcome
  /-- An event of the backlog, or an attachment of one, could not be written. -/
  | backlog
  | served (how : Ending)
  deriving DecidableEq, Repr

/-- Where `handle` is while it holds the claim. -/
inductive Phase
  | welcoming
  | welcomed
  | connected
  | writing (left : Nat)
  | serving
  | closing
  | dropping
  deriving DecidableEq, Repr

inductive Stage
  | greeting
  | held (session : String) (phase : Phase)
  /-- The name is free, and what was in flight is still to be put back. -/
  | restoring
  deriving DecidableEq, Repr

structure State where
  watch : Watch
  /-- The connection that holds each session. -/
  inner : String → Option Nat
  handles : Nat → Option Stage
  nowMs : Nat

inductive Label
  | accept (conn : Nat)
  | refused (conn : Nat) (code : Option ErrorCode)
  | claimed (conn : Nat) (session : String)
  | goesOn (conn : Nat)
  | connected (conn : Nat) (session : String) (alert : Option Alert)
  | exit (conn : Nat) (session : String) (how : Exit)
  | disconnected (conn : Nat) (session : String)
  | released (conn : Nat) (session : String)
  | returned (conn : Nat)
  | clock (nowMs : Nat)
  | alerts (due : List Alert)
  deriving DecidableEq, Repr

namespace State

/-- A daemon just started. -/
def start (d : Daemon) (graceSecs nowMs : Nat) : State where
  watch := .new d.routing.sessionNames graceSecs nowMs
  inner _ := none
  handles _ := none
  nowMs := nowMs

def setStage (s : State) (conn : Nat) (stage : Option Stage) : State :=
  { s with handles := Function.update s.handles conn stage }

end State

inductive Step (d : Daemon) : State → Label → State → Prop
  | accept (s : State) (conn : Nat) (hfree : s.handles conn = none) :
      Step d s (.accept conn) (s.setStage conn (some .greeting))
  -- no hello in time, none that can be read, or the end of the connection
  | noHello (s : State) (conn : Nat) (hstage : s.handles conn = some .greeting) :
      Step d s (.refused conn none) (s.setStage conn none)
  | refused (s : State) (conn : Nat) (hello : Hello) (peerUid : Option Nat) (code : ErrorCode)
      (hstage : s.handles conn = some .greeting) (hcode : d.refusal hello peerUid = some code) :
      Step d s (.refused conn code) (s.setStage conn none)
  | busy (s : State) (conn : Nat) (hello : Hello) (peerUid : Option Nat)
      (hstage : s.handles conn = some .greeting) (hcode : d.refusal hello peerUid = none)
      (hbusy : (s.inner hello.session).isSome = true) :
      Step d s (.refused conn (some .sessionBusy)) (s.setStage conn none)
  | claim (s : State) (conn : Nat) (hello : Hello) (peerUid : Option Nat)
      (hstage : s.handles conn = some .greeting) (hcode : d.refusal hello peerUid = none)
      (hfree : s.inner hello.session = none) :
      Step d s (.claimed conn hello.session)
        { s.setStage conn (some (.held hello.session .welcoming)) with
          inner := Function.update s.inner hello.session (some conn) }
  | welcomeFailed (s : State) (conn : Nat) (session : String)
      (hstage : s.handles conn = some (.held session .welcoming)) :
      Step d s (.exit conn session .welcome) (s.setStage conn (some (.held session .dropping)))
  | welcome (s : State) (conn : Nat) (session : String)
      (hstage : s.handles conn = some (.held session .welcoming)) :
      Step d s (.goesOn conn) (s.setStage conn (some (.held session .welcomed)))
  -- the watch is told before the backlog is taken
  | connected (s : State) (conn : Nat) (session : String)
      (hstage : s.handles conn = some (.held session .welcomed)) :
      Step d s (.connected conn session (s.watch.connected session s.nowMs).2)
        { s.setStage conn (some (.held session .connected)) with
          watch := (s.watch.connected session s.nowMs).1 }
  | takeBacklog (s : State) (conn : Nat) (session : String) (count : Nat)
      (hstage : s.handles conn = some (.held session .connected)) :
      Step d s (.goesOn conn) (s.setStage conn (some (.held session (.writing count))))
  | writeEvent (s : State) (conn : Nat) (session : String) (left : Nat)
      (hstage : s.handles conn = some (.held session (.writing (left + 1)))) :
      Step d s (.goesOn conn) (s.setStage conn (some (.held session (.writing left))))
  /-- The function returns at once. -/
  | backlogFailed (s : State) (conn : Nat) (session : String) (left : Nat)
      (hstage : s.handles conn = some (.held session (.writing (left + 1)))) :
      Step d s (.exit conn session .backlog) (s.setStage conn (some (.held session .dropping)))
  | serve (s : State) (conn : Nat) (session : String)
      (hstage : s.handles conn = some (.held session (.writing 0))) :
      Step d s (.goesOn conn) (s.setStage conn (some (.held session .serving)))
  | served (s : State) (conn : Nat) (session : String) (how : Ending)
      (hstage : s.handles conn = some (.held session .serving)) :
      Step d s (.exit conn session (.served how)) (s.setStage conn (some (.held session .closing)))
  | disconnected (s : State) (conn : Nat) (session : String)
      (hstage : s.handles conn = some (.held session .closing)) :
      Step d s (.disconnected conn session)
        { s.setStage conn (some (.held session .dropping)) with
          watch := s.watch.disconnected session s.nowMs }
  /-- The first half of dropping the claim. -/
  | release (s : State) (conn : Nat) (session : String)
      (hstage : s.handles conn = some (.held session .dropping)) :
      Step d s (.released conn session)
        { s.setStage conn (some .restoring) with
          inner := Function.update s.inner session none }
  | restore (s : State) (conn : Nat) (hstage : s.handles conn = some .restoring) :
      Step d s (.returned conn) (s.setStage conn none)
  /-- The system clock may be set. -/
  | clock (s : State) (nowMs : Nat) : Step d s (.clock nowMs) { s with nowMs := nowMs }
  | tick (s : State) :
      Step d s (.alerts (s.watch.tick s.nowMs).2) { s with watch := (s.watch.tick s.nowMs).1 }
  | silent (s : State) (session roomId : String) (deliveredMs : Nat) :
      Step d s (.alerts (s.watch.silent session roomId deliveredMs s.nowMs).2.toList)
        { s with watch := (s.watch.silent session roomId deliveredMs s.nowMs).1 }

/-! ## What a run shows of a session -/

/-- The end that a label shows of a connection of the session that had its welcome. -/
def Label.exitOf (session : String) : Label → Option Exit
  | .exit _ s how => if s = session ∧ how ≠ .welcome then some how else none
  | _ => none

/-- How the last connection of the session that had its welcome came to its end. -/
def lastExit (session : String) (ls : List Label) : Option Exit :=
  (ls.filterMap (Label.exitOf session)).getLast?

def Label.clock? : Label → Option Nat
  | .clock nowMs => some nowMs
  | _ => none

/-- What the clock has shown so far. -/
def readings (startMs : Nat) (ls : List Label) : List Nat := startMs :: ls.filterMap Label.clock?

theorem lastExit_concat (session : String) (ls : List Label) (l : Label) :
    lastExit session (ls ++ [l]) = (l.exitOf session).or (lastExit session ls) := by
  cases h : l.exitOf session <;> simp [lastExit, h]

theorem readings_concat (startMs : Nat) (ls : List Label) (l : Label) :
    readings startMs (ls ++ [l]) = readings startMs ls ++ l.clock?.toList := by
  cases h : l.clock? <;> simp [readings, h]

/-- The watch has the session away since a time the clock has shown, and reports it once the grace
period has passed, unless it did so in the last day. -/
def Watched (w : Watch) (readings : List Nat) (session : String) : Prop :=
  ∃ since ∈ readings, w.awaySince session = some since ∧
    ∀ nowMs state, w.enabled = true → w.state? session = some state →
      w.graceMs ≤ nowMs - since → (∀ t ∈ state.alertedAt, Alert.REPEAT_MS ≤ nowMs - t) →
        .away session since ∈ (w.tick nowMs).2

theorem watched_iff {w : Watch} {readings : List Nat} {session : String} :
    Watched w readings session ↔ ∃ since ∈ readings, w.awaySince session = some since := by
  refine ⟨fun ⟨since, hmem, haway, _⟩ ↦ ⟨since, hmem, haway⟩, ?_⟩
  rintro ⟨since, hmem, haway⟩
  refine ⟨since, hmem, haway, ?_⟩
  intro nowMs state henabled hstate hgrace halerted
  apply Watch.away_mem_tick henabled hstate _ hgrace halerted
  simpa [Watch.awaySince, hstate] using haway

/-! ## The watch and the connections -/

/-- What the watch knows of a session that is not reported connected: it missed the end of the last
connection where that was a failed write of the backlog. -/
def Settled (away : Option Nat) (readings : List Nat) (last : Option Exit) : Prop :=
  if last = some .backlog then away = none else ∃ since ∈ readings, away = some since

/-- What the watch knows of a session by where its connection is. -/
def Phase.Agrees (away : Option Nat) (readings : List Nat) (last : Option Exit) : Phase → Prop
  | .connected | .writing _ | .serving => away = none
  | .closing => away = none ∧ last ≠ some .backlog
  | .welcoming | .welcomed | .dropping => Settled away readings last

theorem Settled.mono {away : Option Nat} {rs rs' : List Nat} {last : Option Exit}
    (h : Settled away rs last) (hsub : rs ⊆ rs') : Settled away rs' last := by
  unfold Settled at *
  split at h
  · next hlast => rwa [if_pos hlast]
  · next hlast =>
    rw [if_neg hlast]
    obtain ⟨since, hmem, haway⟩ := h
    exact ⟨since, hsub hmem, haway⟩

theorem Phase.Agrees.mono {away : Option Nat} {rs rs' : List Nat} {last : Option Exit} {p : Phase}
    (h : p.Agrees away rs last) (hsub : rs ⊆ rs') : p.Agrees away rs' last := by
  cases p with
  | connected | writing | serving | closing => exact h
  | welcoming | welcomed | dropping => exact Settled.mono h hsub

/-- The registry's name of a session is with the one connection that is past the claim, and the
watch agrees with where that is. -/
structure Tracks (session : String) (startMs : Nat) (s : State) (ls : List Label) : Prop where
  now : s.nowMs ∈ readings startMs ls
  known : (s.watch.state? session).isSome = true
  held : ∀ conn, s.inner session = some conn ↔ ∃ p, s.handles conn = some (.held session p)
  phase : ∀ conn p, s.handles conn = some (.held session p) →
    p.Agrees (s.watch.awaySince session) (readings startMs ls) (lastExit session ls)
  free : s.inner session = none →
    Settled (s.watch.awaySince session) (readings startMs ls) (lastExit session ls)

theorem readings_subset (startMs : Nat) (ls : List Label) (l : Label) :
    readings startMs ls ⊆ readings startMs (ls ++ [l]) := by
  rw [readings_concat]
  exact List.subset_append_left _ _

theorem lastExit_concat_of_none {session : String} {ls : List Label} {l : Label}
    (h : l.exitOf session = none) : lastExit session (ls ++ [l]) = lastExit session ls := by
  rw [lastExit_concat, h, Option.none_or]

namespace Tracks

variable {session : String} {startMs : Nat} {s t : State} {ls : List Label} {l : Label}

theorem move {conn : Nat} {σ : String} {p p' : Phase} (h : Tracks session startMs s ls)
    (hstage : s.handles conn = some (.held σ p))
    (hhandles : t.handles = Function.update s.handles conn (some (.held σ p')))
    (hinner : t.inner = s.inner) (hnow : t.nowMs = s.nowMs)
    (hknown : (t.watch.state? session).isSome = (s.watch.state? session).isSome)
    (hother : σ ≠ session → t.watch.awaySince session = s.watch.awaySince session ∧
      l.exitOf session = none)
    (hagrees : σ = session →
      p.Agrees (s.watch.awaySince session) (readings startMs ls) (lastExit session ls) →
      p'.Agrees (t.watch.awaySince session) (readings startMs (ls ++ [l]))
        (lastExit session (ls ++ [l]))) :
    Tracks session startMs t (ls ++ [l]) where
  now := hnow ▸ readings_subset startMs ls l h.now
  known := hknown ▸ h.known
  held conn' := by
    rw [hinner, hhandles, h.held conn']
    by_cases hc : conn' = conn
    · subst hc
      simp [hstage]
    · simp [hc]
  phase conn' q hq := by
    rw [hhandles] at hq
    by_cases hc : conn' = conn
    · subst hc
      obtain ⟨rfl, rfl⟩ : σ = session ∧ p' = q := by simpa using hq
      exact hagrees rfl (h.phase conn' p hstage)
    · have hq : s.handles conn' = some (.held session q) := by simpa [hc] using hq
      -- the registry names one holder, so the one that moves holds another session
      have hne : σ ≠ session := by
        rintro rfl
        have hthis := (h.held conn).mpr ⟨p, hstage⟩
        have hthat := (h.held conn').mpr ⟨q, hq⟩
        rw [hthis] at hthat
        exact hc (Option.some.inj hthat).symm
      obtain ⟨haway, hexit⟩ := hother hne
      rw [haway, lastExit_concat_of_none hexit]
      exact (h.phase conn' q hq).mono (readings_subset startMs ls l)
  free hfree := by
    rw [hinner] at hfree
    have hne : σ ≠ session := by
      rintro rfl
      rw [(h.held conn).mpr ⟨p, hstage⟩] at hfree
      cases hfree
    obtain ⟨haway, hexit⟩ := hother hne
    rw [haway, lastExit_concat_of_none hexit]
    exact (h.free hfree).mono (readings_subset startMs ls l)

theorem keep (h : Tracks session startMs s ls) (hinner : t.inner session = s.inner session)
    (hhandles : ∀ conn p, t.handles conn = some (.held session p) ↔
      s.handles conn = some (.held session p))
    (haway : t.watch.awaySince session = s.watch.awaySince session)
    (hknown : (t.watch.state? session).isSome = (s.watch.state? session).isSome)
    (hexit : l.exitOf session = none) (hnow : t.nowMs ∈ readings startMs (ls ++ [l])) :
    Tracks session startMs t (ls ++ [l]) where
  now := hnow
  known := hknown ▸ h.known
  held conn := by
    rw [hinner, h.held conn]
    simp only [hhandles]
  phase conn p hp := by
    rw [haway, lastExit_concat_of_none hexit]
    exact (h.phase conn p ((hhandles conn p).mp hp)).mono (readings_subset startMs ls l)
  free hfree := by
    rw [hinner] at hfree
    rw [haway, lastExit_concat_of_none hexit]
    exact (h.free hfree).mono (readings_subset startMs ls l)

end Tracks

theorem handles_other {s : State} {conn : Nat} {stage : Option Stage} {session : String}
    (hbefore : ∀ p, s.handles conn ≠ some (.held session p))
    (hafter : ∀ p, stage ≠ some (.held session p)) (conn' : Nat) (p : Phase) :
    (s.setStage conn stage).handles conn' = some (.held session p) ↔
      s.handles conn' = some (.held session p) := by
  by_cases hc : conn' = conn
  · subst hc
    simp [State.setStage, hbefore, hafter]
  · simp [State.setStage, hc]

theorem Tracks.init {d : Daemon} {session : String} (graceSecs startMs : Nat)
    (hsession : session ∈ d.routing.sessionNames) :
    Tracks session startMs (.start d graceSecs startMs) [] := by
  have hstate : (State.start d graceSecs startMs).watch.state? session = _ :=
    Watch.state?_new graceSecs startMs hsession
  have hsettled : Settled ((State.start d graceSecs startMs).watch.awaySince session)
      (readings startMs []) (lastExit session []) := by
    refine ⟨startMs, List.mem_cons_self, ?_⟩
    rw [Watch.awaySince, hstate]
    rfl
  exact ⟨List.mem_cons_self, by rw [hstate]; rfl, fun conn ↦ by simp [State.start],
    fun conn p hheld ↦ (by cases hheld), fun _ ↦ hsettled⟩

/-- Where the session was free, the connection that claims it holds it alone. -/
theorem Tracks.claim {session : String} {startMs : Nat} {s : State} {ls : List Label} {conn : Nat}
    {l : Label} (h : Tracks session startMs s ls) (hfree : s.inner session = none)
    (hexit : l.exitOf session = none) :
    Tracks session startMs { s.setStage conn (some (.held session .welcoming)) with
      inner := Function.update s.inner session (some conn) } (ls ++ [l]) := by
  -- a free name is one that no connection holds
  have hnone : ∀ conn' p, s.handles conn' ≠ some (.held session p) := by
    intro conn' p hp
    rw [(h.held conn').mpr ⟨p, hp⟩] at hfree
    cases hfree
  have hphase : ∀ conn' p, (s.setStage conn (some (.held session .welcoming))).handles conn' =
      some (.held session p) → conn' = conn ∧ p = .welcoming := by
    intro conn' p hp
    by_cases hc : conn' = conn
    · subst hc
      refine ⟨rfl, ?_⟩
      simpa [State.setStage, eq_comm] using hp
    · exact absurd (by simpa [State.setStage, hc] using hp) (hnone conn' p)
  refine ⟨readings_subset startMs ls l h.now, h.known, ?_, ?_, ?_⟩
  · intro conn'
    constructor
    · intro hinner
      obtain rfl : conn = conn' := by simpa using hinner
      exact ⟨.welcoming, by simp [State.setStage]⟩
    · rintro ⟨p, hp⟩
      obtain ⟨rfl, -⟩ := hphase conn' p hp
      simp
  · intro conn' p hp
    obtain ⟨-, rfl⟩ := hphase conn' p hp
    rw [lastExit_concat_of_none hexit]
    exact (h.free hfree).mono (readings_subset startMs ls l)
  · simp

/-- The connection that held the session gives it up. -/
theorem Tracks.release {session : String} {startMs : Nat} {s : State} {ls : List Label}
    {conn : Nat} {l : Label} (h : Tracks session startMs s ls)
    (hstage : s.handles conn = some (.held session .dropping))
    (hexit : l.exitOf session = none) :
    Tracks session startMs { s.setStage conn (some .restoring) with
      inner := Function.update s.inner session none } (ls ++ [l]) := by
  have hnone : ∀ conn' p, (s.setStage conn (some .restoring)).handles conn' ≠
      some (.held session p) := by
    intro conn' p hp
    by_cases hc : conn' = conn
    · subst hc
      simp [State.setStage] at hp
    · have hp : s.handles conn' = some (.held session p) := by
        simpa [State.setStage, hc] using hp
      have hthis := (h.held conn).mpr ⟨_, hstage⟩
      rw [(h.held conn').mpr ⟨p, hp⟩] at hthis
      exact hc (Option.some.inj hthis)
  refine ⟨readings_subset startMs ls l h.now, h.known, ?_, ?_, ?_⟩
  · intro conn'
    refine iff_of_false (by simp) ?_
    rintro ⟨p, hp⟩
    exact hnone conn' p hp
  · intro conn' p hp
    exact absurd hp (hnone conn' p)
  · intro _
    have hsettled : Settled _ _ _ := h.phase conn .dropping hstage
    rw [lastExit_concat_of_none hexit]
    exact hsettled.mono (readings_subset startMs ls l)

theorem Label.exitOf_of_ne {session σ : String} (conn : Nat) (how : Exit) (h : σ ≠ session) :
    (Label.exit conn σ how).exitOf session = none := by
  simp [Label.exitOf, h]

theorem lastExit_exit {session : String} (ls : List Label) (conn : Nat) {how : Exit}
    (h : how ≠ .welcome) : lastExit session (ls ++ [.exit conn session how]) = some how := by
  simp [lastExit_concat, Label.exitOf, h]

theorem tracks_step {d : Daemon} {session : String} {startMs : Nat} {s t : State} {ls : List Label}
    {l : Label} (h : Tracks session startMs s ls) (hstep : Step d s l t) :
    Tracks session startMs t (ls ++ [l]) := by
  have hnow := readings_subset startMs ls l h.now
  have hmono := readings_subset startMs ls l
  -- only the steps of the session's own connection are more than a frame
  cases hstep with
  | accept conn hfree =>
    exact h.keep rfl (handles_other (by simp [hfree]) (by simp)) rfl rfl rfl hnow
  | noHello conn hstage =>
    exact h.keep rfl (handles_other (by simp [hstage]) (by simp)) rfl rfl rfl hnow
  | refused conn hello peerUid code hstage =>
    exact h.keep rfl (handles_other (by simp [hstage]) (by simp)) rfl rfl rfl hnow
  | busy conn hello peerUid hstage =>
    exact h.keep rfl (handles_other (by simp [hstage]) (by simp)) rfl rfl rfl hnow
  | claim conn hello peerUid hstage hcode hfree =>
    by_cases hσ : hello.session = session
    · subst hσ
      exact h.claim hfree rfl
    · exact h.keep (by simp [Ne.symm hσ])
        (handles_other (by simp [hstage]) (by simp [hσ])) rfl rfl rfl hnow
  -- the watch was not told of this connection, and so knows what it knew
  | welcomeFailed conn σ hstage =>
    refine h.move hstage rfl rfl rfl rfl (fun hne ↦ ⟨rfl, Label.exitOf_of_ne conn _ hne⟩) ?_
    rintro - (hsettled : Settled _ _ _)
    rw [lastExit_concat_of_none (by simp [Label.exitOf])]
    exact hsettled.mono hmono
  | welcome conn σ hstage =>
    refine h.move hstage rfl rfl rfl rfl (fun _ ↦ ⟨rfl, rfl⟩) ?_
    rintro - (hsettled : Settled _ _ _)
    rw [lastExit_concat_of_none rfl]
    exact hsettled.mono hmono
  | connected conn σ hstage =>
    refine h.move hstage rfl rfl rfl (Watch.isSome_modify ..) ?_ ?_
    · intro hne
      exact ⟨Watch.awaySince_modify_of_ne _ hne.symm, rfl⟩
    · rintro rfl -
      exact Watch.awaySince_connected s.watch σ s.nowMs
  | takeBacklog conn σ count hstage =>
    exact h.move hstage rfl rfl rfl rfl (fun _ ↦ ⟨rfl, rfl⟩) fun _ haway ↦ haway
  | writeEvent conn σ left hstage =>
    exact h.move hstage rfl rfl rfl rfl (fun _ ↦ ⟨rfl, rfl⟩) fun _ haway ↦ haway
  | backlogFailed conn σ left hstage =>
    refine h.move hstage rfl rfl rfl rfl (fun hne ↦ ⟨rfl, Label.exitOf_of_ne conn _ hne⟩) ?_
    -- nobody tells the watch
    rintro rfl (haway : _ = none)
    rw [lastExit_exit ls conn (by simp)]
    exact haway
  | serve conn σ hstage =>
    exact h.move hstage rfl rfl rfl rfl (fun _ ↦ ⟨rfl, rfl⟩) fun _ haway ↦ haway
  | served conn σ how hstage =>
    refine h.move hstage rfl rfl rfl rfl (fun hne ↦ ⟨rfl, Label.exitOf_of_ne conn _ hne⟩) ?_
    rintro rfl (haway : _ = none)
    rw [lastExit_exit ls conn (by simp)]
    exact ⟨haway, by simp⟩
  | disconnected conn σ hstage =>
    refine h.move hstage rfl rfl rfl (Watch.isSome_modify ..) ?_ ?_
    · intro hne
      exact ⟨Watch.awaySince_modify_of_ne _ hne.symm, rfl⟩
    · rintro rfl ⟨haway, hlast⟩
      rw [lastExit_concat_of_none rfl]
      show Settled _ _ _
      rw [Settled, if_neg hlast]
      -- the session was not away, so it is from now on
      refine ⟨s.nowMs, hnow, ?_⟩
      show (s.watch.disconnected σ s.nowMs).awaySince σ = _
      rw [Watch.awaySince_disconnected s.nowMs h.known, haway]
      rfl
  | release conn σ hstage =>
    by_cases hσ : σ = session
    · subst hσ
      exact h.release hstage rfl
    · exact h.keep (by simp [Ne.symm hσ])
        (handles_other (by simp [hstage, hσ]) (by simp)) rfl rfl rfl hnow
  | restore conn hstage =>
    exact h.keep rfl (handles_other (by simp [hstage]) (by simp)) rfl rfl rfl hnow
  | clock nowMs =>
    exact h.keep rfl (fun _ _ ↦ .rfl) rfl rfl rfl (by simp [readings_concat, Label.clock?])
  | tick =>
    obtain ⟨haway, hknown⟩ := Watch.awaySince_of_map (Watch.state?_tick s.watch s.nowMs session)
    exact h.keep rfl (fun _ _ ↦ .rfl) haway hknown rfl hnow
  | silent name roomId deliveredMs =>
    obtain ⟨haway, hknown⟩ := Watch.awaySince_of_map
      (Watch.state?_silent s.watch name roomId deliveredMs s.nowMs session)
    exact h.keep rfl (fun _ _ ↦ .rfl) haway hknown rfl hnow

theorem tracks_run {d : Daemon} {session : String} {graceSecs startMs : Nat} {s : State}
    {ls : List Label} (h : Lts.Run (Step d) (.start d graceSecs startMs) ls s)
    (hsession : session ∈ d.routing.sessionNames) : Tracks session startMs s ls := by
  generalize hstart : State.start d graceSecs startMs = start at h
  induction h with
  | nil =>
    subst hstart
    exact .init graceSecs startMs hsession
  | snoc _ hstep ih => exact tracks_step ih hstep

/-- Once no connection holds a session, the watch has it away since a time already past, and will
tell the owner, exactly where the last connection that had its welcome did not come to its end by a
failed write of the backlog. -/
theorem watched_iff_lastExit {d : Daemon} {session : String} {graceSecs startMs : Nat} {s : State}
    {ls : List Label} (h : Lts.Run (Step d) (.start d graceSecs startMs) ls s)
    (hsession : session ∈ d.routing.sessionNames) (hfree : s.inner session = none) :
    Watched s.watch (readings startMs ls) session ↔ lastExit session ls ≠ some .backlog := by
  have hsettled := (tracks_run h hsession).free hfree
  rw [watched_iff]
  unfold Settled at hsettled
  split at hsettled
  · next hlast =>
    simp [hlast, hsettled]
  · next hlast => exact iff_of_true hsettled hlast

/-- The daemon of four sessions, with the users of one of them known. -/
def someDaemon : Daemon := ⟨.new Routing.minds, fun name ↦ if name = "hub" then some 1001 else none⟩

/-- The session gets its welcome and its backlog of one event, and closes its connection. -/
theorem watched_iff_lastExit_closed : ∃ ls s,
    Lts.Run (Step someDaemon) (.start someDaemon 600 1000) ls s ∧ s.handles 0 = none ∧
      Watched s.watch (readings 1000 ls) "hub" := by
  have hrun := ((((((((((Lts.Run.single
    (Step.accept (d := someDaemon) (.start someDaemon 600 1000) 0 rfl)).snoc
    (.claim _ 0 ⟨4, "hub", "silta-claude"⟩ (some 1001) rfl (by decide +kernel) rfl)).snoc
    (.welcome _ 0 "hub" rfl)).snoc
    (.connected _ 0 "hub" rfl)).snoc
    (.takeBacklog _ 0 "hub" 1 rfl)).snoc
    (.writeEvent _ 0 "hub" 0 rfl)).snoc
    (.serve _ 0 "hub" rfl)).snoc
    (.served _ 0 "hub" .endOfStream rfl)).snoc
    (.disconnected _ 0 "hub" rfl)).snoc
    (.release _ 0 "hub" rfl)).snoc
    (.restore _ 0 rfl)
  exact ⟨_, _, hrun, rfl, (watched_iff_lastExit hrun (by decide) rfl).mpr (by decide)⟩

/-- The connection breaks while the backlog is written: the function returns, and the watch still
has the session connected. -/
theorem watched_fails : ¬∀ d session graceSecs startMs ls s,
    Lts.Run (Step d) (.start d graceSecs startMs) ls s → session ∈ d.routing.sessionNames →
      s.inner session = none → Watched s.watch (readings startMs ls) session := by
  intro h
  have hrun := (((((((Lts.Run.single
    (Step.accept (d := someDaemon) (.start someDaemon 600 1000) 0 rfl)).snoc
    (.claim _ 0 ⟨4, "hub", "silta-claude"⟩ (some 1001) rfl (by decide +kernel) rfl)).snoc
    (.welcome _ 0 "hub" rfl)).snoc
    (.connected _ 0 "hub" rfl)).snoc
    (.takeBacklog _ 0 "hub" 1 rfl)).snoc
    (.backlogFailed _ 0 "hub" 0 rfl)).snoc
    (.release _ 0 "hub" rfl)).snoc
    (.restore _ 0 rfl)
  obtain ⟨since, -, haway⟩ := watched_iff.mp (h _ "hub" _ _ _ _ hrun (by decide) rfl)
  have htracks : Tracks "hub" 1000 _ _ := tracks_run hrun (by decide)
  have hsettled := htracks.free rfl
  rw [Settled, if_pos (by decide), haway] at hsettled
  cases hsettled

end Handle

end Silta
