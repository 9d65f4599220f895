import Silta.Announced
import Silta.ClientLines
import Silta.Connections
import Silta.Handle
import Silta.Replay
import Silta.Wire

/-!
# The handshake

The first line of a connection: who is refused and with which words, and what the claim of a session
changes, among any number of connections that want the same one.
-/

namespace Silta

namespace Handshake

open ClientLines (Serde parseClientLine)

/-- What the handling of a connection reads of the daemon and never changes. -/
structure Daemon extends Handle.Daemon where
  serde : Serde
  inboxMaxAgeDays : Nat

/-- What the connections share with the rest of the daemon. -/
structure State where
  delivery : Delivery.State
  marks : Replay.Marks
  watch : Alert.Watch

/-- What the reading of the first line comes to. -/
inductive FirstRead
  | timedOut
  | failed (err : String)
  | closed
  | line (text : String)
  deriving DecidableEq, Repr

/-- Why no hello came of the first line: the connection is refused with an error, or closed without
a word. -/
abbrev NoHello := Option ProtocolError

def handshake (serde : Serde) : FirstRead → Except NoHello Hello
  | .timedOut => .error (some ⟨.badRequest, "no hello within 5 s"⟩)
  | .failed _ => .error none
  | .closed => .error none
  | .line text =>
    match parseClientLine serde text with
    | some (.message (.hello hello)) => .ok hello
    | some _ => .error (some ⟨.badRequest, "the first line must be a hello"⟩)
    | none => .error none

namespace Daemon

/-- The checks of a hello in front of the claim. -/
def refusal (d : Daemon) (hello : Hello) (peerUid : Option Nat) : Option ProtocolError :=
  if hello.protocol ≠ Handle.PROTOCOL_VERSION then
    some ⟨.protocolMismatch, s!"this daemon speaks protocol {Handle.PROTOCOL_VERSION}, " ++
      s!"the client {hello.protocol}"⟩
  else if (d.routing.session hello.session).isNone then
    some ⟨.unknownSession,
      s!"no session {d.serde.quote hello.session} in the daemon configuration"⟩
  else match d.users hello.session, peerUid with
    | some uid, some peer =>
      if uid = peer then none
      else some ⟨.wrongUser, s!"session {d.serde.quote hello.session} runs as uid {uid}, " ++
        s!"the connecting process as uid {peer}"⟩
    | _, _ =>
      some ⟨.wrongUser, s!"cannot verify the user behind session {d.serde.quote hello.session}"⟩

def welcome (d : Daemon) (session : String) : Welcome where
  protocol := Handle.PROTOCOL_VERSION
  session := session
  userId := d.routing.bot
  people := d.routing.peopleFor session
  inboxMaxAgeDays := d.inboxMaxAgeDays

end Daemon

inductive Answer
  | closed
  | refused (error : ProtocolError)
  /-- The session is the connection's, which is welcomed next. -/
  | claimed (session : String)
  deriving DecidableEq, Repr

/-- What is written to a connection up to its claim. -/
def Answer.written : Answer → List DaemonMessage
  | .refused error => [.error error]
  | _ => []

/-- A connection up to its claim.  What stands before the claim reads nothing that changes, so all
of it is one step with the claim, which is one section of the registry's lock. -/
def greet (d : Daemon) (s : State) (first : FirstRead) (peerUid : Option Nat) : State × Answer :=
  match handshake d.serde first with
  | .error (some error) => (s, .refused error)
  | .error none => (s, .closed)
  | .ok hello =>
    match d.refusal hello peerUid with
    | some error => (s, .refused error)
    | none =>
      match s.delivery.registry.claim hello.session with
      | none => (s, .refused ⟨.sessionBusy,
          s!"session {d.serde.quote hello.session} is already connected"⟩)
      | some (channel, registry) =>
        ({ s with delivery :=
            { s.delivery.setRegistry registry with
              conns := s.delivery.conns ++ [⟨hello.session, channel, .claimed, false⟩] } },
          .claimed hello.session)

/-- The first line is a hello with the daemon's protocol for a session that is configured, whose
user is the peer, and which no connection holds. -/
structure Valid (d : Daemon) (s : State) (first : FirstRead) (peerUid : Option Nat)
    (hello : Hello) : Prop where
  line : ∃ text, first = .line text ∧
    parseClientLine d.serde text = some (.message (.hello hello))
  protocol : hello.protocol = Handle.PROTOCOL_VERSION
  configured : (d.routing.session hello.session).isSome = true
  user : ∃ uid, d.users hello.session = some uid ∧ peerUid = some uid
  free : s.delivery.registry.inner hello.session = none

/-! ## Refusals -/

theorem handshake_eq_ok_iff {serde : Serde} {first : FirstRead} {hello : Hello} :
    handshake serde first = .ok hello ↔ ∃ text, first = .line text ∧
      parseClientLine serde text = some (.message (.hello hello)) := by
  cases first with
  | timedOut => simp [handshake]
  | failed err => simp [handshake]
  | closed => simp [handshake]
  | line text =>
    simp only [handshake, FirstRead.line.injEq, exists_eq_left']
    split
    · next hello' hline => rw [hline]; simp
    · next incoming hother hline =>
      rw [hline]
      refine iff_of_false nofun fun h ↦ ?_
      exact hother hello (Option.some.inj h)
    · next hline => rw [hline]; simp

/-- The words are of the code that the checks come to. -/
theorem refusal_code (d : Daemon) (hello : Hello) (peerUid : Option Nat) :
    (d.refusal hello peerUid).map ProtocolError.code =
      d.toDaemon.refusal ⟨hello.protocol, hello.session, hello.client⟩ peerUid := by
  unfold Daemon.refusal Handle.Daemon.refusal
  by_cases hprotocol : hello.protocol = Handle.PROTOCOL_VERSION
  swap
  · simp [hprotocol]
  by_cases hsession : (d.routing.session hello.session).isNone = true
  · simp [hprotocol, hsession]
  cases d.users hello.session with
  | none => simp [hprotocol, hsession]
  | some uid =>
    cases peerUid with
    | none => simp [hprotocol, hsession]
    | some peer =>
      by_cases hpeer : uid = peer
      · simp [hprotocol, hsession, hpeer]
      · simp [hprotocol, hsession, hpeer]

theorem refusal_eq_none_iff {d : Daemon} {hello : Hello} {peerUid : Option Nat} :
    d.refusal hello peerUid = none ↔ hello.protocol = Handle.PROTOCOL_VERSION ∧
      (d.routing.session hello.session).isSome = true ∧
        ∃ uid, d.users hello.session = some uid ∧ peerUid = some uid := by
  unfold Daemon.refusal
  -- the checks in the order of the code, each with what it refuses
  by_cases hprotocol : hello.protocol = Handle.PROTOCOL_VERSION
  swap
  · simp [hprotocol]
  cases hsession : d.routing.session hello.session with
  | none => simp [hprotocol]
  | some session =>
    cases huser : d.users hello.session with
    | none => simp [hprotocol]
    | some uid =>
      cases peerUid with
      | none => simp [hprotocol]
      | some peer =>
        by_cases hpeer : uid = peer
        · simp [hprotocol, hpeer]
        · simp [hprotocol, hpeer, Ne.symm hpeer]

theorem claim_eq_none_iff {r : Registry} {session : String} :
    r.claim session = none ↔ (r.inner session).isSome = true := by
  unfold Registry.claim
  split
  · next hheld => exact iff_of_true rfl hheld
  · next hfree => exact iff_of_false nofun hfree

/-- A connection that does not get its session leaves everything as it is and is told of an error at
most. -/
theorem greet_of_not_valid {d : Daemon} {s : State} {first : FirstRead} {peerUid : Option Nat}
    (h : ¬∃ hello, Valid d s first peerUid hello) :
    (greet d s first peerUid).1 = s ∧
      ((greet d s first peerUid).2 = .closed ∨
        ∃ error, (greet d s first peerUid).2 = .refused error) := by
  unfold greet
  split
  · exact ⟨rfl, .inr ⟨_, rfl⟩⟩
  · exact ⟨rfl, .inl rfl⟩
  next hello hline =>
    split
    · exact ⟨rfl, .inr ⟨_, rfl⟩⟩
    next hchecks =>
      split
      · exact ⟨rfl, .inr ⟨_, rfl⟩⟩
      next channel registry hclaim =>
        -- every check passed, so the hello is valid
        obtain ⟨hprotocol, hsession, huser⟩ := refusal_eq_none_iff.mp hchecks
        refine absurd ⟨hello, handshake_eq_ok_iff.mp hline, hprotocol, hsession, huser, ?_⟩ h
        by_contra hheld
        have hnone := claim_eq_none_iff.mpr (Option.isSome_iff_ne_none.mpr hheld)
        rw [hclaim] at hnone
        nomatch hnone

/-- A valid hello gets its session. -/
theorem greet_of_valid {d : Daemon} {s : State} {first : FirstRead} {peerUid : Option Nat}
    {hello : Hello} (h : Valid d s first peerUid hello) :
    ∃ channel registry, s.delivery.registry.claim hello.session = some (channel, registry) ∧
      greet d s first peerUid =
        ({ s with delivery :=
            { s.delivery.setRegistry registry with
              conns := s.delivery.conns ++ [⟨hello.session, channel, .claimed, false⟩] } },
          .claimed hello.session) := by
  have hline := handshake_eq_ok_iff.mpr h.line
  have hchecks : d.refusal hello peerUid = none :=
    refusal_eq_none_iff.mpr ⟨h.protocol, h.configured, h.user⟩
  cases hclaim : s.delivery.registry.claim hello.session with
  | none =>
    have hheld := claim_eq_none_iff.mp hclaim
    rw [h.free] at hheld
    nomatch hheld
  | some claimed =>
    refine ⟨claimed.1, claimed.2, rfl, ?_⟩
    rw [greet, hline]
    dsimp only
    rw [hchecks]
    dsimp only
    rw [hclaim]

/-! ## Any number of connections -/

inductive Label
  | greeted (first : FirstRead) (peerUid : Option Nat) (answer : Answer)
  | welcomed (conn : Nat) (welcome : Welcome)
  | delivery (l : Delivery.Label)
  | marks
  | watch

/-- The connections up to their claims, and everything else that the daemon does in any order. -/
inductive Step (d : Daemon) : State → Label → State → Prop
  | greet {s : State} (first : FirstRead) (peerUid : Option Nat) :
      Step d s (.greeted first peerUid (greet d s first peerUid).2) (greet d s first peerUid).1
  | welcome {s : State} {i : Nat} {conn : Delivery.Conn} (hi : s.delivery.At i conn)
      (hs : conn.stage = .claimed) :
      Step d s (.welcomed i (d.welcome conn.session)) s
  -- a session is claimed by a hello only
  | delivery {s : State} {l : Delivery.Label} {delivery : Delivery.State}
      (hl : ∀ session, l ≠ .claim session) (h : Delivery.Step s.delivery l delivery) :
      Step d s (.delivery l) { s with delivery := delivery }
  | marks {s : State} (marks : Replay.Marks) : Step d s .marks { s with marks := marks }
  | watch {s : State} (watch : Alert.Watch) : Step d s .watch { s with watch := watch }

def State.start (maxAgeMs : Nat) (marks : Replay.Marks) (watch : Alert.Watch) : State :=
  ⟨.init maxAgeMs, marks, watch⟩

/-- A connection up to its claim is a step of the delivery or leaves it as it is. -/
theorem greet_delivery (d : Daemon) (s : State) (first : FirstRead) (peerUid : Option Nat) :
    (greet d s first peerUid).1.delivery = s.delivery ∨ ∃ l,
      Delivery.Step s.delivery l (greet d s first peerUid).1.delivery := by
  by_cases hvalid : ∃ hello, Valid d s first peerUid hello
  · obtain ⟨hello, hvalid⟩ := hvalid
    obtain ⟨channel, registry, hclaim, hgreet⟩ := greet_of_valid hvalid
    rw [hgreet]
    exact .inr ⟨_, .claim hello.session channel hclaim⟩
  · rw [(greet_of_not_valid hvalid).1]
    exact .inl rfl

theorem Step.wired {d : Daemon} {s t : State} {l : Label} (hs : Delivery.Wired s.delivery)
    (h : Step d s l t) : Delivery.Wired t.delivery := by
  cases h with
  -- up to its claim a connection is a step of the delivery
  | greet first peerUid =>
    rcases greet_delivery d s first peerUid with hsame | ⟨l, hstep⟩
    · rwa [hsame]
    · exact Delivery.wired_step hs hstep
  | welcome _ _ => exact hs
  | delivery _ hstep => exact Delivery.wired_step hs hstep
  | marks _ => exact hs
  | watch _ => exact hs

theorem wired_of_run {d : Daemon} {maxAgeMs : Nat} {marks : Replay.Marks} {watch : Alert.Watch}
    {ls : List Label} {s : State} (h : Lts.Run (Step d) (.start maxAgeMs marks watch) ls s) :
    Delivery.Wired s.delivery :=
  h.invariant (P := fun _ ↦ True) (fun _ _ _ hs _ hstep ↦ hstep.wired hs) (.init maxAgeMs)
    fun _ _ ↦ trivial

/-- Unless the first line is a valid hello for a session that is free, the connection is closed or
refused, nothing changes, and no more than the error is written; and of the connections that a
session has at any time, one at most has been claimed and welcomed and is not over. -/
theorem refused_changes_nothing (d : Daemon) :
    (∀ s first peerUid, (¬∃ hello, Valid d s first peerUid hello) →
      (greet d s first peerUid).1 = s ∧
        (∀ session, (greet d s first peerUid).2 ≠ .claimed session) ∧
        ∀ m ∈ (greet d s first peerUid).2.written, ∃ error, m = .error error) ∧
    ∀ maxAgeMs marks watch ls s, Lts.Run (Step d) (.start maxAgeMs marks watch) ls s →
      ∀ i j a b, s.delivery.At i a → s.delivery.At j b → a.session = b.session →
        a.stage.holds = true → b.stage.holds = true → i = j := by
  refine ⟨fun s first peerUid h ↦ ?_, fun maxAgeMs marks watch ls s hrun i j a b hi hj ↦ ?_⟩
  · obtain ⟨hsame, hanswer⟩ := greet_of_not_valid h
    rcases hanswer with hclosed | ⟨error, hrefused⟩
    · rw [hclosed]
      have hnone : Answer.closed.written = [] := rfl
      exact ⟨hsame, nofun, fun m hm ↦ absurd (hnone ▸ hm) List.not_mem_nil⟩
    · rw [hrefused]
      refine ⟨hsame, nofun, fun m hm ↦ ⟨error, ?_⟩⟩
      exact List.mem_singleton.mp hm
  · exact (wired_of_run hrun).holder_unique hi hj

/-- The daemon of four sessions. -/
def someDaemon : Daemon where
  toDaemon := Handle.someDaemon
  serde := compactSerde
  inboxMaxAgeDays := 30

def waiting : Event where
  kind := .message
  person := "Bob"
  role := .owner
  sender := "@bob:silta.test"
  roomId := "!family:silta.test"
  room := .group
  eventId := "$1"
  ts := "2026-01-01T00:00:00Z"
  inReplyTo := none
  thread := none
  reactsTo := none
  text := "hello"
  transcribed := false
  attachments := []

/-- One session is connected and has an event in flight, and one is away and has a backlog. -/
def busy : State where
  delivery :=
    { registry :=
        { Registry.new 300000 with
          inner := fun session ↦ if session = "hub" then some 0 else none
          backlogs := fun session ↦
            if session = "alice" then some ⟨[(1000, waiting)], BACKLOG_MAX, 300000⟩ else none
          inflight := fun session ↦ if session = "hub" then some [(900, waiting)] else none
          next := 1 }
      conns := [⟨"hub", 0, .serving, true⟩]
      pending := 0 }
  marks := fun roomId ↦ if roomId = "!family:silta.test" then some ⟨800, "$0"⟩ else none
  watch := .new ["alice", "hub"] 300 0

/-- A second process of the session's own user is told that the session is taken. -/
theorem refused_changes_nothing_busy :
    let line := FirstRead.line (compact.text
      (ClientMessage.toJson (.hello ⟨4, "hub", "silta-claude"⟩)))
    (greet someDaemon busy line (some 1001)).2 = .refused ⟨.sessionBusy,
        "session " ++ compactSerde.quote "hub" ++ " is already connected"⟩ ∧
      (greet someDaemon busy line (some 1001)).1 = busy ∧
        ∀ m ∈ (greet someDaemon busy line (some 1001)).2.written, ∃ error, m = .error error := by
  intro line
  have hparse : parseClientLine compactSerde (compact.text
      (ClientMessage.toJson (.hello ⟨4, "hub", "silta-claude"⟩))) =
        some (.message (.hello ⟨4, "hub", "silta-claude"⟩)) :=
    parseClientLine_text compact_lawful (show 4 < 2 ^ 32 by decide)
  obtain ⟨hsame, -, hwritten⟩ := (refused_changes_nothing someDaemon).1 busy line (some 1001) <| by
    rintro ⟨hello, hvalid⟩
    obtain ⟨text, htext, hline⟩ := hvalid.line
    obtain rfl := FirstRead.line.inj htext
    obtain rfl : hello = ⟨4, "hub", "silta-claude"⟩ :=
      (ClientMessage.hello.inj (ClientLines.Incoming.message.inj
        (Option.some.inj (hparse.symm.trans hline)))).symm
    nomatch hvalid.free
  refine ⟨?_, hsame, hwritten⟩
  have hhello : handshake someDaemon.serde line = .ok ⟨4, "hub", "silta-claude"⟩ :=
    handshake_eq_ok_iff.mpr ⟨_, rfl, hparse⟩
  have hchecks : someDaemon.refusal ⟨4, "hub", "silta-claude"⟩ (some 1001) = none :=
    refusal_eq_none_iff.mpr ⟨rfl, by decide +kernel, 1001, rfl, rfl⟩
  rw [greet, hhello]
  dsimp only
  rw [hchecks]
  rfl

end Handshake

end Silta
