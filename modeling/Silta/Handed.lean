import Silta.Connections

/-!
# Handed events

What each connection was handed and did not acknowledge, kept beside the run, against the backlog
and the list in flight of its session.
-/

namespace Silta

namespace Delivery

/-- By connection, the events it was handed and that it did not acknowledge, in the order of the
handing. -/
abbrev Ledger := Nat → List (Nat × Event)

def State.stageOf (s : State) (i : Nat) : Option Stage := (s.conns[i]?).map Conn.stage

/-- What a step hands to a connection: an event through its channel, or what `take_backlog` took. -/
def handed (s t : State) (i : Nat) : Label → List (Nat × Event)
  | .deliver d (.ok ()) =>
    if (s.conns[i]?).any fun conn ↦ s.registry.inner d.session = some conn.channel then
      [(d.ts, d.event)]
    else []
  -- the connection whose stage this step moves is the one that drained the items
  | .extend =>
    match s.stageOf i, t.stageOf i with
    | some (.drained items), some (.handing _) => items
    | _, _ => []
  | _ => []

def Ledger.note (g : Ledger) (s t : State) (l : Label) : Ledger := fun i ↦
  match l with
  | .ack session eventId _ =>
    if (s.conns[i]?).any fun conn ↦ conn.session = session ∧ conn.stage = .serving then
      (g i).eraseP fun item ↦ item.2.eventId == eventId
    else g i
  -- a drop takes nothing back: a connection that left keeps what it did not acknowledge
  | l => g i ++ handed s t i l

/-- A step with the ledger kept beside it. -/
inductive LedgerStep : State × Ledger → Label → State × Ledger → Prop
  | mk {s t : State} {l : Label} (g : Ledger) (h : Step s l t) :
      LedgerStep (s, g) l (t, g.note s t l)

/-- The ledger only looks on. -/
theorem exists_ledger {s t : State} {ls : List Label} (h : Lts.Run Step s ls t) (g : Ledger) :
    ∃ g', Lts.Run LedgerStep (s, g) ls (t, g') := by
  induction h with
  | nil => exact ⟨g, .nil _⟩
  | snoc _ hstep ih =>
    obtain ⟨g', hrun⟩ := ih
    exact ⟨_, hrun.snoc (.mk g' hstep)⟩

/-- Nothing waits behind the back of a connection that is up: the backlog of its session is empty,
in flight is what it was handed and did not acknowledge, and each ack of that finds its event. -/
def NothingBehind (s : State) (g : Ledger) : Prop :=
  ∀ i conn, s.At i conn → conn.stage.up = true →
    (s.registry.backlogOf conn.session).items = [] ∧
      s.registry.inflightOf conn.session = g i ∧
        ∀ item ∈ g i, (s.registry.ack conn.session item.2.eventId).2.isSome = true

/-- The steps that put nothing behind the back of a connection.  No dispatch queues its event once
the session's connection has drained the backlog; the backlog is drained when the drops of the
earlier connections hold nothing and have left nothing in flight; and no such drop takes what a
later connection was handed. -/
def Calm (s : State) (g : Ledger) (t : State) : Label → Prop
  | .enqueue d _ _ =>
    ∀ i conn, s.At i conn → conn.session = d.session → conn.stage.pastDrain = false
  | .drain session _ =>
    ∀ i conn, s.At i conn → conn.session = session → conn.stage.held = [] ∧
      (conn.stage.holds = true → s.registry.inflightOf session = g i)
  | .takeInflight =>
    ∀ i conn, s.At i conn → conn.stage.holds = true → g i = [] ∨
      t.registry.inflightOf conn.session = s.registry.inflightOf conn.session
  | _ => True

/-- A step of the daemon that puts nothing behind the back of a connection. -/
def CalmStep (x : State × Ledger) (l : Label) (y : State × Ledger) : Prop :=
  LedgerStep x l y ∧ Calm x.1 x.2 y.1 l

theorem CalmStep.mk {s t : State} {g : Ledger} {l : Label} (h : Step s l t)
    (hcalm : Calm s g t l) : CalmStep (s, g) l (t, g.note s t l) :=
  ⟨.mk g h, hcalm⟩

/-! ## The invariant -/

/-- What is known of a connection that has its session's name.  Before it drains the backlog, an
earlier connection may still have events in flight. -/
structure Holder (s : State) (g : Ledger) (i : Nat) (conn : Conn) : Prop where
  inflight : ∃ old, s.registry.inflightOf conn.session = old ++ g i ∧
    (conn.stage.pastDrain = true → old = [])
  backlog : conn.stage.pastDrain = true → (s.registry.backlogOf conn.session).items = []
  others : conn.stage.pastDrain = true → ∀ j c, s.At j c → c.session = conn.session → j ≠ i →
    c.stage.held = []

structure Kept (s : State) (g : Ledger) : Prop where
  wired : Wired s
  unborn : ∀ i, s.conns[i]? = none → g i = []
  holder : ∀ i conn, s.At i conn → conn.stage.holds = true → Holder s g i conn

theorem Kept.init (maxAgeMs : Nat) : Kept (State.init maxAgeMs) fun _ ↦ [] where
  wired := .init maxAgeMs
  unborn := fun _ _ ↦ rfl
  holder := by simp [State.At, State.init]

/-- What a step leaves as it was for a connection. -/
theorem Holder.frame {s t : State} {g g' : Ledger} {i : Nat} {conn conn' : Conn}
    (h : Holder s g i conn) (hsession : conn'.session = conn.session)
    (hpast : conn'.stage.pastDrain = true → conn.stage.pastDrain = true)
    (hinflight : t.registry.inflightOf conn.session = s.registry.inflightOf conn.session)
    (hbacklog : t.registry.backlogOf conn.session = s.registry.backlogOf conn.session)
    (hg : g' i = g i)
    (hothers : ∀ j c, t.At j c → c.session = conn.session → j ≠ i → c.stage.held = [] ∨
      ∃ c', s.At j c' ∧ c'.session = conn.session ∧ c'.stage.held = c.stage.held) :
    Holder t g' i conn' where
  inflight := by
    obtain ⟨old, hold, hnone⟩ := h.inflight
    exact ⟨old, by rw [hsession, hinflight, hg, hold], fun hup ↦ hnone (hpast hup)⟩
  backlog hup := by
    rw [hsession, hbacklog]
    exact h.backlog (hpast hup)
  others hup j c hj hc hne := by
    rw [hsession] at hc
    rcases hothers j c hj hc hne with hnone | ⟨c', hj', hc', hheld⟩
    · exact hnone
    · rw [← hheld]
      exact h.others (hpast hup) j c' hj' hc' hne

theorem others_same {s t : State} (hconns : t.conns = s.conns) (k : String) (i j : Nat) (c : Conn)
    (hj : t.At j c) (hc : c.session = k) (_ : j ≠ i) :
    c.stage.held = [] ∨ ∃ c', s.At j c' ∧ c'.session = k ∧ c'.stage.held = c.stage.held := by
  exact .inr ⟨c, (State.at_congr hconns).mp hj, hc, rfl⟩

theorem others_setStage {s : State} {r : Registry} {i₀ : Nat} {conn b : Conn} {stage : Stage}
    (hi : s.At i₀ conn) (k : String) (hmover : b.session = k → stage.held = []) (i j : Nat)
    (c : Conn) (hj : ((s.setRegistry r).setStage i₀ b stage).At j c) (hc : c.session = k)
    (_ : j ≠ i) :
    c.stage.held = [] ∨ ∃ c', s.At j c' ∧ c'.session = k ∧ c'.stage.held = c.stage.held := by
  rcases (State.at_setStage (s := s.setRegistry r) hi).mp hj with ⟨-, rfl⟩ | ⟨-, hj⟩
  · exact .inl (hmover hc)
  · exact .inr ⟨c, hj, hc, rfl⟩

theorem State.stageOf_at {s : State} {i : Nat} {conn : Conn} (hi : s.At i conn) :
    s.stageOf i = some conn.stage := by
  unfold State.stageOf
  rw [hi]
  rfl

/-- What a step says of the ledger of a connection that has made its appearance. -/
theorem note_deliver {s t : State} {g : Ledger} {d : Dispatch} {i : Nat} {conn : Conn}
    (hwired : Wired s) (hi : s.At i conn) (hholds : conn.stage.holds = true) :
    g.note s t (.deliver d (.ok ())) i =
      if conn.session = d.session then g i ++ [(d.ts, d.event)] else g i := by
  have htest : s.registry.inner d.session = some conn.channel ↔ conn.session = d.session := by
    constructor
    · exact fun hinner ↦ (hwired.holds_of_inner hi hinner).1
    · intro hsession
      rw [← hsession]
      exact hwired.inner_of_holds hi hholds
  unfold Ledger.note handed
  rw [hi]
  by_cases hsession : conn.session = d.session
  · simp [htest, hsession]
  · simp [htest, hsession]

theorem note_ack {s t : State} {g : Ledger} {session eventId : String}
    {found : Option (Nat × Event)} {i : Nat} {conn : Conn} (hi : s.At i conn) :
    g.note s t (.ack session eventId found) i =
      if conn.session = session ∧ conn.stage = .serving then
        (g i).eraseP fun item ↦ item.2.eventId == eventId
      else g i := by
  unfold Ledger.note
  rw [hi]
  simp

/-- The connection that takes what it has drained is handed it. -/
theorem note_extend {s : State} {r : Registry} {g : Ledger} {i : Nat} {conn : Conn}
    {items : List (Nat × Event)} (hi : s.At i conn) (hs : conn.stage = .drained items) :
    g.note s ((s.setRegistry r).setStage i conn (.handing items)) .extend i = g i ++ items := by
  have hafter : ((s.setRegistry r).setStage i conn (.handing items)).At i
      { conn with stage := .handing items } :=
    (State.at_setStage (s := s.setRegistry r) hi).mpr (.inl ⟨rfl, rfl⟩)
  simp only [Ledger.note, handed, State.stageOf_at hi, hs, State.stageOf_at hafter]

theorem note_extend_of_ne {s : State} {r : Registry} {g : Ledger} {i j : Nat} {conn c : Conn}
    {items : List (Nat × Event)} (hi : s.At i conn) (hj : s.At j c) (hne : j ≠ i) :
    g.note s ((s.setRegistry r).setStage i conn (.handing items)) .extend j = g j := by
  have hafter : ((s.setRegistry r).setStage i conn (.handing items)).At j c :=
    (State.at_setStage (s := s.setRegistry r) hi).mpr (.inr ⟨hne, hj⟩)
  simp only [Ledger.note, handed, State.stageOf_at hj, State.stageOf_at hafter]
  cases c.stage <;> simp

theorem note_unborn {s t : State} {g : Ledger} {l : Label} {i : Nat} (hi : s.conns[i]? = none) :
    g.note s t l i = g i := by
  unfold Ledger.note
  split
  · simp [hi]
  · have hnone : handed s t i l = [] := by
      unfold handed
      split
      · simp [hi]
      · simp [State.stageOf, hi]
      · rfl
    rw [hnone, List.append_nil]

theorem conns_none_setStage {s : State} {r : Registry} {i₀ i : Nat} {b : Conn} {stage : Stage} :
    ((s.setRegistry r).setStage i₀ b stage).conns[i]? = none ↔ s.conns[i]? = none := by
  simp [State.setStage, State.setRegistry]

variable {s : State} {g : Ledger}

/-- Where one connection moves on, what is to be shown is what is known of it then, and of those
that have the name of another session. -/
theorem Kept.move {t : State} {r : Registry} {l : Label} {i₀ : Nat} {conn b : Conn} {stage : Stage}
    (h : Kept s g) (ht : t = (s.setRegistry r).setStage i₀ b stage) (hwired : Wired t)
    (hi : s.At i₀ conn)
    (hmover : stage.holds = true → Holder t (g.note s t l) i₀ { b with stage := stage })
    (hother : ∀ i c, s.At i c → c.stage.holds = true → i ≠ i₀ →
      (conn.stage.holds = true → c.session ≠ conn.session) → Holder t (g.note s t l) i c) :
    Kept t (g.note s t l) where
  wired := hwired
  unborn i hnone := by
    subst ht
    have hnone := conns_none_setStage.mp hnone
    rw [note_unborn hnone]
    exact h.unborn i hnone
  holder i c hc hholds := by
    subst ht
    rcases (State.at_setStage (s := s.setRegistry r) hi).mp hc with ⟨rfl, rfl⟩ | ⟨hne, hc⟩
    · exact hmover hholds
    · refine hother i c hc hholds hne fun hconn hsession ↦ ?_
      exact hne (h.wired.holder_unique hc hi hsession hholds hconn)

/-- Where no connection moves, what is to be shown is what is known of each that has a name. -/
theorem Kept.stay {t : State} {l : Label} (h : Kept s g) (hwired : Wired t)
    (hconns : t.conns = s.conns)
    (hholder : ∀ i c, s.At i c → c.stage.holds = true → Holder t (g.note s t l) i c) :
    Kept t (g.note s t l) where
  wired := hwired
  unborn i hnone := by
    rw [hconns] at hnone
    rw [note_unborn hnone]
    exact h.unborn i hnone
  holder i c hc := by
    exact hholder i c ((State.at_congr hconns).mp hc)

/-! ## The steps -/

theorem kept_deliver {r : Registry} {answer : Except DeliverError Unit} {d : Dispatch}
    (h : Kept s g) (hdeliver : s.registry.deliver d.session d.event d.ts = (r, answer)) :
    Kept ((s.setRegistry r).afterDeliver d answer)
      (g.note s ((s.setRegistry r).afterDeliver d answer) (.deliver d answer)) := by
  have hwired := wired_step h.wired (.deliver d hdeliver)
  obtain ⟨hconns, hreg⟩ : ((s.setRegistry r).afterDeliver d answer).conns = s.conns ∧
      ((s.setRegistry r).afterDeliver d answer).registry = r :=
    State.afterDeliver_eq (s.setRegistry r) d answer
  refine h.stay hwired hconns fun i c hc hholds ↦ ?_
  have hi := h.holder i c hc hholds
  -- a failed send takes its entry out again, and the ledger notes nothing
  obtain ⟨-, -, hbacklog, hok | ⟨hne, -, hinflight⟩⟩ := Registry.deliver_spec hdeliver
  · obtain ⟨rfl, tx, htx, -, hinflight⟩ := hok
    have hnote := note_deliver (t := (s.setRegistry r).afterDeliver d (.ok ())) (g := g) h.wired hc
      hholds (d := d)
    obtain ⟨old, hold, hnone⟩ := hi.inflight
    refine ⟨⟨old, ?_, hnone⟩, fun hup ↦ ?_, fun hup j c' hj ↦ ?_⟩
    · rw [hreg, hinflight, hnote, hold]
      split <;> simp
    · rw [hreg, hbacklog]
      exact hi.backlog hup
    · exact hi.others hup j c' ((State.at_congr hconns).mp hj)
  · refine hi.frame rfl id (by rw [hreg, hinflight]) (by rw [hreg, hbacklog]) ?_
      (others_same hconns c.session i)
    cases answer with
    | ok => exact absurd rfl hne
    | error err => simp [Ledger.note, handed]

theorem kept_claim {r : Registry} {session : String} {channel : Nat} (h : Kept s g)
    (hclaim : s.registry.claim session = some (channel, r)) :
    Kept { s.setRegistry r with conns := s.conns ++ [⟨session, channel, .claimed, false⟩] }
      (g.note s { s.setRegistry r with
        conns := s.conns ++ [⟨session, channel, .claimed, false⟩] } (.claim session)) := by
  have hwired := wired_step h.wired (.claim session channel hclaim)
  obtain ⟨hfree, rfl, rfl⟩ := Registry.claim_spec hclaim
  have hnote : ∀ t i, g.note s t (.claim session) i = g i := fun t i ↦ by
    simp [Ledger.note, handed]
  refine ⟨hwired, ?_, ?_⟩
  · intro i hnone
    rw [hnote]
    apply h.unborn
    rw [List.getElem?_eq_none_iff] at hnone ⊢
    rw [List.length_append] at hnone
    omega
  · intro i c hc hholds
    rcases State.at_append.mp hc with hc | ⟨rfl, rfl⟩
    · refine (h.holder i c hc hholds).frame rfl id rfl rfl (hnote _ i) ?_
      intro j c' hj hc' _
      rcases State.at_append.mp hj with hj | ⟨-, rfl⟩
      · exact .inr ⟨c', hj, hc', rfl⟩
      · exact .inl rfl
    -- of the new connection: what is in flight is all of an earlier one
    · refine ⟨⟨s.registry.inflightOf session, ?_, nofun⟩, nofun, nofun⟩
      rw [hnote, h.unborn _ (List.getElem?_eq_none (le_refl _)), List.append_nil]
      rfl

theorem kept_drain {r : Registry} {i₀ nowMs evicted : Nat} {conn : Conn}
    {items : List (Nat × Event)} (h : Kept s g) (hi : s.At i₀ conn)
    (hs : conn.stage = .claimed)
    (hdrain : s.registry.drainBacklog conn.session nowMs = (r, items, evicted))
    (hcalm : ∀ i c, s.At i c → c.session = conn.session → c.stage.held = [] ∧
      (c.stage.holds = true → s.registry.inflightOf conn.session = g i)) :
    Kept ((s.setRegistry r).setStage i₀ conn (.drained items))
      (g.note s ((s.setRegistry r).setStage i₀ conn (.drained items))
        (.drain conn.session evicted)) := by
  have hwired := wired_step h.wired (.drain nowMs hi hs hdrain)
  have hholds : conn.stage.holds = true := by
    rw [hs]
    rfl
  obtain ⟨-, -, -, hinflight, hbacklog, hempty, -⟩ := Registry.drainBacklog_spec hdrain
  have hnote : ∀ t i, g.note s t (.drain conn.session evicted) i = g i := fun t i ↦ by
    simp [Ledger.note, handed]
  refine h.move rfl hwired hi (fun _ ↦ ⟨⟨[], ?_, fun _ ↦ rfl⟩, fun _ ↦ hempty, ?_⟩) ?_
  · rw [hnote]
    exact (hinflight conn.session).trans ((hcalm i₀ conn hi rfl).2 hholds)
  · intro _ j c hj hc hne
    -- the calm of the drain is that no earlier drop holds anything
    rcases (State.at_setStage (s := s.setRegistry r) hi).mp hj with ⟨heq, -⟩ | ⟨-, hj⟩
    · exact absurd heq hne
    · exact (hcalm j c hj hc).1
  · intro i c hc hc' hne hsession
    have hsession := hsession hholds
    exact (h.holder i c hc hc').frame rfl id (hinflight c.session) (hbacklog c.session hsession)
      (hnote _ i) (others_setStage hi c.session (fun heq ↦ absurd heq.symm hsession) i)

theorem kept_extend {i₀ : Nat} {conn : Conn} {items : List (Nat × Event)} (h : Kept s g)
    (hi : s.At i₀ conn) (hs : conn.stage = .drained items) :
    Kept ((s.setRegistry (s.registry.extendInflight conn.session items)).setStage i₀ conn
        (.handing items))
      (g.note s ((s.setRegistry (s.registry.extendInflight conn.session items)).setStage i₀ conn
        (.handing items)) .extend) := by
  have hwired := wired_step h.wired (.extend hi hs)
  have hpast : conn.stage.pastDrain = true := by
    rw [hs]
    rfl
  have hconn := h.holder i₀ conn hi (Stage.holds_of_pastDrain hpast)
  obtain ⟨-, -, -, hbacklog⟩ := s.registry.extendInflight_spec conn.session items
  have hmover := note_extend (g := g) (r := s.registry.extendInflight conn.session items) hi hs
  refine h.move rfl hwired hi (fun _ ↦ ⟨⟨[], ?_, fun _ ↦ rfl⟩, fun _ ↦ ?_, ?_⟩) ?_
  · obtain ⟨old, hold, hnone⟩ := hconn.inflight
    obtain rfl := hnone hpast
    rw [hmover]
    refine (Registry.inflightOf_extendInflight items conn.session).trans ?_
    rw [if_pos rfl, hold]
    simp
  · exact (congrArg Backlog.items (hbacklog conn.session)).trans (hconn.backlog hpast)
  · intro _ j c hj hc hne
    rcases (State.at_setStage (s := s.setRegistry _) hi).mp hj with ⟨heq, -⟩ | ⟨-, hj⟩
    · exact absurd heq hne
    · exact hconn.others hpast j c hj hc hne
  · intro i c hc hc' hne hsession
    have hsession := hsession (Stage.holds_of_pastDrain hpast)
    refine (h.holder i c hc hc').frame rfl id ?_ (hbacklog c.session) ?_
      (others_setStage hi c.session (fun _ ↦ rfl) i)
    · refine (Registry.inflightOf_extendInflight items c.session).trans ?_
      rw [if_neg hsession]
    · exact note_extend_of_ne hi hc hne

theorem kept_advance {l : Label} {i₀ : Nat} {conn b : Conn} {stage : Stage} (h : Kept s g)
    (hwired : Wired (s.setStage i₀ b stage)) (hi : s.At i₀ conn) (hb : b.session = conn.session)
    (hnote : ∀ t i, g.note s t l i = g i) (hheld : stage.held = [])
    (hpast : stage.holds = true → conn.stage.pastDrain = true) :
    Kept (s.setStage i₀ b stage) (g.note s (s.setStage i₀ b stage) l) := by
  refine h.move (r := s.registry) rfl hwired hi (fun hholds ↦ ?_) ?_
  · have hup := hpast hholds
    exact (h.holder i₀ conn hi (Stage.holds_of_pastDrain hup)).frame hb (fun _ ↦ hup) rfl rfl
      (hnote _ i₀) (others_setStage hi conn.session (fun _ ↦ hheld) i₀)
  · intro i c hc hc' _ _
    exact (h.holder i c hc hc').frame rfl id rfl rfl (hnote _ i)
      (others_setStage hi c.session (fun _ ↦ hheld) i)

theorem kept_ack {r : Registry} {eventId : String} {found : Option (Nat × Event)} {i₀ : Nat}
    {conn : Conn} (h : Kept s g) (hi : s.At i₀ conn) (hs : conn.stage = .serving)
    (hack : s.registry.ack conn.session eventId = (r, found)) :
    Kept (s.setRegistry r) (g.note s (s.setRegistry r) (.ack conn.session eventId found)) := by
  have hwired := wired_step h.wired (.ack eventId hi hs hack)
  have hup : conn.stage.pastDrain = true := by
    rw [hs]
    rfl
  obtain ⟨-, -, -, hbacklog, hinflight, -⟩ := Registry.ack_spec hack
  refine h.stay hwired rfl fun i c hc hholds ↦ ?_
  have hi' := h.holder i c hc hholds
  by_cases hsession : c.session = conn.session
  · -- the one connection of the session is the one that acknowledges
    obtain rfl := h.wired.holder_unique hc hi hsession hholds (Stage.holds_of_pastDrain hup)
    obtain rfl := State.at_unique hc hi
    obtain ⟨old, hold, hnone⟩ := hi'.inflight
    obtain rfl := hnone hup
    refine ⟨⟨[], ?_, fun _ ↦ rfl⟩, fun _ ↦ ?_, hi'.others⟩
    · rw [note_ack hc, if_pos ⟨rfl, hs⟩]
      refine (hinflight c.session).trans ?_
      rw [if_pos rfl, hold]
      rfl
    · exact (congrArg Backlog.items (hbacklog c.session)).trans (hi'.backlog hup)
  · refine hi'.frame rfl id ?_ (hbacklog c.session) ?_ (others_same rfl c.session i)
    · exact (hinflight c.session).trans (if_neg hsession)
    · rw [note_ack hc, if_neg fun hboth ↦ hsession hboth.1]

theorem kept_release {i₀ : Nat} {conn : Conn} (h : Kept s g) (hi : s.At i₀ conn)
    (hs : conn.stage.mayLeave = true) :
    Kept ((s.setRegistry (s.registry.release conn.session)).setStage i₀ conn .leaving)
      (g.note s ((s.setRegistry (s.registry.release conn.session)).setStage i₀ conn .leaving)
        .release) := by
  refine h.move rfl (wired_step h.wired (.release hi hs)) hi nofun ?_
  intro i c hc hc' _ _
  exact (h.holder i c hc hc').frame rfl id rfl rfl (by simp [Ledger.note, handed])
    (others_setStage hi c.session (fun _ ↦ rfl) i)

theorem kept_takeInflight {r : Registry} {i₀ : Nat} {conn : Conn} {items : List (Nat × Event)}
    (h : Kept s g) (hi : s.At i₀ conn) (hs : conn.stage = .leaving)
    (htake : s.registry.takeInflight conn.session = (r, items))
    (hcalm : ∀ i c, s.At i c → c.stage.holds = true →
      g i = [] ∨ r.inflightOf c.session = s.registry.inflightOf c.session) :
    Kept ((s.setRegistry r).setStage i₀ conn (.restoring items))
      (g.note s ((s.setRegistry r).setStage i₀ conn (.restoring items)) .takeInflight) := by
  have hwired := wired_step h.wired (.takeInflight hi hs htake)
  have hnote : ∀ t i, g.note s t .takeInflight i = g i := fun t i ↦ by
    simp [Ledger.note, handed]
  obtain ⟨rfl, rfl⟩ : s.registry.setInflight conn.session none = r ∧
      s.registry.inflightOf conn.session = items := by
    simpa [Registry.takeInflight] using htake
  refine h.move rfl hwired hi nofun ?_
  intro i c hc hc' hne _
  have hi' := h.holder i c hc hc'
  by_cases hsession : c.session = conn.session
  · -- what the other connection has in flight is not its own
    have hempty : (s.registry.setInflight conn.session none).inflightOf c.session = [] := by
      simp [hsession]
    obtain ⟨old, hold, hnone⟩ := hi'.inflight
    have hg : g i = [] := by
      rcases hcalm i c hc hc' with hg | hsame
      · exact hg
      · rw [hempty, hold] at hsame
        exact (List.append_eq_nil_iff.mp hsame.symm).2
    refine ⟨⟨[], ?_, fun _ ↦ rfl⟩, hi'.backlog, fun hup j c' hj hc'' hne' ↦ ?_⟩
    · rw [hnote, hg]
      exact hempty
    · rcases (State.at_setStage (s := s.setRegistry _) hi).mp hj with ⟨-, rfl⟩ | ⟨-, hj⟩
      · show s.registry.inflightOf conn.session = []
        rw [← hsession, hold, hg, hnone hup]
        rfl
      · exact hi'.others hup j c' hj hc'' hne'
  · refine hi'.frame rfl id ?_ rfl (hnote _ i)
      (others_setStage hi c.session (fun heq ↦ absurd heq.symm hsession) i)
    show (s.registry.setInflight conn.session none).inflightOf c.session = _
    simp [hsession]

theorem kept_restore {r : Registry} {i₀ nowMs returned evicted : Nat} {conn : Conn}
    {items : List (Nat × Event)} (h : Kept s g) (hi : s.At i₀ conn)
    (hs : conn.stage = .restoring items)
    (hrestore : s.registry.restoreBacklog conn.session items nowMs = (r, returned, evicted)) :
    Kept ((s.setRegistry r).setStage i₀ conn .gone)
      (g.note s ((s.setRegistry r).setStage i₀ conn .gone)
        (.restore conn.session returned evicted)) := by
  have hwired := wired_step h.wired (.restore nowMs hi hs hrestore)
  have hnote : ∀ t i, g.note s t (.restore conn.session returned evicted) i = g i := fun t i ↦ by
    simp [Ledger.note, handed]
  obtain ⟨-, -, -, hinflight, hother, dropped, hitems, hdropped⟩ :=
    Registry.restoreBacklog_spec hrestore
  refine h.move rfl hwired hi nofun ?_
  intro i c hc hc' hne _
  have hi' := h.holder i c hc hc'
  by_cases hsession : c.session = conn.session
  · -- a connection past its drain found that there was nothing to put back
    obtain ⟨old, hold, hnone⟩ := hi'.inflight
    refine ⟨⟨old, ?_, hnone⟩, fun hup ↦ ?_, fun hup j c' hj hc'' hne' ↦ ?_⟩
    · rw [hnote, ← hold]
      exact hinflight c.session
    · have hheld := hi'.others hup i₀ conn hi hsession.symm (Ne.symm hne)
      rw [hs] at hheld
      obtain rfl : items = [] := hheld
      rw [hdropped rfl] at hitems
      have hsame : (r.backlogOf conn.session).items =
          (s.registry.backlogOf conn.session).items := by simpa using hitems.symm
      show (r.backlogOf c.session).items = []
      rw [hsession, hsame, ← hsession]
      exact hi'.backlog hup
    · rcases (State.at_setStage (s := s.setRegistry _) hi).mp hj with ⟨-, rfl⟩ | ⟨-, hj⟩
      · rfl
      · exact hi'.others hup j c' hj hc'' hne'
  · exact hi'.frame rfl id (hinflight c.session) (hother c.session hsession) (hnote _ i)
      (others_setStage hi c.session (fun _ ↦ rfl) i)

theorem kept_same {t : State} {l : Label} (h : Kept s g) (hwired : Wired t)
    (hconns : t.conns = s.conns) (hnote : ∀ i, g.note s t l i = g i)
    (hinflight : ∀ k, t.registry.inflightOf k = s.registry.inflightOf k)
    (hbacklog : ∀ i c, s.At i c → c.stage.pastDrain = true →
      t.registry.backlogOf c.session = s.registry.backlogOf c.session) :
    Kept t (g.note s t l) := by
  refine h.stay hwired hconns fun i c hc hholds ↦ ?_
  have hi := h.holder i c hc hholds
  obtain ⟨old, hold, hnone⟩ := hi.inflight
  refine ⟨⟨old, by rw [hinflight, hnote, hold], hnone⟩, fun hup ↦ ?_, fun hup j c' hj ↦ ?_⟩
  · rw [hbacklog i c hc hup]
    exact hi.backlog hup
  · exact hi.others hup j c' ((State.at_congr hconns).mp hj)

theorem kept_step {t : State} {l : Label} (h : Kept s g) (hstep : Step s l t)
    (hcalm : Calm s g t l) : Kept t (g.note s t l) := by
  have hwired := wired_step h.wired hstep
  cases hstep with
  | deliver d hdeliver => exact kept_deliver h hdeliver
  | @enqueue r waiting evicted d nowMs hd henqueue =>
    obtain ⟨-, -, -, hinflight, hbacklog, -⟩ := Registry.enqueue_spec henqueue
    refine kept_same h hwired rfl (fun i ↦ by simp [Ledger.note, handed]) hinflight ?_
    intro i c hc hup
    -- it is not the session whose backlog grew, for that one's connection has not drained it
    refine hbacklog c.session fun hsession ↦ ?_
    rw [hcalm i c hc hsession] at hup
    cases hup
  | claim session channel hclaim => exact kept_claim h hclaim
  | drain nowMs hi hs hdrain => exact kept_drain h hi hs hdrain hcalm
  | extend hi hs => exact kept_extend h hi hs
  | hand hi hs =>
    exact kept_advance h hwired hi rfl (fun t i ↦ by simp [Ledger.note, handed]) rfl
      fun _ ↦ by rw [hs]; rfl
  | serve hi hs =>
    exact kept_advance h hwired hi rfl (fun t i ↦ by simp [Ledger.note, handed]) rfl
      fun _ ↦ by rw [hs]; rfl
  | writeEvent | writeResult | reserve | sendResult | close =>
    exact kept_same h hwired rfl (fun i ↦ by simp [Ledger.note, handed]) (fun _ ↦ rfl)
      fun _ _ _ _ ↦ rfl
  | ack eventId hi hs hack => exact kept_ack h hi hs hack
  | release hi hs => exact kept_release h hi hs
  | takeInflight hi hs htake => exact kept_takeInflight h hi hs htake hcalm
  | restore nowMs hi hs hrestore => exact kept_restore h hi hs hrestore

theorem kept_run {maxAgeMs : Nat} {ls : List Label} {y : State × Ledger}
    (h : Lts.Run CalmStep (State.init maxAgeMs, fun _ ↦ []) ls y) : Kept y.1 y.2 := by
  -- every step is calm, so the invariant needs nothing of the label
  refine h.invariant (I := fun x ↦ Kept x.1 x.2) (P := fun _ ↦ True) ?_ (.init maxAgeMs)
    fun _ _ ↦ trivial
  rintro x l y hx - ⟨⟨g, hstep⟩, hcalm⟩
  exact kept_step hx hstep hcalm

/-- In every run of calm steps, nothing waits behind the back of a connection that is up. -/
theorem nothingBehind_of_calm {maxAgeMs : Nat} {ls : List Label} {t : State} {g : Ledger}
    (h : Lts.Run CalmStep (State.init maxAgeMs, fun _ ↦ []) ls (t, g)) : NothingBehind t g := by
  have hkept : Kept t g :=
    kept_run h
  intro i conn hi hup
  have hpast := Stage.pastDrain_of_up hup
  have hconn := hkept.holder i conn hi (Stage.holds_of_pastDrain hpast)
  obtain ⟨old, hold, hnone⟩ := hconn.inflight
  have hinflight : t.registry.inflightOf conn.session = g i := by
    rw [hold, hnone hpast, List.nil_append]
  refine ⟨hconn.backlog hpast, hinflight, ?_⟩
  intro item hitem
  rw [Registry.ack_found, hinflight, List.find?_isSome]
  exact ⟨item, hitem, by simp⟩

/-- A message waits for its session, which connects and drains the backlog. -/
theorem nothingBehind_of_calm_drained : ∃ ls t g,
    Lts.Run CalmStep (State.init 3600000, fun _ ↦ []) ls (t, g) ∧ NothingBehind t g ∧
      g 0 = [(1000, awayMessage.event)] := by
  have hdeliver : Step (State.init 3600000) (.deliver awayMessage (.error .notConnected)) _ :=
    .deliver awayMessage rfl
  have henqueue := Step.enqueue (s := { State.init 3600000 with pending := {awayMessage} })
    awayMessage 2000 (Multiset.mem_singleton_self _) rfl
  have hrun := ((((Lts.Run.single (CalmStep.mk (g := fun _ ↦ []) hdeliver trivial)).snoc
    (.mk henqueue fun i conn hi ↦ absurd hi (State.not_at_of_nil rfl))).snoc
    (.mk (.claim "bob" 0 rfl) trivial)).snoc
    (.mk (.drain (i := 0) 2000 rfl rfl rfl) (by
      intro i conn hi _
      obtain ⟨rfl, rfl⟩ := State.at_singleton rfl hi
      exact ⟨rfl, fun _ ↦ rfl⟩))).snoc
    (.mk (.extend (i := 0) rfl rfl) trivial)
  exact ⟨_, _, _, hrun, nothingBehind_of_calm hrun, rfl⟩

/-- A dispatch that found its session away queues its event after the session has connected and
drained its backlog: the event waits behind its back. -/
theorem nothingBehind_fails : ¬∀ maxAgeMs ls t g,
    Lts.Run LedgerStep (State.init maxAgeMs, fun _ ↦ []) ls (t, g) → NothingBehind t g := by
  intro h
  have hbehind := h 3600000 _ _ _ (((((Lts.Run.single
    (.mk _ (.deliver awayMessage rfl))).snoc
    (.mk _ (.claim "bob" 0 rfl))).snoc
    (.mk _ (.drain (i := 0) 2000 rfl rfl rfl))).snoc
    (.mk _ (.extend (i := 0) rfl rfl))).snoc
    (.mk _ (.enqueue awayMessage 2000 (Multiset.mem_singleton_self _) rfl)))
  obtain ⟨hbacklog, -⟩ := hbehind 0 _ rfl rfl
  cases hbacklog

end Delivery

end Silta
