import Silta.Handed

/-!
# The order of events

The events that each connection is written, against the order in which dispatch accepted those of
its session.
-/

namespace Silta

namespace Delivery

/-- The event of the session that this step accepts: delivered, or queued. -/
def Label.accepted? (k : String) : Label → Option Event
  | .deliver d (.ok ()) => if d.session = k then some d.event else none
  -- the dispatch that found its session away answers once its event is in the backlog
  | .enqueue d _ _ => if d.session = k then some d.event else none
  | _ => none

/-- The events of a session in the order in which dispatch accepted them. -/
def accepted (k : String) (ls : List Label) : List Event := ls.filterMap (Label.accepted? k)

def Label.written? (i : Nat) : Label → Option Event
  | .write j event => if j = i then some event else none
  | _ => none

/-- The events that a connection was written. -/
def written (i : Nat) (ls : List Label) : List Event := ls.filterMap (Label.written? i)

/-- Each connection is written its events in the order of their acceptance; and while one is up,
all that is in custody of its session, and so may come again, was handed to it at its place in that
order, ahead of whatever is accepted later. -/
def InOrder (s : State) (ls : List Label) : Prop :=
  ∀ i conn, s.At i conn → (written i ls).Sublist (accepted conn.session ls) ∧
    (conn.stage.up = true → ∃ line, written i ls <+: line ∧
      line.Sublist (accepted conn.session ls) ∧ ∀ item ∈ custody conn.session s, item.2 ∈ line)

/-- The steps that keep the order, beside keeping a connection's back free.  While a connection has
not finished with the backlog, nothing is delivered to it unless nothing waits; and once something
is, no dispatch queues its event. -/
def Orderly (s : State) (g : Ledger) (t : State) : Label → Prop
  | .deliver d (.ok ()) =>
    (∃ i conn, s.At i conn ∧ conn.session = d.session ∧ conn.stage.up = true) ∨
      ((s.registry.backlogOf d.session).items = [] ∧
        ∀ i conn, s.At i conn → conn.session = d.session → conn.stage.held = [])
  | .enqueue d _ _ =>
    ∀ i conn, s.At i conn → conn.session = d.session → conn.stage.pastDrain = false ∧
      (conn.stage.holds = true → g i = [])
  | l => Calm s g t l

def OrderlyStep (x : State × Ledger) (l : Label) (y : State × Ledger) : Prop :=
  LedgerStep x l y ∧ Orderly x.1 x.2 y.1 l

theorem OrderlyStep.mk {s t : State} {g : Ledger} {l : Label} (h : Step s l t)
    (horderly : Orderly s g t l) : OrderlyStep (s, g) l (t, g.note s t l) :=
  ⟨.mk g h, horderly⟩

theorem Orderly.calm {s t : State} {g : Ledger} {l : Label} (h : Orderly s g t l) :
    Calm s g t l := by
  cases l with
  | deliver => trivial
  | enqueue d => exact fun i conn hi hsession ↦ (h i conn hi hsession).1
  | claim | drain | extend | write | serve | channel | ack | release | takeInflight | restore =>
    exact h

theorem accepted_concat (k : String) (ls : List Label) (l : Label) :
    accepted k (ls ++ [l]) = accepted k ls ++ (l.accepted? k).toList := by
  cases h : l.accepted? k <;> simp [accepted, h]

theorem written_concat (i : Nat) (ls : List Label) (l : Label) :
    written i (ls ++ [l]) = written i ls ++ (l.written? i).toList := by
  cases h : l.written? i <;> simp [written, h]

theorem accepted_sublist (k : String) (ls : List Label) (l : Label) :
    (accepted k ls).Sublist (accepted k (ls ++ [l])) := by
  rw [accepted_concat]
  exact List.sublist_append_left _ _

/-! ## What waits for a session -/

def events (items : List (Nat × Event)) : List Event := items.map Prod.snd

@[simp] theorem events_nil : events [] = [] := rfl

@[simp] theorem events_append (items items' : List (Nat × Event)) :
    events (items ++ items') = events items ++ events items' :=
  List.map_append

theorem events_sublist {items items' : List (Nat × Event)} (h : items.Sublist items') :
    (events items).Sublist (events items') :=
  h.map Prod.snd

/-- What is in flight and in the backlog of a session is in the order of acceptance, and so is what
a step in progress holds, with which nothing is in flight.  Nothing waits where a connection was
delivered something before it drained the backlog. -/
structure Lined (k : String) (s : State) (g : Ledger) (ls : List Label) : Prop where
  line : (events (s.registry.inflightOf k ++ (s.registry.backlogOf k).items)).Sublist
    (accepted k ls)
  held : ∀ i conn, s.At i conn → conn.session = k → conn.stage.held ≠ [] →
    s.registry.inflightOf k = [] ∧
      (events (conn.stage.held ++ (s.registry.backlogOf k).items)).Sublist (accepted k ls) ∧
      ∀ j c, s.At j c → c.session = k → j ≠ i → c.stage.held = []
  early : ∀ i conn, s.At i conn → conn.session = k → conn.stage = .claimed → g i ≠ [] →
    (s.registry.backlogOf k).items = [] ∧
      ∀ j c, s.At j c → c.session = k → c.stage.held = []

/-- The connections of a session after a step as those before it: of each the same is held, and it
is claimed only if it was and was handed nothing since. -/
def SameHeld (k : String) (s t : State) (g g' : Ledger) : Prop :=
  ∀ i c, t.At i c → c.session = k →
    (∃ c', s.At i c' ∧ c'.session = k ∧ c'.stage.held = c.stage.held ∧
      (c.stage = .claimed → c'.stage = .claimed ∧ g' i = g i)) ∨
    (c.stage.held = [] ∧ (c.stage = .claimed → g' i = []))

theorem Lined.frame {k : String} {s t : State} {g g' : Ledger} {ls ls' : List Label}
    (h : Lined k s g ls) (hinflight : t.registry.inflightOf k = s.registry.inflightOf k)
    (hbacklog : t.registry.backlogOf k = s.registry.backlogOf k)
    (haccepted : (accepted k ls).Sublist (accepted k ls')) (hsame : SameHeld k s t g g') :
    Lined k t g' ls' := by
  -- where no connection of some kind held anything, none does after the step
  have hheld : ∀ {P : Nat → Prop}, (∀ j c, s.At j c → c.session = k → P j → c.stage.held = []) →
      ∀ j c, t.At j c → c.session = k → P j → c.stage.held = [] := by
    intro P hnone j c hj hc hP
    rcases hsame j c hj hc with ⟨c', hj', hc', heq, -⟩ | ⟨hempty, -⟩
    · rw [← heq]
      exact hnone j c' hj' hc' hP
    · exact hempty
  refine ⟨?_, ?_, ?_⟩
  · rw [hinflight, hbacklog]
    exact h.line.trans haccepted
  · intro i conn hi hsession hne
    rcases hsame i conn hi hsession with ⟨c', hi', hc', heq, -⟩ | ⟨hempty, -⟩
    · rw [← heq] at hne
      obtain ⟨hnone, hline, hothers⟩ := h.held i c' hi' hc' hne
      rw [hinflight, hbacklog, ← heq]
      exact ⟨hnone, hline.trans haccepted, hheld hothers⟩
    · exact absurd hempty hne
  · intro i conn hi hsession hclaimed hg
    rcases hsame i conn hi hsession with ⟨c', hi', hc', -, hclaim⟩ | ⟨-, hempty⟩
    · obtain ⟨hclaim, hgi⟩ := hclaim hclaimed
      rw [hgi] at hg
      obtain ⟨hnone, hothers⟩ := h.early i c' hi' hc' hclaim hg
      rw [hbacklog]
      exact ⟨hnone, fun j c hj hc ↦ hheld (P := fun _ ↦ True)
        (fun j c hj hc _ ↦ hothers j c hj hc) j c hj hc trivial⟩
    · exact absurd (hempty hclaimed) hg

theorem sameHeld_stay {k : String} {s t : State} {g g' : Ledger} (hconns : t.conns = s.conns)
    (hg : ∀ i c, s.At i c → c.session = k → c.stage = .claimed → g' i = g i) :
    SameHeld k s t g g' := by
  intro i c hi hc
  have hi : s.At i c := (State.at_congr hconns).mp hi
  exact .inl ⟨c, hi, hc, rfl, fun hclaimed ↦ ⟨hclaimed, hg i c hi hc hclaimed⟩⟩

theorem sameHeld_setStage {k : String} {s : State} {r : Registry} {g g' : Ledger} {i₀ : Nat}
    {conn b : Conn} {stage : Stage} (hi : s.At i₀ conn) (hb : b.session = conn.session)
    (hmover : conn.session = k → stage.held = conn.stage.held ∧ stage ≠ .claimed)
    (hg : ∀ i c, s.At i c → c.session = k → c.stage = .claimed → g' i = g i) :
    SameHeld k s ((s.setRegistry r).setStage i₀ b stage) g g' := by
  intro i c hc hsession
  rcases (State.at_setStage (s := s.setRegistry r) hi).mp hc with ⟨rfl, rfl⟩ | ⟨-, hc⟩
  · have hconn : conn.session = k := hb.symm.trans hsession
    obtain ⟨hheld, hne⟩ := hmover hconn
    exact .inl ⟨conn, hi, hconn, hheld.symm, fun hclaimed ↦ absurd hclaimed hne⟩
  · exact .inl ⟨c, hc, hsession, rfl, fun hclaimed ↦ ⟨hclaimed, hg i c hc hsession hclaimed⟩⟩

/-- A connection that has not drained the backlog is handed nothing but deliveries. -/
theorem note_of_claimed {s t : State} {g : Ledger} {l : Label} {i : Nat} {c : Conn} (hi : s.At i c)
    (hclaimed : c.stage = .claimed) (hl : ∀ d, l ≠ .deliver d (.ok ())) :
    g.note s t l i = g i := by
  cases l with
  | ack session eventId found =>
    rw [note_ack hi, if_neg]
    rintro ⟨-, hserving⟩
    rw [hclaimed] at hserving
    cases hserving
  | deliver d answer =>
    cases answer with
    | ok => exact absurd rfl (hl d)
    | error err => simp [Ledger.note, handed]
  | extend => simp [Ledger.note, handed, State.stageOf_at hi, hclaimed]
  | enqueue | claim | drain | write | serve | channel | release | takeInflight | restore =>
    simp [Ledger.note, handed]

section Steps

variable {k : String} {s : State} {g : Ledger} {ls : List Label}

theorem lined_deliver {r : Registry} {d : Dispatch} {t : State} (h : Lined d.session s g ls)
    (hkept : Kept s g) (hdeliver : s.registry.deliver d.session d.event d.ts = (r, .ok ()))
    (horderly : Orderly s g t (.deliver d (.ok ()))) (hconns : t.conns = s.conns)
    (hreg : t.registry = r) :
    Lined d.session t (g.note s t (.deliver d (.ok ()))) (ls ++ [.deliver d (.ok ())]) := by
  obtain ⟨-, -, hbacklog, ⟨-, tx, -, -, hinflight⟩ | ⟨hne, -⟩⟩ := Registry.deliver_spec hdeliver
  swap
  · exact absurd rfl hne
  -- nothing waits, be it that the connection is up
  have hnone : (s.registry.backlogOf d.session).items = [] ∧
      ∀ i conn, s.At i conn → conn.session = d.session → conn.stage.held = [] := by
    rcases horderly with ⟨i, conn, hi, hsession, hup⟩ | hnone
    · have hpast := Stage.pastDrain_of_up hup
      have hconn := hkept.holder i conn hi (Stage.holds_of_pastDrain hpast)
      rw [← hsession]
      refine ⟨hconn.backlog hpast, fun j c hj hc ↦ ?_⟩
      by_cases hji : j = i
      · subst hji
        obtain rfl := State.at_unique hj hi
        cases hstage : c.stage with
        | drained items =>
          rw [hstage] at hup
          cases hup
        | restoring items =>
          rw [hstage] at hup
          cases hup
        | claimed | handing | serving | leaving | gone => rfl
      · exact hconn.others hpast j c hj hc hji
    · exact hnone
  obtain ⟨hempty, hheld⟩ := hnone
  have hat : ∀ {j c}, t.At j c → s.At j c := (State.at_congr hconns).mp
  refine ⟨?_, ?_, ?_⟩
  · have hline := h.line
    rw [hempty, List.append_nil] at hline
    rw [hreg, hinflight, hbacklog, if_pos rfl, hempty, List.append_nil, events_append,
      accepted_concat]
    simpa [Label.accepted?, events] using hline.append_right [d.event]
  · intro i conn hi hsession hne
    exact absurd (hheld i conn (hat hi) hsession) hne
  · intro i conn _ _ _ _
    rw [hreg, hbacklog]
    exact ⟨hempty, fun j c hj hc ↦ hheld j c (hat hj) hc⟩

theorem lined_enqueue {r : Registry} {d : Dispatch} {nowMs waiting evicted : Nat} {t : State}
    (h : Lined d.session s g ls)
    (henqueue : s.registry.enqueue d.session d.ts d.event nowMs = (r, waiting, evicted))
    (horderly : Orderly s g t (.enqueue d waiting evicted)) (hconns : t.conns = s.conns)
    (hreg : t.registry = r) :
    Lined d.session t (g.note s t (.enqueue d waiting evicted))
      (ls ++ [.enqueue d waiting evicted]) := by
  obtain ⟨-, -, -, hinflight, -, dropped, kept, hold, hnew⟩ := Registry.enqueue_spec henqueue
  have haccepted : accepted d.session (ls ++ [.enqueue d waiting evicted]) =
      accepted d.session ls ++ [d.event] := by
    simp [accepted_concat, Label.accepted?]
  have hat : ∀ {j c}, t.At j c → s.At j c := (State.at_congr hconns).mp
  -- the backlog gives up its oldest and takes the event at its end, whatever stands before it
  have hkept : ∀ {front}, (events (front ++ (s.registry.backlogOf d.session).items)).Sublist
      (accepted d.session ls) → (events (front ++ (r.backlogOf d.session).items)).Sublist
        (accepted d.session (ls ++ [.enqueue d waiting evicted])) := by
    intro front hfront
    rw [hold] at hfront
    rw [hnew, haccepted, ← List.append_assoc, events_append]
    apply List.Sublist.append_right
    refine (events_sublist ?_).trans hfront
    exact (List.sublist_append_right dropped kept).append_left front
  refine ⟨?_, ?_, ?_⟩
  · rw [hreg, hinflight]
    exact hkept h.line
  · intro i conn hi hsession hne
    obtain ⟨hnone, hline, hothers⟩ := h.held i conn (hat hi) hsession hne
    rw [hreg, hinflight]
    exact ⟨hnone, hkept hline, fun j c hj hc ↦ hothers j c (hat hj) hc⟩
  · intro i conn hi hsession hclaimed hg
    -- an orderly dispatch queues nothing for a connection that was delivered something
    have hnote := note_of_claimed (t := t) (g := g) (l := .enqueue d waiting evicted) (hat hi)
      hclaimed fun _ ↦ nofun
    rw [hnote, (horderly i conn (hat hi) hsession).2 (by rw [hclaimed]; rfl)] at hg
    exact absurd rfl hg

theorem lined_drain {r : Registry} {i₀ nowMs evicted : Nat} {conn : Conn}
    {items : List (Nat × Event)} (h : Lined conn.session s g ls) (hi : s.At i₀ conn)
    (hs : conn.stage = .claimed)
    (hdrain : s.registry.drainBacklog conn.session nowMs = (r, items, evicted))
    (hcalm : ∀ i c, s.At i c → c.session = conn.session → c.stage.held = [] ∧
      (c.stage.holds = true → s.registry.inflightOf conn.session = g i)) (l : Label)
    (hnote : ∀ t i c, s.At i c → c.stage = .claimed → g.note s t l i = g i) :
    Lined conn.session ((s.setRegistry r).setStage i₀ conn (.drained items))
      (g.note s ((s.setRegistry r).setStage i₀ conn (.drained items)) l) (ls ++ [l]) := by
  obtain ⟨-, -, -, hinflight, -, hempty, dropped, hitems⟩ := Registry.drainBacklog_spec hdrain
  have hgrow := accepted_sublist conn.session ls l
  have hholds : conn.stage.holds = true := by
    rw [hs]
    rfl
  -- something waits only where nothing was delivered early
  have hfree : items ≠ [] → s.registry.inflightOf conn.session = [] := by
    intro hne
    rw [(hcalm i₀ conn hi rfl).2 hholds]
    by_contra hg
    have hbacklog := (h.early i₀ conn hi rfl hs hg).1
    rw [hitems] at hbacklog
    exact hne (List.append_eq_nil_iff.mp hbacklog).2
  have hothers : ∀ j c, ((s.setRegistry r).setStage i₀ conn (.drained items)).At j c →
      c.session = conn.session → j ≠ i₀ → c.stage.held = [] := by
    intro j c hj hc hne
    rcases (State.at_setStage (s := s.setRegistry r) hi).mp hj with ⟨heq, -⟩ | ⟨-, hj⟩
    · exact absurd heq hne
    · exact (hcalm j c hj hc).1
  refine ⟨?_, ?_, ?_⟩
  · show (events (r.inflightOf conn.session ++ (r.backlogOf conn.session).items)).Sublist _
    rw [hinflight, hempty, List.append_nil]
    refine (events_sublist ?_).trans (h.line.trans hgrow)
    exact List.sublist_append_left _ _
  · intro i c hc hsession hne
    rcases (State.at_setStage (s := s.setRegistry r) hi).mp hc with ⟨rfl, rfl⟩ | ⟨hother, hc'⟩
    · refine ⟨(hinflight conn.session).trans (hfree hne), ?_, hothers⟩
      show (events (items ++ (r.backlogOf conn.session).items)).Sublist _
      rw [hempty, List.append_nil]
      refine (events_sublist ?_).trans (h.line.trans hgrow)
      rw [hitems, hfree hne, List.nil_append]
      exact List.sublist_append_right dropped items
    · exact absurd (hothers i c hc hsession hother) hne
  · intro i c hc hsession hclaimed hg
    rcases (State.at_setStage (s := s.setRegistry r) hi).mp hc with ⟨-, rfl⟩ | ⟨hother, hc'⟩
    · cases hclaimed
    · -- the name is with the connection that drains
      rw [hnote _ i c hc' hclaimed] at hg
      obtain ⟨hnone, -⟩ := h.early i c hc' hsession hclaimed hg
      refine ⟨hempty, fun j c' hj hc' ↦ ?_⟩
      by_cases hj₀ : j = i₀
      · subst hj₀
        rcases (State.at_setStage (s := s.setRegistry r) hi).mp hj with ⟨-, rfl⟩ | ⟨hne, -⟩
        · show items = []
          rw [hitems] at hnone
          exact (List.append_eq_nil_iff.mp hnone).2
        · exact absurd rfl hne
      · exact hothers j c' hj hc' hj₀

theorem lined_extend {i₀ : Nat} {conn : Conn} {items : List (Nat × Event)}
    (h : Lined conn.session s g ls) (hkept : Kept s g) (hi : s.At i₀ conn)
    (hs : conn.stage = .drained items) (l : Label) :
    Lined conn.session
      ((s.setRegistry (s.registry.extendInflight conn.session items)).setStage i₀ conn
        (.handing items))
      (g.note s ((s.setRegistry (s.registry.extendInflight conn.session items)).setStage i₀ conn
        (.handing items)) l) (ls ++ [l]) := by
  have hpast : conn.stage.pastDrain = true := by
    rw [hs]
    rfl
  have hconn := hkept.holder i₀ conn hi (Stage.holds_of_pastDrain hpast)
  have hgrow := accepted_sublist conn.session ls l
  obtain ⟨-, -, -, hbacklog⟩ := s.registry.extendInflight_spec conn.session items
  have hothers : ∀ j c, ((s.setRegistry (s.registry.extendInflight conn.session items)).setStage i₀
      conn (.handing items)).At j c → c.session = conn.session → c.stage.held = [] := by
    intro j c hj hc
    rcases (State.at_setStage (s := s.setRegistry _) hi).mp hj with ⟨-, rfl⟩ | ⟨hne, hj⟩
    · rfl
    · exact hconn.others hpast j c hj hc hne
  refine ⟨?_, ?_, ?_⟩
  · show (events ((s.registry.extendInflight conn.session items).inflightOf conn.session ++
      ((s.registry.extendInflight conn.session items).backlogOf conn.session).items)).Sublist _
    rw [Registry.inflightOf_extendInflight, if_pos rfl, hbacklog, hconn.backlog hpast,
      List.append_nil]
    -- a backlog that was empty may be taken with events in flight, any other with none
    by_cases hitems : items = []
    · rw [hitems, List.append_nil]
      refine (events_sublist ?_).trans (h.line.trans hgrow)
      exact List.sublist_append_left _ _
    · have hheld : conn.stage.held = items := by
        rw [hs]
        rfl
      obtain ⟨hnone, hline, -⟩ := h.held i₀ conn hi rfl (by rwa [hheld])
      rw [hnone, List.nil_append]
      rw [hheld, hconn.backlog hpast, List.append_nil] at hline
      exact hline.trans hgrow
  · intro i c hc hsession hne
    exact absurd (hothers i c hc hsession) hne
  · intro i c hc hsession hclaimed hg
    exact ⟨(congrArg Backlog.items (hbacklog conn.session)).trans (hconn.backlog hpast), hothers⟩

theorem lined_ack {r : Registry} {eventId : String} {found : Option (Nat × Event)} {conn : Conn}
    (h : Lined conn.session s g ls)
    (hack : s.registry.ack conn.session eventId = (r, found)) (l : Label)
    (hnote : ∀ t i c, s.At i c → c.stage = .claimed → g.note s t l i = g i) :
    Lined conn.session (s.setRegistry r) (g.note s (s.setRegistry r) l) (ls ++ [l]) := by
  obtain ⟨-, -, -, hbacklog, hinflight, -⟩ := Registry.ack_spec hack
  have hgrow := accepted_sublist conn.session ls l
  refine ⟨?_, ?_, ?_⟩
  · show (events (r.inflightOf conn.session ++ (r.backlogOf conn.session).items)).Sublist _
    rw [hinflight, if_pos rfl, hbacklog]
    refine (events_sublist ?_).trans (h.line.trans hgrow)
    exact List.eraseP_sublist.append_right _
  · intro i c hc hsession hne
    obtain ⟨hnone, hline, hothers⟩ := h.held i c hc hsession hne
    refine ⟨?_, ?_, hothers⟩
    · show r.inflightOf conn.session = []
      rw [hinflight, if_pos rfl, hnone]
      rfl
    · show (events (c.stage.held ++ (r.backlogOf conn.session).items)).Sublist _
      rw [hbacklog]
      exact hline.trans hgrow
  · intro i c hc hsession hclaimed hg
    rw [hnote _ i c hc hclaimed] at hg
    obtain ⟨hnone, hothers⟩ := h.early i c hc hsession hclaimed hg
    exact ⟨(congrArg Backlog.items (hbacklog conn.session)).trans hnone, hothers⟩

theorem lined_takeInflight {i₀ : Nat} {conn : Conn} (h : Lined conn.session s g ls)
    (hkept : Kept s g) (hi : s.At i₀ conn) (l : Label)
    (hcalm : ∀ i c, s.At i c → c.stage.holds = true → g i = [] ∨
      (s.registry.setInflight conn.session none).inflightOf c.session =
        s.registry.inflightOf c.session)
    (hnote : ∀ t i c, s.At i c → c.stage = .claimed → g.note s t l i = g i) :
    Lined conn.session
      ((s.setRegistry (s.registry.setInflight conn.session none)).setStage i₀ conn
        (.restoring (s.registry.inflightOf conn.session)))
      (g.note s ((s.setRegistry (s.registry.setInflight conn.session none)).setStage i₀ conn
        (.restoring (s.registry.inflightOf conn.session))) l) (ls ++ [l]) := by
  have hgrow := accepted_sublist conn.session ls l
  have hempty : (s.registry.setInflight conn.session none).inflightOf conn.session = [] := by
    simp
  refine ⟨?_, ?_, ?_⟩
  · show (events ((s.registry.setInflight conn.session none).inflightOf conn.session ++
      (s.registry.backlogOf conn.session).items)).Sublist _
    rw [hempty]
    refine (events_sublist ?_).trans (h.line.trans hgrow)
    exact List.sublist_append_right _ _
  · intro i c hc hsession hne
    rcases (State.at_setStage (s := s.setRegistry _) hi).mp hc with ⟨rfl, rfl⟩ | ⟨hother, hc⟩
    · -- the events in flight are what the drop holds now
      refine ⟨hempty, h.line.trans hgrow, fun j c' hj hc' hji ↦ ?_⟩
      rcases (State.at_setStage (s := s.setRegistry _) hi).mp hj with ⟨heq, -⟩ | ⟨-, hj⟩
      · exact absurd heq hji
      · by_contra hheld
        exact hne (h.held j c' hj hc' hheld).1
    · obtain ⟨hnone, hline, hothers⟩ := h.held i c hc hsession hne
      refine ⟨hempty, hline.trans hgrow, fun j c' hj hc' hji ↦ ?_⟩
      rcases (State.at_setStage (s := s.setRegistry _) hi).mp hj with ⟨-, rfl⟩ | ⟨-, hj⟩
      · exact hnone
      · exact hothers j c' hj hc' hji
  · intro i c hc hsession hclaimed hg
    rcases (State.at_setStage (s := s.setRegistry _) hi).mp hc with ⟨-, rfl⟩ | ⟨-, hc⟩
    · cases hclaimed
    · rw [hnote _ i c hc hclaimed] at hg
      have hholds : c.stage.holds = true := by
        rw [hclaimed]
        rfl
      rcases hcalm i c hc hholds with hnone | hsame
      · exact absurd hnone hg
      · -- what was in flight was its own
        obtain ⟨old, hold, -⟩ := (hkept.holder i c hc hholds).inflight
        rw [hsession] at hsame hold
        rw [hempty, hold] at hsame
        exact absurd (List.append_eq_nil_iff.mp hsame.symm).2 hg

theorem lined_restore {r : Registry} {i₀ nowMs returned evicted : Nat} {conn : Conn}
    {items : List (Nat × Event)} (h : Lined conn.session s g ls) (hi : s.At i₀ conn)
    (hs : conn.stage = .restoring items)
    (hrestore : s.registry.restoreBacklog conn.session items nowMs = (r, returned, evicted))
    (l : Label) (hnote : ∀ t i c, s.At i c → c.stage = .claimed → g.note s t l i = g i) :
    Lined conn.session ((s.setRegistry r).setStage i₀ conn .gone)
      (g.note s ((s.setRegistry r).setStage i₀ conn .gone) l) (ls ++ [l]) := by
  have hgrow := accepted_sublist conn.session ls l
  have hheld : conn.stage.held = items := by
    rw [hs]
    rfl
  obtain ⟨-, -, -, hinflight, -, dropped, hitems, hdropped⟩ := Registry.restoreBacklog_spec hrestore
  -- where there is nothing to put back the backlog stays as it is
  have hsame : items = [] → (r.backlogOf conn.session).items =
      (s.registry.backlogOf conn.session).items := by
    rintro rfl
    rw [hdropped rfl] at hitems
    simpa using hitems.symm
  refine ⟨?_, ?_, ?_⟩
  · show (events (r.inflightOf conn.session ++ (r.backlogOf conn.session).items)).Sublist _
    rw [hinflight]
    -- what goes back goes in front of the backlog, and then nothing is in flight
    by_cases hempty : items = []
    · rw [hsame hempty]
      exact h.line.trans hgrow
    · obtain ⟨hnone, hline, -⟩ := h.held i₀ conn hi rfl (by rwa [hheld])
      rw [hnone, List.nil_append]
      rw [hheld, hitems] at hline
      refine (events_sublist ?_).trans (hline.trans hgrow)
      exact List.sublist_append_right _ _
  · intro i c hc hsession hne
    rcases (State.at_setStage (s := s.setRegistry r) hi).mp hc with ⟨-, rfl⟩ | ⟨hother, hc⟩
    · exact absurd rfl hne
    · obtain ⟨hnone, hline, hothers⟩ := h.held i c hc hsession hne
      -- another drop holds events, so this one holds none
      have hempty : items = [] := by
        rw [← hheld]
        exact hothers i₀ conn hi rfl (Ne.symm hother)
      refine ⟨(hinflight conn.session).trans hnone, ?_, fun j c' hj hc' hji ↦ ?_⟩
      · show (events (c.stage.held ++ (r.backlogOf conn.session).items)).Sublist _
        rw [hsame hempty]
        exact hline.trans hgrow
      · rcases (State.at_setStage (s := s.setRegistry r) hi).mp hj with ⟨-, rfl⟩ | ⟨-, hj⟩
        · rfl
        · exact hothers j c' hj hc' hji
  · intro i c hc hsession hclaimed hg
    rcases (State.at_setStage (s := s.setRegistry r) hi).mp hc with ⟨-, rfl⟩ | ⟨-, hc⟩
    · cases hclaimed
    · rw [hnote _ i c hc hclaimed] at hg
      obtain ⟨hnone, hothers⟩ := h.early i c hc hsession hclaimed hg
      have hempty : items = [] := by
        rw [← hheld]
        exact hothers i₀ conn hi rfl
      refine ⟨(hsame hempty).trans hnone, fun j c' hj hc' ↦ ?_⟩
      rcases (State.at_setStage (s := s.setRegistry r) hi).mp hj with ⟨-, rfl⟩ | ⟨-, hj⟩
      · rfl
      · exact hothers j c' hj hc'

theorem lined_step {t : State} {l : Label} (h : Lined k s g ls) (hkept : Kept s g)
    (hstep : Step s l t) (horderly : Orderly s g t l) : Lined k t (g.note s t l) (ls ++ [l]) := by
  have hgrow := accepted_sublist k ls l
  cases hstep with
  | @deliver r answer d hdeliver =>
    obtain ⟨hconns, hreg⟩ : ((s.setRegistry r).afterDeliver d answer).conns = s.conns ∧
        ((s.setRegistry r).afterDeliver d answer).registry = r :=
      State.afterDeliver_eq (s.setRegistry r) d answer
    obtain ⟨-, -, hbacklog, ⟨rfl, tx, -, -, hinflight⟩ | ⟨hne, -, hinflight⟩⟩ :=
      Registry.deliver_spec hdeliver
    · by_cases hk : k = d.session
      · subst hk
        exact lined_deliver h hkept hdeliver horderly hconns hreg
      · refine h.frame (by rw [hreg, hinflight, if_neg hk]) (by rw [hreg, hbacklog]) hgrow
          (sameHeld_stay hconns fun i c hi hc hclaimed ↦ ?_)
        rw [note_deliver hkept.wired hi (by rw [hclaimed]; rfl), if_neg (hc ▸ hk)]
    · refine h.frame (by rw [hreg, hinflight]) (by rw [hreg, hbacklog]) hgrow
        (sameHeld_stay hconns fun i c hi _ hclaimed ↦ note_of_claimed hi hclaimed ?_)
      rintro d' heq
      cases heq
      exact hne rfl
  | @enqueue r waiting evicted d nowMs hd henqueue =>
    obtain ⟨-, -, -, hinflight, hbacklog, -⟩ := Registry.enqueue_spec henqueue
    by_cases hk : k = d.session
    · subst hk
      exact lined_enqueue h henqueue horderly rfl rfl
    · exact h.frame (hinflight k) (hbacklog k hk) hgrow
        (sameHeld_stay rfl fun i c hi _ hclaimed ↦ note_of_claimed hi hclaimed fun _ ↦ by simp)
  | claim session channel hclaim =>
    obtain ⟨-, rfl, rfl⟩ := Registry.claim_spec hclaim
    refine h.frame rfl rfl hgrow fun i c hi hc ↦ ?_
    rcases State.at_append.mp hi with hi | ⟨rfl, rfl⟩
    · exact .inl ⟨c, hi, hc, rfl, fun hclaimed ↦
        ⟨hclaimed, note_of_claimed hi hclaimed fun _ ↦ by simp⟩⟩
    · refine .inr ⟨rfl, fun _ ↦ ?_⟩
      have hnone : s.conns[s.conns.length]? = none := List.getElem?_eq_none (le_refl _)
      rw [note_unborn hnone]
      exact hkept.unborn _ hnone
  | @drain r i₀ conn items evicted nowMs hi hs hdrain =>
    have hnote : ∀ t i c, s.At i c → c.stage = .claimed →
        g.note s t (.drain conn.session evicted) i = g i :=
      fun _ _ _ hc hclaimed ↦ note_of_claimed hc hclaimed fun _ ↦ by simp
    -- of another session nothing is drained
    by_cases hk : k = conn.session
    · subst hk
      exact lined_drain h hi hs hdrain horderly _ hnote
    · obtain ⟨-, -, -, hinflight, hbacklog, -⟩ := Registry.drainBacklog_spec hdrain
      exact h.frame (hinflight k) (hbacklog k hk) hgrow
        (sameHeld_setStage hi rfl (fun heq ↦ absurd heq.symm hk) fun i c hc _ ↦ hnote _ i c hc)
  | @extend i₀ conn items hi hs =>
    by_cases hk : k = conn.session
    · subst hk
      exact lined_extend h hkept hi hs _
    · obtain ⟨-, -, -, hbacklog⟩ := s.registry.extendInflight_spec conn.session items
      refine h.frame ?_ (hbacklog k) hgrow (sameHeld_setStage hi rfl (fun heq ↦ absurd heq.symm hk)
        fun i c hc _ hclaimed ↦ note_of_claimed hc hclaimed fun _ ↦ by simp)
      exact (Registry.inflightOf_extendInflight items k).trans (if_neg hk)
  | hand hi hs =>
    exact h.frame rfl rfl hgrow (sameHeld_setStage (r := s.registry) hi rfl
      (fun _ ↦ ⟨by rw [hs]; rfl, by simp⟩)
      fun i c hc _ hclaimed ↦ note_of_claimed hc hclaimed fun _ ↦ by simp)
  | serve hi hs =>
    exact h.frame rfl rfl hgrow (sameHeld_setStage (r := s.registry) hi rfl
      (fun _ ↦ ⟨by rw [hs]; rfl, by simp⟩)
      fun i c hc _ hclaimed ↦ note_of_claimed hc hclaimed fun _ ↦ by simp)
  | writeEvent | writeResult | reserve | sendResult | close =>
    exact h.frame rfl rfl hgrow
      (sameHeld_stay rfl fun i c hc _ hclaimed ↦ note_of_claimed hc hclaimed fun _ ↦ by simp)
  | @ack r i₀ conn found eventId hi hs hack =>
    have hnote : ∀ t i c, s.At i c → c.stage = .claimed →
        g.note s t (.ack conn.session eventId found) i = g i :=
      fun _ _ _ hc hclaimed ↦ note_of_claimed hc hclaimed fun _ ↦ by simp
    by_cases hk : k = conn.session
    · subst hk
      exact lined_ack h hack _ hnote
    · obtain ⟨-, -, -, hbacklog, hinflight, -⟩ := Registry.ack_spec hack
      exact h.frame ((hinflight k).trans (if_neg hk)) (hbacklog k) hgrow
        (sameHeld_stay rfl fun i c hc _ ↦ hnote _ i c hc)
  | @release i₀ conn hi hs =>
    exact h.frame rfl rfl hgrow (sameHeld_setStage hi rfl
      (fun _ ↦ ⟨(Stage.held_of_mayLeave hs).symm, by simp⟩)
      fun i c hc _ hclaimed ↦ note_of_claimed hc hclaimed fun _ ↦ by simp)
  | @takeInflight r i₀ conn items hi hs htake =>
    obtain ⟨rfl, rfl⟩ : s.registry.setInflight conn.session none = r ∧
        s.registry.inflightOf conn.session = items := by
      simpa [Registry.takeInflight] using htake
    have hnote : ∀ t i c, s.At i c → c.stage = .claimed → g.note s t .takeInflight i = g i :=
      fun _ _ _ hc hclaimed ↦ note_of_claimed hc hclaimed fun _ ↦ by simp
    by_cases hk : k = conn.session
    · subst hk
      exact lined_takeInflight h hkept hi _ horderly hnote
    · refine h.frame ?_ rfl hgrow (sameHeld_setStage hi rfl (fun heq ↦ absurd heq.symm hk)
        fun i c hc _ ↦ hnote _ i c hc)
      show (s.registry.setInflight conn.session none).inflightOf k = _
      simp [hk]
  | @restore r i₀ conn items returned evicted nowMs hi hs hrestore =>
    have hnote : ∀ t i c, s.At i c → c.stage = .claimed →
        g.note s t (.restore conn.session returned evicted) i = g i :=
      fun _ _ _ hc hclaimed ↦ note_of_claimed hc hclaimed fun _ ↦ by simp
    by_cases hk : k = conn.session
    · subst hk
      exact lined_restore h hi hs hrestore _ hnote
    · obtain ⟨-, -, -, hinflight, hbacklog, -⟩ := Registry.restoreBacklog_spec hrestore
      exact h.frame (hinflight k) (hbacklog k hk) hgrow
        (sameHeld_setStage hi rfl (fun heq ↦ absurd heq.symm hk) fun i c hc _ ↦ hnote _ i c hc)

end Steps

/-! ## What goes to a connection -/

end Delivery

def Outbound.event? : Outbound → Option Event
  | .event e => some e
  | .result => none

namespace Delivery

/-- What the task of the connection has still to write itself. -/
def Stage.toWrite : Stage → List (Nat × Event)
  | .drained items => items
  | .handing rest => rest
  | _ => []

/-- The events in the channel of a connection. -/
def State.queued (s : State) (conn : Conn) : List Event :=
  (s.channelOf conn).queue.filterMap Outbound.event?

theorem queued_congr {s t : State} {conn conn' : Conn}
    (hchannels : t.registry.channels = s.registry.channels)
    (hchannel : conn'.channel = conn.channel) : t.queued conn' = s.queued conn := by
  unfold State.queued State.channelOf
  rw [hchannels, hchannel]

/-- What a connection was written and what is under way to it, in its order. -/
def pipe (s : State) (ls : List Label) (i : Nat) (conn : Conn) : List Event :=
  written i ls ++ events conn.stage.toWrite ++ s.queued conn

/-- A connection is on its way through the events in the order of their acceptance, and all that it
was handed and did not acknowledge is among these. -/
structure Piped (s : State) (g : Ledger) (ls : List Label) (i : Nat) (conn : Conn) : Prop where
  early : conn.stage = .claimed → written i ls = [] ∧ s.queued conn = events (g i)
  line : (pipe s ls i conn).Sublist (accepted conn.session ls)
  mine : conn.stage.holds = true → (events (g i)).Sublist (pipe s ls i conn)

structure Flows (s : State) (g : Ledger) (ls : List Label) : Prop where
  unwritten : ∀ i, s.conns[i]? = none → written i ls = []
  piped : ∀ i conn, s.At i conn → Piped s g ls i conn

section Pipes

variable {s t : State} {g : Ledger} {ls : List Label} {l : Label} {i : Nat} {conn : Conn}

theorem written_of_none (h : l.written? i = none) : written i (ls ++ [l]) = written i ls := by
  rw [written_concat, h, Option.toList_none, List.append_nil]

theorem Piped.same (h : Piped s g ls i conn) (hwritten : l.written? i = none)
    (hqueued : t.queued conn = s.queued conn)
    (hnote : conn.stage.holds = true → g.note s t l i = g i) :
    Piped t (g.note s t l) (ls ++ [l]) i conn := by
  have hpipe : pipe t (ls ++ [l]) i conn = pipe s ls i conn := by
    unfold pipe
    rw [written_of_none hwritten, hqueued]
  refine ⟨fun hclaimed ↦ ?_, ?_, fun hholds ↦ ?_⟩
  · rw [written_of_none hwritten, hqueued, hnote (by rw [hclaimed]; rfl)]
    exact h.early hclaimed
  · rw [hpipe]
    exact h.line.trans (accepted_sublist conn.session ls l)
  · rw [hpipe, hnote hholds]
    exact h.mine hholds

theorem Piped.advance {conn' : Conn} (h : Piped s g ls i conn)
    (hsession : conn'.session = conn.session) (hstage : conn'.stage ≠ .claimed)
    (hpipe : (pipe t (ls ++ [l]) i conn').Sublist (pipe s ls i conn))
    (hmine : conn'.stage.holds = true →
      (events (g.note s t l i)).Sublist (pipe t (ls ++ [l]) i conn')) :
    Piped t (g.note s t l) (ls ++ [l]) i conn' where
  early hclaimed := absurd hclaimed hstage
  line := by
    rw [hsession]
    exact (hpipe.trans h.line).trans (accepted_sublist conn.session ls l)
  mine := hmine

/-- Of the connections that do not move, each is as it was; of the one that does, it is to be
shown. -/
theorem Flows.setStage {r : Registry} {i₀ : Nat} {conn₀ b : Conn} {stage : Stage}
    (h : Flows s g ls) (hi : s.At i₀ conn₀) (hchannels : r.channels = s.registry.channels)
    (hwritten : ∀ i, i ≠ i₀ → l.written? i = none)
    (hnote : ∀ i c, s.At i c → i ≠ i₀ → c.stage.holds = true →
      g.note s ((s.setRegistry r).setStage i₀ b stage) l i = g i)
    (hmover : Piped ((s.setRegistry r).setStage i₀ b stage)
      (g.note s ((s.setRegistry r).setStage i₀ b stage) l) (ls ++ [l]) i₀
      { b with stage := stage }) :
    Flows ((s.setRegistry r).setStage i₀ b stage)
      (g.note s ((s.setRegistry r).setStage i₀ b stage) l) (ls ++ [l]) where
  unwritten i hnone := by
    have hnew := conns_none_setStage.mp hnone
    have hne : i ≠ i₀ := by
      rintro rfl
      rw [hi] at hnew
      cases hnew
    rw [written_of_none (hwritten i hne)]
    exact h.unwritten i hnew
  piped i c hc := by
    rcases (State.at_setStage (s := s.setRegistry r) hi).mp hc with ⟨rfl, rfl⟩ | ⟨hne, hc⟩
    · exact hmover
    · exact (h.piped i c hc).same (hwritten i hne) (queued_congr hchannels rfl) (hnote i c hc hne)

theorem Flows.setChannel {r : Registry} {i₀ : Nat} {conn₀ : Conn} (h : Flows s g ls)
    (hwired : Wired s) (hi : s.At i₀ conn₀)
    (hconns : t.conns = s.conns) (hreg : t.registry = r)
    (hchannels : ∀ tx, tx ≠ conn₀.channel → r.channels tx = s.registry.channels tx)
    (hwritten : ∀ i, i ≠ i₀ → l.written? i = none)
    (hnote : ∀ i c, s.At i c → i ≠ i₀ → c.stage.holds = true → g.note s t l i = g i)
    (hmover : Piped t (g.note s t l) (ls ++ [l]) i₀ conn₀) :
    Flows t (g.note s t l) (ls ++ [l]) where
  unwritten i hnone := by
    rw [hconns] at hnone
    have hne : i ≠ i₀ := by
      rintro rfl
      rw [hi] at hnone
      cases hnone
    rw [written_of_none (hwritten i hne)]
    exact h.unwritten i hnone
  piped i c hc := by
    have hc : s.At i c := (State.at_congr hconns).mp hc
    by_cases hne : i = i₀
    · subst hne
      obtain rfl := State.at_unique hi hc
      exact hmover
    · refine (h.piped i c hc).same (hwritten i hne) ?_ (hnote i c hc hne)
      have hchannel : c.channel ≠ conn₀.channel :=
        fun heq ↦ hne (hwired.apart i i₀ c conn₀ hc hi heq)
      unfold State.queued State.channelOf
      rw [hreg, hchannels c.channel hchannel]

theorem Flows.stay (h : Flows s g ls) (hconns : t.conns = s.conns)
    (hchannels : t.registry.channels = s.registry.channels)
    (hwritten : ∀ i, l.written? i = none)
    (hnote : ∀ i c, s.At i c → c.stage.holds = true → g.note s t l i = g i) :
    Flows t (g.note s t l) (ls ++ [l]) where
  unwritten i hnone := by
    rw [hconns] at hnone
    rw [written_of_none (hwritten i)]
    exact h.unwritten i hnone
  piped i c hc := by
    have hc : s.At i c := (State.at_congr hconns).mp hc
    exact (h.piped i c hc).same (hwritten i) (queued_congr hchannels rfl) (hnote i c hc)

end Pipes

section FlowSteps

variable {s : State} {g : Ledger} {ls : List Label}

theorem flows_deliver {r : Registry} {d : Dispatch} {t : State} (h : Flows s g ls)
    (hwired : Wired s) (hdeliver : s.registry.deliver d.session d.event d.ts = (r, .ok ()))
    (hconns : t.conns = s.conns) (hreg : t.registry = r) :
    Flows t (g.note s t (.deliver d (.ok ()))) (ls ++ [.deliver d (.ok ())]) := by
  obtain ⟨-, -, -, ⟨-, tx, htx, hchannels, -⟩ | ⟨hne, -⟩⟩ := Registry.deliver_spec hdeliver
  swap
  · exact absurd rfl hne
  obtain ⟨i₀, conn, hi, hsession, rfl, hholds⟩ := (hwired.inner d.session tx).mp htx
  have hnote : g.note s t (.deliver d (.ok ())) i₀ = g i₀ ++ [(d.ts, d.event)] := by
    rw [note_deliver hwired hi hholds, if_pos hsession]
  have hqueued : t.queued conn = s.queued conn ++ [d.event] := by
    unfold State.queued State.channelOf
    rw [hreg, hchannels, Function.update_self, List.filterMap_append]
    rfl
  have hpipe : pipe t (ls ++ [.deliver d (.ok ())]) i₀ conn = pipe s ls i₀ conn ++ [d.event] := by
    unfold pipe
    rw [hqueued, written_of_none rfl, ← List.append_assoc]
  have hi₀ := h.piped i₀ conn hi
  refine h.setChannel hwired hi hconns hreg ?_ (fun _ _ ↦ rfl) ?_ ⟨?_, ?_, ?_⟩
  · intro tx htx
    rw [hchannels, Function.update_of_ne htx]
  · intro i c hc hne hholds'
    rw [note_deliver hwired hc hholds', if_neg]
    intro hsession'
    exact hne (hwired.holder_unique hc hi (hsession'.trans hsession.symm) hholds' hholds)
  · intro hclaimed
    obtain ⟨hwritten, hsame⟩ := hi₀.early hclaimed
    rw [written_of_none rfl, hqueued, hnote, hsame, events_append]
    exact ⟨hwritten, rfl⟩
  · have haccepted : accepted conn.session (ls ++ [.deliver d (.ok ())]) =
        accepted conn.session ls ++ [d.event] := by
      simp [accepted_concat, Label.accepted?, hsession]
    rw [hpipe, haccepted]
    exact hi₀.line.append_right _
  · intro _
    rw [hpipe, hnote, events_append]
    exact (hi₀.mine hholds).append_right _

theorem flows_claim {r : Registry} {session : String} {channel : Nat} (h : Flows s g ls)
    (hkept : Kept s g) (hclaim : s.registry.claim session = some (channel, r)) {t : State}
    (ht : t = { s.setRegistry r with conns := s.conns ++ [⟨session, channel, .claimed, false⟩] }) :
    Flows t (g.note s t (.claim session)) (ls ++ [.claim session]) := by
  subst ht
  obtain ⟨-, rfl, rfl⟩ := Registry.claim_spec hclaim
  have hnote : ∀ t i, g.note s t (.claim session) i = g i := fun t i ↦ by
    simp [Ledger.note, handed]
  refine ⟨?_, ?_⟩
  · intro i hnone
    rw [written_of_none rfl]
    apply h.unwritten
    rw [List.getElem?_eq_none_iff] at hnone ⊢
    rw [List.length_append] at hnone
    omega
  · intro i c hc
    rcases State.at_append.mp hc with hc | ⟨rfl, rfl⟩
    · refine (h.piped i c hc).same rfl ?_ fun _ ↦ hnote _ i
      -- the new channel is none of the old ones
      have hne : c.channel ≠ s.registry.next := (hkept.wired.fresh i c hc).ne
      unfold State.queued State.channelOf
      exact congrArg (fun ch : Channel ↦ ch.queue.filterMap Outbound.event?)
        (Function.update_of_ne hne ..)
    · have hnone : s.conns[s.conns.length]? = none := List.getElem?_eq_none (le_refl _)
      have hwritten : written s.conns.length (ls ++ [.claim session]) = [] :=
        (written_of_none rfl).trans (h.unwritten _ hnone)
      have hqueued : State.queued { s.setRegistry { s.registry.setChannel s.registry.next
            Channel.new with
              inner := Function.update s.registry.inner session (some s.registry.next)
              next := s.registry.next + 1 } with
            conns := s.conns ++ [⟨session, s.registry.next, .claimed, false⟩] }
          ⟨session, s.registry.next, .claimed, false⟩ = [] := by
        show ((Function.update s.registry.channels s.registry.next Channel.new)
          s.registry.next).queue.filterMap Outbound.event? = []
        rw [Function.update_self]
        rfl
      refine ⟨fun _ ↦ ⟨hwritten, ?_⟩, ?_, fun _ ↦ ?_⟩
      · rw [hnote, hkept.unborn _ hnone]
        exact hqueued
      · unfold pipe
        rw [hwritten, hqueued]
        exact List.nil_sublist _
      · rw [hnote, hkept.unborn _ hnone]
        exact List.nil_sublist _

theorem flows_drain {r : Registry} {i₀ nowMs evicted : Nat} {conn : Conn}
    {items : List (Nat × Event)} (h : Flows s g ls) (hlined : Lined conn.session s g ls)
    (hi : s.At i₀ conn) (hs : conn.stage = .claimed)
    (hdrain : s.registry.drainBacklog conn.session nowMs = (r, items, evicted)) :
    Flows ((s.setRegistry r).setStage i₀ conn (.drained items))
      (g.note s ((s.setRegistry r).setStage i₀ conn (.drained items)) (.drain conn.session evicted))
      (ls ++ [.drain conn.session evicted]) := by
  obtain ⟨-, -, hchannels, -, -, -, dropped, hitems⟩ := Registry.drainBacklog_spec hdrain
  have hnote : ∀ t i, g.note s t (.drain conn.session evicted) i = g i := fun t i ↦ by
    simp [Ledger.note, handed]
  have hi₀ := h.piped i₀ conn hi
  obtain ⟨hwritten, hqueued⟩ := hi₀.early hs
  have hpipe : pipe ((s.setRegistry r).setStage i₀ conn (.drained items))
      (ls ++ [.drain conn.session evicted]) i₀ { conn with stage := .drained items } =
        events (items ++ g i₀) := by
    have hsame : State.queued ((s.setRegistry r).setStage i₀ conn (.drained items))
        { conn with stage := .drained items } = s.queued conn :=
      queued_congr hchannels rfl
    unfold pipe
    rw [written_of_none rfl, hwritten, hsame, hqueued, events_append]
    rfl
  refine h.setStage hi hchannels (fun _ _ ↦ rfl) (fun i c _ _ _ ↦ hnote _ i) ⟨by simp, ?_, ?_⟩
  · refine List.Sublist.trans ?_ (accepted_sublist conn.session ls _)
    rw [hpipe]
    by_cases hg : g i₀ = []
    · -- what is drained was waiting
      rw [hg, List.append_nil]
      refine (events_sublist ?_).trans hlined.line
      rw [hitems]
      exact (List.sublist_append_right dropped items).trans (List.sublist_append_right _ _)
    · -- what was delivered before found nothing waiting
      have hbacklog := (hlined.early i₀ conn hi rfl hs hg).1
      rw [hitems] at hbacklog
      obtain rfl := (List.append_eq_nil_iff.mp hbacklog).2
      refine List.Sublist.trans ?_ hi₀.line
      unfold pipe
      rw [hwritten, hqueued, hs]
      exact List.Sublist.refl _
  · intro _
    rw [hpipe, hnote]
    exact events_sublist (List.sublist_append_right items (g i₀))

theorem flows_extend {i₀ : Nat} {conn : Conn} {items : List (Nat × Event)} (h : Flows s g ls)
    (hlined : Lined conn.session s g ls) (hkept : Kept s g) (hi : s.At i₀ conn)
    (hs : conn.stage = .drained items) :
    Flows ((s.setRegistry (s.registry.extendInflight conn.session items)).setStage i₀ conn
        (.handing items))
      (g.note s ((s.setRegistry (s.registry.extendInflight conn.session items)).setStage i₀ conn
        (.handing items)) .extend) (ls ++ [.extend]) := by
  have hpast : conn.stage.pastDrain = true := by
    rw [hs]
    rfl
  have hholds := Stage.holds_of_pastDrain hpast
  obtain ⟨-, -, hchannels, -⟩ := s.registry.extendInflight_spec conn.session items
  have hi₀ := h.piped i₀ conn hi
  have hpipe : pipe ((s.setRegistry (s.registry.extendInflight conn.session items)).setStage i₀ conn
      (.handing items)) (ls ++ [.extend]) i₀ { conn with stage := .handing items } =
        pipe s ls i₀ conn := by
    have hsame : State.queued ((s.setRegistry (s.registry.extendInflight conn.session
        items)).setStage i₀ conn (.handing items)) { conn with stage := .handing items } =
          s.queued conn :=
      queued_congr hchannels rfl
    unfold pipe
    rw [written_of_none rfl, hsame, hs]
    rfl
  refine h.setStage hi hchannels (fun _ _ ↦ rfl) ?_ (hi₀.advance rfl nofun ?_ fun _ ↦ ?_)
  · exact fun i c hc hne _ ↦ note_extend_of_ne hi hc hne
  · rw [hpipe]
  · rw [hpipe, note_extend hi hs]
    by_cases hitems : items = []
    · rw [hitems, List.append_nil]
      exact hi₀.mine hholds
    · -- then nothing was delivered before
      have hheld : conn.stage.held = items := by
        rw [hs]
        rfl
      obtain ⟨hnone, -⟩ := hlined.held i₀ conn hi rfl (by rwa [hheld])
      obtain ⟨old, hold, -⟩ := (hkept.holder i₀ conn hi hholds).inflight
      rw [hnone] at hold
      rw [(List.append_eq_nil_iff.mp hold.symm).2, List.nil_append]
      unfold pipe
      rw [hs, List.append_assoc]
      exact (List.sublist_append_left _ _).trans (List.sublist_append_right _ _)

theorem queued_setChannel (s : State) (conn : Conn) (ch : Channel) :
    (s.setChannel conn ch).queued conn = ch.queue.filterMap Outbound.event? := by
  show ((Function.update s.registry.channels conn.channel ch) conn.channel).queue.filterMap
    Outbound.event? = _
  rw [Function.update_self]

theorem flows_setChannel {i₀ : Nat} {conn : Conn} {ch : Channel} (h : Flows s g ls)
    (hwired : Wired s) (hi : s.At i₀ conn)
    (hqueue : ch.queue.filterMap Outbound.event? = s.queued conn) :
    Flows (s.setChannel conn ch) (g.note s (s.setChannel conn ch) .channel) (ls ++ [.channel]) := by
  have hnote : ∀ t i, g.note s t .channel i = g i := fun t i ↦ by
    simp [Ledger.note, handed]
  refine h.setChannel hwired hi rfl rfl ?_ (fun _ _ ↦ rfl) (fun i _ _ _ _ ↦ hnote _ i) ?_
  · exact fun tx htx ↦ Function.update_of_ne htx ..
  · exact (h.piped i₀ conn hi).same rfl ((queued_setChannel s conn ch).trans hqueue)
      fun _ ↦ hnote _ i₀

theorem flows_writeEvent {i₀ : Nat} {conn : Conn} {ch : Channel} {event : Event}
    {rest : List Outbound} (h : Flows s g ls) (hwired : Wired s) (hi : s.At i₀ conn)
    (hw : conn.writer = true) (hch : s.channelOf conn = ch) (hq : ch.queue = .event event :: rest) :
    Flows (s.setChannel conn { ch with queue := rest })
      (g.note s (s.setChannel conn { ch with queue := rest }) (.write i₀ event))
      (ls ++ [.write i₀ event]) := by
  have hnote : ∀ t i, g.note s t (.write i₀ event) i = g i := fun t i ↦ by
    simp [Ledger.note, handed]
  -- the writer task runs only when the task of the connection has written what it took
  have hmay := hwired.writer i₀ conn hi hw
  have htask : conn.stage.toWrite = [] := by
    cases hstage : conn.stage with
    | claimed | drained | handing =>
      rw [hstage] at hmay
      cases hmay
    | serving | leaving | restoring | gone => rfl
  have hpipe : pipe (s.setChannel conn { ch with queue := rest }) (ls ++ [.write i₀ event]) i₀
      conn = pipe s ls i₀ conn := by
    have hold : s.queued conn = event :: rest.filterMap Outbound.event? := by
      unfold State.queued
      rw [hch, hq]
      rfl
    unfold pipe
    rw [queued_setChannel, hold, htask, written_concat]
    simp [Label.written?]
  have hi₀ := h.piped i₀ conn hi
  refine h.setChannel hwired hi rfl rfl (fun tx htx ↦ Function.update_of_ne htx ..) ?_
    (fun i _ _ _ _ ↦ hnote _ i) (hi₀.advance rfl ?_ ?_ fun hholds ↦ ?_)
  · intro i hne
    simp [Label.written?, Ne.symm hne]
  · rintro hclaimed
    rw [hclaimed] at hmay
    cases hmay
  · rw [hpipe]
  · rw [hpipe, hnote]
    exact hi₀.mine hholds

theorem flows_ack {r : Registry} {eventId : String} {found : Option (Nat × Event)} {i₀ : Nat}
    {conn : Conn} (h : Flows s g ls) (hwired : Wired s) (hi : s.At i₀ conn)
    (hs : conn.stage = .serving) (hack : s.registry.ack conn.session eventId = (r, found)) :
    Flows (s.setRegistry r) (g.note s (s.setRegistry r) (.ack conn.session eventId found))
      (ls ++ [.ack conn.session eventId found]) := by
  obtain ⟨-, -, hchannels, -⟩ := Registry.ack_spec hack
  have hholds : conn.stage.holds = true := by
    rw [hs]
    rfl
  have hi₀ := h.piped i₀ conn hi
  have hpipe : pipe (s.setRegistry r) (ls ++ [.ack conn.session eventId found]) i₀ conn =
      pipe s ls i₀ conn := by
    have hsame : (s.setRegistry r).queued conn = s.queued conn :=
      queued_congr hchannels rfl
    unfold pipe
    rw [written_of_none rfl, hsame]
  refine h.setChannel hwired hi rfl rfl (fun tx _ ↦ congrFun hchannels tx) (fun _ _ ↦ rfl) ?_
    (hi₀.advance rfl (by rw [hs]; nofun) ?_ fun _ ↦ ?_)
  · intro i c hc hne hholds'
    rw [note_ack hc, if_neg]
    rintro ⟨hsession, -⟩
    exact hne (hwired.holder_unique hc hi hsession hholds' hholds)
  · rw [hpipe]
  · rw [hpipe, note_ack hi, if_pos ⟨rfl, hs⟩]
    exact (events_sublist List.eraseP_sublist).trans (hi₀.mine hholds)

theorem flows_step {t : State} {l : Label} (h : Flows s g ls) (hkept : Kept s g)
    (hlined : ∀ k, Lined k s g ls) (hstep : Step s l t) :
    Flows t (g.note s t l) (ls ++ [l]) := by
  cases hstep with
  | @deliver r answer d hdeliver =>
    obtain ⟨hconns, hreg⟩ : ((s.setRegistry r).afterDeliver d answer).conns = s.conns ∧
        ((s.setRegistry r).afterDeliver d answer).registry = r :=
      State.afterDeliver_eq (s.setRegistry r) d answer
    obtain ⟨-, -, -, ⟨rfl, -⟩ | ⟨hne, hchannels, -⟩⟩ := Registry.deliver_spec hdeliver
    · exact flows_deliver h hkept.wired hdeliver hconns hreg
    · refine h.stay hconns (by rw [hreg, hchannels]) (fun _ ↦ rfl) fun i _ _ _ ↦ ?_
      cases answer with
      | ok => exact absurd rfl hne
      | error err => simp [Ledger.note, handed]
  | @enqueue r waiting evicted d nowMs hd henqueue =>
    obtain ⟨-, -, hchannels, -⟩ := Registry.enqueue_spec henqueue
    exact h.stay rfl hchannels (fun _ ↦ rfl) fun i _ _ _ ↦ by simp [Ledger.note, handed]
  | claim session channel hclaim => exact flows_claim h hkept hclaim rfl
  | drain nowMs hi hs hdrain => exact flows_drain h (hlined _) hi hs hdrain
  | extend hi hs => exact flows_extend h (hlined _) hkept hi hs
  | @hand i₀ conn item rest hi hs =>
    have hnote : ∀ t i, g.note s t (.write i₀ item.2) i = g i := fun t i ↦ by
      simp [Ledger.note, handed]
    have hi₀ := h.piped i₀ conn hi
    have hpipe : pipe (s.setStage i₀ conn (.handing rest)) (ls ++ [.write i₀ item.2]) i₀
        { conn with stage := .handing rest } = pipe s ls i₀ conn := by
      unfold pipe
      rw [written_concat, hs]
      simp [Label.written?, Stage.toWrite, events]
      rfl
    refine h.setStage (r := s.registry) hi rfl ?_ (fun i _ _ _ _ ↦ hnote _ i)
      (hi₀.advance rfl (by simp) ?_ fun _ ↦ ?_)
    · intro i hne
      simp [Label.written?, Ne.symm hne]
    · show (pipe (s.setStage i₀ conn (.handing rest)) _ i₀ _).Sublist _
      rw [hpipe]
    · show (events (g.note s _ _ i₀)).Sublist (pipe (s.setStage i₀ conn (.handing rest)) _ i₀ _)
      rw [hpipe, hnote]
      exact hi₀.mine (by rw [hs]; rfl)
  | @serve i₀ conn hi hs =>
    have hnote : ∀ t i, g.note s t .serve i = g i := fun t i ↦ by
      simp [Ledger.note, handed]
    have hi₀ := h.piped i₀ conn hi
    have hpipe : pipe (s.setStage i₀ { conn with writer := true } .serving) (ls ++ [.serve]) i₀
        ⟨conn.session, conn.channel, .serving, true⟩ = pipe s ls i₀ conn := by
      unfold pipe
      rw [written_of_none rfl, hs]
      rfl
    refine h.setStage (r := s.registry) hi rfl (fun _ _ ↦ rfl) (fun i _ _ _ _ ↦ hnote _ i)
      (hi₀.advance rfl (by simp) ?_ fun _ ↦ ?_)
    · show (pipe (s.setStage i₀ { conn with writer := true } .serving) _ i₀ _).Sublist _
      rw [hpipe]
    · show (events (g.note s _ _ i₀)).Sublist
        (pipe (s.setStage i₀ { conn with writer := true } .serving) _ i₀ _)
      rw [hpipe, hnote]
      exact hi₀.mine (by rw [hs]; rfl)
  | writeEvent hi hw hch hopen hq => exact flows_writeEvent h hkept.wired hi hw hch hq
  -- a result in the channel is not an event
  | writeResult hi hw hch hopen hq =>
    refine flows_setChannel h hkept.wired hi ?_
    unfold State.queued
    rw [hch, hq]
    rfl
  | reserve hi hs hch | close hi hw hch =>
    refine flows_setChannel h hkept.wired hi ?_
    unfold State.queued
    rw [hch]
  | sendResult hi hs hch =>
    refine flows_setChannel h hkept.wired hi ?_
    unfold State.queued
    rw [hch, List.filterMap_append]
    exact List.append_nil _
  | ack eventId hi hs hack => exact flows_ack h hkept.wired hi hs hack
  | @release i₀ conn hi hs =>
    refine h.setStage hi rfl (fun _ _ ↦ rfl) (fun i _ _ _ _ ↦ by simp [Ledger.note, handed])
      ((h.piped i₀ conn hi).advance rfl (by simp) ?_ fun hholds ↦ Bool.noConfusion hholds)
    -- what the task had still to write is given up
    unfold pipe
    rw [written_of_none rfl]
    exact ((List.nil_sublist _).append_left _).append_right _
  | @takeInflight r i₀ conn items hi hs htake =>
    cases htake
    refine h.setStage (r := s.registry.setInflight conn.session none) hi rfl (fun _ _ ↦ rfl)
      (fun i _ _ _ _ ↦ by simp [Ledger.note, handed])
      ((h.piped i₀ conn hi).advance rfl (by simp) ?_ fun hholds ↦ Bool.noConfusion hholds)
    unfold pipe
    rw [written_of_none rfl, hs]
    exact List.Sublist.refl _
  | @restore r i₀ conn items returned evicted nowMs hi hs hrestore =>
    obtain ⟨-, -, hchannels, -⟩ := Registry.restoreBacklog_spec hrestore
    refine h.setStage hi hchannels (fun _ _ ↦ rfl)
      (fun i _ _ _ _ ↦ by simp [Ledger.note, handed])
      ((h.piped i₀ conn hi).advance rfl (by simp) ?_ fun hholds ↦ Bool.noConfusion hholds)
    have hsame : State.queued ((s.setRegistry r).setStage i₀ conn .gone)
        { conn with stage := .gone } = s.queued conn :=
      queued_congr hchannels rfl
    unfold pipe
    rw [written_of_none rfl, hsame, hs]
    exact List.Sublist.refl _

end FlowSteps

/-! ## Every run -/

/-- All that is known after orderly steps. -/
structure Ordered (s : State) (g : Ledger) (ls : List Label) : Prop where
  kept : Kept s g
  lined : ∀ k, Lined k s g ls
  flows : Flows s g ls

theorem Ordered.init (maxAgeMs : Nat) : Ordered (State.init maxAgeMs) (fun _ ↦ []) [] where
  kept := .init maxAgeMs
  lined _ :=
    ⟨List.Sublist.refl _, fun _ _ hi ↦ absurd hi (State.not_at_of_nil rfl),
      fun _ _ hi ↦ absurd hi (State.not_at_of_nil rfl)⟩
  flows := ⟨fun _ _ ↦ rfl, fun _ _ hi ↦ absurd hi (State.not_at_of_nil rfl)⟩

theorem ordered_run {maxAgeMs : Nat} {ls : List Label} {y : State × Ledger}
    (h : Lts.Run OrderlyStep (State.init maxAgeMs, fun _ ↦ []) ls y) : Ordered y.1 y.2 ls := by
  obtain ⟨x, hx⟩ : ∃ x : State × Ledger, x = (State.init maxAgeMs, fun _ ↦ []) := ⟨_, rfl⟩
  rw [← hx] at h
  -- each part of the invariant is kept by what the others say of the state before the step
  induction h with
  | nil =>
    subst hx
    exact .init maxAgeMs
  | snoc _ hstep ih =>
    obtain ⟨⟨g, hstep⟩, horderly⟩ := hstep
    exact ⟨kept_step ih.kept hstep horderly.calm,
      fun k ↦ lined_step (ih.lined k) ih.kept hstep horderly,
      flows_step ih.flows ih.kept ih.lined hstep⟩

/-- While a connection is up, what is in custody of its session is what it was handed. -/
theorem custody_eq_of_up {s : State} {g : Ledger} {i : Nat} {conn : Conn} (h : Kept s g)
    (hi : s.At i conn) (hup : conn.stage.up = true) : custody conn.session s = ↑(g i) := by
  have hpast := Stage.pastDrain_of_up hup
  have hconn := h.holder i conn hi (Stage.holds_of_pastDrain hpast)
  obtain ⟨old, hold, hnone⟩ := hconn.inflight
  have hheld : (s.conns.map (heldFor conn.session)).sum = 0 := by
    apply List.sum_eq_zero
    intro items hitems
    obtain ⟨c, hc, rfl⟩ := List.mem_map.mp hitems
    obtain ⟨j, hj⟩ := List.getElem?_of_mem hc
    unfold heldFor Registry.shareOf
    split
    next hsession =>
      by_cases hji : j = i
      · subst hji
        obtain rfl := State.at_unique hi hj
        cases hstage : conn.stage with
        | claimed | drained | leaving | restoring | gone =>
          rw [hstage] at hup
          cases hup
        | handing | serving => rfl
      · rw [hconn.others hpast j c hj hsession.symm hji]
        rfl
    · rfl
  unfold custody Registry.custody
  rw [hheld, hold, hnone hpast, hconn.backlog hpast]
  simp

/-- In every run of orderly steps, every session sees its events in order. -/
theorem inOrder_of_orderly {maxAgeMs : Nat} {ls : List Label} {t : State} {g : Ledger}
    (h : Lts.Run OrderlyStep (State.init maxAgeMs, fun _ ↦ []) ls (t, g)) : InOrder t ls := by
  have hordered : Ordered t g ls := ordered_run h
  intro i conn hi
  have hpiped := hordered.flows.piped i conn hi
  have hbegin : written i ls <+: pipe t ls i conn := by
    unfold pipe
    rw [List.append_assoc]
    exact List.prefix_append _ _
  -- the line is what the connection was written and what is on its way to it
  refine ⟨hbegin.sublist.trans hpiped.line, fun hup ↦ ⟨_, hbegin, hpiped.line, ?_⟩⟩
  intro item hitem
  rw [custody_eq_of_up hordered.kept hi hup, Multiset.mem_coe] at hitem
  have hholds := Stage.holds_of_pastDrain (Stage.pastDrain_of_up hup)
  exact (hpiped.mine hholds).subset (List.mem_map_of_mem hitem)

/-- A message waits for its session and is written to it. -/
theorem inOrder_of_orderly_drained : ∃ ls t g,
    Lts.Run OrderlyStep (State.init 3600000, fun _ ↦ []) ls (t, g) ∧ InOrder t ls ∧
      written 0 ls = [awayMessage.event] := by
  have hdeliver : Step (State.init 3600000) (.deliver awayMessage (.error .notConnected)) _ :=
    .deliver awayMessage rfl
  have henqueue := Step.enqueue (s := { State.init 3600000 with pending := {awayMessage} })
    awayMessage 2000 (Multiset.mem_singleton_self _) rfl
  have hrun := (((((Lts.Run.single (OrderlyStep.mk (g := fun _ ↦ []) hdeliver trivial)).snoc
    (.mk henqueue fun i conn hi ↦ absurd hi (State.not_at_of_nil rfl))).snoc
    (.mk (.claim "bob" 0 rfl) trivial)).snoc
    (.mk (.drain (i := 0) 2000 rfl rfl rfl) (by
      intro i conn hi _
      obtain ⟨rfl, rfl⟩ := State.at_singleton rfl hi
      exact ⟨rfl, fun _ ↦ rfl⟩))).snoc
    (.mk (.extend (i := 0) rfl rfl) trivial)).snoc
    (.mk (.hand (i := 0) rfl rfl) trivial)
  exact ⟨_, _, _, hrun, inOrder_of_orderly hrun, rfl⟩

/-- A second message for the session. -/
def nextMessage : Dispatch :=
  { awayMessage with ts := 1001, event := { awayMessage.event with eventId := "$2" } }

/-- A message is delivered between the claim and the drain of a backlog with an older one: in
flight they are the wrong way round, and so the next connection is written them. -/
theorem inOrder_fails : ¬∀ maxAgeMs ls t, Lts.Run Step (State.init maxAgeMs) ls t →
    InOrder t ls := by
  intro h
  have hrun := (((((((((((((((Lts.Run.single
    (Step.deliver (s := State.init 3600000) awayMessage rfl)).snoc
    (Step.enqueue awayMessage 2000 (Multiset.mem_singleton_self _) rfl)).snoc
    (Step.claim "bob" 0 rfl)).snoc
    (Step.deliver nextMessage rfl)).snoc
    (Step.drain (i := 0) 2000 rfl rfl rfl)).snoc
    (Step.extend (i := 0) rfl rfl)).snoc
    (Step.hand (i := 0) rfl rfl)).snoc
    (Step.serve (i := 0) rfl rfl)).snoc
    (Step.release (i := 0) rfl rfl)).snoc
    (Step.takeInflight (i := 0) rfl rfl rfl)).snoc
    (Step.restore (i := 0) 2000 rfl rfl rfl)).snoc
    (Step.claim "bob" 1 rfl)).snoc
    (Step.drain (i := 1) 2000 rfl rfl rfl)).snoc
    (Step.extend (i := 1) rfl rfl)).snoc
    (Step.hand (i := 1) rfl rfl)).snoc
    (Step.hand (i := 1) rfl rfl)
  have hsublist := (h _ _ _ hrun 1 _ rfl).1
  revert hsublist
  decide

end Delivery

end Silta
