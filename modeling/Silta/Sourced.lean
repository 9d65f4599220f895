import Silta.Connections

/-!
# Where events come from

What is on its way to a session was dispatched to it: what is known of every dispatch is known of
every event in the backlogs, in flight, in the channels and in the hands of a task.
-/

namespace Silta

namespace Delivery

/-- The items that the task of a connection holds or has still to write. -/
def Stage.items : Stage → List (Nat × Event)
  | .drained items | .handing items | .restoring items => items
  | _ => []

/-- Of whatever the daemon has for a session, `P` is known. -/
structure Sourced (P : String → Nat × Event → Prop) (s : State) : Prop where
  inflight : ∀ k, ∀ item ∈ s.registry.inflightOf k, P k item
  backlog : ∀ k, ∀ item ∈ (s.registry.backlogOf k).items, P k item
  pending : ∀ d ∈ s.pending, P d.session (d.ts, d.event)
  held : ∀ i conn, s.At i conn → ∀ item ∈ conn.stage.items, P conn.session item
  queued : ∀ i conn, s.At i conn → ∀ event, .event event ∈ (s.channelOf conn).queue →
    ∃ ts, P conn.session (ts, event)

/-- What is known of a dispatch when it is made. -/
def Label.Known (P : String → Nat × Event → Prop) : Label → Prop
  | .deliver d _ => P d.session (d.ts, d.event)
  | _ => True

namespace Sourced

variable {P Q : String → Nat × Event → Prop} {s t : State}

theorem init (maxAgeMs : Nat) : Sourced P (State.init maxAgeMs) where
  inflight := by simp [State.init, Registry.new, Registry.inflightOf]
  backlog := by simp [State.init, Registry.new, Registry.backlogOf, Backlog.new]
  pending := by simp [State.init]
  held i conn hi := absurd hi (State.not_at_of_nil rfl)
  queued i conn hi := absurd hi (State.not_at_of_nil rfl)

theorem mono (h : Sourced P s) (hPQ : ∀ k item, P k item → Q k item) : Sourced Q s where
  inflight k item hitem := hPQ k item (h.inflight k item hitem)
  backlog k item hitem := hPQ k item (h.backlog k item hitem)
  pending d hd := hPQ d.session (d.ts, d.event) (h.pending d hd)
  held i conn hi item hitem := hPQ conn.session item (h.held i conn hi item hitem)
  queued i conn hi event hevent := by
    obtain ⟨ts, hts⟩ := h.queued i conn hi event hevent
    exact ⟨ts, hPQ conn.session (ts, event) hts⟩

/-! ## What the parts of a step keep -/

theorem setRegistry (h : Sourced P s) {r : Registry}
    (hinflight : ∀ k, ∀ item ∈ r.inflightOf k, P k item)
    (hbacklog : ∀ k, ∀ item ∈ (r.backlogOf k).items, P k item)
    (hchannels : r.channels = s.registry.channels) : Sourced P (s.setRegistry r) where
  inflight := hinflight
  backlog := hbacklog
  pending := h.pending
  held := h.held
  queued i conn hi := by
    show ∀ event, .event event ∈ (r.channels conn.channel).queue → _
    rw [hchannels]
    exact h.queued i conn hi

theorem setStage (h : Sourced P s) {i : Nat} {conn : Conn} (hi : s.At i conn) (writer : Bool)
    {stage : Stage} (hitems : ∀ item ∈ stage.items, P conn.session item) :
    Sourced P (s.setStage i { conn with writer := writer } stage) where
  inflight := h.inflight
  backlog := h.backlog
  pending := h.pending
  held j c hj := by
    rcases (State.at_setStage hi).mp hj with ⟨-, rfl⟩ | ⟨-, hj⟩
    · exact hitems
    · exact h.held j c hj
  queued j c hj := by
    rcases (State.at_setStage hi).mp hj with ⟨-, rfl⟩ | ⟨-, hj⟩
    · exact h.queued i conn hi
    · exact h.queued j c hj

theorem setChannel (h : Sourced P s) (hwired : Wired s) {i : Nat} {conn : Conn}
    (hi : s.At i conn) {ch : Channel}
    (hqueue : ∀ event, .event event ∈ ch.queue → ∃ ts, P conn.session (ts, event)) :
    Sourced P (s.setChannel conn ch) where
  inflight := h.inflight
  backlog := h.backlog
  pending := h.pending
  held := h.held
  queued j c hj := by
    show ∀ event, .event event ∈
      ((Function.update s.registry.channels conn.channel ch) c.channel).queue → _
    by_cases hsame : c.channel = conn.channel
    · -- a channel is of one connection
      obtain rfl := hwired.apart j i c conn hj hi hsame
      obtain rfl := State.at_unique hj hi
      rw [Function.update_self]
      exact hqueue
    · rw [Function.update_of_ne hsame]
      exact h.queued j c hj

theorem deliver (h : Sourced P s) (hwired : Wired s) {r : Registry}
    {answer : Except DeliverError Unit} {d : Dispatch} (hd : P d.session (d.ts, d.event))
    (hdeliver : s.registry.deliver d.session d.event d.ts = (r, answer)) :
    Sourced P ((s.setRegistry r).afterDeliver d answer) := by
  obtain ⟨-, -, hbacklog, hanswer⟩ := Registry.deliver_spec hdeliver
  have hreg : Sourced P (s.setRegistry r) := by
    rcases hanswer with ⟨-, tx, hinner, hchannels, hinflight⟩ | ⟨-, hchannels, hinflight⟩
    · refine ⟨fun k item hitem ↦ ?_, fun k item hitem ↦ ?_, h.pending, h.held, ?_⟩
      · change item ∈ r.inflightOf k at hitem
        rw [hinflight k] at hitem
        split at hitem
        · next hk =>
          rcases List.mem_append.mp hitem with hold | hnew
          · exact h.inflight k item hold
          · rw [List.mem_singleton.mp hnew, hk]
            exact hd
        · exact h.inflight k item hitem
      · change item ∈ (r.backlogOf k).items at hitem
        rw [hbacklog k] at hitem
        exact h.backlog k item hitem
      · intro i conn hi event hevent
        change Outbound.event event ∈ (r.channels conn.channel).queue at hevent
        rw [hchannels] at hevent
        by_cases htx : conn.channel = tx
        · -- the channel that the registry has for the session is that of its connection
          obtain ⟨hsession, -⟩ := hwired.holds_of_inner hi (htx ▸ hinner)
          rw [htx, Function.update_self] at hevent
          rcases List.mem_append.mp hevent with hold | hnew
          · refine h.queued i conn hi event ?_
            show Outbound.event event ∈ (s.registry.channels conn.channel).queue
            rw [htx]
            exact hold
          · obtain rfl := Outbound.event.inj (List.mem_singleton.mp hnew)
            exact ⟨d.ts, hsession ▸ hd⟩
        · rw [Function.update_of_ne htx] at hevent
          exact h.queued i conn hi event hevent
    · refine h.setRegistry (fun k item hitem ↦ ?_) (fun k item hitem ↦ ?_) hchannels
      · rw [hinflight k] at hitem
        exact h.inflight k item hitem
      · rw [hbacklog k] at hitem
        exact h.backlog k item hitem
  unfold State.afterDeliver
  split
  · refine ⟨hreg.inflight, hreg.backlog, fun d' hd' ↦ ?_, hreg.held, hreg.queued⟩
    rcases Multiset.mem_cons.mp hd' with rfl | hold
    · exact hd
    · exact hreg.pending d' hold
  · exact hreg

theorem enqueue (h : Sourced P s) {r : Registry} {waiting evicted nowMs : Nat} {d : Dispatch}
    (hd : d ∈ s.pending)
    (henqueue : s.registry.enqueue d.session d.ts d.event nowMs = (r, waiting, evicted)) :
    Sourced P { s.setRegistry r with pending := s.pending.erase d } := by
  obtain ⟨-, -, hchannels, hinflight, hothers, dropped, kept, hold, hnew⟩ :=
    Registry.enqueue_spec henqueue
  have hreg : Sourced P (s.setRegistry r) := by
    refine h.setRegistry (fun k item hitem ↦ ?_) (fun k item hitem ↦ ?_) hchannels
    · rw [hinflight k] at hitem
      exact h.inflight k item hitem
    · by_cases hk : k = d.session
      · rw [hk, hnew] at hitem
        rcases List.mem_append.mp hitem with hkept | hlast
        · refine hk ▸ h.backlog d.session item ?_
          rw [hold]
          exact List.mem_append_right dropped hkept
        · rw [List.mem_singleton.mp hlast, hk]
          exact h.pending d hd
      · rw [hothers k hk] at hitem
        exact h.backlog k item hitem
  exact ⟨hreg.inflight, hreg.backlog, fun d' hd' ↦ h.pending d' (Multiset.mem_of_mem_erase hd'),
    hreg.held, hreg.queued⟩

theorem claim (h : Sourced P s) (hwired : Wired s) {r : Registry} {session : String}
    {channel : Nat} (hclaim : s.registry.claim session = some (channel, r)) :
    Sourced P { s.setRegistry r with
      conns := s.conns ++ [⟨session, channel, .claimed, false⟩] } := by
  obtain ⟨-, rfl, rfl⟩ := Registry.claim_spec hclaim
  refine ⟨h.inflight, h.backlog, h.pending, ?_, ?_⟩
  · intro i conn hi
    rcases State.at_append.mp hi with hold | ⟨-, rfl⟩
    · exact h.held i conn hold
    · exact nofun
  · intro i conn hi
    show ∀ event, .event event ∈
      ((Function.update s.registry.channels s.registry.next Channel.new) conn.channel).queue → _
    rcases State.at_append.mp hi with hold | ⟨-, rfl⟩
    · rw [Function.update_of_ne (hwired.fresh i conn hold).ne]
      exact h.queued i conn hold
    · rw [Function.update_self]
      exact nofun

theorem drain (h : Sourced P s) {r : Registry} {i : Nat} {conn : Conn} {evicted nowMs : Nat}
    {items : List (Nat × Event)} (hi : s.At i conn)
    (hdrain : s.registry.drainBacklog conn.session nowMs = (r, items, evicted)) :
    Sourced P ((s.setRegistry r).setStage i conn (.drained items)) := by
  obtain ⟨-, -, hchannels, hinflight, hothers, hempty, dropped, hitems⟩ :=
    Registry.drainBacklog_spec hdrain
  have hreg : Sourced P (s.setRegistry r) := by
    refine h.setRegistry (fun k item hitem ↦ ?_) (fun k item hitem ↦ ?_) hchannels
    · rw [hinflight k] at hitem
      exact h.inflight k item hitem
    · by_cases hk : k = conn.session
      · rw [hk, hempty] at hitem
        cases hitem
      · rw [hothers k hk] at hitem
        exact h.backlog k item hitem
  refine hreg.setStage hi conn.writer fun item hitem ↦ h.backlog conn.session item ?_
  rw [hitems]
  exact List.mem_append_right dropped hitem

theorem extend (h : Sourced P s) {i : Nat} {conn : Conn} {items : List (Nat × Event)}
    (hi : s.At i conn) (hs : conn.stage = .drained items) :
    Sourced P ((s.setRegistry (s.registry.extendInflight conn.session items)).setStage i conn
      (.handing items)) := by
  obtain ⟨-, -, hchannels, hbacklog⟩ := s.registry.extendInflight_spec conn.session items
  have hitems : ∀ item ∈ items, P conn.session item := by
    have hheld := h.held i conn hi
    rw [hs] at hheld
    exact hheld
  have hreg : Sourced P (s.setRegistry (s.registry.extendInflight conn.session items)) := by
    refine h.setRegistry (fun k item hitem ↦ ?_) (fun k item hitem ↦ ?_) hchannels
    · rw [Registry.inflightOf_extendInflight] at hitem
      split at hitem
      · next hk =>
        rcases List.mem_append.mp hitem with hold | hnew
        · exact h.inflight k item hold
        · exact hk ▸ hitems item hnew
      · exact h.inflight k item hitem
    · rw [hbacklog k] at hitem
      exact h.backlog k item hitem
  exact hreg.setStage hi conn.writer hitems

theorem ack (h : Sourced P s) {r : Registry} {session eventId : String}
    {found : Option (Nat × Event)} (hack : s.registry.ack session eventId = (r, found)) :
    Sourced P (s.setRegistry r) := by
  obtain ⟨-, -, hchannels, hbacklog, hinflight, -⟩ := Registry.ack_spec hack
  refine h.setRegistry (fun k item hitem ↦ ?_) (fun k item hitem ↦ ?_) hchannels
  · rw [hinflight k] at hitem
    split at hitem
    · exact h.inflight k item (List.mem_of_mem_eraseP hitem)
    · exact h.inflight k item hitem
  · rw [hbacklog k] at hitem
    exact h.backlog k item hitem

theorem takeInflight (h : Sourced P s) {i : Nat} {conn : Conn} (hi : s.At i conn) :
    Sourced P ((s.setRegistry (s.registry.setInflight conn.session none)).setStage i conn
      (.restoring (s.registry.inflightOf conn.session))) := by
  have hreg : Sourced P (s.setRegistry (s.registry.setInflight conn.session none)) := by
    refine h.setRegistry (fun k item hitem ↦ ?_) h.backlog rfl
    rw [Registry.inflightOf_setInflight] at hitem
    split at hitem
    · cases hitem
    · exact h.inflight k item hitem
  exact hreg.setStage hi conn.writer (h.inflight conn.session)

theorem restore (h : Sourced P s) {r : Registry} {i : Nat} {conn : Conn}
    {items : List (Nat × Event)} {nowMs returned evicted : Nat} (hi : s.At i conn)
    (hs : conn.stage = .restoring items)
    (hrestore : s.registry.restoreBacklog conn.session items nowMs = (r, returned, evicted)) :
    Sourced P ((s.setRegistry r).setStage i conn .gone) := by
  obtain ⟨-, -, hchannels, hinflight, hothers, dropped, hsum, -⟩ :=
    Registry.restoreBacklog_spec hrestore
  have hitems : ∀ item ∈ items, P conn.session item := by
    have hheld := h.held i conn hi
    rw [hs] at hheld
    exact hheld
  have hreg : Sourced P (s.setRegistry r) := by
    refine h.setRegistry (fun k item hitem ↦ ?_) (fun k item hitem ↦ ?_) hchannels
    · rw [hinflight k] at hitem
      exact h.inflight k item hitem
    · by_cases hk : k = conn.session
      · have hmem : item ∈ items ++ (s.registry.backlogOf conn.session).items := by
          rw [hsum]
          exact List.mem_append_right dropped (hk ▸ hitem)
        rcases List.mem_append.mp hmem with hback | hold
        · exact hk ▸ hitems item hback
        · exact hk ▸ h.backlog conn.session item hold
      · rw [hothers k hk] at hitem
        exact h.backlog k item hitem
  exact hreg.setStage hi conn.writer nofun

end Sourced

/-! ## Every step -/

theorem sourced_step {P : String → Nat × Event → Prop} {s t : State} {l : Label}
    (h : Sourced P s) (hwired : Wired s) (hlabel : l.Known P) (hstep : Step s l t) :
    Sourced P t := by
  cases hstep with
  | deliver d hdeliver => exact h.deliver hwired hlabel hdeliver
  | enqueue d nowMs hd henqueue => exact h.enqueue hd henqueue
  | claim session channel hclaim => exact h.claim hwired hclaim
  | drain nowMs hi hs hdrain => exact h.drain hi hdrain
  | extend hi hs => exact h.extend hi hs
  | @hand i conn item rest hi hs =>
    refine h.setStage hi conn.writer fun other hother ↦ h.held i conn hi other ?_
    rw [hs]
    exact List.mem_cons_of_mem item hother
  | serve hi hs => exact h.setStage hi true nofun
  | @writeEvent i conn ch event rest hi hw hch hopen hq =>
    refine h.setChannel hwired hi fun other hother ↦ h.queued i conn hi other ?_
    rw [hch, hq]
    exact List.mem_cons_of_mem _ hother
  | @writeResult i conn ch rest hi hw hch hopen hq =>
    refine h.setChannel hwired hi fun other hother ↦ h.queued i conn hi other ?_
    rw [hch, hq]
    exact List.mem_cons_of_mem _ hother
  | @sendResult i conn ch hi hs hch hheld =>
    refine h.setChannel hwired hi fun other hother ↦ h.queued i conn hi other ?_
    rw [hch]
    -- a result is no event
    simpa using hother
  | @reserve i conn ch hi hs hch =>
    refine h.setChannel hwired hi ?_
    rw [← hch]
    exact h.queued i conn hi
  | @close i conn ch hi hw hch =>
    refine h.setChannel hwired hi ?_
    rw [← hch]
    exact h.queued i conn hi
  | ack eventId hi hs hack => exact h.ack hack
  | @release i conn hi hs =>
    have hreg := h.setRegistry (r := s.registry.release conn.session) h.inflight h.backlog rfl
    exact hreg.setStage hi conn.writer nofun
  | takeInflight hi hs htake =>
    cases htake
    exact h.takeInflight hi
  | restore nowMs hi hs hrestore => exact h.restore hi hs hrestore

/-- What a step writes to a connection, and what it acknowledges, was there. -/
theorem Sourced.written {P : String → Nat × Event → Prop} {s t : State} {i : Nat} {event : Event}
    (h : Sourced P s) (hstep : Step s (.write i event) t) :
    ∃ conn ts, s.At i conn ∧ P conn.session (ts, event) := by
  cases hstep with
  | @hand i conn item rest hi hs =>
    refine ⟨conn, item.1, hi, h.held i conn hi item ?_⟩
    rw [hs]
    exact List.mem_cons_self
  | @writeEvent i conn ch event rest hi hw hch hopen hq =>
    obtain ⟨ts, hts⟩ := h.queued i conn hi event (by rw [hch, hq]; exact List.mem_cons_self)
    exact ⟨conn, ts, hi, hts⟩

theorem Sourced.acked {P : String → Nat × Event → Prop} {s t : State} {session eventId : String}
    {item : Nat × Event} (h : Sourced P s) (hstep : Step s (.ack session eventId (some item)) t) :
    P session item := by
  cases hstep with
  | @ack r i conn found _ hi hs hack =>
    obtain ⟨-, -, -, -, -, hfound⟩ := Registry.ack_spec hack
    exact h.inflight _ item (List.mem_of_find?_eq_some hfound.symm)

end Delivery

end Silta
