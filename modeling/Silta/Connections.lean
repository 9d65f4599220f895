import Silta.Delivery

/-!
# One connection at a time

What the connections of a session make of its backlog and of its events in flight: the registry's
name belongs to one connection, and what is in flight while it is up is what it was handed.
-/

namespace Silta

namespace Registry

variable {r r' : Registry} {session : String}

theorem deliver_spec {event : Event} {ts : Nat} {answer : Except DeliverError Unit}
    (h : r.deliver session event ts = (r', answer)) :
    r'.inner = r.inner ∧ r'.next = r.next ∧ (∀ k, r'.backlogOf k = r.backlogOf k) ∧
      ((answer = .ok () ∧ ∃ tx, r.inner session = some tx ∧
          r'.channels = Function.update r.channels tx
            { r.channels tx with queue := (r.channels tx).queue ++ [.event event] } ∧
          ∀ k, r'.inflightOf k =
            if k = session then r.inflightOf k ++ [(ts, event)] else r.inflightOf k) ∨
        (answer ≠ .ok () ∧ r'.channels = r.channels ∧ ∀ k, r'.inflightOf k = r.inflightOf k)) := by
  unfold deliver at h
  split at h
  · cases h
    exact ⟨rfl, rfl, fun _ ↦ rfl, .inr ⟨nofun, rfl, fun _ ↦ rfl⟩⟩
  next tx htx =>
    split at h
    next ch hsend =>
      cases h
      have hch : ch = { r.channels tx with
          queue := (r.channels tx).queue ++ [.event event] } := by
        unfold Channel.trySend at hsend
        split at hsend
        · cases hsend
        split at hsend
        · cases hsend
        · exact (Except.ok.inj hsend).symm
      refine ⟨rfl, rfl, fun _ ↦ rfl, .inl ⟨rfl, tx, htx, by rw [← hch]; rfl, ?_⟩⟩
      intro k
      rw [inflightOf_setChannel, inflightOf_setInflight]
      by_cases hk : k = session
      · subst hk
        simp
      · simp [hk]
    · cases h
      refine ⟨rfl, rfl, fun _ ↦ rfl, .inr ⟨nofun, rfl, ?_⟩⟩
      intro k
      rw [inflightOf_setInflight]
      by_cases hk : k = session
      · subst hk
        simp
      · simp [hk]

theorem claim_spec {channel : Nat} (h : r.claim session = some (channel, r')) :
    r.inner session = none ∧ channel = r.next ∧ r' = { r.setChannel r.next Channel.new with
      inner := Function.update r.inner session (some r.next)
      next := r.next + 1 } := by
  unfold claim at h
  split at h
  · cases h
  next hfree =>
    cases h
    exact ⟨by simpa using hfree, rfl, rfl⟩

theorem enqueue_spec {event : Event} {ts nowMs waiting evicted : Nat}
    (h : r.enqueue session ts event nowMs = (r', waiting, evicted)) :
    r'.inner = r.inner ∧ r'.next = r.next ∧ r'.channels = r.channels ∧
      (∀ k, r'.inflightOf k = r.inflightOf k) ∧
      (∀ k, k ≠ session → r'.backlogOf k = r.backlogOf k) ∧
      ∃ dropped kept, (r.backlogOf session).items = dropped ++ kept ∧
        (r'.backlogOf session).items = kept ++ [(ts, event)] := by
  obtain ⟨dropped, kept, hold, hnew, -⟩ := (r.backlogOf session).push_spec ts event nowMs
  cases h
  refine ⟨rfl, rfl, rfl, fun _ ↦ rfl, fun k hk ↦ by simp [hk], dropped, kept, hold, ?_⟩
  rw [backlogOf_setBacklog, if_pos rfl]
  exact hnew

theorem drainBacklog_spec {nowMs : Nat} {items : List (Nat × Event)} {evicted : Nat}
    (h : r.drainBacklog session nowMs = (r', items, evicted)) :
    r'.inner = r.inner ∧ r'.next = r.next ∧ r'.channels = r.channels ∧
      (∀ k, r'.inflightOf k = r.inflightOf k) ∧
      (∀ k, k ≠ session → r'.backlogOf k = r.backlogOf k) ∧
      (r'.backlogOf session).items = [] ∧
      ∃ dropped, (r.backlogOf session).items = dropped ++ items := by
  unfold drainBacklog at h
  split at h
  next backlog hbacklog =>
    obtain ⟨-, dropped, hitems, -⟩ := backlog.drain_spec nowMs
    have hof : r.backlogOf session = backlog := by
      simp [backlogOf, hbacklog]
    cases h
    refine ⟨rfl, rfl, rfl, fun _ ↦ rfl, fun k hk ↦ by simp [hk], ?_, dropped, ?_⟩
    · rw [backlogOf_setBacklog, if_pos rfl]
    · rw [hof]
      exact hitems
  next hnone =>
    have hof : (r.backlogOf session).items = [] := by
      simp [backlogOf, hnone, Backlog.new]
    cases h
    exact ⟨rfl, rfl, rfl, fun _ ↦ rfl, fun _ _ ↦ rfl, hof, [], by simpa using hof⟩

theorem inflightOf_extendInflight (items : List (Nat × Event)) (k : String) :
    (r.extendInflight session items).inflightOf k =
      if k = session then r.inflightOf k ++ items else r.inflightOf k := by
  unfold extendInflight
  split
  next hempty =>
    obtain rfl := List.isEmpty_iff.mp hempty
    simp
  · rw [inflightOf_setInflight]
    by_cases hk : k = session
    · subst hk
      simp
    · simp [hk]

theorem extendInflight_spec (r : Registry) (session : String) (items : List (Nat × Event)) :
    (r.extendInflight session items).inner = r.inner ∧
      (r.extendInflight session items).next = r.next ∧
      (r.extendInflight session items).channels = r.channels ∧
      ∀ k, (r.extendInflight session items).backlogOf k = r.backlogOf k := by
  unfold extendInflight
  split
  · exact ⟨rfl, rfl, rfl, fun _ ↦ rfl⟩
  · exact ⟨rfl, rfl, rfl, fun _ ↦ rfl⟩

/-- An ack takes the first event of its id out, and finds it where there is one. -/
theorem ack_spec {eventId : String} {found : Option (Nat × Event)}
    (h : r.ack session eventId = (r', found)) :
    r'.inner = r.inner ∧ r'.next = r.next ∧ r'.channels = r.channels ∧
      (∀ k, r'.backlogOf k = r.backlogOf k) ∧
      (∀ k, r'.inflightOf k = if k = session then
        (r.inflightOf k).eraseP (fun item ↦ item.2.eventId == eventId) else r.inflightOf k) ∧
      found = (r.inflightOf session).find? fun item ↦ item.2.eventId == eventId := by
  -- where no event has the id, nothing is taken and nothing found
  have hsame : ∀ {list : List (Nat × Event)}, list = r.inflightOf session →
      list.findIdx? (fun item ↦ item.2.eventId == eventId) = none →
      (∀ k, r.inflightOf k = if k = session then
        (r.inflightOf k).eraseP (fun item ↦ item.2.eventId == eventId) else r.inflightOf k) ∧
      none = (r.inflightOf session).find? fun item ↦ item.2.eventId == eventId := by
    intro list hlist hno
    rw [List.findIdx?_eq_none_iff] at hno
    refine ⟨fun k ↦ ?_, ?_⟩
    · by_cases hk : k = session
      · subst hk
        rw [if_pos rfl, List.eraseP_of_forall_not (by simpa [← hlist] using hno)]
      · rw [if_neg hk]
    · exact (List.find?_eq_none.mpr (by simpa [← hlist] using hno)).symm
  unfold ack at h
  split at h
  next hnone =>
    cases h
    have hempty : r.inflightOf session = [] := by
      simp [inflightOf, hnone]
    obtain ⟨hinflight, hfound⟩ := hsame hempty.symm rfl
    exact ⟨rfl, rfl, rfl, fun _ ↦ rfl, hinflight, hfound⟩
  next list hlist =>
    have hof : r.inflightOf session = list := by
      simp [inflightOf, hlist]
    split at h
    next hno =>
      cases h
      obtain ⟨hinflight, hfound⟩ := hsame hof.symm hno
      exact ⟨rfl, rfl, rfl, fun _ ↦ rfl, hinflight, hfound⟩
    next i hi =>
      cases h
      obtain ⟨hlt, htest, hbefore⟩ := List.findIdx?_eq_some_iff_getElem.mp hi
      refine ⟨rfl, rfl, rfl, fun _ ↦ rfl, fun k ↦ ?_, ?_⟩
      · rw [inflightOf_setInflight]
        by_cases hk : k = session
        · subst hk
          rw [if_pos rfl, if_pos rfl, hof, List.eraseP_eq_eraseIdx, hi]
          rfl
        · rw [if_neg hk, if_neg hk]
      · rw [hof, List.find?_eq_bind_findIdx?_getElem?, hi]
        rfl

theorem ack_found (r : Registry) (session eventId : String) :
    (r.ack session eventId).2 =
      (r.inflightOf session).find? fun item ↦ item.2.eventId == eventId := by
  cases h : r.ack session eventId
  exact (ack_spec h).2.2.2.2.2

theorem restoreBacklog_spec {items : List (Nat × Event)} {nowMs returned evicted : Nat}
    (h : r.restoreBacklog session items nowMs = (r', returned, evicted)) :
    r'.inner = r.inner ∧ r'.next = r.next ∧ r'.channels = r.channels ∧
      (∀ k, r'.inflightOf k = r.inflightOf k) ∧
      (∀ k, k ≠ session → r'.backlogOf k = r.backlogOf k) ∧
      ∃ dropped, items ++ (r.backlogOf session).items =
        dropped ++ (r'.backlogOf session).items ∧ (items = [] → dropped = []) := by
  unfold restoreBacklog at h
  split at h
  next hempty =>
    cases h
    obtain rfl := List.isEmpty_iff.mp hempty
    exact ⟨rfl, rfl, rfl, fun _ ↦ rfl, fun _ _ ↦ rfl, [], rfl, fun _ ↦ rfl⟩
  next hne =>
    obtain ⟨dropped, hitems, -⟩ := (r.backlogOf session).restore_spec items nowMs
    cases h
    refine ⟨rfl, rfl, rfl, fun _ ↦ rfl, fun k hk ↦ by simp [hk], dropped, ?_, ?_⟩
    · rw [backlogOf_setBacklog, if_pos rfl]
      exact hitems
    · rintro rfl
      simp at hne

end Registry

namespace Delivery

namespace Stage

/-- The connection has the name of its session. -/
def holds : Stage → Bool
  | .claimed | .drained _ | .handing _ | .serving => true
  | .leaving | .restoring _ | .gone => false

/-- The connection has drained the backlog. -/
def pastDrain : Stage → Bool
  | .drained _ | .handing _ | .serving => true
  | _ => false

/-- The connection has finished `take_backlog` and is still up. -/
def up : Stage → Bool
  | .handing _ | .serving => true
  | _ => false

theorem holds_of_pastDrain {stage : Stage} (h : stage.pastDrain = true) : stage.holds = true := by
  cases stage <;> first | rfl | cases h

theorem pastDrain_of_up {stage : Stage} (h : stage.up = true) : stage.pastDrain = true := by
  cases stage <;> first | rfl | cases h

/-- The writer task can be running. -/
def mayWrite : Stage → Bool
  | .claimed | .drained _ | .handing _ => false
  | _ => true

end Stage

theorem State.at_setStage {s : State} {i j : Nat} {a b c : Conn} {stage : Stage} (hi : s.At i a) :
    (s.setStage i b stage).At j c ↔
      (j = i ∧ c = { b with stage := stage }) ∨ (j ≠ i ∧ s.At j c) := by
  have hlt : i < s.conns.length := (List.getElem?_eq_some_iff.mp hi).1
  unfold State.At State.setStage
  rw [List.getElem?_set]
  by_cases hj : i = j
  · subst hj
    simp [hlt, eq_comm]
  · simp [hj, Ne.symm hj]

theorem State.at_unique {s : State} {i : Nat} {a b : Conn} (ha : s.At i a) (hb : s.At i b) :
    a = b :=
  Option.some.inj (ha.symm.trans hb)

theorem State.at_congr {s t : State} (h : t.conns = s.conns) {i : Nat} {conn : Conn} :
    t.At i conn ↔ s.At i conn := by
  unfold State.At
  rw [h]

theorem State.not_at_of_nil {s : State} {i : Nat} {conn : Conn} (h : s.conns = []) :
    ¬s.At i conn := by
  simp [State.At, h]

theorem State.at_singleton {s : State} {i : Nat} {conn c : Conn} (h : s.conns = [c])
    (hi : s.At i conn) : i = 0 ∧ conn = c := by
  unfold State.At at hi
  rw [h] at hi
  cases i with
  | zero => exact ⟨rfl, (Option.some.inj hi).symm⟩
  | succ i => simp at hi

/-! ## The name of a session -/

/-- The registry's name of a session is with the one connection that has not left, by the channel
of that connection, and a writer task runs only once the connection serves. -/
structure Wired (s : State) : Prop where
  fresh : ∀ i conn, s.At i conn → conn.channel < s.registry.next
  apart : ∀ i j a b, s.At i a → s.At j b → a.channel = b.channel → i = j
  inner : ∀ k tx, s.registry.inner k = some tx ↔
    ∃ i conn, s.At i conn ∧ conn.session = k ∧ conn.channel = tx ∧ conn.stage.holds = true
  writer : ∀ i conn, s.At i conn → conn.writer = true → conn.stage.mayWrite = true

namespace Wired

variable {s : State}

theorem init (maxAgeMs : Nat) : Wired (State.init maxAgeMs) where
  fresh := by simp [State.At, State.init]
  apart := by simp [State.At, State.init]
  inner := by simp [State.At, State.init, Registry.new]
  writer := by simp [State.At, State.init]

/-- Two connections of one session do not have its name at once. -/
theorem holder_unique (h : Wired s) {i j : Nat} {a b : Conn} (hi : s.At i a) (hj : s.At j b)
    (hsession : a.session = b.session) (ha : a.stage.holds = true) (hb : b.stage.holds = true) :
    i = j := by
  have hthis := (h.inner a.session a.channel).mpr ⟨i, a, hi, rfl, rfl, ha⟩
  have hthat := (h.inner a.session b.channel).mpr ⟨j, b, hj, hsession.symm, rfl, hb⟩
  rw [hthis] at hthat
  exact h.apart i j a b hi hj (Option.some.inj hthat)

/-- The channel that the registry has for a session is that of a connection which has its name. -/
theorem holds_of_inner (h : Wired s) {i : Nat} {conn : Conn} {k : String} (hi : s.At i conn)
    (hinner : s.registry.inner k = some conn.channel) :
    conn.session = k ∧ conn.stage.holds = true := by
  obtain ⟨j, a, hj, hsession, hchannel, ha⟩ := (h.inner k conn.channel).mp hinner
  obtain rfl := h.apart j i a conn hj hi hchannel
  obtain rfl := State.at_unique hj hi
  exact ⟨hsession, ha⟩

theorem inner_of_holds (h : Wired s) {i : Nat} {conn : Conn} (hi : s.At i conn)
    (hholds : conn.stage.holds = true) : s.registry.inner conn.session = some conn.channel :=
  (h.inner conn.session conn.channel).mpr ⟨i, conn, hi, rfl, rfl, hholds⟩

theorem setRegistry (h : Wired s) {r : Registry} (hinner : r.inner = s.registry.inner)
    (hnext : r.next = s.registry.next) : Wired (s.setRegistry r) where
  fresh i conn hi := hnext ▸ h.fresh i conn hi
  apart := h.apart
  inner k tx := hinner ▸ h.inner k tx
  writer := h.writer

theorem setStage (h : Wired s) {i : Nat} {conn : Conn} {stage : Stage} (writer : Bool)
    (hi : s.At i conn) (hholds : stage.holds = conn.stage.holds)
    (hwriter : writer = true → stage.mayWrite = true) :
    Wired (s.setStage i { conn with writer := writer } stage) where
  fresh j c hj := by
    rcases (State.at_setStage hi).mp hj with ⟨-, rfl⟩ | ⟨-, hj⟩
    · exact h.fresh i conn hi
    · exact h.fresh j c hj
  apart j j' a b hj hj' hchannel := by
    rcases (State.at_setStage hi).mp hj with ⟨rfl, rfl⟩ | ⟨-, hold⟩ <;>
      rcases (State.at_setStage hi).mp hj' with ⟨rfl, rfl⟩ | ⟨-, hold'⟩
    · rfl
    · exact h.apart _ _ _ _ hi hold' hchannel
    · exact h.apart _ _ _ _ hold hi hchannel
    · exact h.apart _ _ _ _ hold hold' hchannel
  inner k tx := by
    refine (h.inner k tx).trans ⟨?_, ?_⟩
    · rintro ⟨j, c, hj, hsession, hchannel, hc⟩
      by_cases hji : j = i
      · subst hji
        obtain rfl := State.at_unique hi hj
        exact ⟨j, _, (State.at_setStage hi).mpr (.inl ⟨rfl, rfl⟩), hsession, hchannel,
          hholds.trans hc⟩
      · exact ⟨j, c, (State.at_setStage hi).mpr (.inr ⟨hji, hj⟩), hsession, hchannel, hc⟩
    · rintro ⟨j, c, hj, hsession, hchannel, hc⟩
      rcases (State.at_setStage hi).mp hj with ⟨rfl, rfl⟩ | ⟨-, hj⟩
      · exact ⟨j, conn, hi, hsession, hchannel, hholds.symm.trans hc⟩
      · exact ⟨j, c, hj, hsession, hchannel, hc⟩
  writer j c hj hc := by
    rcases (State.at_setStage hi).mp hj with ⟨-, rfl⟩ | ⟨-, hj⟩
    · exact hwriter hc
    · exact h.writer j c hj hc

end Wired

theorem State.at_append {conns : List Conn} {conn c : Conn} {j : Nat} :
    (conns ++ [conn])[j]? = some c ↔ conns[j]? = some c ∨ (j = conns.length ∧ c = conn) := by
  rw [List.getElem?_append]
  split
  next hlt =>
    refine ⟨.inl, ?_⟩
    rintro (h | ⟨rfl, -⟩)
    · exact h
    · exact absurd hlt (lt_irrefl _)
  next hge =>
    rw [List.getElem?_eq_none (not_lt.mp hge)]
    by_cases hj : j = conns.length
    · subst hj
      simp [eq_comm]
    · have hne : j - conns.length ≠ 0 := by omega
      simp [hj, hne]

namespace Wired

variable {s : State}

theorem claim (h : Wired s) {r : Registry} {session : String} {channel : Nat}
    (hclaim : s.registry.claim session = some (channel, r)) :
    Wired { s.setRegistry r with conns := s.conns ++ [⟨session, channel, .claimed, false⟩] } := by
  obtain ⟨hfree, rfl, rfl⟩ := Registry.claim_spec hclaim
  have hnew : ∀ j c, s.At j c → c.channel ≠ s.registry.next := fun j c hj ↦
    (h.fresh j c hj).ne
  refine ⟨?_, ?_, ?_, ?_⟩
  · intro j c hj
    show c.channel < s.registry.next + 1
    rcases State.at_append.mp hj with hj | ⟨-, rfl⟩
    · exact Nat.lt_succ_of_lt (h.fresh j c hj)
    · exact Nat.lt_succ_self _
  · intro i j a b hi hj hchannel
    rcases State.at_append.mp hi with hi | ⟨rfl, rfl⟩ <;>
      rcases State.at_append.mp hj with hj | ⟨rfl, rfl⟩
    · exact h.apart i j a b hi hj hchannel
    · exact absurd hchannel (hnew i a hi)
    · exact absurd hchannel.symm (hnew j b hj)
    · rfl
  · intro k tx
    show (Function.update s.registry.inner session (some s.registry.next)) k = some tx ↔ _
    by_cases hk : k = session
    · subst hk
      rw [Function.update_self]
      constructor
      · intro htx
        exact ⟨s.conns.length, _, State.at_append.mpr (.inr ⟨rfl, rfl⟩), rfl,
          Option.some.inj htx, rfl⟩
      · rintro ⟨j, c, hj, hsession, hchannel, hc⟩
        rcases State.at_append.mp hj with hj | ⟨-, rfl⟩
        · -- nobody had the name
          rw [(h.inner k tx).mpr ⟨j, c, hj, hsession, hchannel, hc⟩] at hfree
          cases hfree
        · exact congrArg some hchannel
    · rw [Function.update_of_ne hk]
      refine (h.inner k tx).trans ⟨?_, ?_⟩
      · rintro ⟨j, c, hj, hc⟩
        exact ⟨j, c, State.at_append.mpr (.inl hj), hc⟩
      · rintro ⟨j, c, hj, hsession, hc⟩
        rcases State.at_append.mp hj with hj | ⟨-, rfl⟩
        · exact ⟨j, c, hj, hsession, hc⟩
        · exact absurd hsession.symm hk
  · intro j c hj hc
    rcases State.at_append.mp hj with hj | ⟨-, rfl⟩
    · exact h.writer j c hj hc
    · cases hc

theorem release (h : Wired s) {i : Nat} {conn : Conn} (hi : s.At i conn)
    (hleave : conn.stage.mayLeave = true) :
    Wired ((s.setRegistry (s.registry.release conn.session)).setStage i conn .leaving) := by
  have hholds : conn.stage.holds = true := by
    cases hstage : conn.stage with
    | drained | leaving | restoring | gone => rw [hstage] at hleave; cases hleave
    | claimed | handing | serving => rfl
  have hat : ∀ j c, ((s.setRegistry (s.registry.release conn.session)).setStage i conn
      .leaving).At j c → (j = i ∧ c = { conn with stage := .leaving }) ∨ (j ≠ i ∧ s.At j c) :=
    fun j c hj ↦ (State.at_setStage (s := s.setRegistry _) hi).mp hj
  refine ⟨?_, ?_, ?_, ?_⟩
  · intro j c hj
    rcases hat j c hj with ⟨-, rfl⟩ | ⟨-, hj⟩
    · exact h.fresh i conn hi
    · exact h.fresh j c hj
  · intro j j' a b hj hj' hchannel
    rcases hat j a hj with ⟨rfl, rfl⟩ | ⟨-, hold⟩ <;>
      rcases hat j' b hj' with ⟨rfl, rfl⟩ | ⟨-, hold'⟩
    · rfl
    · exact h.apart _ _ _ _ hi hold' hchannel
    · exact h.apart _ _ _ _ hold hi hchannel
    · exact h.apart _ _ _ _ hold hold' hchannel
  · intro k tx
    show (Function.update s.registry.inner conn.session none) k = some tx ↔ _
    -- only the session that is given up loses a name, and nobody else had it
    constructor
    · intro htx
      have hk : k ≠ conn.session := by
        rintro rfl
        simp at htx
      rw [Function.update_of_ne hk] at htx
      obtain ⟨j, c, hj, hsession, hc⟩ := (h.inner k tx).mp htx
      have hji : j ≠ i := by
        rintro rfl
        exact hk (by rw [← hsession, State.at_unique hj hi])
      exact ⟨j, c, (State.at_setStage (s := s.setRegistry _) hi).mpr (.inr ⟨hji, hj⟩), hsession, hc⟩
    · rintro ⟨j, c, hj, hsession, hchannel, hc⟩
      rcases hat j c hj with ⟨-, rfl⟩ | ⟨hji, hj⟩
      · cases hc
      · have hk : k ≠ conn.session := by
          rintro rfl
          exact hji (h.holder_unique hj hi hsession hc hholds)
        rw [Function.update_of_ne hk]
        exact (h.inner k tx).mpr ⟨j, c, hj, hsession, hchannel, hc⟩
  · intro j c hj hc
    rcases hat j c hj with ⟨-, rfl⟩ | ⟨-, hj⟩
    · rfl
    · exact h.writer j c hj hc

end Wired

theorem wired_step {s t : State} {l : Label} (h : Wired s) (hstep : Step s l t) : Wired t := by
  cases hstep with
  | @deliver r answer d hdeliver =>
    obtain ⟨hinner, hnext, -⟩ := Registry.deliver_spec hdeliver
    have hr := h.setRegistry hinner hnext
    unfold State.afterDeliver
    split
    · exact ⟨hr.fresh, hr.apart, hr.inner, hr.writer⟩
    · exact hr
  | @enqueue r waiting evicted d nowMs hd henqueue =>
    obtain ⟨hinner, hnext, -⟩ := Registry.enqueue_spec henqueue
    have hr := h.setRegistry hinner hnext
    exact ⟨hr.fresh, hr.apart, hr.inner, hr.writer⟩
  | claim session channel hclaim => exact h.claim hclaim
  | @drain r i conn items evicted nowMs hi hs hdrain =>
    obtain ⟨hinner, hnext, -⟩ := Registry.drainBacklog_spec hdrain
    refine (h.setRegistry hinner hnext).setStage conn.writer hi (by rw [hs]; rfl) ?_
    intro hwriter
    have hearly := h.writer i conn hi hwriter
    rw [hs] at hearly
    cases hearly
  | @extend i conn items hi hs =>
    obtain ⟨hinner, hnext, -⟩ := s.registry.extendInflight_spec conn.session items
    refine (h.setRegistry hinner hnext).setStage conn.writer hi (by rw [hs]; rfl) ?_
    intro hwriter
    have hearly := h.writer i conn hi hwriter
    rw [hs] at hearly
    cases hearly
  | @hand i conn item rest hi hs =>
    refine h.setStage conn.writer hi (by rw [hs]; rfl) ?_
    intro hwriter
    have hearly := h.writer i conn hi hwriter
    rw [hs] at hearly
    cases hearly
  -- the one step that spawns a writer
  | serve hi hs => exact h.setStage true hi (by rw [hs]; rfl) fun _ ↦ rfl
  | writeEvent | writeResult | reserve | sendResult | close => exact h.setRegistry rfl rfl
  | ack eventId hi hs hack =>
    obtain ⟨hinner, hnext, -⟩ := Registry.ack_spec hack
    exact h.setRegistry hinner hnext
  | release hi hs => exact h.release hi hs
  | @takeInflight r i conn items hi hs htake =>
    cases htake
    exact (h.setRegistry (r := s.registry.setInflight conn.session none) rfl rfl).setStage
      conn.writer hi (by rw [hs]; rfl) fun _ ↦ rfl
  | @restore r i conn items returned evicted nowMs hi hs hrestore =>
    obtain ⟨hinner, hnext, -⟩ := Registry.restoreBacklog_spec hrestore
    exact (h.setRegistry hinner hnext).setStage conn.writer hi (by rw [hs]; rfl)
      fun _ ↦ rfl

end Delivery

end Silta
