import Mathlib.Data.List.Chain
import Silta.RunTriples

/-!
# The order of the effects of a turn

Which effects of a turn of the loop stand side by side, and the moments at which a rotation asks for
its copies.
-/

namespace Silta

namespace Rotation

/-- An action that needs no other beside it. -/
def Action.alone : Action → Bool
  | .snapshot _ | .compact => false
  | _ => true

/-- What the tracker answers, action by action. -/
inductive Answers : List Action → Prop
  | nothing : Answers []
  | copied : Answers [.snapshot .beforeHandoff, .requestHandoff]
  | compacts : Answers [.snapshot .afterHandoff, .compact]
  | single (a : Action) (h : a.alone = true) : Answers [a]
  | marked {actions : List Action} (h : Answers actions) : Answers (.markPending :: actions)

namespace Tracker

theorem answers_endsRun {a : Action} (h : a.endsRun = true) : Answers [a] := by
  apply Answers.single
  cases a <;> first | rfl | cases h

theorem answers_cut (t : Tracker) (step : Step) : Answers (t.cut step).2 := by
  obtain ⟨a, ha, hcut⟩ := t.cut_ends step
  rw [hcut]
  exact answers_endsRun ha

theorem answers_failed (t : Tracker) (step : Step) (now : Nat) :
    Answers (t.failed step now).2 := by
  obtain ⟨a, ha, hfailed⟩ := t.failed_ends step now
  rw [hfailed]
  exact answers_endsRun ha

theorem answers_advance (t : Tracker) (now : Nat) : Answers (t.advance now).2 := by
  unfold advance
  split
  · exact .nothing
  · split
    · exact .nothing
    split
    · dsimp only
      split
      · exact .copied
      · exact .single _ rfl
    split
    · exact t.answers_cut .wait
    · exact .nothing
  · split
    · exact t.answers_cut .handoff
    · exact .nothing
  · split
    · exact t.answers_cut .compaction
    · exact .nothing

theorem answers_event (t : Tracker) (event : Stream.Event) (now : Nat) :
    Answers (t.event event now).2 := by
  cases event with
  | result isError person =>
    show Answers (t.result isError person now).2
    unfold result
    dsimp only
    split
    · split
      · exact .single _ rfl
      split
      · exact answers_failed _ _ _
      · exact .compacts
    · split
      · exact .single _ rfl
      split
      · exact answers_failed _ _ _
      · exact .single _ rfl
    · exact answers_advance _ now
  | _ => exact answers_advance _ now

theorem answers_tick (t : Tracker) (now : Nat) : Answers (t.tick now).2 := by
  unfold tick
  split
  · exact .marked (answers_advance _ now)
  · exact answers_advance _ now

theorem answers_markerSeen (t : Tracker) (now : Nat) : Answers (t.markerSeen now).2 := by
  unfold markerSeen
  split
  · exact .nothing
  · exact answers_advance _ now

/-! ## Idle moments -/

theorem quiet_advance (t : Tracker) (now : Nat) : (t.advance now).1.quiet = t.quiet := by
  have hcut : ∀ step, (t.cut step).1.quiet = t.quiet := by
    intro step
    unfold cut
    dsimp only
    split <;> rfl
  cases hexp : t.expires now with
  | true =>
    obtain ⟨step, hadvance⟩ := advance_of_expires hexp
    rw [hadvance, hcut]
  | false =>
    rcases advance_of_not_expires hexp with hsame | ⟨_, actions, _, hadvance⟩
    · rw [hsame]
    · rw [hadvance]
      rfl

theorem quiet_setPending (t : Tracker) (now : Nat) : (t.setPending now).quiet = t.quiet := by
  unfold setPending
  split <;> rfl

theorem quiet_tick (t : Tracker) (now : Nat) : (t.tick now).1.quiet = t.quiet := by
  unfold tick
  split
  · exact (quiet_advance _ now).trans (t.quiet_setPending now)
  · exact t.quiet_advance now

/-- The action opens a handoff: the copy before it, or the request. -/
def opensHandoff : Action → Bool
  | .snapshot .beforeHandoff | .requestHandoff => true
  | _ => false

theorem not_endsRun_of_opens {a : Action} (h : opensHandoff a = true) : a.endsRun = false := by
  cases a <;> first | rfl | cases h

/-- A handoff is opened in a quiet moment. -/
theorem quiet_of_opens {t : Tracker} {a : Action} {now : Nat} (ha : opensHandoff a = true)
    (h : a ∈ (t.advance now).2) : t.quiet = true := by
  cases hexp : t.expires now with
  | true =>
    obtain ⟨step, hadvance⟩ := advance_of_expires hexp
    obtain ⟨b, hb, hcut⟩ := t.cut_ends step
    rw [hadvance, hcut] at h
    obtain rfl := List.mem_singleton.mp h
    rw [not_endsRun_of_opens ha] at hb
    cases hb
  | false =>
    rcases advance_of_not_expires hexp with hsame | ⟨hquiet, -⟩
    · rw [hsame] at h
      cases h
    · exact hquiet

theorem opens_notMem_failed {a : Action} (ha : opensHandoff a = true) (t : Tracker) (step : Step)
    (now : Nat) : a ∉ (t.failed step now).2 := by
  obtain ⟨b, hb, hfailed⟩ := t.failed_ends step now
  rw [hfailed, List.mem_singleton]
  rintro rfl
  rw [not_endsRun_of_opens ha] at hb
  cases hb

theorem quiet_of_opens_event {t : Tracker} {event : Stream.Event} {a : Action} {now : Nat}
    (ha : opensHandoff a = true) (h : a ∈ (t.event event now).2) :
    (t.event event now).1.quiet = true := by
  have hadvance : ∀ {u : Tracker}, a ∈ (u.advance now).2 → (u.advance now).1.quiet = true := by
    intro u hmem
    rw [quiet_advance]
    exact quiet_of_opens ha hmem
  cases event with
  | result isError person =>
    have hresult : a ∈ (t.result isError person now).2 := h
    cases hphase : t.phase with
    -- from the handoff turn on, what is copied is what the handoff left
    | handoff deadline =>
      exfalso
      simp only [result, endTurn_phase, hphase] at hresult
      split at hresult
      · obtain rfl := List.mem_singleton.mp hresult
        cases ha
      split at hresult
      · exact opens_notMem_failed ha _ _ _ hresult
      · rcases List.mem_pair.mp hresult with rfl | rfl <;> cases ha
    | compacting deadline boundary failed =>
      exfalso
      simp only [result, endTurn_phase, hphase] at hresult
      split at hresult
      · obtain rfl := List.mem_singleton.mp hresult
        cases ha
      split at hresult
      · exact opens_notMem_failed ha _ _ _ hresult
      · obtain rfl := List.mem_singleton.mp hresult
        cases ha
    | _ =>
      have hsame : t.event (.result isError person) now = (t.endTurn person now).advance now := by
        simp only [Tracker.event, result, endTurn_phase, hphase]
      rw [hsame] at h ⊢
      exact hadvance h
  | _ => exact hadvance h

theorem quiet_of_opens_setPending {t : Tracker} {a : Action} {now : Nat}
    (ha : opensHandoff a = true) (h : a ∈ ((t.setPending now).advance now).2) :
    t.quiet = true := by
  rw [← t.quiet_setPending now]
  exact quiet_of_opens ha h

theorem quiet_of_opens_tick {t : Tracker} {a : Action} {now : Nat} (ha : opensHandoff a = true)
    (h : a ∈ (t.tick now).2) : t.quiet = true := by
  unfold tick at h
  split at h
  · rcases List.mem_cons.mp h with rfl | hpending
    · cases ha
    · exact quiet_of_opens_setPending ha hpending
  · exact quiet_of_opens ha h

theorem quiet_of_opens_markerSeen {t : Tracker} {a : Action} {now : Nat}
    (ha : opensHandoff a = true) (h : a ∈ (t.markerSeen now).2) : t.quiet = true := by
  unfold markerSeen at h
  split at h
  · cases h
  · exact quiet_of_opens_setPending ha h

theorem quiet_markerSeen (t : Tracker) (now : Nat) : (t.markerSeen now).1.quiet = t.quiet := by
  unfold markerSeen
  split
  · rfl
  · exact (quiet_advance _ now).trans (t.quiet_setPending now)

end Tracker

end Rotation

namespace Supervisor

open Rotation (Action Answers Moment Tracker)
open State (Paths)

/-! ## Side by side -/

namespace Effect

/-- What may follow an effect: an action that copies is carried out at once, the lines that ask for
the handoff and for the compaction go out with their actions, and `/compact` after its copy. -/
def joins (e f : Effect) : Bool :=
  match e, f with
  | .action (.snapshot moment), f => f == .snapshot moment.name
  | e, .send .handoff => e == .action .requestHandoff
  | e, .send .compact => e == .action .compact
  | e, .action .compact => e == .snapshot Moment.afterHandoff.name
  | _, _ => true

/-- Nothing need stand before the effect. -/
def heads : Effect → Bool
  | .send .handoff | .send .compact | .action .compact => false
  | _ => true

/-- Nothing need stand behind the effect. -/
def lasts : Effect → Bool
  | .action (.snapshot _) => false
  | _ => true

theorem joins_of {e f : Effect} (he : e.lasts = true) (hf : f.heads = true) :
    e.joins f = true := by
  unfold joins
  split
  · cases he
  · cases hf
  · cases hf
  · cases hf
  · rfl

/-- The line that asks for the handoff goes out with its action. -/
theorem eq_of_joins_request {e : Effect} (h : e.joins (.send .handoff) = true) :
    e = .action .requestHandoff := by
  unfold joins at h
  split at h
  · exact absurd (beq_iff_eq.mp h) nofun
  · exact beq_iff_eq.mp h
  next hcompact => cases hcompact
  next haction => cases haction
  next hno _ _ => exact absurd rfl hno

theorem eq_of_joins_compact {e : Effect} (h : e.joins (.send .compact) = true) :
    e = .action .compact := by
  unfold joins at h
  split at h
  · exact absurd (beq_iff_eq.mp h) nofun
  next hhandoff => cases hhandoff
  · exact beq_iff_eq.mp h
  next haction => cases haction
  next hno _ => exact absurd rfl hno

/-- The compaction comes after its copy. -/
theorem eq_of_joins_compacts {e : Effect} (h : e.joins (.action .compact) = true) :
    e = .snapshot Moment.afterHandoff.name := by
  unfold joins at h
  split at h
  · exact absurd (beq_iff_eq.mp h) nofun
  next hhandoff => cases hhandoff
  next hcompact => cases hcompact
  · exact beq_iff_eq.mp h
  next hno => exact absurd rfl hno

end Effect

/-- Effects that stand as they should beside each other, whatever else there is. -/
structure Seamless (es : List Effect) : Prop where
  chain : es.IsChain fun e f ↦ e.joins f = true
  heads : ∀ e ∈ es.head?, e.heads = true
  lasts : ∀ e ∈ es.getLast?, e.lasts = true

theorem Seamless.nil : Seamless [] := ⟨.nil, nofun, nofun⟩

theorem Seamless.append {es fs : List Effect} (h : Seamless es) (k : Seamless fs) :
    Seamless (es ++ fs) where
  chain := List.isChain_append.mpr ⟨h.chain, k.chain, fun e he f hf ↦
    Effect.joins_of (h.lasts e he) (k.heads f hf)⟩
  heads := by
    intro e he
    rw [List.head?_append, Option.mem_def, Option.or_eq_some_iff] at he
    rcases he with he | ⟨-, he⟩
    · exact h.heads e he
    · exact k.heads e he
  lasts := by
    intro e he
    rw [List.getLast?_append, Option.mem_def, Option.or_eq_some_iff] at he
    rcases he with he | ⟨-, he⟩
    · exact k.lasts e he
    · exact h.lasts e he

/-- Where something must stand before an effect, it does. -/
theorem Seamless.before {es before after : List Effect} {e : Effect} (h : Seamless es)
    (hes : es = before ++ e :: after) (he : e.heads = false) :
    ∃ rest f, before = rest ++ [f] ∧ f.joins e = true := by
  subst hes
  rcases List.eq_nil_or_concat before with rfl | ⟨rest, f, rfl⟩
  · have hheads := h.heads e (by simp)
    rw [he] at hheads
    cases hheads
  · have hchain := h.chain
    rw [List.concat_append, List.isChain_append_cons_cons] at hchain
    exact ⟨rest, f, by simp, hchain.2.1⟩

theorem seamless_of_forall {es : List Effect}
    (h : ∀ e ∈ es, e.heads = true ∧ e.lasts = true) : Seamless es := by
  induction es with
  | nil => exact .nil
  | cons e es ih =>
    obtain ⟨hheads, hlasts⟩ := h e List.mem_cons_self
    have hone : Seamless [e] := ⟨.singleton e, by simpa using hheads, by simpa using hlasts⟩
    exact hone.append (ih fun f hf ↦ h f (List.mem_cons_of_mem e hf))

namespace Run

theorem seamless_perform (cfg : Config) (r : Run) (now : Nat) {a : Action} (h : a.alone = true) :
    Seamless (r.perform cfg now a).2 := by
  have hpair : ∀ line, Seamless [.action a, .send line] → Seamless [.action a] →
      Seamless (.action a :: r.write (.send line)) := by
    intro line htwo hone
    unfold write
    split
    · exact htwo
    · exact hone
  cases a with
  | snapshot moment => cases h
  | compact => cases h
  | requestHandoff =>
    exact hpair .handoff ⟨by simp [Effect.joins], by simp [Effect.heads], by simp [Effect.lasts]⟩
      ⟨by simp, by simp [Effect.heads], by simp [Effect.lasts]⟩
  | compacted =>
    refine (seamless_of_forall ?_).append (seamless_of_forall ?_)
    · simp [Effect.records, Effect.heads, Effect.lasts]
    · unfold write
      split
      · simp [Effect.heads, Effect.lasts]
      · exact List.forall_mem_nil _
  | _ => exact ⟨by simp [perform], by simp [perform, Effect.heads], by simp [perform, Effect.lasts]⟩

theorem act_append (cfg : Config) (r : Run) (now : Nat) (a : Action) (as : List Action) :
    (r.act cfg now (a :: as)).2 =
      (r.perform cfg now a).2 ++ ((r.perform cfg now a).1.act cfg now as).2 := rfl

theorem seamless_act (cfg : Config) (r : Run) (now : Nat) {actions : List Action}
    (h : Answers actions) : Seamless (r.act cfg now actions).2 := by
  induction h generalizing r with
  | nothing => exact .nil
  | copied =>
    have heffects : (r.act cfg now [.snapshot .beforeHandoff, .requestHandoff]).2 =
        [.action (.snapshot .beforeHandoff), .snapshot Moment.beforeHandoff.name,
          .action .requestHandoff] ++ r.write (.send .handoff) := by
      simp [act, Answer.andThen, perform]
    rw [heffects, write]
    split
    · exact ⟨by simp [Effect.joins], by simp [Effect.heads], by simp [Effect.lasts]⟩
    · exact ⟨by simp [Effect.joins], by simp [Effect.heads], by simp [Effect.lasts]⟩
  | compacts =>
    have heffects : (r.act cfg now [.snapshot .afterHandoff, .compact]).2 =
        [.action (.snapshot .afterHandoff), .snapshot Moment.afterHandoff.name,
          .action .compact] ++ r.write (.send .compact) := by
      simp [act, Answer.andThen, perform]
    rw [heffects, write]
    split
    · exact ⟨by simp [Effect.joins], by simp [Effect.heads], by simp [Effect.lasts]⟩
    · exact ⟨by simp [Effect.joins], by simp [Effect.heads], by simp [Effect.lasts]⟩
  | single a halone =>
    rw [act_append]
    exact (r.seamless_perform cfg now halone).append .nil
  | marked _ ih =>
    rw [act_append]
    exact (r.seamless_perform cfg now rfl).append (ih _)

/-- What an output line does by itself: the answer to the window check lets the first line go, and
the end of the one-turn emergency clears the records; else nothing shows. -/
theorem hear_effects (cfg : Config) (r : Run) (event : Stream.Event) (now : Nat) :
    (∃ line deadline, r.intro = some (line, deadline) ∧ (r.hear cfg event now).1.intro = none ∧
      (r.hear cfg event now).2 =
        (if cfg.oneShot then [.snapshot "before-emergency"] else []) ++ r.write (.send line)) ∨
      (∀ e ∈ (r.hear cfg event now).2,
        e.aside = true ∧ (∀ name, e ≠ .snapshot name) ∧ (∀ line, e ≠ .send line)) ∨
      cfg.oneShot = true ∧ (r.hear cfg event now).2 = Effect.clearRotation := by
  have hheard := heard cfg r event now
  generalize r.hear cfg event now = x at hheard
  cases hheard with
  | starts requestId maxTokens line deadline hintro =>
    refine .inl ⟨line, deadline, hintro, ?_⟩
    unfold start
    split
    · exact ⟨rfl, rfl⟩
    · exact ⟨rfl, rfl⟩
  | done isError person hone =>
    right
    show _ ∨ cfg.oneShot = true ∧ (if r.compacted then Effect.clearRotation else []) = _
    split
    · exact .inr ⟨hone, rfl⟩
    · exact .inl (List.forall_mem_nil _)
  | opens => exact .inr (.inl (by simp [Effect.aside]))
  | _ => exact .inr (.inl (List.forall_mem_nil _))

theorem seamless_hear (cfg : Config) {r : Run} (event : Stream.Event) (now : Nat)
    (hline : ∀ line deadline, r.intro = some (line, deadline) →
      (Effect.send line).heads = true) : Seamless (r.hear cfg event now).2 := by
  apply seamless_of_forall
  intro e he
  rcases hear_effects cfg r event now with ⟨line, deadline, hintro, -, heq⟩ | hquiet | ⟨-, heq⟩
  · rw [heq] at he
    rcases List.mem_append.mp he with hcopy | hsend
    · split at hcopy
      · obtain rfl := List.mem_singleton.mp hcopy
        exact ⟨rfl, rfl⟩
      · cases hcopy
    · unfold write at hsend
      split at hsend
      · obtain rfl := List.mem_singleton.mp hsend
        exact ⟨hline line deadline hintro, rfl⟩
      · cases hsend
  · obtain ⟨haside, -, hno⟩ := hquiet e he
    cases e with
    | send line => exact absurd rfl (hno line)
    | action a => cases haside
    | _ => exact ⟨rfl, rfl⟩
  · rw [heq] at he
    rcases Effect.mem_clearRotation.mp he with rfl | rfl
    · exact ⟨rfl, rfl⟩
    · exact ⟨rfl, rfl⟩

theorem seamless_drive (cfg : Config) (r : Run) (event : Stream.Event) (written : Bool)
    (now : Nat) : Seamless (r.drive cfg event written now).2 := by
  unfold drive
  split
  · exact seamless_act cfg _ now (Tracker.answers_event _ event now)
  · exact .nil

theorem seamless_tick (cfg : Config) (p : Paths) (r : Run) (now : Nat) :
    Seamless (r.tick cfg p now).2 := by
  have hlook : ∀ r : Run, Seamless (r.lookForMarker cfg p now).2 := by
    intro r
    unfold lookForMarker
    split
    · split
      · exact seamless_act cfg _ now (r.tracker.answers_markerSeen now)
      split
      · exact seamless_of_forall (by simp [Effect.heads, Effect.lasts])
      · exact .nil
    · exact .nil
  unfold tick
  split
  · split
    · exact seamless_of_forall (by simp [Effect.heads, Effect.lasts])
    · exact .nil
  split
  · split
    · exact .nil
    · exact .nil
  split
  · split
    · exact .nil
    · exact .nil
  · exact (hlook _).append (seamless_act cfg _ now (Tracker.answers_tick _ now))

theorem seamless_handle (cfg : Config) (p : Paths) {r : Run} (input : Input) (now : Nat)
    (hline : ∀ line deadline, r.intro = some (line, deadline) →
      (Effect.send line).heads = true) : Seamless (r.handle cfg p input now).2 := by
  have hreap : ∀ r : Run, Seamless r.reap.2 := fun r ↦
    seamless_of_forall (forall_mem_reap ⟨rfl, rfl⟩ r)
  refine Seamless.append ?_ (hreap _)
  cases input with
  | out event written =>
    exact (seamless_hear cfg event now hline).append (seamless_drive cfg _ event written now)
  | err line => exact .nil
  | tick => exact seamless_tick cfg p r now
  | shutdown => exact .nil

/-! ## The first line -/

theorem act_effects (cfg : Config) (r : Run) (now : Nat) (actions : List Action) :
    ∀ e ∈ (r.act cfg now actions).2, (∃ a, e ∈ Effect.records a) ∨ e.aside = true := by
  induction actions generalizing r with
  | nil => exact List.forall_mem_nil _
  | cons a as ih =>
    intro e he
    rw [act_append] at he
    rcases List.mem_append.mp he with hone | hrest
    · obtain ⟨es, hes, haside⟩ := r.perform_effects cfg now a
      rw [hes] at hone
      rcases List.mem_append.mp hone with hrecords | hone
      · exact .inl ⟨a, hrecords⟩
      · exact .inr (haside e hone)
    · exact ih _ e hrest

theorem intro_notMem_act (cfg : Config) (r : Run) (now : Nat) (actions : List Action) :
    ∀ e ∈ (r.act cfg now actions).2, ∀ kind, e ≠ .send (.intro kind) := by
  rintro e he kind rfl
  rcases act_effects cfg r now actions _ he with ⟨a, ha⟩ | haside
  · rcases Effect.mem_records ha with haction | hcleared
    · cases haction
    · simp at hcleared
  · cases haside

theorem intro_notMem_reap (r : Run) : ∀ e ∈ r.reap.2, ∀ kind, e ≠ .send (.intro kind) :=
  forall_mem_reap (fun _ ↦ nofun) r

theorem intro_notMem_drive (cfg : Config) (r : Run) (event : Stream.Event) (written : Bool)
    (now : Nat) : ∀ e ∈ (r.drive cfg event written now).2, ∀ kind, e ≠ .send (.intro kind) :=
  forall_mem_drive (fun r ↦ intro_notMem_act cfg r now) r event written

theorem intro_notMem_tick (cfg : Config) (p : Paths) (r : Run) (now : Nat) :
    ∀ e ∈ (r.tick cfg p now).2, ∀ kind, e ≠ .send (.intro kind) :=
  forall_mem_tick (fun r ↦ intro_notMem_act cfg r now) (fun _ ↦ nofun) (fun _ ↦ nofun) p r

/-- A start line that a turn sends is the one that was held for the window check. -/
theorem intro_held {cfg : Config} {p : Paths} {r : Run} {input : Input} {now : Nat} {kind : Kind}
    (h : .send (.intro kind) ∈ (r.handle cfg p input now).2) :
    ∃ event written deadline, input = .out event written ∧
      r.intro = some (.intro kind, deadline) ∧
      (cfg.oneShot = false → (r.hear cfg event now).2 = [.send (.intro kind)]) := by
  have hreact : .send (.intro kind) ∈ (r.react cfg p input now).2 := by
    rcases List.mem_append.mp h with hreact | hreap
    · exact hreact
    · exact absurd rfl (intro_notMem_reap _ _ hreap kind)
  cases input with
  | err line => cases hreact
  | shutdown => cases hreact
  | tick => exact absurd rfl (intro_notMem_tick cfg p r now _ hreact kind)
  | out event written =>
    have hhear : .send (.intro kind) ∈ (r.hear cfg event now).2 := by
      rcases List.mem_append.mp hreact with hhear | hdrive
      · exact hhear
      · exact absurd rfl (intro_notMem_drive cfg _ event written now _ hdrive kind)
    rcases hear_effects cfg r event now with ⟨line, deadline, hintro, -, heq⟩ | hquiet | ⟨-, heq⟩
    · have hwrite : .send (.intro kind) ∈ r.write (.send line) := by
        rw [heq] at hhear
        rcases List.mem_append.mp hhear with hcopy | hwrite
        · split at hcopy <;> simp at hcopy
        · exact hwrite
      have hsends : r.write (.send line) = [.send line] := by
        unfold write at hwrite ⊢
        split at hwrite
        · next hopen => rw [if_pos hopen]
        · cases hwrite
      rw [hsends, List.mem_singleton] at hwrite
      obtain rfl : .intro kind = line := Effect.send.inj hwrite
      refine ⟨event, written, deadline, rfl, hintro, fun hone ↦ ?_⟩
      rw [heq, hone, hsends]
      rfl
    · exact absurd rfl ((hquiet _ hhear).2.2 _)
    · simp [heq] at hhear

/-- A start line is the first effect of its turn. -/
theorem intro_first {cfg : Config} (hone : cfg.oneShot = false) {p : Paths} {r : Run}
    {input : Input} {now : Nat} {before after : List Effect} {kind : Kind}
    (h : (r.handle cfg p input now).2 = before ++ .send (.intro kind) :: after) :
    before = [] := by
  have hmem : .send (.intro kind) ∈ (r.handle cfg p input now).2 := by
    rw [h]
    exact List.mem_append_right _ List.mem_cons_self
  obtain ⟨event, written, -, rfl, -, hsends⟩ := intro_held hmem
  have hfirst : (r.handle cfg p (.out event written) now).2 =
      .send (.intro kind) :: (((r.hear cfg event now).1.drive cfg event written now).2 ++
        (r.react cfg p (.out event written) now).1.reap.2) := by
    show ((r.hear cfg event now).2 ++ _) ++ _ = _
    rw [hsends hone]
    rfl
  cases before with
  | nil => rfl
  | cons e rest =>
    -- no other start line follows the first
    rw [hfirst] at h
    obtain ⟨-, hrest⟩ := List.cons.inj h
    have hlater : .send (.intro kind) ∈
        ((r.hear cfg event now).1.drive cfg event written now).2 ++
          (r.react cfg p (.out event written) now).1.reap.2 := by
      rw [hrest]
      exact List.mem_append_right _ List.mem_cons_self
    rcases List.mem_append.mp hlater with hdrive | hreap
    · exact absurd rfl (intro_notMem_drive cfg _ event written now _ hdrive kind)
    · exact absurd rfl (intro_notMem_reap _ _ hreap kind)

theorem intro_hear (cfg : Config) (r : Run) (event : Stream.Event) (now : Nat) :
    (r.hear cfg event now).1.intro = r.intro ∨ (r.hear cfg event now).1.intro = none := by
  have hend : ∀ (r : Run) code, (r.«end» code now).intro = r.intro ∨
      (r.«end» code now).intro = none := by
    intro r code
    unfold Run.end
    split
    · exact .inl rfl
    · exact .inr rfl
  have hheard := heard cfg r event now
  generalize r.hear cfg event now = x at hheard
  cases hheard with
  | starts requestId maxTokens line deadline hintro =>
    obtain ⟨deadline, hstart⟩ := start_eq cfg { r with intro := none } line now
    rw [hstart]
    exact .inr rfl
  | refuses =>
    right
    rcases hend { r with intro := none } EXIT_MODEL with hsame | hnone
    · exact hsame
    · exact hnone
  | outage => exact hend r EXIT_MODEL
  | done =>
    left
    show (r.done cfg now).intro = r.intro
    unfold done
    split <;> rfl
  | fails => exact hend r 1
  | _ => exact .inl rfl

theorem intro_drive (cfg : Config) (r : Run) (event : Stream.Event) (written : Bool) (now : Nat) :
    (r.drive cfg event written now).1.intro = r.intro := by
  unfold drive
  split
  · exact act_intro cfg _ now _
  · rfl

theorem intro_lookForMarker (cfg : Config) (p : Paths) (r : Run) (now : Nat) :
    (r.lookForMarker cfg p now).1.intro = r.intro := by
  unfold lookForMarker
  split
  · split
    · exact act_intro cfg _ now _
    split <;> rfl
  · rfl

@[simp] theorem reap_intro (r : Run) : r.reap.1.intro = r.intro := by
  unfold reap
  split <;> rfl

/-- No turn of the loop holds a line that was not held before. -/
theorem held_before {cfg : Config} {p : Paths} {r : Run} {input : Input} {now : Nat}
    (h : (r.handle cfg p input now).1.intro.isSome = true) : r.intro.isSome = true := by
  have hreact : (r.react cfg p input now).1.intro.isSome = true := by
    rw [← reap_intro]
    exact h
  cases input with
  | err line =>
    have herr : (r.err line).intro = r.intro := by
      unfold err
      split <;> rfl
    rw [← herr]
    exact hreact
  | shutdown =>
    have hstop : (r.shutdown cfg now).intro = r.intro := by
      unfold shutdown
      split <;> rfl
    rw [← hstop]
    exact hreact
  | tick =>
    have htick : (r.tick cfg p now).1.intro.isSome = true := hreact
    unfold tick at htick
    split at htick
    · split at htick <;> exact htick
    split at htick
    · next hintro => simp [hintro]
    split at htick
    · next hnone _ =>
      split at htick
      · unfold Run.end at htick
        split at htick
        · exact htick
        · cases htick
      · exact htick
    · rw [← intro_lookForMarker cfg p { r with ticks := r.ticks + 1 } now]
      have htake : ∀ (r : Run) answer, (r.take cfg answer now).1.intro = r.intro :=
        fun r answer ↦ act_intro cfg (r.withTracker answer.1) now answer.2
      rw [← htake]
      exact htick
  | out event written =>
    have hheard : (r.hear cfg event now).1.intro.isSome = true := by
      rw [← intro_drive cfg _ event written now]
      exact hreact
    rcases intro_hear cfg r event now with hsame | hnone
    · rwa [hsame] at hheard
    · rw [hnone] at hheard
      cases hheard

theorem aside_reap (r : Run) : ∀ e ∈ r.reap.2, e.aside = true :=
  forall_mem_reap (P := fun e ↦ e.aside = true) rfl r

/-- While the first line is held, nothing shows of the rotation. -/
theorem held_aside {cfg : Config} (hone : cfg.oneShot = false) (p : Paths) {r : Run}
    (input : Input) (now : Nat) (hstill : (r.handle cfg p input now).1.intro.isSome = true) :
    ∀ e ∈ (r.handle cfg p input now).2, e.aside = true := by
  have hheld : r.intro.isSome = true := held_before hstill
  have hreact : ∀ e ∈ (r.react cfg p input now).2, e.aside = true := by
    have hkept : (r.react cfg p input now).1.intro.isSome = true := by
      rw [← reap_intro]
      exact hstill
    cases input with
    | err line => exact List.forall_mem_nil _
    | shutdown => exact List.forall_mem_nil _
    | tick =>
      show ∀ e ∈ (r.tick cfg p now).2, e.aside = true
      unfold tick
      split
      · split
        · simp [Effect.aside]
        · exact List.forall_mem_nil _
      split
      · split
        · exact List.forall_mem_nil _
        · exact List.forall_mem_nil _
      · next hnone =>
        rw [hnone] at hheld
        cases hheld
    | out event written =>
      have hsome : (r.hear cfg event now).1.intro.isSome = true := by
        rw [← intro_drive cfg _ event written now]
        exact hkept
      have hnothing : (r.hear cfg event now).1.drive cfg event written now =
          ((r.hear cfg event now).1, []) := by
        apply drive_of_held
        rw [Option.isNone_eq_false_iff.mpr hsome, Bool.and_false]
      intro e he
      rcases List.mem_append.mp he with hhear | hdrives
      · rcases hear_effects cfg r event now with ⟨_, _, _, hgone, _⟩ | hquiet | ⟨htrue, -⟩
        · rw [hgone] at hsome
          cases hsome
        · exact (hquiet e hhear).1
        · rw [hone] at htrue
          cases htrue
      · have hnone : e ∈ ((r.hear cfg event now).1.drive cfg event written now).2 := hdrives
        rw [hnothing] at hnone
        cases hnone
  intro e he
  rcases List.mem_append.mp he with he | hreap
  · exact hreact e he
  · exact aside_reap _ e hreap

/-! ## The copy before the handoff -/

/-- A copy before the handoff is one that the tracker asked for. -/
theorem copy_of_act {cfg : Config} {r : Run} {now : Nat} {actions : List Action}
    (h : .snapshot Moment.beforeHandoff.name ∈ (r.act cfg now actions).2) :
    .snapshot .beforeHandoff ∈ actions := by
  induction actions generalizing r with
  | nil => cases h
  | cons a as ih =>
    rw [act_append] at h
    rcases List.mem_append.mp h with hone | hrest
    · have hwrite : ∀ line, .snapshot Moment.beforeHandoff.name ∉
          Effect.records a ++ r.write (.send line) := by
        intro line hmem
        rcases List.mem_append.mp hmem with hrecords | hsent
        · rcases Effect.mem_records hrecords with haction | hcleared
          · cases haction
          · simp at hcleared
        · unfold write at hsent
          split at hsent <;> simp at hsent
      cases a with
      | snapshot moment =>
        cases moment with
        | beforeHandoff => exact List.mem_cons_self
        | afterHandoff => simp [perform, Moment.name] at hone
      | requestHandoff => exact absurd hone (hwrite .handoff)
      | compact => exact absurd hone (hwrite .compact)
      | compacted => exact absurd hone (hwrite .compacted)
      | _ => simp [perform] at hone
    · exact List.mem_cons_of_mem a (ih hrest)

theorem quiet_of_copy_lookForMarker {cfg : Config} {p : Paths} {r : Run} {now : Nat}
    (h : .snapshot Moment.beforeHandoff.name ∈ (r.lookForMarker cfg p now).2) :
    (r.lookForMarker cfg p now).1.tracker.quiet = true := by
  unfold lookForMarker at h ⊢
  split at h
  · next hlook =>
    rw [if_pos hlook]
    split at h
    · next hseen =>
      rw [if_pos hseen]
      show (act cfg _ now _).1.tracker.quiet = true
      rw [act_tracker]
      show (r.tracker.markerSeen now).1.quiet = true
      rw [Tracker.quiet_markerSeen]
      exact Tracker.quiet_of_opens_markerSeen rfl (copy_of_act h)
    · split at h <;> simp at h
  · cases h

theorem quiet_of_copy_tick {cfg : Config} {p : Paths} {r : Run} {now : Nat}
    (h : .snapshot Moment.beforeHandoff.name ∈ (r.tick cfg p now).2) :
    (r.tick cfg p now).1.tracker.quiet = true := by
  unfold tick at h ⊢
  split at h
  · split at h <;> simp at h
  split at h
  · split at h <;> simp at h
  split at h
  · split at h <;> simp at h
  · next hone =>
    rw [if_neg hone]
    have hquiet : ({ r with ticks := r.ticks + 1 }.lookForMarker cfg p now).1.tracker.quiet =
        true := by
      rcases List.mem_append.mp h with hlook | htick
      · exact quiet_of_copy_lookForMarker hlook
      · exact Tracker.quiet_of_opens_tick rfl (copy_of_act htick)
    show (act cfg _ now _).1.tracker.quiet = true
    rw [act_tracker]
    exact (Tracker.quiet_tick _ now).trans hquiet

/-- The moment is quiet in which the tracker's copy before the handoff is taken. -/
theorem quiet_of_copy_handle {cfg : Config} {p : Paths} {r : Run} {input : Input} {now : Nat}
    (h : .snapshot Moment.beforeHandoff.name ∈ (r.handle cfg p input now).2) :
    (r.handle cfg p input now).1.tracker.quiet = true := by
  have hreact : .snapshot Moment.beforeHandoff.name ∈ (r.react cfg p input now).2 := by
    rcases List.mem_append.mp h with hreact | hreap
    · exact hreact
    · have hkill := forall_mem_reap (P := (· = .kill)) rfl _ _ hreap
      cases hkill
  have hquiet : (r.react cfg p input now).1.tracker.quiet = true := by
    cases input with
    | err line => cases hreact
    | shutdown => cases hreact
    | out event written =>
      rcases List.mem_append.mp hreact with hhear | hdrive
      · exfalso
        rcases hear_effects cfg r event now with ⟨line, _, _, _, heq⟩ | hno | ⟨-, heq⟩
        · rw [heq] at hhear
          unfold write at hhear
          split at hhear <;> split at hhear <;> simp [Moment.name] at hhear
        · exact (hno _ hhear).2.1 _ rfl
        · simp [heq] at hhear
      · have hdrives : .snapshot Moment.beforeHandoff.name ∈
            ((r.hear cfg event now).1.drive cfg event written now).2 := hdrive
        show ((r.hear cfg event now).1.drive cfg event written now).1.tracker.quiet = true
        unfold drive at hdrives ⊢
        split at hdrives
        · next hfree =>
          rw [if_pos hfree]
          show (act cfg _ now _).1.tracker.quiet = true
          rw [act_tracker]
          exact Tracker.quiet_of_opens_event rfl (copy_of_act hdrives)
        · cases hdrives
    | tick => exact quiet_of_copy_tick hreact
  obtain ⟨killed, hreap⟩ := (r.react cfg p input now).1.reap_eq
  show (r.react cfg p input now).1.reap.1.tracker.quiet = true
  rw [hreap]
  exact hquiet

end Run

/-! ## The start of a run -/

theorem heads_firstLine (cfg : Config) (start : Start) :
    (Effect.send (firstLine cfg start)).heads = true := by
  unfold firstLine
  split
  · split <;> rfl
  · rfl
  · rfl

/-- What a launch does once claude is started, before a line is sent. -/
theorem launch_effects (cfg : Config) (p : Paths) (start : Start) (notBefore : Option Nat)
    (now : Nat) :
    ∃ last, (launch cfg p start notBefore now).2 =
        [.clearChannelReady, .spawn start] ++
          (if start.kind = .retry ∧ start.snapshot = true then
            [.snapshot Moment.beforeHandoff.name]
          else []) ++ last ∧
      (last = [.control WINDOW_REQUEST] ∨
        last = (if cfg.oneShot then [.snapshot "before-emergency"] else []) ++
          [.send (firstLine cfg start)]) := by
  unfold launch Answer.andThen
  dsimp only
  by_cases hwindow : cfg.window.isSome = true
  · rw [if_pos hwindow]
    exact ⟨[.control WINDOW_REQUEST], rfl, .inl rfl⟩
  · rw [if_neg hwindow]
    refine ⟨_, rfl, .inr ?_⟩
    unfold Run.start
    split
    · rfl
    · rfl

theorem seamless_launch (cfg : Config) (p : Paths) (start : Start) (notBefore : Option Nat)
    (now : Nat) : Seamless (launch cfg p start notBefore now).2 := by
  obtain ⟨last, hlaunch, hlast⟩ := launch_effects cfg p start notBefore now
  rw [hlaunch]
  refine (Seamless.append ?_ ?_).append ?_
  · exact seamless_of_forall (by simp [Effect.heads, Effect.lasts])
  · split
    · exact seamless_of_forall (by simp [Effect.heads, Effect.lasts])
    · exact .nil
  · rcases hlast with rfl | rfl
    · exact seamless_of_forall (by simp [Effect.heads, Effect.lasts])
    · refine Seamless.append ?_ (seamless_of_forall ?_)
      · split
        · exact seamless_of_forall (by simp [Effect.heads, Effect.lasts])
        · exact .nil
      · simpa [Effect.lasts] using heads_firstLine cfg start

/-- What a plan does to the files. -/
def Effect.ofPlan : Effect → Bool
  | .writeId _ | .writeNext _ | .removeMarker | .removeRotation => true
  | _ => false

theorem ofPlan_of_plan {cfg : Config} {p : Paths} {newId : String} {start : Start}
    {es : List Effect} (h : plan cfg p newId = some (start, es)) :
    ∀ e ∈ es, e.ofPlan = true := by
  unfold plan at h
  split at h
  · obtain ⟨id, -, hstart⟩ := Option.map_eq_some_iff.mp h
    obtain ⟨-, rfl⟩ := Prod.ext_iff.mp hstart
    exact List.forall_mem_nil _
  · have hplan := planned p newId
    rw [Option.some.inj h] at hplan
    cases hplan with
    | rotated handoff => simp [Effect.ofPlan]
    | retry => exact List.forall_mem_nil _
    | postponed => exact List.forall_mem_nil _
    | normal => simp [Effect.ofPlan]
    | fresh => simp [Effect.ofPlan, Effect.clearRotation]

theorem seamless_ofPlan {es : List Effect} (h : ∀ e ∈ es, e.ofPlan = true) : Seamless es := by
  apply seamless_of_forall
  intro e he
  have hplan := h e he
  cases e <;> first | exact ⟨rfl, rfl⟩ | cases hplan

end Supervisor

end Silta
