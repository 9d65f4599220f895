import Silta.Lib.Crash
import Silta.Refusal

/-!
# Lifetimes of the supervisor

The state directory across every start, run and end of the supervisor.  It may be gone after any of
its effects, and the unit starts it again; around it the hook and people change the files.
-/

namespace Silta

namespace Supervisor

open Rotation (Action Tracker)
open State (Next Paths RotationFile)

/-- Where the supervisor is. -/
inductive Process
  | down
  /-- At the top of the loop of `supervise`. -/
  | between (cfg : Config) (notBefore : Option Nat)
  | running (cfg : Config) (start : Start) (run : Run)
  deriving DecidableEq

structure System where
  paths : Paths
  process : Process
  deriving DecidableEq

/-- What the supervisor does in one go. -/
inductive Deed
  | stop
  /-- A start of claude, with the tracker the run begins with. -/
  | start (start : Start) (tracker : Tracker)
  | turn (id : String)
  | leave (id : String) (refused : Bool)
  deriving DecidableEq

def Verdict.next (cfg : Config) : Verdict → Process
  | .exits _ => .down
  | .again notBefore => .between cfg notBefore

/-- A deed of the supervisor, with its effects. -/
inductive Does (p : Paths) : Process → Deed → List Effect → Process → Prop
  -- stopped between two runs, or nothing to resume in the one-turn emergency
  | stop (cfg : Config) (notBefore : Option Nat) :
      Does p (.between cfg notBefore) .stop [] .down
  | start (cfg : Config) (notBefore : Option Nat) (newId : String) (start : Start)
      (es : List Effect) (now : Nat) (h : plan cfg p newId = some (start, es)) :
      Does p (.between cfg notBefore)
        (.start start (startTracker cfg (Effect.applyAll p es) start notBefore now))
        (es ++ (launch cfg (Effect.applyAll p es) start notBefore now).2)
        (.running cfg start (launch cfg (Effect.applyAll p es) start notBefore now).1)
  | turn (cfg : Config) (start : Start) (run : Run) (input : Input) (now : Nat) :
      Does p (.running cfg start run) (.turn start.id) (run.handle cfg p input now).2
        (.running cfg start (run.handle cfg p input now).1)
  | leave (cfg : Config) (start : Start) (run : Run) (drained : List Line) (code : Int)
      (cancelled : Bool) :
      Does p (.running cfg start run)
        (.leave start.id (start.resume && (run.noConversation || drained.any Line.refuses)))
        (run.leave cfg start drained code).2
        ((settle cfg cancelled (run.leave cfg start drained code).1).next cfg)

inductive Label
  /-- The unit starts the supervisor. -/
  | boot (cfg : Config)
  | did (deed : Deed) (es : List Effect)
  /-- The supervisor is gone after these effects of a deed: killed, or its start failed. -/
  | lost (deed : Deed) (es : List Effect)
  | mark
  | unmark
  | spoil (file : RotationFile)
  | transcripts (ids : List String)

inductive Step : System → Label → System → Prop
  | boot (p : Paths) (cfg : Config) : Step ⟨p, .down⟩ (.boot cfg) ⟨p, .between cfg none⟩
  | did {p : Paths} {process process' : Process} {deed : Deed} {es : List Effect}
      (h : Does p process deed es process') :
      Step ⟨p, process⟩ (.did deed es) ⟨Effect.applyAll p es, process'⟩
  | lost {p : Paths} {process process' : Process} {deed : Deed} {es : List Effect}
      (h : Does p process deed es process') (k : Nat) :
      Step ⟨p, process⟩ (.lost deed (es.take k)) ⟨Effect.applyAll p (es.take k), .down⟩
  | mark (p : Paths) (process : Process) : Step ⟨p, process⟩ .mark ⟨p.writeMarker, process⟩
  | unmark (p : Paths) (process : Process) :
      Step ⟨p, process⟩ .unmark ⟨{ p with marker := false }, process⟩
  | spoil (p : Paths) (process : Process) {file : RotationFile}
      (h : file = .absent ∨ file = .unreadable) :
      Step ⟨p, process⟩ (.spoil file) ⟨{ p with rotation := file }, process⟩
  | transcripts (p : Paths) (process : Process) (ids : List String) :
      Step ⟨p, process⟩ (.transcripts ids) ⟨{ p with transcripts := ids }, process⟩

/-! ## The effects of a run -/

/-- The effects of a run before its exit is noticed. -/
def Effect.ofRun : Effect → Bool
  | .removeMarker | .removeRotation | .writeNext .normal | .action _ => true
  | e => e.offRecord

theorem Effect.ofRun_of_offRecord {e : Effect} (h : e.offRecord = true) : e.ofRun = true := by
  cases e <;> first | exact h | rfl | cases h

namespace Run

theorem forall_mem_act {P : Effect → Prop} (haction : ∀ a, P (.action a))
    (hclear : ∀ e ∈ Effect.clearRotation, P e) (hsnapshot : ∀ name, P (.snapshot name))
    (hsend : ∀ line, P (.send line)) (cfg : Config) (r : Run) (now : Nat)
    (actions : List Action) : ∀ e ∈ (r.act cfg now actions).2, P e := by
  induction actions generalizing r with
  | nil => exact List.forall_mem_nil _
  | cons a as ih =>
    intro e he
    rcases List.mem_append.mp he with hone | hrest
    · have hline : ∀ line, ∀ f ∈ r.write (.send line), P f := by
        intro line f hf
        unfold write at hf
        split at hf
        · obtain rfl := List.mem_singleton.mp hf
          exact hsend line
        · cases hf
      have hwrite : ∀ line, ∀ f ∈ Effect.action a :: r.write (.send line), P f :=
        fun line ↦ List.forall_mem_cons.mpr ⟨haction a, hline line⟩
      cases a with
      | requestHandoff => exact hwrite .handoff e hone
      | compact => exact hwrite .compact e hone
      | compacted =>
        rcases List.mem_cons.mp hone with rfl | hone
        · exact haction _
        rcases List.mem_append.mp hone with hcleared | hsent
        · exact hclear e hcleared
        · exact hline .compacted e hsent
      | snapshot moment =>
        rcases List.mem_pair.mp hone with rfl | rfl
        · exact haction _
        · exact hsnapshot _
      | _ =>
        obtain rfl := List.mem_singleton.mp hone
        exact haction _
    · exact ih _ e hrest

theorem ofRun_act (cfg : Config) (r : Run) (now : Nat) (actions : List Action) :
    ∀ e ∈ (r.act cfg now actions).2, e.ofRun = true :=
  forall_mem_act (fun _ ↦ rfl) (by decide) (fun _ ↦ rfl) (fun _ ↦ rfl) cfg r now actions

theorem ofRun_hear (cfg : Config) (r : Run) (event : Stream.Event) (now : Nat) :
    ∀ e ∈ (r.hear cfg event now).2, e.ofRun = true := by
  have hclear : ∀ e ∈ Effect.clearRotation, e.ofRun = true := by
    decide
  cases hafter : r.after with
  | some outcome =>
    have hstays : StaysEnding cfg r event _ := staysEnding_hear (by simp [hafter]) event now
    have heffects := hstays.effects
    split at heffects
    · rw [heffects]
      exact hclear
    · exact fun e he ↦ Effect.ofRun_of_offRecord (heffects e he)
  | none =>
    cases hends : r.endsWith cfg event with
    | some code =>
      rw [(hear_of_endsWith hafter hends now).2.2]
      split
      · exact hclear
      · exact List.forall_mem_nil _
    | none =>
      exact fun e he ↦ Effect.ofRun_of_offRecord ((goesOn_hear hafter hends now).offRecord e he)

theorem forall_mem_drive {P : Effect → Prop} {cfg : Config} {now : Nat}
    (hact : ∀ (r : Run) (actions : List Action), ∀ e ∈ (r.act cfg now actions).2, P e) (r : Run)
    (event : Stream.Event) (written : Bool) : ∀ e ∈ (r.drive cfg event written now).2, P e := by
  unfold drive
  split
  · exact hact _ _
  · exact List.forall_mem_nil _

theorem ofRun_drive (cfg : Config) (r : Run) (event : Stream.Event) (written : Bool) (now : Nat) :
    ∀ e ∈ (r.drive cfg event written now).2, e.ofRun = true :=
  forall_mem_drive (fun r ↦ ofRun_act cfg r now) r event written

/-- What a tick does besides the tracker's actions. -/
theorem forall_mem_tick {P : Effect → Prop} {cfg : Config} {now : Nat}
    (hact : ∀ (r : Run) (actions : List Action), ∀ e ∈ (r.act cfg now actions).2, P e)
    (hkill : P .kill) (hnext : P (.writeNext .normal)) (p : Paths) (r : Run) :
    ∀ e ∈ (r.tick cfg p now).2, P e := by
  unfold tick
  split
  · split
    · simpa using hkill
    · exact List.forall_mem_nil _
  split
  · split
    · exact List.forall_mem_nil _
    · exact List.forall_mem_nil _
  split
  · split
    · exact List.forall_mem_nil _
    · exact List.forall_mem_nil _
  · intro e he
    rcases List.mem_append.mp he with hlook | htick
    · unfold lookForMarker at hlook
      split at hlook
      · split at hlook
        · exact hact _ _ e hlook
        split at hlook
        · obtain rfl := List.mem_singleton.mp hlook
          exact hnext
        · cases hlook
      · cases hlook
    · exact hact _ _ e htick

/-- What the end of a run does, by itself, is to drop a saved id. -/
theorem forall_mem_leave {P : Effect → Prop} (hdrop : P .dropId) (cfg : Config) (start : Start)
    (r : Run) (drained : List Line) (code : Int) :
    ∀ e ∈ (r.leave cfg start drained code).2, P e := by
  unfold leave
  split
  · exact List.forall_mem_nil _
  · dsimp only
    split
    · simpa using hdrop
    · exact List.forall_mem_nil _

theorem ofRun_tick (cfg : Config) (p : Paths) (r : Run) (now : Nat) :
    ∀ e ∈ (r.tick cfg p now).2, e.ofRun = true :=
  forall_mem_tick (fun r ↦ ofRun_act cfg r now) rfl rfl p r

theorem ofRun_handle (cfg : Config) (p : Paths) (r : Run) (input : Input) (now : Nat) :
    ∀ e ∈ (r.handle cfg p input now).2, e.ofRun = true := by
  intro e he
  rcases List.mem_append.mp he with hreact | hreap
  · cases input with
    | out event written =>
      rcases List.mem_append.mp hreact with hhear | hdrive
      · exact ofRun_hear cfg r event now e hhear
      · exact ofRun_drive cfg _ event written now e hdrive
    | err line => cases hreact
    | tick => exact ofRun_tick cfg p r now e hreact
    | shutdown => cases hreact
  · exact Effect.ofRun_of_offRecord (offRecord_reap _ e hreap)

end Run

/-! ## The conversation goes on -/

/-- The effect gives the saved session up, or takes its id away. -/
def Effect.parts : Effect → Bool
  | .writeId _ | .dropId | .writeNext (.fresh _) | .action (.giveUp _ _ _) => true
  | _ => false

theorem keepsSaved_apply {id : String} {p : Paths} {e : Effect} (h : KeepsSaved id p)
    (he : e.parts = false) : KeepsSaved id (e.apply p) := by
  cases e with
  | writeId _ => cases he
  | dropId => cases he
  | writeNext next =>
    cases next with
    | fresh handoff => cases he
    | _ => exact ⟨h.1, nofun⟩
  | action a =>
    cases a with
    | giveUp step cut handoff => cases he
    | retry step attempts handoff => exact ⟨h.1, nofun⟩
    | postpone step attempts handoff => exact ⟨h.1, nofun⟩
    | _ => exact h
  | removeRotation => exact ⟨h.1, nofun⟩
  | _ => exact h

theorem keepsSaved_applyAll {id : String} {p : Paths} {es : List Effect} (h : KeepsSaved id p)
    (hes : ∀ e ∈ es, e.parts = false) : KeepsSaved id (Effect.applyAll p es) := by
  induction es generalizing p with
  | nil => exact h
  | cons e es ih =>
    have he := keepsSaved_apply h (hes e List.mem_cons_self)
    exact ih he fun f hf ↦ hes f (List.mem_cons_of_mem e hf)

/-- The plan of a conversation that can be resumed parts with nothing. -/
theorem KeepsSaved.plan_effects {id : String} {p : Paths} (h : KeepsSaved id p)
    (ht : id ∈ p.transcripts) (newId : String) : ∀ e ∈ (planStart p newId).2, e.parts = false := by
  obtain ⟨-, -, hnone | hnormal⟩ := h.planned ht newId
  · rw [hnone]
    exact List.forall_mem_nil _
  · rw [hnormal]
    simp [Effect.parts]

/-- The label is no decision against the conversation of an id: its transcript is found at every
start, claude does not refuse it, its runs do not give it up, and no one-turn emergency is on. -/
def Spares (id : String) (s : System) : Label → Prop
  | .boot cfg => cfg.oneShot = false
  | .did deed es | .lost deed es =>
    match deed with
    | .stop => True
    | .start _ _ => id ∈ s.paths.transcripts
    | .turn id' => id' = id → ∀ step cut handoff, Effect.action (.giveUp step cut handoff) ∉ es
    | .leave id' refused => id' = id → refused = false
  | _ => True

/-- The saved id is kept, and whatever runs is its session. -/
def Continues (id : String) (s : System) : Prop :=
  KeepsSaved id s.paths ∧
    match s.process with
    | .down => True
    | .between cfg _ => cfg.oneShot = false
    | .running cfg start _ => cfg.oneShot = false ∧ start.id = id

theorem parts_of_ofRun {e : Effect} (h : e.ofRun = true)
    (hkeeps : ∀ step cut handoff, e ≠ .action (.giveUp step cut handoff)) : e.parts = false := by
  cases e with
  | writeNext next => cases next <;> first | rfl | cases h
  | action a => cases a <;> first | rfl | exact absurd rfl (hkeeps _ _ _)
  | _ => first | rfl | cases h

theorem parts_of_offRecord {e : Effect} (h : e.offRecord = true) : e.parts = false := by
  cases e <;> first | rfl | cases h

/-- The effects of a deed that spares the conversation part with nothing, and what runs afterwards
is its session. -/
theorem continues_does {id : String} {p : Paths} {process process' : Process} {deed : Deed}
    {es fs : List Effect} (h : Does p process deed es process')
    (hc : Continues id ⟨p, process⟩) (hfs : fs ⊆ es)
    (hspares : Spares id ⟨p, process⟩ (.did deed fs)) :
    (∀ e ∈ fs, e.parts = false) ∧ ∀ q, KeepsSaved id q → Continues id ⟨q, process'⟩ := by
  obtain ⟨hkeeps, hprocess⟩ := hc
  cases h with
  | stop cfg notBefore =>
    exact ⟨fun e he ↦ absurd (hfs he) List.not_mem_nil, fun q hq ↦ ⟨hq, trivial⟩⟩
  | start cfg notBefore newId start es now hplan =>
    have hone : cfg.oneShot = false := hprocess
    obtain ⟨rfl, rfl⟩ : (planStart p newId).1 = start ∧ (planStart p newId).2 = es := by
      rw [plan, hone] at hplan
      exact Prod.ext_iff.mp (Option.some.inj hplan)
    obtain ⟨hid, -, -⟩ := hkeeps.plan hspares newId
    refine ⟨fun e he ↦ ?_, fun q hq ↦ ⟨hq, hone, hid⟩⟩
    rcases List.mem_append.mp (hfs he) with hplans | hlaunch
    · exact hkeeps.plan_effects hspares newId e hplans
    · exact parts_of_offRecord (offRecord_launch _ _ _ _ _ e hlaunch)
  | turn cfg start run input now =>
    obtain ⟨hone, hid⟩ := hprocess
    refine ⟨fun e he ↦ ?_, fun q hq ↦ ⟨hq, hone, hid⟩⟩
    apply parts_of_ofRun (run.ofRun_handle cfg p input now e (hfs he))
    rintro step cut handoff rfl
    exact hspares hid step cut handoff he
  | leave cfg start run drained code cancelled =>
    obtain ⟨hone, hid⟩ := hprocess
    have hrefused := hspares hid
    constructor
    · have hnone : (run.leave cfg start drained code).2 = [] := by
        unfold Run.leave
        split
        · rfl
        · simp [hrefused]
      rw [hnone] at hfs
      exact fun e he ↦ absurd (hfs he) List.not_mem_nil
    · intro q hq
      refine ⟨hq, ?_⟩
      cases settle cfg cancelled (run.leave cfg start drained code).1 with
      | exits code => trivial
      | again notBefore => exact hone

/-- A step of the system that the conversation is spared by. -/
def SparingStep (id : String) (s : System) (l : Label) (t : System) : Prop :=
  Step s l t ∧ Spares id s l

theorem continues_step {id : String} {s t : System} {l : Label} (hc : Continues id s)
    (h : SparingStep id s l t) : Continues id t := by
  obtain ⟨hstep, hspares⟩ := h
  cases hstep with
  | boot p cfg => exact ⟨hc.1, hspares⟩
  | did hdoes =>
    obtain ⟨heffects, hnext⟩ := continues_does hdoes hc (List.Subset.refl _) hspares
    exact hnext _ (keepsSaved_applyAll hc.1 heffects)
  | lost hdoes k =>
    obtain ⟨heffects, -⟩ := continues_does hdoes hc (List.take_subset k _) hspares
    exact ⟨keepsSaved_applyAll hc.1 heffects, trivial⟩
  | mark p process => exact ⟨hc.1, hc.2⟩
  | unmark p process => exact ⟨hc.1, hc.2⟩
  | spoil p process hfile =>
    refine ⟨⟨hc.1.1, fun handoff hfresh ↦ ?_⟩, hc.2⟩
    rcases hfile with rfl | rfl <;> cases hfresh
  | transcripts p process ids => exact ⟨hc.1, hc.2⟩

/-- A plan that is carried out leaves the session it starts saved. -/
theorem keepsSaved_plan (p : Paths) (newId : String) :
    KeepsSaved (planStart p newId).1.id (Effect.applyAll p (planStart p newId).2) := by
  cases hresume : (planStart p newId).1.resume with
  | true =>
    obtain ⟨hkeeps, ht⟩ := keepsSaved_of_resume hresume
    exact (hkeeps.plan ht newId).2.2
  | false =>
    have hplan := planned p newId
    generalize planStart p newId = plan at hplan hresume ⊢
    cases hplan with
    | rotated handoff => exact ⟨rfl, nofun⟩
    | fresh => exact ⟨rfl, nofun⟩
    | _ => cases hresume

/-- A start that is carried through leaves the conversation it starts saved. -/
theorem continues_start {cfg : Config} {p : Paths} {notBefore : Option Nat} {start : Start}
    {tracker : Tracker} {es : List Effect} {t : System} (hone : cfg.oneShot = false)
    (h : Step ⟨p, .between cfg notBefore⟩ (.did (.start start tracker) es) t) :
    Continues start.id t := by
  cases h with
  | did hdoes =>
    cases hdoes with
    | start _ _ newId _ es now hplan =>
      obtain ⟨rfl, rfl⟩ : (planStart p newId).1 = start ∧ (planStart p newId).2 = es := by
        rw [plan, hone] at hplan
        exact Prod.ext_iff.mp (Option.some.inj hplan)
      refine ⟨?_, hone, rfl⟩
      show KeepsSaved _ (Effect.applyAll p (_ ++ _))
      rw [Effect.applyAll_append]
      apply keepsSaved_applyAll (keepsSaved_plan p newId)
      exact fun e he ↦ parts_of_offRecord (offRecord_launch _ _ _ _ _ e he)

/-- A conversation is thrown away only by a decision: from a start of it, whatever runs, stops,
losses of the supervisor and changes of the marker and of rotation.json follow, the next start
resumes it, unless claude refused it, a run of it gave it up or its transcript was gone at a
start. -/
theorem resumed_next {cfg : Config} {p : Paths} {notBefore : Option Nat} {start : Start}
    {tracker : Tracker} {es : List Effect} {t u v : System} {ls : List Label} {start' : Start}
    {tracker' : Tracker} {es' : List Effect} (hone : cfg.oneShot = false)
    (hstart : Step ⟨p, .between cfg notBefore⟩ (.did (.start start tracker) es) t)
    (hrun : Lts.Run (SparingStep start.id) t ls u)
    (hnext : SparingStep start.id u (.did (.start start' tracker') es') v) :
    start'.resume = true ∧ start'.id = start.id := by
  have hc : Continues start.id u := by
    apply hrun.invariant (P := fun _ ↦ True) (I := Continues start.id) _
      (continues_start hone hstart) (fun _ _ ↦ trivial)
    exact fun s l t hs _ hl ↦ continues_step hs hl
  obtain ⟨hstep, hspares⟩ := hnext
  cases hstep with
  | did hdoes =>
    cases hdoes with
    | start cfg' _ newId _ es now hplan =>
      have hone' : cfg'.oneShot = false := hc.2
      obtain ⟨rfl, rfl⟩ : (planStart _ newId).1 = start' ∧ (planStart _ newId).2 = es := by
        rw [plan, hone'] at hplan
        exact Prod.ext_iff.mp (Option.some.inj hplan)
      obtain ⟨hid, hresume, -⟩ := hc.1.plan hspares newId
      exact ⟨hresume, hid⟩

/-- The saved conversation is started, rotation.json is spoilt, the supervisor is killed, and the
unit starts it again. -/
theorem resumed_next_killed :
    (planStart { savedPaths with rotation := .unreadable } "newer").1.resume = true ∧
      (planStart { savedPaths with rotation := .unreadable } "newer").1.id = "51209dfc" :=
  resumed_next rfl (.did (.start (p := savedPaths) someConfig none "new" _ _ 0 rfl))
    ((((Lts.Run.nil _).snoc ⟨.spoil _ _ (.inr rfl), trivial⟩).snoc
      ⟨.lost (.turn _ _ _ .tick 5) 0, fun _ _ _ _ ↦ List.not_mem_nil⟩).snoc
      ⟨.boot _ someConfig, rfl⟩)
    ⟨.did (.start someConfig none "newer" _ _ 9 rfl), by exact List.mem_singleton.mpr rfl⟩

end Supervisor

end Silta
