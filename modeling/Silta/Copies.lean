import Silta.EffectOrder
import Silta.RotationCount

/-!
# The copies of a rotation

Memory and transcript are copied before the handoff and before the compaction: what the tracker and
`rotation.json` know of the copy, over cuts and restarts, against the lines that claude gets.
-/

namespace Silta

namespace Supervisor

open Rotation (Action HANDOFF_ATTEMPTS Moment Protocol Tracker u32Succ)
open State (Next Paths)

/-! ## What is asked of the effects -/

/-- The rotation under way ends, or is forgotten for a normal start. -/
def Effect.leavesRotation : Effect → Bool
  | .writeNext .normal => true
  | e => e.endsRotation

/-- The copy before the handoff has been attempted in the rotation under way. -/
def Copied (es : List Effect) : Prop :=
  ∃ before since, es = before ++ .snapshot Moment.beforeHandoff.name :: since ∧
    ∀ e ∈ since, e.leavesRotation = false

/-- A line that asks for the handoff: the request, and the start line of a retry. -/
def HostLine.asksHandoff : HostLine → Bool
  | .handoff | .intro .retry => true
  | _ => false

/-- Nothing is at work when a deed has had these effects: claude has just been started and has no
line yet, or no turn is in progress once the input is heard, and no agent is outstanding. -/
inductive IdleMoment (s : System) : Deed → List Effect → Prop
  | start (start : Start) (tracker : Tracker) (before : List Effect)
      (hspawn : .spawn start ∈ before) (hline : ∀ line, .send line ∉ before) :
      IdleMoment s (.start start tracker) before
  | turn (cfg : Config) (start : Start) (run : Run) (input : Input) (now : Nat)
      (before : List Effect) (hrun : s.process = .running cfg start run)
      (hbefore : before <+: (run.handle cfg s.paths input now).2)
      (hquiet : (run.handle cfg s.paths input now).1.tracker.quiet = true) :
      IdleMoment s (.turn start.id) before

theorem Copied.append {es fs : List Effect} (h : Copied es)
    (hfs : ∀ e ∈ fs, e.leavesRotation = false) : Copied (es ++ fs) := by
  obtain ⟨before, since, rfl, hsince⟩ := h
  refine ⟨before, since ++ fs, by simp, fun e he ↦ ?_⟩
  rcases List.mem_append.mp he with he | he
  · exact hsince e he
  · exact hfs e he

theorem copied_concat (es : List Effect) :
    Copied (es ++ [.snapshot Moment.beforeHandoff.name]) :=
  ⟨es, [], rfl, List.forall_mem_nil _⟩

/-! ## What the files and the tracker know of the copy -/

/-- What the actions say of the copy before the handoff. -/
inductive Copy
  | missing
  /-- The action that takes it was the last word. -/
  | taken
  /-- The handoff was asked for. -/
  | asked
  deriving DecidableEq, Repr

def Copy.next (m : Copy) : Effect → Copy
  | .action (.snapshot .beforeHandoff) => if m = .asked then .asked else .taken
  | .action .requestHandoff => .asked
  | e => if e.leavesRotation then .missing else m

/-- The handoff is asked for only where the copy is not missing. -/
def asks : Lts.Monitor Copy Effect :=
  fun m e ↦ if e = .action .requestHandoff ∧ m = .missing then none else some (m.next e)

/-- A rotation that is on record without a copy still due has its copy. -/
def CopyOnFile (p : Paths) (m : Copy) : Prop :=
  match p.rotation with
  | .holds (.retry snapshot attempts _) => attempts = 1 ∧ (snapshot = false → m = .asked)
  | .holds (.postponed attempts _) => attempts = 1 ∧ m = .asked
  | _ => True

/-- Where the tracker does not take the copy again, it has been taken. -/
structure CopyKnown (q : Protocol) (p : Paths) (m : Copy) : Prop where
  file : CopyOnFile p m
  few : q.stage ≠ .ended → q.spent < HANDOFF_ATTEMPTS
  idle : q.stage = .idle → q.spent = 0
  waiting : q.stage = .waiting → q.spent ≠ 0 → m = .asked
  copied : q.stage = .copiedBefore → q.spent = 0 ∧ m ≠ .missing
  active : q.stage ≠ .idle → q.stage ≠ .waiting → q.stage ≠ .copiedBefore → q.stage ≠ .ended →
    q.spent = 0 → m = .asked

theorem asks_eq (e : Effect) (h : e ≠ .action .requestHandoff) (m : Copy) :
    asks m e = some (m.next e) :=
  if_neg fun hboth ↦ h hboth.1

theorem copyOnFile_mono {p : Paths} {m m' : Copy} (h : CopyOnFile p m)
    (hm : m = .asked → m' = .asked) : CopyOnFile p m' := by
  unfold CopyOnFile at h ⊢
  split at h
  · exact ⟨h.1, fun hno ↦ hm (h.2 hno)⟩
  · exact ⟨h.1, hm h.2⟩
  · trivial

theorem CopyKnown.on_file {q : Protocol} {p p' : Paths} {m : Copy} (h : CopyKnown q p m)
    (hfile : CopyOnFile p' m) : CopyKnown q p' m :=
  ⟨hfile, h.few, h.idle, h.waiting, h.copied, h.active⟩

/-- In the stages of the handoff and of the compaction the copy is known of as in each other. -/
theorem copyKnown_active {q : Protocol} {p : Paths} {m : Copy} (h : CopyKnown q p m)
    (hstage : q.stage ≠ .idle ∧ q.stage ≠ .waiting ∧ q.stage ≠ .copiedBefore ∧ q.stage ≠ .ended)
    {q' : Protocol} (hspent : q'.spent = q.spent)
    (hstage' : q'.stage ≠ .idle ∧ q'.stage ≠ .waiting ∧ q'.stage ≠ .copiedBefore) :
    CopyKnown q' p m where
  file := h.file
  few _ := hspent ▸ h.few hstage.2.2.2
  idle hidle := absurd hidle hstage'.1
  waiting hwaiting := absurd hwaiting hstage'.2.1
  copied hcopied := absurd hcopied hstage'.2.2
  active _ _ _ _ hzero :=
    h.active hstage.1 hstage.2.1 hstage.2.2.1 hstage.2.2.2 (hspent ▸ hzero)

/-- An attempt has ended. -/
theorem copyKnown_ended {q : Protocol} {p : Paths} {m : Copy} (hfile : CopyOnFile p m)
    (hstage : q.stage = .ended) : CopyKnown q p m where
  file := hfile
  few hended := absurd hstage hended
  idle hidle := by rw [hstage] at hidle; cases hidle
  waiting hwaiting := by rw [hstage] at hwaiting; cases hwaiting
  copied hcopied := by rw [hstage] at hcopied; cases hcopied
  active _ _ _ hended := absurd hstage hended

/-- No rotation is under way. -/
theorem copyKnown_idle {q : Protocol} {p : Paths} {m : Copy} (hfile : CopyOnFile p m)
    (hstage : q.stage = .idle) (hspent : q.spent = 0) : CopyKnown q p m where
  file := hfile
  few _ := hspent ▸ Nat.zero_lt_two
  idle _ := hspent
  waiting hwaiting := by rw [hstage] at hwaiting; cases hwaiting
  copied hcopied := by rw [hstage] at hcopied; cases hcopied
  active hidle := absurd hstage hidle

/-- The quiet moment is waited for. -/
theorem copyKnown_waiting {q : Protocol} {p : Paths} {m : Copy} (hfile : CopyOnFile p m)
    (hstage : q.stage = .waiting) (hfew : q.spent < HANDOFF_ATTEMPTS)
    (hspent : q.spent ≠ 0 → m = .asked) : CopyKnown q p m where
  file := hfile
  few _ := hfew
  idle hidle := by rw [hstage] at hidle; cases hidle
  waiting _ := hspent
  copied hcopied := by rw [hstage] at hcopied; cases hcopied
  active _ hwaiting := absurd hstage hwaiting

/-- Another attempt is left only to the first one. -/
theorem first_attempt {spent : Nat} (hfew : spent < HANDOFF_ATTEMPTS)
    (hleft : u32Succ spent < HANDOFF_ATTEMPTS) : spent = 0 ∧ u32Succ spent = 1 := by
  have htwo : HANDOFF_ATTEMPTS = 2 := rfl
  rw [u32Succ_of_lt hfew] at hleft ⊢
  omega

theorem CopyKnown.asked_of_step {q : Protocol} {p : Paths} {m : Copy} (h : CopyKnown q p m)
    {step : Rotation.Step} (hstep : Protocol.stepOf q.stage = some step)
    (hwaiting : q.stage ≠ .waiting) (hzero : q.spent = 0) : m = .asked := by
  obtain ⟨hidle, hended⟩ := stage_of_stepOf hstep
  apply h.active hidle hwaiting _ hended hzero
  intro hcopied
  rw [hcopied] at hstep
  cases hstep

theorem copyKnown_emit {q q' : Protocol} {p : Paths} {m : Copy} {c : Rotation.Call} {a : Action}
    (h : CopyKnown q p m) (hgoes : a ≠ .compacted) (hemit : q.emit c a = some q') :
    ∃ m', asks m (.action a) = some m' ∧ CopyKnown q' (recordAction p a) m' := by
  cases Protocol.emitted hemit with
  | markPending hidle =>
    refine ⟨m, asks_eq (.action .markPending) (by simp) m, copyKnown_waiting h.file rfl ?_ ?_⟩
    · exact h.few (by rw [hidle]; simp)
    · exact fun hspent ↦ absurd (h.idle hidle) hspent
  | copyBefore hstage =>
    have hzero : q.spent = 0 := by
      simp only [Protocol.emit, Option.ite_none_right_eq_some] at hemit
      exact hemit.1.2
    refine ⟨_, asks_eq (.action (.snapshot .beforeHandoff)) (by simp) m, ?_⟩
    show CopyKnown _ p (if m = .asked then .asked else .taken)
    refine ⟨copyOnFile_mono h.file fun hasked ↦ if_pos hasked, fun _ ↦ ?_, by simp, by simp,
      fun _ ↦ ⟨hzero, ?_⟩, fun _ _ hcopied ↦ absurd rfl hcopied⟩
    · exact h.few (by rw [hstage]; simp)
    · split <;> simp
  | requestHandoff hstage =>
    have hthere : m ≠ .missing ∧ q.spent < HANDOFF_ATTEMPTS := by
      simp only [Protocol.emit, Option.ite_none_right_eq_some] at hemit
      rcases hemit.1 with hcopied | ⟨hwaiting, hspent⟩
      · exact ⟨(h.copied hcopied).2, h.few (by rw [hcopied]; simp)⟩
      -- the copy of an earlier attempt is kept
      · rw [h.waiting hwaiting hspent]
        exact ⟨by simp, h.few (by rw [hwaiting]; simp)⟩
    refine ⟨.asked, if_neg fun hboth ↦ hthere.1 hboth.2, ?_⟩
    exact ⟨copyOnFile_mono h.file fun _ ↦ rfl, fun _ ↦ hthere.2, by simp, by simp, by simp,
      fun _ _ _ _ _ ↦ rfl⟩
  | awaitHandoff hstage => exact ⟨m, asks_eq (.action .awaitHandoff) (by simp) m, h⟩
  | copyAfter hstage =>
    refine ⟨m, asks_eq (.action (.snapshot .afterHandoff)) (by simp) m,
      copyKnown_active h ?_ rfl ?_⟩
    · rw [hstage]
      exact ⟨by simp, by simp, by simp, by simp⟩
    · exact ⟨by simp, by simp, by simp⟩
  | compact hstage =>
    refine ⟨m, asks_eq (.action .compact) (by simp) m, copyKnown_active h ?_ rfl ?_⟩
    · rw [hstage]
      exact ⟨by simp, by simp, by simp, by simp⟩
    · exact ⟨by simp, by simp, by simp⟩
  | awaitCompaction hstage => exact ⟨m, asks_eq (.action .awaitCompaction) (by simp) m, h⟩
  | compacted failed hstage => exact absurd rfl hgoes
  | retry step hstep hleft =>
    obtain ⟨hidle, hended⟩ := stage_of_stepOf hstep
    obtain ⟨hzero, hone⟩ := first_attempt (h.few hended) hleft
    refine ⟨m, asks_eq (.action (.retry _ _ _)) (by simp) m,
      copyKnown_ended ⟨hone, fun hcut ↦ ?_⟩ rfl⟩
    -- only the cut of the wait leaves the copy to be taken
    apply h.asked_of_step hstep _ hzero
    intro hwaiting
    rw [hwaiting] at hstep
    obtain rfl : .wait = step := Option.some.inj hstep
    cases hcut
  | postpone step hstep hleft =>
    obtain ⟨hidle, hended⟩ := stage_of_stepOf hstep
    obtain ⟨hzero, hone⟩ := first_attempt (h.few hended) hleft
    refine ⟨m, asks_eq (.action (.postpone _ _ _)) (by simp) m, copyKnown_ended ⟨hone, ?_⟩ rfl⟩
    -- a wait does not fail
    apply h.asked_of_step hstep _ hzero
    intro hwaiting
    have hfails : q.fails c = true := by
      simp only [Protocol.emit, Protocol.endAttempt, Option.ite_none_right_eq_some] at hemit
      exact hemit.2.1.2.2
    simp [Protocol.fails, hwaiting] at hfails
  | giveUp step cut hstep hlast =>
    exact ⟨.missing, asks_eq (.action (.giveUp _ _ _)) (by simp) m, copyKnown_ended trivial rfl⟩

theorem copyKnown_hear {q : Protocol} {p : Paths} {m : Copy} {c : Rotation.Call}
    (h : CopyKnown q p m) (hcancel : c ≠ .cancel) (rotate : Bool) :
    CopyKnown (q.hear rotate c) p m := by
  unfold Protocol.hear
  split
  · exact ⟨h.file, h.few, h.idle, h.waiting, h.copied, h.active⟩
  next hidle =>
    split
    · have hzero : q.spent = 0 := h.idle hidle
      exact copyKnown_waiting h.file rfl (hzero ▸ Nat.zero_lt_two) fun hspent ↦ absurd hzero hspent
    · exact h
  · exact absurd rfl hcancel
  next hstage =>
    refine copyKnown_active h ?_ rfl ⟨nofun, nofun, nofun⟩
    rw [hstage]
    exact ⟨nofun, nofun, nofun, nofun⟩
  next hstage =>
    refine copyKnown_active h ?_ rfl ⟨nofun, nofun, nofun⟩
    rw [hstage]
    exact ⟨nofun, nofun, nofun, nofun⟩
  · exact h

theorem goes_copies (cfg : Config) (start : Start) :
    Goes asks CopyOnFile CopyOnFile CopyKnown cfg start where
  crash h := h
  rest h := h.file
  aside {e} m h := by
    have hquiet : e ≠ .action .requestHandoff ∧ m.next e = m := by
      cases e with
      | action a => cases h
      | writeNext next => cases h
      | removeMarker => cases h
      | removeRotation => cases h
      | _ => exact ⟨by simp, rfl⟩
    rw [asks_eq e hquiet.1, hquiet.2]
  ready_rest _ h := h
  ready _ h := h.on_file h.file
  first {q p m} h := ⟨m, asks_eq (.send (firstLine cfg start)) (by simp) m, h⟩
  drop {p m} _ h := ⟨m, asks_eq .dropId (by simp) m, h⟩
  hear h hcancel _ := copyKnown_hear h hcancel cfg.rotate
  cancel {q p m} h _ _ hwaiting := by
    have hcancel : q.hear cfg.rotate .cancel = ⟨.idle, 0, false, q.note⟩ := by
      simp [Protocol.hear, hwaiting]
    rw [hcancel]
    exact ⟨.missing, asks_eq (.writeNext .normal) (by simp) m, copyKnown_idle trivial rfl rfl⟩
  emit h _ hgoes hemit := copyKnown_emit h hgoes hemit

/-- A rotation that is over has no copy, and what is left of its records is at its first attempt. -/
def CopyLost (p : Paths) (m : Copy) : Prop := m = .missing ∧ CopyOnFile p .asked

theorem copyLost {p : Paths} {m : Copy} (h : CopyOnFile p m) : CopyLost p .missing :=
  ⟨rfl, copyOnFile_mono h fun _ ↦ rfl⟩

theorem carries_copies (cfg : Config) (start : Start) :
    Carries (asks.keeping Effect.clearing) (Cut CopyLost CopyOnFile) (Whole CopyOnFile)
      (fun q ↦ Whole (CopyKnown q)) cfg start where
  toGoes := (goes_copies cfg start).keeping
  clear := by
    rintro p ⟨m, c⟩ _ ⟨rfl, h⟩
    have hcleared : CopyOnFile p.clearRotation .missing := trivial
    exact ensures_clear_keeping (.inl ⟨rfl, h⟩) (asks_eq .removeMarker (by simp) m) (copyLost h)
      (asks_eq .removeRotation (by simp) .missing) hcleared ⟨rfl, hcleared⟩
  compacted := by
    rintro q p ⟨m, c⟩ call q' ⟨rfl, h⟩ hemit
    have hcleared : CopyOnFile p.clearRotation .missing := trivial
    apply ensures_compacted_keeping h.file (asks_eq (.action .compacted) (by simp) m)
      (copyLost h.file) (asks_eq .removeMarker (by simp) .missing) (copyLost h.file)
      (asks_eq .removeRotation (by simp) .missing) hcleared
    cases Protocol.emitted hemit with
    | compacted failed hstage => exact ⟨rfl, copyKnown_idle hcleared rfl rfl⟩

/-! ## The plan -/

/-- What a plan leaves of the copy. -/
def PlansCopy (cfg : Config) (p : Paths) (m : Copy) (planned : Start × List Effect) : Prop :=
  Crash.Ensures (asks.keeping Effect.clearing) Effect.apply (Cut CopyLost CopyOnFile)
    (fun p' m' ↦ p' = Effect.applyAll p planned.2 ∧
      Whole (CopyKnown (startProtocol cfg p' planned.1)) p' m') p (m, false) planned.2

/-- A run that begins without attempts spent. -/
theorem copyKnown_begin {cfg : Config} {start : Start} {p : Paths} {m : Copy}
    (hfile : CopyOnFile p m) (hkind : start.kind ≠ .retry)
    (hfew : start.attempts < HANDOFF_ATTEMPTS) (hspent : start.attempts ≠ 0 → m = .asked) :
    CopyKnown (startProtocol cfg p start) p m := by
  unfold startProtocol
  split
  next hretry => exact absurd hretry hkind
  split
  · exact copyKnown_waiting hfile rfl hfew hspent
  · exact copyKnown_idle hfile rfl rfl

theorem plansCopy_rotated (cfg : Config) {p : Paths} {m : Copy} (h : CopyOnFile p m)
    (newId : String) (handoff : Bool) : PlansCopy cfg p m (rotated newId handoff) := by
  have hsaved : CopyOnFile (p.writeId newId) m := h
  have hcleared : CopyOnFile (p.writeId newId).clearRotation .missing := trivial
  apply ensures_cons_keeping h (asks_eq (.writeId newId) (by simp) m) rfl
  apply ensures_clear_keeping (.inl ⟨rfl, hsaved⟩) (asks_eq .removeMarker (by simp) m)
    (copyLost hsaved) (asks_eq .removeRotation (by simp) .missing) hcleared
  exact ⟨rfl, rfl, copyKnown_begin hcleared (by exact nofun) Nat.zero_lt_two
    fun hspent ↦ absurd rfl hspent⟩

theorem plansCopy_fresh (cfg : Config) {p : Paths} {m : Copy} (h : CopyOnFile p m)
    (newId : String) :
    PlansCopy cfg p m (freshStart newId .fresh, Effect.clearRotation ++ [.writeId newId]) := by
  have hcleared : CopyOnFile p.clearRotation .missing := trivial
  have hsaved : CopyOnFile (p.clearRotation.writeId newId) .missing := trivial
  have hclear := ensures_clear_keeping
    (Q := fun p' m ↦ p' = p.clearRotation ∧ m = (.missing, false))
    (c := false) (.inl ⟨rfl, h⟩) (asks_eq .removeMarker (by simp) m) (copyLost h)
    (asks_eq .removeRotation (by simp) .missing) hcleared ⟨rfl, rfl⟩
  apply hclear.append
  rintro p' m ⟨rfl, rfl⟩
  apply ensures_cons_keeping hcleared (asks_eq (.writeId newId) (by simp) .missing) rfl
  apply Crash.Ensures.nil (.inl ⟨rfl, hsaved⟩)
  exact ⟨rfl, rfl, copyKnown_begin hsaved (by exact nofun) Nat.zero_lt_two
    fun hspent ↦ absurd rfl hspent⟩

theorem plansCopy_normal (cfg : Config) {p : Paths} {m : Copy} (h : CopyOnFile p m) (id : String) :
    PlansCopy cfg p m (⟨id, true, .resumed, 0, false, false⟩, [.writeNext .normal]) := by
  have hnormal : CopyOnFile (p.writeNext .normal) .missing := trivial
  apply ensures_cons_keeping h (asks_eq (.writeNext .normal) (by simp) m) rfl
  apply Crash.Ensures.nil (.inl ⟨rfl, hnormal⟩)
  exact ⟨rfl, rfl, copyKnown_begin hnormal (by exact nofun) Nat.zero_lt_two
    fun hspent ↦ absurd rfl hspent⟩

theorem plansCopy_planStart (cfg : Config) {p : Paths} {m : Copy} (h : CopyOnFile p m)
    (newId : String) : PlansCopy cfg p m (planStart p newId) := by
  have hplan := planned p newId
  generalize planStart p newId = plan at hplan
  cases hplan with
  | rotated handoff => exact plansCopy_rotated cfg h newId handoff
  | retry id snapshot attempts handoff _ hrot =>
    have hone : attempts = 1 := by
      unfold CopyOnFile at h
      rw [hrot] at h
      exact h.1
    apply Crash.Ensures.nil (.inl ⟨rfl, h⟩)
    exact ⟨rfl, rfl, h, fun _ ↦ hone ▸ Nat.one_lt_two, nofun, nofun, nofun,
      fun _ _ _ _ hzero ↦ absurd (hone.symm.trans hzero) Nat.one_ne_zero⟩
  | postponed id attempts handoff _ hrot =>
    have hasked : attempts = 1 ∧ m = .asked := by
      unfold CopyOnFile at h
      rw [hrot] at h
      exact h
    apply Crash.Ensures.nil (.inl ⟨rfl, h⟩)
    refine ⟨rfl, rfl, copyKnown_begin h (by exact nofun) ?_ fun _ ↦ hasked.2⟩
    show attempts < 2
    omega
  | normal id => exact plansCopy_normal cfg h id
  | fresh => exact plansCopy_fresh cfg h newId

theorem governs_copies :
    Governs (fun _ ↦ asks.keeping Effect.clearing) (fun _ ↦ True) (Whole CopyOnFile)
      (Cut CopyLost CopyOnFile) (Whole CopyOnFile) fun _ _ q ↦ Whole (CopyKnown q) where
  begins start _ _ := (carries_copies _ start).toBegins
  run start _ := carries_copies _ start
  plan := by
    rintro cfg p ⟨m, c⟩ newId start es _ ⟨rfl, h⟩ hplan
    unfold plan at hplan
    split at hplan
    · obtain ⟨id, -, hstart⟩ := Option.map_eq_some_iff.mp hplan
      have hkept : PlansCopy cfg p m (⟨id, true, .resumed, 0, false, false⟩, []) := by
        apply Crash.Ensures.nil (.inl ⟨rfl, h⟩)
        exact ⟨rfl, rfl, copyKnown_begin h (by exact nofun) Nat.zero_lt_two
          fun hspent ↦ absurd rfl hspent⟩
      rw [hstart] at hkept
      exact hkept
    · have hplans := plansCopy_planStart cfg h newId
      rw [Option.some.inj hplan] at hplans
      exact hplans

/-- A next step that goes on with the copy of an earlier attempt. -/
def uncopied : Next → Bool
  | .retry snapshot _ _ => !snapshot
  | .postponed _ _ => true
  | _ => false

theorem copyOnFile_missing {p : Paths} (h : CopyOnFile p .asked)
    (hno : uncopied p.readNext = false) : CopyOnFile p .missing := by
  unfold CopyOnFile at h ⊢
  unfold Paths.readNext at hno
  split
  next snapshot attempts handoff hrot =>
    rw [hrot] at h hno
    refine ⟨h.1, fun hcut ↦ ?_⟩
    simp [uncopied, hcut] at hno
  next hrot => simp [hrot, uncopied] at hno
  next => trivial

/-! ## What the monitor says of the effects -/

theorem asks_next {m m' : Copy} {e : Effect} (h : asks m e = some m') :
    m' = m.next e ∧ ¬(e = .action .requestHandoff ∧ m = .missing) := by
  unfold asks at h
  split at h
  · cases h
  next hthere => exact ⟨(Option.some.inj h).symm, hthere⟩

/-- A copy that is not missing after an effect was not missing before it, unless the effect is the
action that takes it. -/
theorem there_before {m m' : Copy} {e : Effect} (h : asks m e = some m')
    (he : e ≠ .action (.snapshot .beforeHandoff)) (hm' : m' ≠ .missing) :
    m ≠ .missing ∧ e.leavesRotation = false := by
  obtain ⟨rfl, hthere⟩ := asks_next h
  by_cases hrequest : e = .action .requestHandoff
  · subst hrequest
    exact ⟨fun hmissing ↦ hthere ⟨rfl, hmissing⟩, rfl⟩
  · have hnext : m.next e = if e.leavesRotation then .missing else m := by
      unfold Copy.next
      split
      · exact absurd rfl he
      · exact absurd rfl hrequest
      · rfl
    rw [hnext] at hm'
    split at hm'
    · exact absurd rfl hm'
    next hstays => exact ⟨hm', Bool.eq_false_iff.mpr hstays⟩

/-- What was asked for has its copy: the action that takes it is carried out before any other. -/
theorem copied_of_asked {es gs : List Effect} {m : Copy}
    (hchain : gs.IsChain fun e f ↦ e.joins f = true) (hm : m ≠ .missing → Copied es)
    (h : asks.after m gs = some .asked) : Copied (es ++ gs) := by
  induction gs using List.twoStepInduction generalizing es m with
  | nil =>
    obtain rfl : m = .asked := Option.some.inj h
    rw [List.append_nil]
    exact hm (by simp)
  | singleton e =>
    have he : asks m e = some .asked := by simpa using h
    by_cases hcopy : e = .action (.snapshot .beforeHandoff)
    · subst hcopy
      have hasked : m = .asked := by
        have hnext : Copy.asked = if m = .asked then .asked else .taken := (asks_next he).1
        by_contra hnot
        rw [if_neg hnot] at hnext
        cases hnext
      have hcopied : Copied es := hm (by simp [hasked])
      exact hcopied.append (by simp [Effect.leavesRotation, Effect.endsRotation])
    · obtain ⟨hthere, hstays⟩ := there_before he hcopy (by simp)
      exact (hm hthere).append (by simpa using hstays)
  | cons_cons e f gs ih ih' =>
    cases he : asks m e with
    | none => simp [he] at h
    | some m₁ =>
      rw [Lts.Monitor.after_cons, he, Option.bind_some] at h
      rw [List.isChain_cons_cons] at hchain
      by_cases hcopy : e = .action (.snapshot .beforeHandoff)
      · subst hcopy
        obtain rfl : f = .snapshot Moment.beforeHandoff.name := by
          simpa [Effect.joins] using hchain.1
        have hcopied : Copied (es ++ [.action (.snapshot .beforeHandoff)] ++
            [.snapshot Moment.beforeHandoff.name]) := copied_concat _
        rw [Lts.Monitor.after_cons, asks_eq (.snapshot _) (by simp), Option.bind_some] at h
        have hrest := ih hchain.2.of_cons (fun _ ↦ hcopied) h
        simpa using hrest
      · have hfirst : m₁ ≠ .missing → Copied (es ++ [e]) := by
          intro hthere
          obtain ⟨hbefore, hstays⟩ := there_before he hcopy hthere
          exact (hm hbefore).append (by simpa using hstays)
        have hrest := ih' f hchain.2 hfirst h
        rwa [List.append_assoc] at hrest

/-! ## A deed of the supervisor -/

/-- The files, and the tracker of a run, know of the copy. -/
def CopyAt (s : System) (m : Copy) : Prop :=
  At (fun _ ↦ True) (Whole CopyOnFile) (fun _ _ q ↦ Whole (CopyKnown q)) s.process s.paths
    (m, false)

theorem copies_did {p : Paths} {process process' : Process} {deed : Deed} {es : List Effect}
    {m : Copy} (h : Does p process deed es process') (hknown : CopyAt ⟨p, process⟩ m) :
    ∃ m', asks.after m es = some m' ∧ CopyAt ⟨Effect.applyAll p es, process'⟩ m' := by
  obtain ⟨⟨m', c⟩, hkeeping, hat⟩ :=
    (governs_copies.ensures_does h hknown fun _ _ _ ↦ hknown.rest).complete
  obtain ⟨hafter, -⟩ := Lts.Monitor.after_keeping hkeeping
  obtain rfl : c = false := hat.rest.1
  exact ⟨m', hafter, hat⟩

theorem copies_lost {p : Paths} {process process' : Process} {deed : Deed} {es : List Effect}
    {m : Copy} {k : Nat} (h : Does p process deed es process') (hknown : CopyAt ⟨p, process⟩ m)
    (hwhole : ¬Torn uncopied ⟨p, process⟩ (.lost deed (es.take k))) :
    ∃ m', asks.after m (es.take k) = some m' ∧ CopyOnFile (Effect.applyAll p (es.take k)) m' := by
  obtain ⟨⟨m', c⟩, hkeeping, hcut⟩ :=
    (governs_copies.ensures_does h hknown fun _ _ _ ↦ hknown.rest).cut k
  obtain ⟨hafter, rfl⟩ := Lts.Monitor.after_keeping hkeeping
  refine ⟨m', hafter, ?_⟩
  rcases hcut with hrest | ⟨hclearing, rfl, hfile⟩
  · exact hrest.2
  -- what is left of the records takes its copy itself
  · apply copyOnFile_missing hfile
    rw [← Bool.not_eq_true]
    exact fun hgoes ↦ hwhole ⟨hclearing, hgoes⟩

/-- What a step knows of the copy, after the effects of the steps before it. -/
structure CopyKept (es : List Effect) (s : System) (m : Copy) : Prop where
  known : CopyAt s m
  there : m ≠ .missing → Copied es
  /-- The start line of a retry, while it is held. -/
  first : ∀ cfg start run, s.process = .running cfg start run →
    firstLine cfg start = .intro .retry → run.intro.isSome = true → Copied es

theorem firstLine_retry {cfg : Config} {start : Start} (h : firstLine cfg start = .intro .retry) :
    cfg.oneShot = false ∧ start.kind = .retry := by
  unfold firstLine at h
  unfold Config.oneShot
  split at h
  next hprompt =>
    split at h
    · cases h
    · rw [hprompt]
      exact ⟨rfl, HostLine.intro.inj h⟩
  next => cases h
  next hnone =>
    rw [hnone]
    exact ⟨rfl, HostLine.intro.inj h⟩

theorem leavesRotation_of_aside {e : Effect} (h : e.aside = true) : e.leavesRotation = false := by
  cases e <;> first | rfl | cases h

/-- A retry is planned from its record, and nothing is done for it before claude is started. -/
theorem plan_retry {cfg : Config} {p : Paths} {newId : String} {start : Start} {es : List Effect}
    (hone : cfg.oneShot = false) (hkind : start.kind = .retry)
    (h : plan cfg p newId = some (start, es)) :
    es = [] ∧ ∃ attempts handoff,
      p.rotation = .holds (.retry start.snapshot attempts handoff) := by
  rw [plan, hone] at h
  have hstart : planStart p newId = (start, es) := Option.some.inj h
  have hplan := planned p newId
  rw [hstart] at hplan
  cases hplan with
  | retry id snapshot attempts handoff _ hrot => exact ⟨rfl, attempts, handoff, hrot⟩
  | _ => cases hkind

/-- The start of a retry takes the copy that is due, before its line. -/
theorem copied_start {cfg : Config} {p : Paths} {newId : String} {start : Start}
    {es planned : List Effect} {m : Copy} (hfile : CopyOnFile p m) (hm : m ≠ .missing → Copied es)
    (hplan : plan cfg p newId = some (start, planned))
    (hfirst : firstLine cfg start = .intro .retry) :
    planned = [] ∧ Copied (es ++ ([.clearChannelReady, .spawn start] ++
      if start.kind = .retry ∧ start.snapshot = true then [.snapshot Moment.beforeHandoff.name]
      else [])) := by
  obtain ⟨hone, hkind⟩ := firstLine_retry hfirst
  obtain ⟨rfl, attempts, handoff, hrot⟩ := plan_retry hone hkind hplan
  refine ⟨rfl, ?_⟩
  cases hsnapshot : start.snapshot with
  | true =>
    rw [if_pos ⟨hkind, rfl⟩, ← List.append_assoc]
    exact copied_concat _
  | false =>
    -- no copy is due where it was taken before
    have hasked : m = .asked := by
      unfold CopyOnFile at hfile
      rw [hrot, hsnapshot] at hfile
      exact hfile.2 rfl
    have hcopied : Copied es := hm (by rw [hasked]; exact nofun)
    apply hcopied.append
    simp [Effect.leavesRotation, Effect.endsRotation]

section

variable {p : Paths} {process process' : Process} {deed : Deed} {es fs : List Effect} {m : Copy}

theorem line_of_tracks {R : Paths → Copy × Bool → Prop}
    {J : Protocol → Paths → Copy × Bool → Prop} {cfg : Config} {start : Start} {run : Run}
    (h : Tracks R J cfg start run p (m, false)) (line : HostLine)
    (deadline : Nat) (hintro : run.intro = some (line, deadline)) :
    (Effect.send line).heads = true := by
  rw [h.line line deadline hintro]
  exact heads_firstLine cfg start

theorem seamless_does (h : Does p process deed fs process') (hkept : CopyKept es ⟨p, process⟩ m) :
    Seamless fs := by
  cases h with
  | stop cfg notBefore => exact .nil
  | start cfg notBefore newId start planned now hplan =>
    exact (seamless_ofPlan (ofPlan_of_plan hplan)).append
      (seamless_launch cfg _ start notBefore now)
  | turn cfg start run input now =>
    exact Run.seamless_handle cfg p input now (line_of_tracks hkept.known.2)
  | leave cfg start run drained code cancelled =>
    exact seamless_of_forall (run.forall_mem_leave ⟨rfl, rfl⟩ cfg start drained code)

/-- A handoff request goes out with its copy taken. -/
theorem request_copied (h : Does p process deed fs process') (hkept : CopyKept es ⟨p, process⟩ m)
    {before after : List Effect} (hfs : fs = before ++ .send .handoff :: after) :
    Copied (es ++ before) := by
  have hseamless := seamless_does h hkept
  obtain ⟨rest, f, rfl, hjoins⟩ := hseamless.before hfs rfl
  obtain rfl := Effect.eq_of_joins_request hjoins
  obtain ⟨m', hafter, -⟩ := copies_did h hkept.known
  rw [hfs] at hafter hseamless
  obtain ⟨m₁, m₂, hbefore, -, -⟩ := Lts.Monitor.after_split hafter
  have hasked : m₁ = .asked := by
    obtain ⟨m₃, m₄, -, hrequest, hnil⟩ := Lts.Monitor.after_split hbefore
    obtain rfl : m₄ = m₁ := Option.some.inj hnil
    exact (asks_next hrequest).1
  rw [hasked] at hbefore
  exact copied_of_asked (hseamless.chain.left_of_append) hkept.there hbefore

/-- The start line of a retry is the first line, and goes out once claude is started. -/
theorem launch_retry {cfg : Config} {q : Paths} {start : Start} {notBefore : Option Nat} {now : Nat}
    {planned before after : List Effect} (hplanned : ∀ e ∈ planned, e.ofPlan = true)
    (h : planned ++ (launch cfg q start notBefore now).2 =
      before ++ .send (.intro .retry) :: after) :
    firstLine cfg start = .intro .retry ∧ before = planned ++ ([.clearChannelReady, .spawn start] ++
      if start.kind = .retry ∧ start.snapshot = true then [.snapshot Moment.beforeHandoff.name]
      else []) := by
  obtain ⟨last, hlaunch, hlast⟩ := launch_effects cfg q start notBefore now
  rw [hlaunch, ← List.append_assoc] at h
  have hinit : .send (.intro .retry) ∉ planned ++ ([.clearChannelReady, .spawn start] ++
      if start.kind = .retry ∧ start.snapshot = true then [.snapshot Moment.beforeHandoff.name]
      else []) := by
    intro hmem
    rcases List.mem_append.mp hmem with hmem | hmem
    · exact absurd (hplanned _ hmem) Bool.false_ne_true
    · rcases List.mem_append.mp hmem with hspawn | hcopy
      · simp at hspawn
      · split at hcopy <;> simp at hcopy
  have hmem : .send (.intro .retry) ∈ last := by
    have hall : .send (.intro .retry) ∈ before ++ .send (.intro .retry) :: after :=
      List.mem_append_right _ List.mem_cons_self
    rw [← h] at hall
    exact (List.mem_append.mp hall).resolve_left hinit
  rcases hlast with rfl | rfl
  · simp at hmem
  have hfirst : firstLine cfg start = .intro .retry := by
    rcases List.mem_append.mp hmem with hcopy | hline
    · split at hcopy <;> simp at hcopy
    · exact (Effect.send.inj (List.mem_singleton.mp hline)).symm
  rw [(firstLine_retry hfirst).1, hfirst] at h
  exact ⟨hfirst, ((List.append_cons_inj_of_notMem hinit List.not_mem_nil).mp h).1.symm⟩

/-- The start line of a retry goes out with its copy taken. -/
theorem retry_copied (h : Does p process deed fs process') (hkept : CopyKept es ⟨p, process⟩ m)
    {before after : List Effect} (hfs : fs = before ++ .send (.intro .retry) :: after) :
    Copied (es ++ before) := by
  cases h with
  | stop cfg notBefore => simp at hfs
  | start cfg notBefore newId start planned now hplan =>
    obtain ⟨hfirst, rfl⟩ := launch_retry (ofPlan_of_plan hplan) hfs
    obtain ⟨rfl, hcopied⟩ := copied_start hkept.known.rest.2 hkept.there hplan hfirst
    exact hcopied
  | turn cfg start run input now =>
    have hmem : .send (.intro .retry) ∈ (run.handle cfg p input now).2 := by
      rw [hfs]
      exact List.mem_append_right _ List.mem_cons_self
    obtain ⟨event, written, deadline, -, hintro, -⟩ := Run.intro_held hmem
    have hfirst : firstLine cfg start = .intro .retry :=
      (hkept.known.2.line _ deadline hintro).symm
    rw [Run.intro_first (firstLine_retry hfirst).1 hfs, List.append_nil]
    exact hkept.first cfg start run rfl hfirst (by rw [hintro]; rfl)
  | leave cfg start run drained code cancelled =>
    have hmem : .send (.intro .retry) ∈ (run.leave cfg start drained code).2 := by
      rw [hfs]
      exact List.mem_append_right _ List.mem_cons_self
    have hdrops := run.forall_mem_leave (P := (· = .dropId)) rfl cfg start drained code
    exact absurd (hdrops _ hmem) nofun

theorem first_does (h : Does p process deed fs process') (hkept : CopyKept es ⟨p, process⟩ m)
    {cfg : Config} {start : Start} {run : Run} (hprocess : process' = .running cfg start run)
    (hfirst : firstLine cfg start = .intro .retry) (hheld : run.intro.isSome = true) :
    Copied (es ++ fs) := by
  cases h with
  | stop cfg notBefore => cases hprocess
  | start cfg notBefore newId start planned now hplan =>
    obtain ⟨rfl, rfl, rfl⟩ := Process.running.inj hprocess
    obtain ⟨rfl, hcopied⟩ := copied_start hkept.known.rest.2 hkept.there hplan hfirst
    obtain ⟨last, hlaunch, hlast⟩ := launch_effects cfg (Effect.applyAll p []) start notBefore now
    rw [List.nil_append, hlaunch, ← List.append_assoc]
    apply hcopied.append
    rcases hlast with rfl | rfl
    · simp [Effect.leavesRotation, Effect.endsRotation]
    · intro e he
      rcases List.mem_append.mp he with hcopy | hline
      · split at hcopy
        · obtain rfl := List.mem_singleton.mp hcopy
          rfl
        · cases hcopy
      · obtain rfl := List.mem_singleton.mp hline
        rfl
  | turn cfg start run input now =>
    obtain ⟨rfl, rfl, rfl⟩ := Process.running.inj hprocess
    apply (hkept.first _ _ _ rfl hfirst (Run.held_before hheld)).append
    intro e he
    exact leavesRotation_of_aside
      (run.held_aside (firstLine_retry hfirst).1 p input now hheld e he)
  | leave cfg start run drained code cancelled =>
    cases hsettle : settle cfg cancelled (run.leave cfg start drained code).1 with
    | exits code =>
      rw [hsettle] at hprocess
      cases hprocess
    | again notBefore =>
      rw [hsettle] at hprocess
      cases hprocess

end

/-! ## Runs of the supervisor -/

/-- A copy that was taken without the handoff being asked for does not outlast the attempt. -/
def Copy.settle : Copy → Copy
  | .asked => .asked
  | _ => .missing

theorem Copy.settle_asked {m : Copy} : m.settle = .asked ↔ m = .asked := by
  cases m with
  | asked => exact Iff.rfl
  | missing => exact ⟨nofun, nofun⟩
  | taken => exact ⟨nofun, nofun⟩

theorem Copy.asked_of_settle {m : Copy} (h : m.settle ≠ .missing) : m = .asked := by
  cases m with
  | asked => rfl
  | missing => exact absurd rfl h
  | taken => exact absurd rfl h

theorem copyOnFile_settle {p : Paths} {m : Copy} (h : CopyOnFile p m) : CopyOnFile p m.settle :=
  copyOnFile_mono h Copy.settle_asked.mpr

/-- No turn leaves the tracker between the copy and the request. -/
theorem CopyKnown.settle {q : Protocol} {p : Paths} {m : Copy} (h : CopyKnown q p m)
    (hhalf : q.halfway = false) : CopyKnown q p m.settle where
  file := copyOnFile_settle h.file
  few := h.few
  idle := h.idle
  waiting hwaiting hspent := Copy.settle_asked.mpr (h.waiting hwaiting hspent)
  copied hcopied := by
    rw [Protocol.halfway, hcopied] at hhalf
    cases hhalf
  active hidle hwaiting hcopied hended hzero :=
    Copy.settle_asked.mpr (h.active hidle hwaiting hcopied hended hzero)

theorem CopyAt.settle {s : System} {m : Copy} (h : CopyAt s m) : CopyAt s m.settle := by
  obtain ⟨p, process⟩ := s
  cases process with
  | down => exact ⟨rfl, copyOnFile_settle h.2⟩
  | between cfg notBefore => exact ⟨trivial, rfl, copyOnFile_settle h.2.2⟩
  | running cfg start run =>
    obtain ⟨-, ⟨-, hfile⟩, hcoherent, hclosed, hline, hlive⟩ := h
    refine ⟨trivial, ⟨rfl, copyOnFile_settle hfile⟩, hcoherent, hclosed, hline, fun hnone ↦ ?_⟩
    obtain ⟨hsound, henabled, hstage, -, hknown⟩ := hlive hnone
    exact ⟨hsound, henabled, hstage, rfl, hknown.settle run.tracker.stage_ne_copied⟩

theorem CopyAt.paths {p p' : Paths} {process : Process} {m : Copy} (h : CopyAt ⟨p, process⟩ m)
    (hfile : CopyOnFile p m → CopyOnFile p' m) : CopyAt ⟨p', process⟩ m :=
  At.paths h (fun hr ↦ ⟨hr.1, hfile hr.2⟩)
    fun _ _ _ hknown ↦ ⟨hknown.1, hknown.2.on_file (hfile hknown.2.file)⟩

/-- Of a step that does nothing of its own. -/
theorem CopyKept.paths {es : List Effect} {p p' : Paths} {process : Process} {m : Copy}
    (h : CopyKept es ⟨p, process⟩ m) (hfile : CopyOnFile p m → CopyOnFile p' m) :
    CopyKept (es ++ []) ⟨p', process⟩ m := by
  rw [List.append_nil]
  exact ⟨h.known.paths hfile, h.there, h.first⟩

theorem copyKept_step {es : List Effect} {s t : System} {l : Label} {m : Copy}
    (hkept : CopyKept es s m) (h : WholeStep uncopied s l t) :
    ∃ m', CopyKept (es ++ l.shown) t m' := by
  obtain ⟨h, hwhole⟩ := h
  cases h with
  | boot p cfg =>
    have hkept' : CopyKept es ⟨p, .between cfg none⟩ m :=
      ⟨⟨trivial, hkept.known⟩, hkept.there, fun _ _ _ hrunning ↦ nomatch hrunning⟩
    exact ⟨m, hkept'.paths id⟩
  | @did p process process' deed fs hdoes =>
    obtain ⟨m', hafter, hknown⟩ := copies_did hdoes hkept.known
    refine ⟨m'.settle, CopyAt.settle hknown, fun hthere ↦ ?_, ?_⟩
    · rw [Copy.asked_of_settle hthere] at hafter
      exact copied_of_asked (seamless_does hdoes hkept).chain hkept.there hafter
    · exact fun cfg start run hrunning hfirst hheld ↦ first_does hdoes hkept hrunning hfirst hheld
  | @lost p process process' deed fs hdoes k =>
    obtain ⟨m', hafter, hfile⟩ := copies_lost hdoes hkept.known hwhole
    refine ⟨m'.settle, ⟨rfl, copyOnFile_settle hfile⟩, fun hthere ↦ ?_,
      fun _ _ _ hrunning ↦ nomatch hrunning⟩
    rw [Copy.asked_of_settle hthere] at hafter
    exact copied_of_asked ((seamless_does hdoes hkept).chain.take k) hkept.there hafter
  | mark p process => exact ⟨m, hkept.paths id⟩
  | unmark p process => exact ⟨m, hkept.paths id⟩
  | spoil p process hfile =>
    refine ⟨m, hkept.paths fun _ ↦ ?_⟩
    rcases hfile with rfl | rfl
    · trivial
    · trivial
  | transcripts p process ids => exact ⟨m, hkept.paths id⟩

/-- What a step shows begins what a deed does. -/
theorem shown_step {s t : System} {l : Label} (h : Step s l t) :
    l.shown = [] ∨ ∃ deed fs process' rest, Does s.paths s.process deed fs process' ∧
      (l = .did deed l.shown ∨ l = .lost deed l.shown) ∧ fs = l.shown ++ rest := by
  cases h with
  | @did p process process' deed fs hdoes =>
    exact .inr ⟨deed, fs, process', [], hdoes, .inl rfl, (List.append_nil fs).symm⟩
  | @lost p process process' deed fs hdoes k =>
    exact .inr ⟨deed, fs, process', fs.drop k, hdoes, .inr rfl, (List.take_append_drop k fs).symm⟩
  | _ => exact .inl rfl

theorem split_shown {s t : System} {l : Label} (h : Step s l t) {before after : List Effect}
    {e : Effect} (hl : l.shown = before ++ e :: after) :
    ∃ deed fs process' rest, Does s.paths s.process deed fs process' ∧
      (l = .did deed l.shown ∨ l = .lost deed l.shown) ∧ fs = before ++ e :: rest := by
  rcases shown_step h with hnil | ⟨deed, fs, process', rest, hdoes, hlabel, hfs⟩
  · simp [hnil] at hl
  · refine ⟨deed, fs, process', after ++ rest, hdoes, hlabel, ?_⟩
    rw [hfs, hl, List.append_assoc, List.cons_append]

/-- A line that asks for the handoff goes out with its copy taken. -/
theorem copied_step {es : List Effect} {s t : System} {l : Label} {m : Copy}
    (hkept : CopyKept es s m) (h : Step s l t) {before after : List Effect} {line : HostLine}
    (hl : l.shown = before ++ .send line :: after) (hasks : line.asksHandoff = true) :
    Copied (es ++ before) := by
  obtain ⟨deed, fs, process', rest, hdoes, -, hfs⟩ := split_shown h hl
  cases line with
  | handoff => exact request_copied hdoes hkept hfs
  | intro kind =>
    cases kind with
    | retry => exact retry_copied hdoes hkept hfs
    | _ => cases hasks
  | _ => cases hasks

/-- `/compact` goes out with the action that sends it, and that action after its copy. -/
theorem compact_step {es : List Effect} {s t : System} {l : Label} {m : Copy}
    (hkept : CopyKept es s m) (h : Step s l t) {before after : List Effect}
    (hl : l.shown = before ++ .send .compact :: after) :
    ∃ rest, before = rest ++ [.snapshot Moment.afterHandoff.name, .action .compact] := by
  obtain ⟨deed, fs, process', later, hdoes, -, hfs⟩ := split_shown h hl
  have hseamless := seamless_does hdoes hkept
  obtain ⟨mid, f, rfl, hsends⟩ := hseamless.before hfs rfl
  obtain rfl := Effect.eq_of_joins_compact hsends
  have hmid : fs = mid ++ .action .compact :: .send .compact :: later := by
    rw [hfs, List.append_assoc, List.singleton_append]
  obtain ⟨rest, g, rfl, hcopies⟩ := hseamless.before hmid rfl
  obtain rfl := Effect.eq_of_joins_compacts hcopies
  exact ⟨rest, by simp⟩

/-- The start of a retry takes the copy that is due before claude has a line. -/
theorem idle_start {cfg : Config} {p : Paths} {newId : String} {start : Start}
    {planned before after : List Effect} {notBefore : Option Nat} {now : Nat}
    (hplan : plan cfg p newId = some (start, planned))
    (h : planned ++ (launch cfg (Effect.applyAll p planned) start notBefore now).2 =
      before ++ .snapshot Moment.beforeHandoff.name :: after) (s : System) (tracker : Tracker) :
    IdleMoment s (.start start tracker) before := by
  obtain ⟨last, hlaunch, hlast⟩ :=
    launch_effects cfg (Effect.applyAll p planned) start notBefore now
  rw [hlaunch] at h
  have hplanned : ∀ e ∈ planned, e.ofPlan = true := ofPlan_of_plan hplan
  have hnone : .snapshot Moment.beforeHandoff.name ∉ last := by
    rcases hlast with rfl | rfl
    · simp
    · split <;> simp [Moment.name]
  split at h
  · have hparts : (planned ++ [.clearChannelReady, .spawn start]) ++
        .snapshot Moment.beforeHandoff.name :: last =
          before ++ .snapshot Moment.beforeHandoff.name :: after := by
      simpa using h
    have hinit : .snapshot Moment.beforeHandoff.name ∉
        planned ++ [.clearChannelReady, .spawn start] := by
      intro hmem
      rcases List.mem_append.mp hmem with hmem | hmem
      · exact absurd (hplanned _ hmem) Bool.false_ne_true
      · simp at hmem
    obtain ⟨rfl, -⟩ := (List.append_cons_inj_of_notMem hinit hnone).mp hparts
    refine .start start tracker _ (by simp) fun line hline ↦ ?_
    rcases List.mem_append.mp hline with hmem | hmem
    · exact absurd (hplanned _ hmem) Bool.false_ne_true
    · simp at hmem
  · exfalso
    have hmem : .snapshot Moment.beforeHandoff.name ∈
        planned ++ ([.clearChannelReady, .spawn start] ++ [] ++ last) := by
      rw [h]
      exact List.mem_append_right _ List.mem_cons_self
    rcases List.mem_append.mp hmem with hmem | hmem
    · exact absurd (hplanned _ hmem) Bool.false_ne_true
    · simp [hnone] at hmem

/-- The copy before the handoff is taken at an idle moment. -/
theorem idle_step {s t : System} {l : Label} (h : Step s l t) {deed : Deed}
    {es before after : List Effect} (hl : l = .did deed es ∨ l = .lost deed es)
    (hes : es = before ++ .snapshot Moment.beforeHandoff.name :: after) :
    IdleMoment s deed before := by
  have hshown : l.shown = before ++ .snapshot Moment.beforeHandoff.name :: after := by
    rcases hl with rfl | rfl
    · exact hes
    · exact hes
  obtain ⟨deed', fs, process', rest, hdoes, hlabel, hfs⟩ := split_shown h hshown
  obtain rfl : deed' = deed := by
    rcases hl with rfl | rfl
    · rcases hlabel with hdid | hlost
      · exact (Label.did.inj hdid).1.symm
      · cases hlost
    · rcases hlabel with hdid | hlost
      · cases hdid
      · exact (Label.lost.inj hlost).1.symm
  clear hl hlabel hshown
  obtain ⟨p, process⟩ := s
  cases hdoes with
  | stop cfg notBefore => simp at hfs
  | start cfg notBefore newId start planned now hplan =>
    exact idle_start hplan hfs ⟨p, .between cfg notBefore⟩ _
  | turn cfg start run input now =>
    have hquiet : (run.handle cfg p input now).1.tracker.quiet = true := by
      apply Run.quiet_of_copy_handle
      rw [hfs]
      exact List.mem_append_right _ List.mem_cons_self
    exact .turn cfg start run input now before rfl ⟨_, hfs.symm⟩ hquiet
  | leave cfg start run drained code cancelled =>
    have hmem : .snapshot Moment.beforeHandoff.name ∈ (run.leave cfg start drained code).2 := by
      rw [hfs]
      exact List.mem_append_right _ List.mem_cons_self
    have hdrops := run.forall_mem_leave (P := (· = .dropId)) rfl cfg start drained code
    exact absurd (hdrops _ hmem) nofun

/-- An effect of a run is one of a step of it. -/
theorem shown_split {ls : List Label} {before after : List Effect} {e : Effect}
    (h : shown ls = before ++ e :: after) :
    ∃ past l future mid rest, ls = past ++ l :: future ∧ before = shown past ++ mid ∧
      l.shown = mid ++ e :: rest := by
  induction ls generalizing before with
  | nil => simp [shown] at h
  | cons l ls ih =>
    rcases List.append_eq_append_iff.mp h with ⟨mid, rfl, hrest⟩ | ⟨mid, hl, hmid⟩
    · obtain ⟨past, k, future, mid', rest, rfl, rfl, hk⟩ := ih hrest
      exact ⟨l :: past, k, future, mid', rest, rfl, (List.append_assoc _ _ _).symm, hk⟩
    · cases mid with
      | nil =>
        have hrest : shown ls = [] ++ e :: after := hmid.symm
        obtain ⟨past, k, future, mid', rest, rfl, hnil, hk⟩ := ih hrest
        have hbefore : before = shown (l :: past) ++ mid' := by
          show before = l.shown ++ shown past ++ mid'
          rw [List.append_assoc, ← hnil, hl]
          simp
        exact ⟨l :: past, k, future, mid', rest, rfl, hbefore, hk⟩
      | cons f mid =>
        obtain ⟨rfl, -⟩ := List.cons.inj hmid
        exact ⟨[], l, ls, before, mid, rfl, rfl, hl⟩

theorem copyKept_run {p : Paths} (hp : p.rotation = .absent) {ls : List Label} {s : System}
    (h : Lts.Run (WholeStep uncopied) ⟨p, .down⟩ ls s) : ∃ m, CopyKept (shown ls) s m := by
  induction h with
  | nil =>
    have hfile : CopyOnFile p .missing := by
      rw [CopyOnFile, hp]
      trivial
    exact ⟨.missing, ⟨rfl, hfile⟩, fun hno ↦ absurd rfl hno, fun _ _ _ hrunning ↦ nomatch hrunning⟩
  | @snoc s t ls l _ hstep ih =>
    obtain ⟨m, hkept⟩ := ih
    have hshown : shown (ls ++ [l]) = shown ls ++ l.shown := by
      simp [shown]
    rw [hshown]
    exact copyKept_step hkept hstep

/-- Every handoff has its copies, up to a moment of a run of the supervisor.  A line that asks for
the handoff, as a request or as the start line of a retry, comes after an attempt of the copy before
it, in the same rotation; `/compact` comes with its action right after an attempt of the copy after
the handoff; and each copy before the handoff is attempted at an idle moment. -/
structure HandoffsCopied (p : Paths) (ls : List Label) (s : System) : Prop where
  copied : ∀ before line after, shown ls = before ++ .send line :: after →
    line.asksHandoff = true → Copied before
  compacts : ∀ before after, shown ls = before ++ .send .compact :: after →
    ∃ rest, before = rest ++ [.snapshot Moment.afterHandoff.name, .action .compact]
  idle : ∀ past l future deed es before after, ls = past ++ l :: future →
    (l = .did deed es ∨ l = .lost deed es) →
    es = before ++ .snapshot Moment.beforeHandoff.name :: after →
    ∃ t u, Lts.Run Step ⟨p, .down⟩ past t ∧ Step t l u ∧ Lts.Run Step u future s ∧
      IdleMoment t deed before

/-- Every handoff has its copies, wherever the runs before are cut short and whatever becomes of the
files between them, in every run at which the supervisor is not lost between the end of a rotation
and the removal of a next step that goes on with its copy. -/
theorem handoffs_copied {p : Paths} (hp : p.rotation = .absent) {ls : List Label} {s : System}
    (h : Lts.Run (WholeStep uncopied) ⟨p, .down⟩ ls s) : HandoffsCopied p ls s := by
  refine ⟨?_, ?_, ?_⟩
  · intro before line after hshown hasks
    obtain ⟨past, l, future, mid, rest, hls, rfl, hl⟩ := shown_split hshown
    obtain ⟨t, u, hpast, hstep, -⟩ := h.split hls
    obtain ⟨m, hkept⟩ := copyKept_run hp hpast
    exact copied_step hkept hstep.1 hl hasks
  · intro before after hshown
    obtain ⟨past, l, future, mid, rest, hls, rfl, hl⟩ := shown_split hshown
    obtain ⟨t, u, hpast, hstep, -⟩ := h.split hls
    obtain ⟨m, hkept⟩ := copyKept_run hp hpast
    obtain ⟨init, rfl⟩ := compact_step hkept hstep.1 hl
    exact ⟨shown past ++ init, (List.append_assoc _ _ _).symm⟩
  · intro past l future deed es before after hls hl hes
    obtain ⟨t, u, hpast, hstep, hfuture⟩ := h.split hls
    exact ⟨t, u, hpast.mono fun _ _ _ ↦ And.left, hstep.1, hfuture.mono fun _ _ _ ↦ And.left,
      idle_step hstep.1 hl hes⟩

/-- The wait for a quiet moment is cut, and the retry takes the copy that is due before its line. -/
theorem handoffs_copied_retry :
    Copied [.writeNext .normal, .clearChannelReady,
      .spawn ⟨"51209dfc", true, .resumed, 0, false, false⟩, .send (.intro .resumed),
      .action (.retry .wait 1 false), .clearChannelReady,
      .spawn ⟨"51209dfc", true, .retry, 1, false, true⟩, .snapshot "before-handoff"] :=
  (handoffs_copied (p := { savedPaths with marker := true }) rfl
    (((((Lts.Run.single ⟨.boot _ someConfig, id⟩).snoc
      ⟨.did (.start someConfig none "new" _ _ 0 rfl), id⟩).snoc
      ⟨.did (.turn someConfig _ _ .tick 1800), id⟩).snoc
      ⟨.did (.leave someConfig _ _ [] 0 false), id⟩).snoc
      ⟨.did (.start someConfig none "newer" _ _ 1801 rfl), id⟩)).copied _ (.intro .retry) [] rfl rfl

/-- No copy is taken since the rotation has ended. -/
theorem not_copied {es since : List Effect} {e : Effect} (he : e.leavesRotation = true)
    (hsince : .snapshot Moment.beforeHandoff.name ∉ since) : ¬Copied (es ++ e :: since) := by
  rintro ⟨before, rest, hes, hrest⟩
  rcases List.append_eq_append_iff.mp hes with ⟨mid, rfl, hmid⟩ | ⟨mid, rfl, hmid⟩
  · cases mid with
    | nil =>
      obtain ⟨rfl, -⟩ := List.cons.inj hmid
      cases he
    | cons f mid =>
      obtain ⟨-, rfl⟩ := List.cons.inj hmid
      exact hsince (List.mem_append_right _ List.mem_cons_self)
  · cases mid with
    | nil =>
      obtain ⟨rfl, -⟩ := List.cons.inj hmid
      cases he
    | cons f mid =>
      obtain ⟨-, rfl⟩ := List.cons.inj hmid
      have hstays := hrest e (List.mem_append_right _ List.mem_cons_self)
      rw [he] at hstays
      cases hstays

/-- The rotation that goes on after its compaction asks for a handoff, and has no copy. -/
theorem handoff_uncopied :
    ¬∀ ls s, Lts.Run Step ⟨{ savedPaths with marker := true }, .down⟩ ls s →
      (∀ l ∈ ls, Undisturbed l) → HandoffsCopied { savedPaths with marker := true } ls s := by
  intro h
  obtain ⟨ls, s, before, hrun, hls, hshown⟩ := torn_run
  have hcopied := (h ls s hrun hls).copied
    (before ++ [.action .compacted, .removeMarker, .clearChannelReady,
      .spawn ⟨"51209dfc", true, .retry, 1, false, false⟩])
    (.intro .retry) [.action (.giveUp .handoff true false)] (by simp [hshown]) rfl
  exact not_copied rfl (by simp) hcopied

end Supervisor

end Silta
