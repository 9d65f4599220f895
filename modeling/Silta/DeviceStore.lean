import Mathlib.Logic.Function.Basic
import Silta.Lib.Lts

/-!
# The store of the device

The state directory under the processes that open it: the daemon and `reset-cross-signing`, started
at any time, each with the configuration of its time, and killed at any point.  The keys of two
logins in one store would corrupt it.
-/

namespace Silta

namespace DeviceStore

/-- A saved session.  The login that it comes from stands for its token. -/
structure Session where
  userId : String
  deviceId : String
  login : Nat
  deriving DecidableEq, Repr

/-- `session.json` on disk. -/
inductive SessionFile
  | absent
  /-- What a write that did not come to its end has left. -/
  | unreadable
  | holds (session : Session)
  deriving DecidableEq, Repr

inductive Command
  | run
  | resetCrossSigning
  deriving DecidableEq, Repr

/-- How far a process has come. -/
inductive Phase
  /-- `reset-cross-signing` has seen that there is a session file. -/
  | found
  /-- `prepare_state_dir` has the lock. -/
  | locked
  /-- `build_client` has opened the store. -/
  | opened
  | loggedIn (session : Session)
  /-- The session file is open for writing. -/
  | saving (session : Session)
  | running (session : Session)
  deriving DecidableEq, Repr

structure Process where
  command : Command
  /-- The user of its configuration. -/
  userId : String
  phase : Phase
  deriving DecidableEq, Repr

structure State where
  file : SessionFile
  /-- The logins whose keys are in the store, `none` where it has no data. -/
  store : Option (List Nat)
  /-- The process that holds the lock file. -/
  lock : Option Nat
  processes : Nat → Option Process
  /-- How many logins the homeserver has answered. -/
  logins : Nat

/-- An empty directory. -/
def State.start : State := ⟨.absent, none, none, fun _ ↦ none, 0⟩

def State.setPhase (s : State) (p : Nat) (process : Process) (phase : Phase) : State :=
  { s with processes := Function.update s.processes p (some { process with phase := phase }) }

/-- The store that `build_client` opens.  It refuses one that has no session file beside it. -/
def buildClient (file : SessionFile) (store : Option (List Nat)) : Option (List Nat) :=
  if file = .absent ∧ store.isSome then none else some (store.getD [])

/-- What `login_or_restore` does. -/
inductive Choice
  | login
  | restore (session : Session)
  | refuse
  deriving DecidableEq, Repr

def loginOrRestore (userId : String) : SessionFile → Choice
  | .absent => .login
  | .unreadable => .refuse
  | .holds session => if session.userId = userId then .restore session else .refuse

/-- The keys of a login go to the store, which has them from then on. -/
def writeKeys (login : Nat) (store : List Nat) : List Nat :=
  if login ∈ store then store else store ++ [login]

inductive Label
  | look (p : Nat) (userId : String)
  | lock (p : Nat) (command : Command) (userId : String)
  | «open» (p : Nat)
  | login (p : Nat) (command : Command) (deviceId : String)
  | create (p : Nat)
  | saved (p : Nat) (session : Session)
  | restore (p : Nat)
  /-- A process that runs writes to its store. -/
  | use (p : Nat)
  /-- A process ends, by itself or killed. -/
  | exit (p : Nat)
  /-- The operator deletes the session file. -/
  | removeFile
  | removeStore
  deriving DecidableEq, Repr

inductive Step : State → Label → State → Prop
  | look (s : State) (p : Nat) (userId : String) (hnone : s.processes p = none)
      (hfile : s.file ≠ .absent) :
      Step s (.look p userId)
        { s with
          processes := Function.update s.processes p
            (some ⟨.resetCrossSigning, userId, .found⟩) }
  -- the lock is refused while another process holds it
  | lockRun (s : State) (p : Nat) (userId : String) (hnone : s.processes p = none)
      (hlock : s.lock = none) :
      Step s (.lock p .run userId)
        { s with
          lock := some p
          processes := Function.update s.processes p (some ⟨.run, userId, .locked⟩) }
  | lockReset (s : State) (p : Nat) (process : Process) (hp : s.processes p = some process)
      (hphase : process.phase = .found) (hlock : s.lock = none) :
      Step s (.lock p process.command process.userId)
        { s.setPhase p process .locked with lock := some p }
  | open (s : State) (p : Nat) (process : Process) (store : List Nat)
      (hp : s.processes p = some process) (hphase : process.phase = .locked)
      (hbuild : buildClient s.file s.store = some store) :
      Step s (.open p) { s.setPhase p process .opened with store := some store }
  -- the homeserver logs in the user that it is asked for
  | login (s : State) (p : Nat) (process : Process) (deviceId : String) (store : List Nat)
      (hp : s.processes p = some process) (hphase : process.phase = .opened)
      (hchoice : loginOrRestore process.userId s.file = .login) (hstore : s.store = some store) :
      Step s (.login p process.command deviceId)
        { s.setPhase p process (.loggedIn ⟨process.userId, deviceId, s.logins⟩) with
          store := some (writeKeys s.logins store)
          logins := s.logins + 1 }
  | create (s : State) (p : Nat) (process : Process) (session : Session)
      (hp : s.processes p = some process) (hphase : process.phase = .loggedIn session) :
      Step s (.create p) { s.setPhase p process (.saving session) with file := .unreadable }
  | saved (s : State) (p : Nat) (process : Process) (session : Session)
      (hp : s.processes p = some process) (hphase : process.phase = .saving session) :
      Step s (.saved p session)
        { s.setPhase p process (.running session) with file := .holds session }
  | restore (s : State) (p : Nat) (process : Process) (session : Session) (store : List Nat)
      (hp : s.processes p = some process) (hphase : process.phase = .opened)
      (hchoice : loginOrRestore process.userId s.file = .restore session)
      (hstore : s.store = some store) :
      Step s (.restore p)
        { s.setPhase p process (.running session) with
          store := some (writeKeys session.login store) }
  | use (s : State) (p : Nat) (process : Process) (session : Session) (store : List Nat)
      (hp : s.processes p = some process) (hphase : process.phase = .running session)
      (hstore : s.store = some store) :
      Step s (.use p) { s with store := some (writeKeys session.login store) }
  | exit (s : State) (p : Nat) (process : Process) (hp : s.processes p = some process) :
      Step s (.exit p)
        { s with
          lock := if s.lock = some p then none else s.lock
          processes := Function.update s.processes p none }
  | removeFile (s : State) : Step s .removeFile { s with file := .absent }
  | removeStore (s : State) : Step s .removeStore { s with store := none }

/-- The operator stops the processes first, and deletes the session file before the store. -/
def Careful (s : State) : Label → Prop
  | .removeFile => s.lock = none
  | .removeStore => s.lock = none ∧ s.file = .absent
  | _ => True

def CarefulStep (s : State) (l : Label) (t : State) : Prop := Step s l t ∧ Careful s l

/-! ## Who may write -/

/-- What the process that holds the lock finds. -/
def Fits (file : SessionFile) (store : Option (List Nat)) (userId : String) : Phase → Prop
  | .found | .locked => True
  | .opened => ∃ keys, store = some keys ∧ (file = .absent → keys = [])
  | .loggedIn session =>
    session.userId = userId ∧ file = .absent ∧ store = some [session.login]
  | .saving session =>
    session.userId = userId ∧ file = .unreadable ∧ store = some [session.login]
  | .running session => session.userId = userId ∧ file = .holds session

structure Inv (s : State) : Prop where
  /-- Past the first look a process holds the lock. -/
  holder : ∀ p process, s.processes p = some process →
    process.phase = .found ∨
      s.lock = some p ∧ Fits s.file s.store process.userId process.phase
  file : ∀ session, s.file = .holds session → s.store = some [session.login]
  store : ∀ keys, s.store = some keys → keys.length ≤ 1

theorem mem_update {processes : Nat → Option Process} {p q : Nat} {new : Option Process}
    {process : Process} (h : Function.update processes p new q = some process) :
    q = p ∧ new = some process ∨ q ≠ p ∧ processes q = some process := by
  by_cases heq : q = p
  · rw [heq, Function.update_self] at h
    exact .inl ⟨heq, h⟩
  · rw [Function.update_of_ne heq] at h
    exact .inr ⟨heq, h⟩

namespace Inv

variable {s : State} {p : Nat} {process : Process}

theorem start : Inv .start := ⟨nofun, nofun, nofun⟩

theorem held (h : Inv s) (hp : s.processes p = some process) {phase : Phase}
    (hphase : process.phase = phase) (hne : phase ≠ .found) :
    s.lock = some p ∧ Fits s.file s.store process.userId phase := by
  subst hphase
  exact (h.holder p process hp).resolve_left hne

/-- While no process has the lock, none is past its first look. -/
theorem found_of_unlocked (h : Inv s) (hlock : s.lock = none) (hp : s.processes p = some process) :
    process.phase = .found := by
  rcases h.holder p process hp with hfound | ⟨hheld, -⟩
  · exact hfound
  · rw [hlock] at hheld
    cases hheld

/-- The process with the lock moves on, whatever it writes: no other one is past its first look. -/
theorem moved (h : Inv s) (process : Process) (hlock : s.lock = some p) {file : SessionFile}
    {store : Option (List Nat)} {logins : Nat}
      (hfits : Fits file store process.userId process.phase)
    (hfile : ∀ session, file = .holds session → store = some [session.login])
    (hstore : ∀ keys, store = some keys → keys.length ≤ 1) :
    Inv ⟨file, store, s.lock, Function.update s.processes p (some process), logins⟩ where
  holder q other hq := by
    rcases mem_update hq with ⟨rfl, hnew⟩ | ⟨hne, hold⟩
    · exact .inr ⟨hlock, Option.some.inj hnew ▸ hfits⟩
    · rcases h.holder q other hold with hfound | ⟨hheld, -⟩
      · exact .inl hfound
      · rw [hlock] at hheld
        exact absurd (Option.some.inj hheld).symm hne
  file := hfile
  store := hstore

/-- A process that takes the lock, or only looks, writes nothing. -/
theorem entered (h : Inv s) (process : Process) (hlock : s.lock = none)
    (hphase : process.phase = .locked) :
    Inv { s with
      lock := some p
      processes := Function.update s.processes p (some process) } where
  holder q other hq := by
    rcases mem_update hq with ⟨rfl, hnew⟩ | ⟨-, hold⟩
    · rw [← Option.some.inj hnew, hphase]
      exact .inr ⟨rfl, trivial⟩
    · exact .inl (h.found_of_unlocked hlock hold)
  file := h.file
  store := h.store

theorem looked (h : Inv s) (hphase : process.phase = .found) :
    Inv { s with processes := Function.update s.processes p (some process) } where
  holder q other hq := by
    rcases mem_update hq with ⟨-, hnew⟩ | ⟨-, hold⟩
    · exact .inl (Option.some.inj hnew ▸ hphase)
    · exact h.holder q other hold
  file := h.file
  store := h.store

theorem exited (h : Inv s) (p : Nat) :
    Inv { s with
      lock := if s.lock = some p then none else s.lock
      processes := Function.update s.processes p none } where
  holder q other hq := by
    rcases mem_update hq with ⟨-, hnew⟩ | ⟨hne, hold⟩
    · cases hnew
    · rcases h.holder q other hold with hfound | ⟨hheld, hfits⟩
      · exact .inl hfound
      · have hother : ¬s.lock = some p := fun hp ↦
          hne (Option.some.inj (hheld.symm.trans hp))
        exact .inr ⟨(if_neg hother).trans hheld, hfits⟩
  file := h.file
  store := h.store

/-- Without the lock, what the operator deletes is nothing that a process uses. -/
theorem removed (h : Inv s) (hlock : s.lock = none) (store : Option (List Nat))
    (hstore : ∀ keys, store = some keys → keys.length ≤ 1) :
    Inv { s with file := .absent, store := store } where
  holder _ _ hq := .inl (h.found_of_unlocked hlock hq)
  file := nofun
  store := hstore

end Inv

theorem writeKeys_self (login : Nat) : writeKeys login [login] = [login] :=
  if_pos (List.mem_singleton_self login)

theorem loginOrRestore_eq_login {userId : String} {file : SessionFile}
    (h : loginOrRestore userId file = .login) : file = .absent := by
  cases file with
  | absent => rfl
  | unreadable => cases h
  | holds session =>
    rw [loginOrRestore] at h
    split at h <;> cases h

theorem loginOrRestore_eq_restore {userId : String} {file : SessionFile} {session : Session}
    (h : loginOrRestore userId file = .restore session) :
    file = .holds session ∧ session.userId = userId := by
  cases file with
  | absent => cases h
  | unreadable => cases h
  | holds saved =>
    rw [loginOrRestore] at h
    split at h
    · next heq =>
      obtain rfl := Choice.restore.inj h
      exact ⟨rfl, heq⟩
    · cases h

theorem buildClient_eq_some {file : SessionFile} {store : Option (List Nat)} {keys : List Nat}
    (h : buildClient file store = some keys) :
    keys = store.getD [] ∧ (file = .absent → store = none) := by
  unfold buildClient at h
  split at h
  · cases h
  · next hnot =>
    refine ⟨(Option.some.inj h).symm, fun habsent ↦ ?_⟩
    exact Option.not_isSome_iff_eq_none.mp fun hsome ↦ hnot ⟨habsent, hsome⟩

theorem Inv.step {s t : State} {l : Label} (h : Inv s) (hstep : CarefulStep s l t) : Inv t := by
  obtain ⟨hstep, hcareful⟩ := hstep
  cases hstep with
  | look p userId hnone hfile => exact h.looked rfl
  | lockRun p userId hnone hlock => exact h.entered _ hlock rfl
  | lockReset p process hp hphase hlock =>
    exact h.entered { process with phase := .locked } hlock rfl
  | «open» p process store hp hphase hbuild =>
    obtain ⟨hlock, -⟩ := h.held hp hphase nofun
    obtain ⟨rfl, hnone⟩ := buildClient_eq_some hbuild
    refine h.moved { process with phase := .opened } hlock
      ⟨_, rfl, fun habsent ↦ by rw [hnone habsent, Option.getD_none]⟩ (fun session hfile ↦ ?_)
      fun keys hkeys ↦ ?_
    · rw [h.file session hfile, Option.getD_some]
    · rw [← Option.some.inj hkeys]
      cases hstore : s.store with
      | none => exact Nat.zero_le 1
      | some keys => exact h.store keys hstore
  | login p process deviceId store hp hphase hchoice hstore =>
    obtain ⟨hlock, keys, hkeys, hempty⟩ := h.held hp hphase nofun
    have habsent := loginOrRestore_eq_login hchoice
    -- the store was made by this process
    rw [hempty habsent, hstore] at hkeys
    obtain rfl := Option.some.inj hkeys
    exact h.moved
      { process with phase := .loggedIn ⟨process.userId, deviceId, s.logins⟩ }
      hlock ⟨rfl, habsent, rfl⟩ (fun _ hfile ↦ by cases habsent.symm.trans hfile)
      fun keys hkeys ↦ by rw [← Option.some.inj hkeys]; exact le_rfl
  | create p process session hp hphase =>
    obtain ⟨hlock, huser, -, hkeys⟩ := h.held hp hphase nofun
    exact h.moved { process with phase := .saving session } hlock
      ⟨huser, rfl, hkeys⟩ nofun h.store
  | saved p process session hp hphase =>
    obtain ⟨hlock, huser, -, hkeys⟩ := h.held hp hphase nofun
    refine h.moved { process with phase := .running session } hlock ⟨huser, rfl⟩
      (fun session' hfile ↦ ?_) h.store
    rw [← SessionFile.holds.inj hfile]
    exact hkeys
  | restore p process session store hp hphase hchoice hstore =>
    obtain ⟨hlock, -⟩ := h.held hp hphase nofun
    obtain ⟨hfile, huser⟩ := loginOrRestore_eq_restore hchoice
    have hkeys := h.file session hfile
    rw [hstore] at hkeys
    obtain rfl := Option.some.inj hkeys
    rw [writeKeys_self]
    refine h.moved { process with phase := .running session } hlock ⟨huser, hfile⟩
      (fun session' hfile' ↦ ?_) fun keys hkeys ↦ ?_
    · rw [SessionFile.holds.inj (hfile.symm.trans hfile')]
    · rw [← Option.some.inj hkeys]
      exact le_rfl
  | use p process session store hp hphase hstore =>
    obtain ⟨-, -, hfile⟩ := h.held hp hphase nofun
    have hkeys := h.file session hfile
    rw [hstore] at hkeys
    obtain rfl := Option.some.inj hkeys
    rw [writeKeys_self, ← hstore]
    exact h
  | exit p process hp => exact h.exited p
  | removeFile => exact h.removed hcareful s.store h.store
  | removeStore =>
    obtain ⟨hlock, habsent⟩ := hcareful
    have hremoved := h.removed hlock none nofun
    rwa [← habsent] at hremoved

/-! ## Logins -/

def Label.isLogin : Label → Bool
  | .login .. => true
  | _ => false

/-- Whether there is room for a login in the store. -/
def spare (s : State) : Nat := if s.store.getD [] = [] then 1 else 0

/-- A login takes the room, and only a store that is deleted makes any. -/
theorem spare_step {s t : State} {l : Label} (h : Inv s) (hstep : CarefulStep s l t) :
    (if l.isLogin then 1 else 0) + spare t ≤ spare s + if l = .removeStore then 1 else 0 := by
  have ht := h.step hstep
  obtain ⟨hstep, -⟩ := hstep
  cases hstep with
  | «open» p process store hp hphase hbuild =>
    obtain ⟨rfl, -⟩ := buildClient_eq_some hbuild
    simp [spare, Label.isLogin]
  | login p process deviceId store hp hphase hchoice hstore =>
    obtain ⟨-, keys, hkeys, hempty⟩ := h.held hp hphase nofun
    rw [hempty (loginOrRestore_eq_login hchoice)] at hkeys
    have hnew : writeKeys s.logins store ≠ [] := by
      unfold writeKeys
      split
      · next hmem => exact List.ne_nil_of_mem hmem
      · simp
    simp [spare, hkeys, hnew, Label.isLogin]
  | restore p process session store hp hphase hchoice hstore =>
    have hkeys := h.file session (loginOrRestore_eq_restore hchoice).1
    rw [hstore] at hkeys
    rw [Option.some.inj hkeys, writeKeys_self]
    simp [spare, Label.isLogin]
  | use p process session store hp hphase hstore =>
    obtain ⟨-, -, hfile⟩ := h.held hp hphase nofun
    have hkeys := h.file session hfile
    rw [hstore] at hkeys
    rw [Option.some.inj hkeys, writeKeys_self]
    simp [spare, Label.isLogin]
  | removeStore => simp [spare, Label.isLogin]
  | _ => exact Nat.le_of_eq (Nat.add_comm 0 _)

theorem logins_le {s : State} {ls : List Label} (hrun : Lts.Run CarefulStep .start ls s) :
    Inv s ∧ ls.countP Label.isLogin + spare s ≤ ls.count .removeStore + 1 := by
  refine hrun.history (I := fun ls s ↦
    Inv s ∧ ls.countP Label.isLogin + spare s ≤ ls.count .removeStore + 1)
    ⟨.start, le_rfl⟩ fun ls s l t ⟨hinv, hcount⟩ hstep ↦ ⟨hinv.step hstep, ?_⟩
  have hspare := spare_step hinv hstep
  rw [List.countP_append, List.countP_singleton, List.count_append, List.count_singleton]
  simp only [beq_iff_eq] at *
  omega

/-- A store is opened by one process at a time, has the keys of one login, and is used with the
session of that login; and no more logins are made than stores. -/
theorem one_login {s : State} {ls : List Label} (hrun : Lts.Run CarefulStep .start ls s) :
    (∀ keys, s.store = some keys → keys.length ≤ 1) ∧
      (∀ p q process other, s.processes p = some process → s.processes q = some other →
        process.phase ≠ .found → other.phase ≠ .found → p = q) ∧
      (∀ p process session, s.processes p = some process → process.phase = .running session →
        session.userId = process.userId ∧ s.file = .holds session ∧
          s.store = some [session.login]) ∧
      ls.countP Label.isLogin ≤ ls.count .removeStore + 1 := by
  obtain ⟨hinv, hcount⟩ := logins_le hrun
  refine ⟨hinv.store, fun p q process other hp hq hphase hother ↦ ?_,
    fun p process session hp hphase ↦ ?_, by omega⟩
  · have hlock := (hinv.held hp rfl hphase).1
    rw [(hinv.held hq rfl hother).1] at hlock
    exact (Option.some.inj hlock).symm
  · obtain ⟨-, huser, hfile⟩ := hinv.held hp hphase nofun
    exact ⟨huser, hfile, hinv.file session hfile⟩

/-! ## The session that is kept -/

theorem file_ne_absent {s t : State} {l : Label} (hstep : Step s l t) (hl : l ≠ .removeFile)
    (hfile : s.file ≠ .absent) : t.file ≠ .absent := by
  cases hstep with
  | create => exact nofun
  | saved => exact nofun
  | removeFile => exact absurd rfl hl
  | _ => exact hfile

/-- A session that was saved is not written over, and nothing is logged in beside it. -/
theorem holds_step {s t : State} {l : Label} {session : Session} (h : Inv s)
    (hstep : CarefulStep s l t) (hl : l ≠ .removeFile) (hfile : s.file = .holds session) :
    t.file = .holds session ∧ l.isLogin = false := by
  obtain ⟨hstep, -⟩ := hstep
  cases hstep with
  | login p process deviceId store hp hphase hchoice hstore =>
    cases hfile.symm.trans (loginOrRestore_eq_login hchoice)
  | create p process saved hp hphase =>
    obtain ⟨-, -, habsent, -⟩ := h.held hp hphase nofun
    cases hfile.symm.trans habsent
  | saved p process saved hp hphase =>
    obtain ⟨-, -, hunreadable, -⟩ := h.held hp hphase nofun
    cases hfile.symm.trans hunreadable
  | removeFile => exact absurd rfl hl
  | _ => exact ⟨hfile, rfl⟩

theorem holds_run {s t : State} {ls : List Label} {session : Session} (h : Inv s)
    (hfile : s.file = .holds session) (hrun : Lts.Run CarefulStep s ls t)
    (hls : .removeFile ∉ ls) :
    Inv t ∧ t.file = .holds session ∧ ∀ l ∈ ls, l.isLogin = false := by
  induction hrun with
  | nil => exact ⟨h, hfile, nofun⟩
  | @snoc t u ls l _ hstep ih =>
    rw [List.mem_append, not_or, List.mem_singleton] at hls
    obtain ⟨hinv, hfile, hpast⟩ := ih hls.1
    obtain ⟨hfile', hl⟩ := holds_step hinv hstep (Ne.symm hls.2) hfile
    refine ⟨hinv.step hstep, hfile', fun k hk ↦ ?_⟩
    rcases List.mem_append.mp hk with hold | hnew
    · exact hpast k hold
    · exact List.mem_singleton.mp hnew ▸ hl

/-- Where a process comes from that resets the cross-signing. -/
theorem reset_step {s t : State} {l : Label} (hstep : Step s l t) {p : Nat} {process : Process}
    (hp : t.processes p = some process) (hcommand : process.command = .resetCrossSigning) :
    (∃ userId, l = .look p userId ∧ t.file ≠ .absent) ∨
      ∃ old, s.processes p = some old ∧ old.command = .resetCrossSigning := by
  -- a process that moves on keeps its command
  have hkept : ∀ {q old new}, Function.update s.processes q (some new) p = some process →
      s.processes q = some old → new.command = old.command →
        ∃ old, s.processes p = some old ∧ old.command = .resetCrossSigning := by
    intro q old new hp hq hsame
    rcases mem_update hp with ⟨rfl, hnew⟩ | ⟨-, hold⟩
    · obtain rfl := Option.some.inj hnew
      exact ⟨old, hq, hsame ▸ hcommand⟩
    · exact ⟨process, hold, hcommand⟩
  cases hstep with
  | look q userId hnone hfile =>
    rcases mem_update hp with ⟨rfl, -⟩ | ⟨-, hold⟩
    · exact .inl ⟨userId, rfl, hfile⟩
    · exact .inr ⟨process, hold, hcommand⟩
  | lockRun q userId hnone hlock =>
    rcases mem_update hp with ⟨-, hnew⟩ | ⟨-, hold⟩
    · rw [← Option.some.inj hnew] at hcommand
      cases hcommand
    · exact .inr ⟨process, hold, hcommand⟩
  | lockReset q old hq => exact .inr (hkept hp hq rfl)
  | «open» q old store hq => exact .inr (hkept hp hq rfl)
  | login q old deviceId store hq => exact .inr (hkept hp hq rfl)
  | create q old session hq => exact .inr (hkept hp hq rfl)
  | saved q old session hq => exact .inr (hkept hp hq rfl)
  | restore q old session store hq => exact .inr (hkept hp hq rfl)
  | use => exact .inr ⟨process, hp, hcommand⟩
  | exit q old hq =>
    rcases mem_update hp with ⟨-, hnew⟩ | ⟨-, hold⟩
    · cases hnew
    · exact .inr ⟨process, hold, hcommand⟩
  | removeFile => exact .inr ⟨process, hp, hcommand⟩
  | removeStore => exact .inr ⟨process, hp, hcommand⟩

/-- A process that resets the cross-signing has seen the session file, which is there until it is
deleted. -/
theorem looked_run {s : State} {ls : List Label} (hrun : Lts.Run Step .start ls s) {p : Nat}
    {process : Process} (hp : s.processes p = some process)
    (hcommand : process.command = .resetCrossSigning) :
    ∃ before userId after, ls = before ++ .look p userId :: after ∧
      (.removeFile ∈ after ∨ s.file ≠ .absent) := by
  induction hrun generalizing process with
  | nil => cases hp
  | @snoc t u ls l _ hstep ih =>
    rcases reset_step hstep hp hcommand with ⟨userId, rfl, hfile⟩ | ⟨old, hold, hreset⟩
    · exact ⟨ls, userId, [], rfl, .inr hfile⟩
    · obtain ⟨before, userId, after, rfl, hfile⟩ := ih hold hreset
      refine ⟨before, userId, after ++ [l], List.append_assoc .., ?_⟩
      rcases hfile with hremoved | hthere
      · exact .inl (List.mem_append_left _ hremoved)
      · by_cases hl : l = .removeFile
        · exact .inl (hl ▸ List.mem_append_right _ (List.mem_singleton_self _))
        · exact .inr (file_ne_absent hstep hl hthere)

/-- Until the operator deletes the session file, a session that was saved is the one that every
later process runs, and nothing is logged in; and a reset of the cross-signing logs in only where
the file that it has seen was deleted. -/
theorem session_kept {s : State} {ls : List Label} (hrun : Lts.Run CarefulStep .start ls s) :
    (∀ before p session after, ls = before ++ .saved p session :: after → .removeFile ∉ after →
      s.file = .holds session ∧ (∀ l ∈ after, l.isLogin = false) ∧
        ∀ q process other, s.processes q = some process → process.phase = .running other →
          other = session) ∧
      ∀ before p deviceId after, ls = before ++ .login p .resetCrossSigning deviceId :: after →
        ∃ first userId between, before = first ++ .look p userId :: between ∧
          .removeFile ∈ between := by
  constructor
  · intro before p session after heq hnot
    obtain ⟨t, t', hbefore, hsaved, hafter⟩ := hrun.split heq
    have hfile : t'.file = .holds session := by
      obtain ⟨hsaved, -⟩ := hsaved
      cases hsaved
      rfl
    obtain ⟨hinv, hkept, hlogins⟩ :=
      holds_run ((logins_le hbefore).1.step hsaved) hfile hafter hnot
    refine ⟨hkept, hlogins, fun q process other hq hphase ↦ ?_⟩
    obtain ⟨-, -, hother⟩ := hinv.held hq hphase nofun
    exact SessionFile.holds.inj (hother.symm.trans hkept)
  · intro before p deviceId after heq
    obtain ⟨t, t', hbefore, ⟨hlogin, -⟩, -⟩ := hrun.split heq
    generalize hl : Label.login p .resetCrossSigning deviceId = l at hlogin
    cases hlogin with
    | login q process device store hp hphase hchoice hstore =>
      obtain ⟨rfl, hcommand, rfl⟩ := Label.login.inj hl
      obtain ⟨first, userId, between, hlook, hremoved⟩ :=
        looked_run (hbefore.mono fun _ _ _ h ↦ h.1) hp hcommand.symm
      exact ⟨first, userId, between, hlook,
        hremoved.resolve_right (not_not.mpr (loginOrRestore_eq_login hchoice))⟩
    | _ => cases hl

def botSession : Session := ⟨"@bot:silta.test", "SILTA", 0⟩

/-- The first start, which is killed, and a reset of the cross-signing after it. -/
def startAndReset : List Label :=
  [.lock 1 .run "@bot:silta.test", .open 1, .login 1 .run "SILTA", .create 1, .saved 1 botSession,
    .exit 1, .look 2 "@bot:silta.test", .lock 2 .resetCrossSigning "@bot:silta.test", .open 2,
    .restore 2]

theorem run_startAndReset : ∃ s, Lts.Run CarefulStep .start startAndReset s ∧
    s.processes 2 = some ⟨.resetCrossSigning, "@bot:silta.test", .running botSession⟩ := by
  have hnil : Lts.Run CarefulStep .start [] .start := .nil _
  have hlock := hnil.snoc
    ⟨.lockRun _ 1 "@bot:silta.test" rfl rfl, trivial⟩
  have hopen := hlock.snoc ⟨.open _ 1 ⟨.run, "@bot:silta.test", .locked⟩ [] rfl rfl rfl, trivial⟩
  have hlogin := hopen.snoc
    ⟨.login _ 1 ⟨.run, "@bot:silta.test", .opened⟩ "SILTA" [] rfl rfl rfl rfl, trivial⟩
  have hcreate := hlogin.snoc
    ⟨.create _ 1 ⟨.run, "@bot:silta.test", .loggedIn botSession⟩ botSession rfl rfl, trivial⟩
  have hsaved := hcreate.snoc
    ⟨.saved _ 1 ⟨.run, "@bot:silta.test", .saving botSession⟩ botSession rfl rfl, trivial⟩
  have hexit := hsaved.snoc
    ⟨.exit _ 1 ⟨.run, "@bot:silta.test", .running botSession⟩ rfl, trivial⟩
  have hlook := hexit.snoc ⟨.look _ 2 "@bot:silta.test" rfl nofun, trivial⟩
  have hlock' := hlook.snoc
    ⟨.lockReset _ 2 ⟨.resetCrossSigning, "@bot:silta.test", .found⟩ rfl rfl rfl, trivial⟩
  have hopen' := hlock'.snoc
    ⟨.open _ 2 ⟨.resetCrossSigning, "@bot:silta.test", .locked⟩ [0] rfl rfl rfl, trivial⟩
  have hrestore := hopen'.snoc
    ⟨.restore _ 2 ⟨.resetCrossSigning, "@bot:silta.test", .opened⟩ botSession [0] rfl rfl rfl rfl,
      trivial⟩
  exact ⟨_, hrestore, rfl⟩

theorem one_login_reset : ∃ s, Lts.Run CarefulStep .start startAndReset s ∧
    s.store = some [0] := by
  obtain ⟨s, hrun, hp⟩ := run_startAndReset
  exact ⟨s, hrun, ((one_login hrun).2.2.1 2 _ botSession hp rfl).2.2⟩

theorem session_kept_reset : ∃ s, Lts.Run CarefulStep .start startAndReset s ∧
    s.file = .holds botSession := by
  obtain ⟨s, hrun, -⟩ := run_startAndReset
  exact ⟨s, hrun, ((session_kept hrun).1 (startAndReset.take 4) 1 botSession
    (startAndReset.drop 5) rfl (by decide)).1⟩

end DeviceStore

end Silta
