import Mathlib.Data.List.Nodup
import Mathlib.Tactic.SplitIfs
import Silta.Protocol

/-!
# The daemon's configuration

The people registry and the sessions of `siltad.toml`, and `Config::validate`.  Every check is
fatal; what passes them is a registry in which no name, address, room or person is ambiguous.
-/

namespace Silta

structure MatrixConfig where
  homeserverUrl : String
  userId : String
  password : String
  deviceId : String
  deriving DecidableEq, Repr

structure PersonConfig where
  name : String
  role : Role
  addresses : List String
  deriving DecidableEq, Repr

/-- Which inbound rooms a session owns. -/
inductive Receive
  | all
  | groups
  | selective (people rooms : List String)
  deriving DecidableEq, Repr

/-- Which rooms a session may write to. -/
inductive SendPolicy
  | any
  | own
  deriving DecidableEq, Repr

structure SessionConfig where
  name : String
  receive : Receive
  send : SendPolicy
  user : String
  deriving DecidableEq, Repr

/-- The configuration file, with the fields that validation and routing read. -/
structure Config where
  socket : String
  stateDir : String
  matrix : MatrixConfig
  people : List PersonConfig
  sessions : List SessionConfig
  inboxMaxAgeDays : Nat
  attachmentMaxMb : Nat
  deriving DecidableEq, Repr

namespace Receive

/-- The people a session lists. -/
def people : Receive → List String
  | .selective people _ => people
  | _ => []

/-- The rooms a session lists. -/
def rooms : Receive → List String
  | .selective _ rooms => rooms
  | _ => []

/-- One key for the session that takes everything. -/
def allKey (r : Receive) : List Unit := if r = .all then [()] else []

/-- One key for the session that takes the group rooms. -/
def groupsKey (r : Receive) : List Unit := if r = .groups then [()] else []

@[simp] theorem mem_allKey {r : Receive} : () ∈ r.allKey ↔ r = .all := by
  simp [allKey]

@[simp] theorem mem_groupsKey {r : Receive} : () ∈ r.groupsKey ↔ r = .groups := by
  simp [groupsKey]

end Receive

/-- `ConfigError::Invalid`, one constructor for each message. -/
inductive ConfigError
  | socketUnset
  | stateDirUnset
  | homeserverUnset
  | botNotUserId (userId : String)
  | passwordUnset
  | deviceUnset
  | inboxAgeZero
  | attachmentZero
  | personUnnamed
  | personTwice (name : String)
  | addressNotUserId (address name : String)
  | addressIsBot (name : String)
  | addressTwice (address : String)
  | sessionUnnamed
  | sessionTwice (name : String)
  | sessionNoUser (name : String)
  | twoGroups (first name : String)
  | twoAll (first name : String)
  | unknownPerson (session person : String)
  | personListedTwice (person other session : String)
  | notARoom (session room : String)
  | roomListedTwice (room other session : String)
  deriving DecidableEq, Repr

/-- The text of the error; `q` is the language's own quoting of a string. -/
def ConfigError.message (q : String → String) : ConfigError → String
  | .socketUnset => "socket must be set"
  | .stateDirUnset => "state_dir must be set"
  | .homeserverUnset => "matrix.homeserver_url must be set"
  | .botNotUserId u => s!"matrix.user_id {q u} is not a Matrix user id"
  | .passwordUnset => "matrix.password must be set"
  | .deviceUnset => "matrix.device_id must be set"
  | .inboxAgeZero => "inbox_max_age_days must be at least 1"
  | .attachmentZero => "attachment_max_mb must be at least 1"
  | .personUnnamed => "a person has an empty name"
  | .personTwice n => s!"person {q n} is listed twice"
  | .addressNotUserId a n => s!"address {q a} of {q n} is not a Matrix user id"
  | .addressIsBot n => s!"person {q n} has the bot's own user id as address"
  | .addressTwice a => s!"address {q a} is listed twice"
  | .sessionUnnamed => "a session has an empty name"
  | .sessionTwice n => s!"session {q n} is listed twice"
  | .sessionNoUser n => s!"session {q n} has no user"
  | .twoGroups f n => s!"sessions {q f} and {q n} both have receive = \"groups\"; only one may"
  | .twoAll f n => s!"sessions {q f} and {q n} both have receive = \"all\"; only one may"
  | .unknownPerson s p => s!"session {q s} receives from unknown person {q p}"
  | .personListedTwice p o s => s!"person {q p} is listed by sessions {q o} and {q s}"
  | .notARoom s r => s!"session {q s} lists {q r}, which is not a room id"
  | .roomListedTwice r o s => s!"room {q r} is listed by sessions {q o} and {q s}"

/-- A leading `@`, a `:` after it, and no `:` at the end. -/
def isUserId (s : String) : Bool :=
  match s.toList with
  | '@' :: rest => rest.contains ':' && rest.getLast? != some ':'
  | _ => false

/-- The address loop of one person; `seen` is the set of addresses so far. -/
def checkAddresses (bot name : String) : List String → List String →
    Except ConfigError (List String)
  | [], seen => .ok seen
  | a :: as, seen =>
    if !isUserId a then .error (.addressNotUserId a name)
    else if a = bot then .error (.addressIsBot name)
    else if a ∈ seen then .error (.addressTwice a)
    else checkAddresses bot name as (a :: seen)

/-- The people loop; answers with the set of names. -/
def checkPeople (bot : String) : List PersonConfig → List String → List String →
    Except ConfigError (List String)
  | [], names, _ => .ok names
  | p :: ps, names, addresses =>
    if p.name = "" then .error .personUnnamed
    else if p.name ∈ names then .error (.personTwice p.name)
    else match checkAddresses bot p.name p.addresses addresses with
      | .error e => .error e
      | .ok addresses => checkPeople bot ps (p.name :: names) addresses

/-- The loop over the people or the rooms a session lists: each is checked, then entered in the
map of owners, where it must be new. -/
def claimListed (valid : String → Bool) (invalid : String → ConfigError)
    (twice : String → String → ConfigError) (session : String) :
    List String → List (String × String) → Except ConfigError (List (String × String))
  | [], owners => .ok owners
  | x :: xs, owners =>
    if !valid x then .error (invalid x)
    else match owners.lookup x with
      | some other => .error (twice x other)
      | none => claimListed valid invalid twice session xs ((x, session) :: owners)

/-- What the session loop has seen so far. -/
structure SeenSessions where
  names : List String := []
  all : Option String := none
  groups : Option String := none
  roomOwner : List (String × String) := []
  personOwner : List (String × String) := []

/-- The body of the session loop. -/
def checkSession (known : List String) (s : SessionConfig) (seen : SeenSessions) :
    Except ConfigError SeenSessions :=
  if s.name = "" then .error .sessionUnnamed
  else if s.name ∈ seen.names then .error (.sessionTwice s.name)
  else if s.user = "" then .error (.sessionNoUser s.name)
  else
    let seen := { seen with names := s.name :: seen.names }
    -- one session at most may take the groups, and one everything
    match s.receive with
    | .groups =>
      match seen.groups with
      | some first => .error (.twoGroups first s.name)
      | none => .ok { seen with groups := some s.name }
    | .all =>
      match seen.all with
      | some first => .error (.twoAll first s.name)
      | none => .ok { seen with all := some s.name }
    | .selective people rooms =>
      match claimListed (· ∈ known) (.unknownPerson s.name)
          (fun p other ↦ .personListedTwice p other s.name) s.name people seen.personOwner with
      | .error e => .error e
      | .ok personOwner =>
        match claimListed (fun r ↦ r.toList.head? == some '!') (.notARoom s.name)
            (fun r other ↦ .roomListedTwice r other s.name) s.name rooms seen.roomOwner with
        | .error e => .error e
        | .ok roomOwner => .ok { seen with personOwner := personOwner, roomOwner := roomOwner }

def checkSessions (known : List String) : List SessionConfig → SeenSessions →
    Except ConfigError SeenSessions
  | [], seen => .ok seen
  | s :: ss, seen =>
    match checkSession known s seen with
    | .error e => .error e
    | .ok seen => checkSessions known ss seen

/-- All checks are fatal: a daemon must not start on an ambiguous registry. -/
def Config.validate (c : Config) : Except ConfigError Unit :=
  if c.socket = "" then .error .socketUnset
  else if c.stateDir = "" then .error .stateDirUnset
  else if c.matrix.homeserverUrl = "" then .error .homeserverUnset
  else if !isUserId c.matrix.userId then .error (.botNotUserId c.matrix.userId)
  else if c.matrix.password = "" then .error .passwordUnset
  else if c.matrix.deviceId = "" then .error .deviceUnset
  else if c.inboxMaxAgeDays = 0 then .error .inboxAgeZero
  else if c.attachmentMaxMb = 0 then .error .attachmentZero
  else match checkPeople c.matrix.userId c.people [] [] with
    | .error e => .error e
    | .ok names =>
      match checkSessions names c.sessions {} with
      | .error e => .error e
      | .ok _ => .ok ()

/-! ## What an accepted configuration guarantees -/

theorem claimListed_ok {valid : String → Bool} {invalid : String → ConfigError}
    {twice : String → String → ConfigError} {session : String} {xs : List String}
    {owners owners' : List (String × String)}
    (h : claimListed valid invalid twice session xs owners = .ok owners')
    (hnd : (owners.map Prod.fst).Nodup) :
    (owners'.map Prod.fst).Nodup ∧
      (owners'.map Prod.fst).Perm (owners.map Prod.fst ++ xs) := by
  induction xs generalizing owners with
  | nil =>
    obtain rfl : owners = owners' := by simpa [claimListed] using h
    exact ⟨hnd, by simp⟩
  | cons x xs ih =>
    unfold claimListed at h
    split at h
    · cases h
    split at h
    · cases h
    next hnone =>
      -- the map of owners had no entry for it
      have hx : x ∉ owners.map Prod.fst := by
        intro hmem
        obtain ⟨kv, hkv, rfl⟩ := List.mem_map.mp hmem
        have hne := List.lookup_eq_none_iff.mp hnone kv hkv
        simp at hne
      obtain ⟨hnd', hperm⟩ := ih h (List.nodup_cons.mpr ⟨hx, hnd⟩)
      exact ⟨hnd', hperm.trans List.perm_middle.symm⟩

/-- The session loop has gone over `ss`: each of its sets holds what these sessions list, without
repetition. -/
structure SeenSessions.Covers (seen : SeenSessions) (ss : List SessionConfig) : Prop where
  names : seen.names.Nodup ∧ seen.names.Perm (ss.map (·.name))
  people : (seen.personOwner.map Prod.fst).Nodup ∧
    (seen.personOwner.map Prod.fst).Perm (ss.flatMap (·.receive.people))
  rooms : (seen.roomOwner.map Prod.fst).Nodup ∧
    (seen.roomOwner.map Prod.fst).Perm (ss.flatMap (·.receive.rooms))
  all : seen.all.toList.length = (ss.flatMap (·.receive.allKey)).length
  groups : seen.groups.toList.length = (ss.flatMap (·.receive.groupsKey)).length

theorem checkSession_covers {known : List String} {s : SessionConfig} {ss : List SessionConfig}
    {seen seen' : SeenSessions} (h : checkSession known s seen = .ok seen')
    (hc : seen.Covers ss) : seen'.Covers (ss ++ [s]) := by
  unfold checkSession at h
  split_ifs at h with h₁ h₂ h₃
  have hnames : (s.name :: seen.names).Nodup ∧
      (s.name :: seen.names).Perm ((ss ++ [s]).map (·.name)) := by
    refine ⟨List.nodup_cons.mpr ⟨h₂, hc.names.1⟩, ?_⟩
    rw [List.map_append]
    exact (hc.names.2.cons _).trans (List.perm_append_singleton _ _).symm
  cases hr : s.receive with
  | all =>
    rw [hr] at h
    cases ha : seen.all <;> simp only [ha, reduceCtorEq, Except.ok.injEq] at h
    subst h
    have hall := hc.all
    exact ⟨hnames, by simpa [hr, Receive.people] using hc.people,
      by simpa [hr, Receive.rooms] using hc.rooms,
      by simpa [hr, Receive.allKey, ha] using hall.symm,
      by simpa [hr, Receive.groupsKey] using hc.groups⟩
  | groups =>
    rw [hr] at h
    cases hg : seen.groups <;> simp only [hg, reduceCtorEq, Except.ok.injEq] at h
    subst h
    have hgroups := hc.groups
    exact ⟨hnames, by simpa [hr, Receive.people] using hc.people,
      by simpa [hr, Receive.rooms] using hc.rooms,
      by simpa [hr, Receive.allKey] using hc.all,
      by simpa [hr, Receive.groupsKey, hg] using hgroups.symm⟩
  | selective people rooms =>
    rw [hr] at h
    dsimp only at h
    split at h
    · cases h
    next personOwner hp =>
      split at h
      · cases h
      next roomOwner hrm =>
        obtain rfl := Except.ok.inj h
        obtain ⟨hpnd, hpperm⟩ := claimListed_ok hp hc.people.1
        obtain ⟨hrnd, hrperm⟩ := claimListed_ok hrm hc.rooms.1
        refine ⟨hnames, ⟨hpnd, ?_⟩, ⟨hrnd, ?_⟩, ?_, ?_⟩
        · simpa [hr, Receive.people] using hpperm.trans (hc.people.2.append_right people)
        · simpa [hr, Receive.rooms] using hrperm.trans (hc.rooms.2.append_right rooms)
        · simpa [hr, Receive.allKey] using hc.all
        · simpa [hr, Receive.groupsKey] using hc.groups

theorem checkSessions_covers {known : List String} {ts ss : List SessionConfig}
    {seen seen' : SeenSessions} (h : checkSessions known ts seen = .ok seen')
    (hc : seen.Covers ss) : seen'.Covers (ss ++ ts) := by
  induction ts generalizing seen ss with
  | nil =>
    obtain rfl : seen = seen' := by simpa [checkSessions] using h
    simpa using hc
  | cons t ts ih =>
    unfold checkSessions at h
    split at h
    · cases h
    next hone => simpa using ih h (checkSession_covers hone hc)

/-- No session name, person, room or catch-all is claimed twice among the sessions. -/
structure Config.Unambiguous (c : Config) : Prop where
  names : (c.sessions.flatMap fun s ↦ [s.name]).Nodup
  people : (c.sessions.flatMap (·.receive.people)).Nodup
  rooms : (c.sessions.flatMap (·.receive.rooms)).Nodup
  all : (c.sessions.flatMap (·.receive.allKey)).Nodup
  groups : (c.sessions.flatMap (·.receive.groupsKey)).Nodup

private theorem nodup_of_option {α : Type} {o : Option α} {l : List Unit}
    (h : o.toList.length = l.length) : l.Nodup := by
  have hle : l.length ≤ 1 := by
    rw [← h]
    cases o <;> simp
  match l, hle with
  | [], _ => simp
  | [_], _ => simp

theorem Config.validate_unambiguous {c : Config} (h : c.validate = .ok ()) : c.Unambiguous := by
  unfold Config.validate at h
  split_ifs at h
  split at h
  · cases h
  split at h
  · cases h
  next hs =>
    have hempty : SeenSessions.Covers {} [] := ⟨by simp, by simp, by simp, by simp, by simp⟩
    have hc := checkSessions_covers hs hempty
    rw [List.nil_append] at hc
    exact {
      names := by
        rw [← List.map_eq_flatMap]
        exact hc.names.2.nodup_iff.mp hc.names.1
      people := hc.people.2.nodup_iff.mp hc.people.1
      rooms := hc.rooms.2.nodup_iff.mp hc.rooms.1
      all := nodup_of_option hc.all
      groups := nodup_of_option hc.groups }

end Silta
