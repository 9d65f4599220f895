import Silta.Config
import Silta.Lib.Table

/-!
# What validation asks

`Config::validate` walks the registry in its order and keeps sets of what it has seen.  What it asks
in the end does not depend on that order: each entry is well formed, and nothing is listed twice.
-/

namespace Silta

/-- An entry of the people registry, on its own. -/
structure PersonConfig.WellFormed (bot : String) (p : PersonConfig) : Prop where
  named : p.name ≠ ""
  addresses : ∀ a ∈ p.addresses, isUserId a = true ∧ a ≠ bot

/-- The room ids start with an exclamation mark. -/
def isRoomId (room : String) : Bool := room.toList.head? == some '!'

/-- An entry of the sessions, on its own, with the names of the registered people. -/
structure SessionConfig.WellFormed (known : List String) (s : SessionConfig) : Prop where
  named : s.name ≠ ""
  user : s.user ≠ ""
  people : ∀ p ∈ s.receive.people, p ∈ known
  rooms : ∀ r ∈ s.receive.rooms, isRoomId r = true

/-- The checks on the values outside the registry. -/
structure Config.Set (c : Config) : Prop where
  socket : c.socket ≠ ""
  stateDir : c.stateDir ≠ ""
  homeserverUrl : c.matrix.homeserverUrl ≠ ""
  userId : isUserId c.matrix.userId = true
  password : c.matrix.password ≠ ""
  deviceId : c.matrix.deviceId ≠ ""
  inboxMaxAgeDays : c.inboxMaxAgeDays ≠ 0
  attachmentMaxMb : c.attachmentMaxMb ≠ 0

/-- What validation asks of a configuration. -/
structure Config.Valid (c : Config) : Prop where
  set : c.Set
  person : ∀ p ∈ c.people, p.WellFormed c.matrix.userId
  personNames : (c.people.flatMap fun p ↦ [p.name]).Nodup
  addresses : (c.people.flatMap PersonConfig.addresses).Nodup
  session : ∀ s ∈ c.sessions, s.WellFormed (c.people.map PersonConfig.name)
  unambiguous : c.Unambiguous

/-- A fatal check in front of the others. -/
theorem check_eq_ok_iff {α β : Type} {b : Prop} [Decidable b] {e : α} {x : Except α β} {y : β} :
    (if b then .error e else x) = .ok y ↔ ¬b ∧ x = .ok y := by
  by_cases h : b <;> simp [h]

/-! ## The people loop -/

theorem checkAddresses_eq_ok_iff {bot name : String} {as seen seen' : List String} :
    checkAddresses bot name as seen = .ok seen' ↔
      (∀ a ∈ as, isUserId a = true ∧ a ≠ bot) ∧ Table.Fresh (fun a ↦ [a]) as seen ∧
        seen' = as.reverse ++ seen := by
  induction as generalizing seen with
  | nil =>
    rw [checkAddresses, Except.ok.injEq]
    exact ⟨fun h ↦ ⟨nofun, Table.fresh_nil _ _, h.symm⟩, fun h ↦ h.2.2.symm⟩
  | cons a as ih =>
    unfold checkAddresses
    rw [check_eq_ok_iff, check_eq_ok_iff, check_eq_ok_iff, ih, Table.fresh_cons,
      List.forall_mem_cons, List.reverse_cons, List.append_assoc, List.singleton_append]
    simp only [Bool.not_eq_true', Bool.not_eq_false, List.nodup_singleton, true_and,
      List.forall_mem_singleton]
    tauto

theorem checkPeople_eq_ok_iff {bot : String} {ps : List PersonConfig}
    {names names' addresses : List String} :
    checkPeople bot ps names addresses = .ok names' ↔
      (∀ p ∈ ps, p.WellFormed bot) ∧ Table.Fresh (fun p ↦ [p.name]) ps names ∧
        Table.Fresh PersonConfig.addresses ps addresses ∧
          names' = (ps.map PersonConfig.name).reverse ++ names := by
  induction ps generalizing names addresses with
  | nil =>
    rw [checkPeople, Except.ok.injEq]
    exact ⟨fun h ↦ ⟨nofun, Table.fresh_nil _ _, Table.fresh_nil _ _, h.symm⟩,
      fun h ↦ h.2.2.2.symm⟩
  | cons p ps ih =>
    have hseen : Table.Fresh PersonConfig.addresses ps (p.addresses.reverse ++ addresses) ↔
        Table.Fresh PersonConfig.addresses ps (p.addresses ++ addresses) :=
      Table.fresh_congr (by simp)
    have hfirst : checkPeople bot (p :: ps) names addresses = .ok names' ↔
        ¬p.name = "" ∧ p.name ∉ names ∧ ∃ seen,
          checkAddresses bot p.name p.addresses addresses = .ok seen ∧
            checkPeople bot ps (p.name :: names) seen = .ok names' := by
      rw [checkPeople, check_eq_ok_iff, check_eq_ok_iff]
      cases checkAddresses bot p.name p.addresses addresses <;> simp
    rw [hfirst]
    simp only [checkAddresses_eq_ok_iff, ih, Table.fresh_self]
    rw [Table.fresh_cons, Table.fresh_cons, List.forall_mem_cons, List.forall_mem_singleton,
      List.map_cons, List.reverse_cons, List.append_assoc, List.singleton_append]
    constructor
    · rintro ⟨hnamed, hnew, _, ⟨haddresses, hown, rfl⟩, hwell, hnames, hrest, rfl⟩
      exact ⟨⟨⟨hnamed, haddresses⟩, hwell⟩, ⟨⟨List.nodup_singleton _, hnew⟩, hnames⟩,
        ⟨hown, hseen.mp hrest⟩, rfl⟩
    · rintro ⟨⟨⟨hnamed, haddresses⟩, hwell⟩, ⟨⟨-, hnew⟩, hnames⟩, ⟨hown, hrest⟩, rfl⟩
      exact ⟨hnamed, hnew, _, ⟨haddresses, hown, rfl⟩, hwell, hnames, hseen.mpr hrest, rfl⟩

/-! ## The session loop -/

theorem claimListed_eq_ok_iff {valid : String → Bool} {invalid : String → ConfigError}
    {twice : String → String → ConfigError} {session : String} {xs : List String}
    {owners owners' : List (String × String)} :
    claimListed valid invalid twice session xs owners = .ok owners' ↔
      (∀ x ∈ xs, valid x = true) ∧ Table.Fresh (fun x ↦ [x]) xs (owners.map Prod.fst) ∧
        owners' = (xs.map fun x ↦ (x, session)).reverse ++ owners := by
  induction xs generalizing owners with
  | nil =>
    rw [claimListed, Except.ok.injEq]
    exact ⟨fun h ↦ ⟨by simp, Table.fresh_nil _ _, h.symm⟩, fun h ↦ h.2.2.symm⟩
  | cons x xs ih =>
    have hfirst : claimListed valid invalid twice session (x :: xs) owners = .ok owners' ↔
        valid x = true ∧ x ∉ owners.map Prod.fst ∧
          claimListed valid invalid twice session xs ((x, session) :: owners) = .ok owners' := by
      rw [claimListed, check_eq_ok_iff, Bool.not_eq_true', Bool.not_eq_false]
      cases hlookup : owners.lookup x with
      | none =>
        have hnew : x ∉ owners.map Prod.fst := by
          intro hmem
          obtain ⟨kv, hkv, rfl⟩ := List.mem_map.mp hmem
          have hne := List.lookup_eq_none_iff.mp hlookup kv hkv
          simp at hne
        simp [hnew]
      | some other =>
        have hold : x ∈ owners.map Prod.fst := by
          obtain ⟨l, r, hsplit, -⟩ := List.lookup_eq_some_iff.mp hlookup
          simp [hsplit]
        simp [hold]
    rw [hfirst, ih, Table.fresh_cons, List.forall_mem_cons, List.forall_mem_singleton,
      List.map_cons, List.map_cons, List.reverse_cons, List.append_assoc, List.singleton_append,
      List.singleton_append]
    simp only [List.nodup_singleton, true_and]
    tauto

/-- What the session loop has seen after one more session. -/
def SeenSessions.add (seen : SeenSessions) (s : SessionConfig) : SeenSessions where
  names := s.name :: seen.names
  all := if s.receive = .all then some s.name else seen.all
  groups := if s.receive = .groups then some s.name else seen.groups
  roomOwner := (s.receive.rooms.map fun x ↦ (x, s.name)).reverse ++ seen.roomOwner
  personOwner := (s.receive.people.map fun x ↦ (x, s.name)).reverse ++ seen.personOwner

/-- The keys of some sessions are new to what the loop has seen. -/
structure SeenSessions.Fresh (seen : SeenSessions) (ss : List SessionConfig) : Prop where
  names : Table.Fresh (fun s ↦ [s.name]) ss seen.names
  people : Table.Fresh (·.receive.people) ss (seen.personOwner.map Prod.fst)
  rooms : Table.Fresh (·.receive.rooms) ss (seen.roomOwner.map Prod.fst)
  all : Table.Fresh (·.receive.allKey) ss (seen.all.toList.map fun _ ↦ ())
  groups : Table.Fresh (·.receive.groupsKey) ss (seen.groups.toList.map fun _ ↦ ())

theorem SeenSessions.fresh_singleton_iff {seen : SeenSessions} {s : SessionConfig} :
    seen.Fresh [s] ↔ s.name ∉ seen.names ∧
      Table.Fresh (fun x ↦ [x]) s.receive.people (seen.personOwner.map Prod.fst) ∧
      Table.Fresh (fun x ↦ [x]) s.receive.rooms (seen.roomOwner.map Prod.fst) ∧
      (s.receive = .all → seen.all = none) ∧ (s.receive = .groups → seen.groups = none) := by
  have hkey : ∀ (o : Option String), (∀ k ∈ [()], k ∉ o.toList.map fun _ ↦ ()) ↔ o = none := by
    intro o
    cases o <;> simp
  have hall : Table.Fresh (·.receive.allKey) [s] (seen.all.toList.map fun _ ↦ ()) ↔
      (s.receive = .all → seen.all = none) := by
    rw [Table.fresh_singleton, Receive.allKey, ← hkey seen.all]
    split
    next h => simp [h]
    next h => simp [h]
  have hgroups : Table.Fresh (·.receive.groupsKey) [s] (seen.groups.toList.map fun _ ↦ ()) ↔
      (s.receive = .groups → seen.groups = none) := by
    rw [Table.fresh_singleton, Receive.groupsKey, ← hkey seen.groups]
    split
    next h => simp [h]
    next h => simp [h]
  rw [Table.fresh_self, Table.fresh_self, ← hall, ← hgroups]
  constructor
  · intro h
    exact ⟨by simpa using (Table.fresh_singleton.mp h.names).2, Table.fresh_singleton.mp h.people,
      Table.fresh_singleton.mp h.rooms, h.all, h.groups⟩
  · rintro ⟨hname, hpeople, hrooms, hall, hgroups⟩
    exact ⟨Table.fresh_singleton.mpr (by simpa using hname), Table.fresh_singleton.mpr hpeople,
      Table.fresh_singleton.mpr hrooms, hall, hgroups⟩

/-- A session that lists neither people nor rooms. -/
theorem SessionConfig.wellFormed_of_unlisted {known : List String} {s : SessionConfig}
    (hpeople : s.receive.people = []) (hrooms : s.receive.rooms = []) :
    s.WellFormed known ↔ s.name ≠ "" ∧ s.user ≠ "" :=
  ⟨fun h ↦ ⟨h.named, h.user⟩, fun h ↦ ⟨h.1, h.2, by simp [hpeople], by simp [hrooms]⟩⟩

/-- The check of a session that lists what it receives. -/
theorem checkSession_selective {known people rooms : List String} {s : SessionConfig}
    {seen seen' : SeenSessions} (hr : s.receive = .selective people rooms) :
    checkSession known s seen = .ok seen' ↔
      ¬s.name = "" ∧ s.name ∉ seen.names ∧ ¬s.user = "" ∧
        ∃ personOwner roomOwner,
          claimListed (fun x ↦ decide (x ∈ known)) (.unknownPerson s.name)
            (fun p other ↦ .personListedTwice p other s.name) s.name people seen.personOwner =
              .ok personOwner ∧
          claimListed isRoomId (.notARoom s.name)
            (fun r other ↦ .roomListedTwice r other s.name) s.name rooms seen.roomOwner =
              .ok roomOwner ∧
          seen' = { seen with
            names := s.name :: seen.names
            personOwner := personOwner
            roomOwner := roomOwner } := by
  rw [checkSession, check_eq_ok_iff, check_eq_ok_iff, check_eq_ok_iff, hr]
  unfold isRoomId
  dsimp only
  cases claimListed (fun x ↦ decide (x ∈ known)) (.unknownPerson s.name)
      (fun p other ↦ .personListedTwice p other s.name) s.name people seen.personOwner with
  | error e => simp
  | ok personOwner =>
    dsimp only
    cases claimListed (fun room ↦ room.toList.head? == some '!') (.notARoom s.name)
        (fun r other ↦ .roomListedTwice r other s.name) s.name rooms seen.roomOwner with
    | error e => simp
    | ok roomOwner => simp [eq_comm (a := seen')]

theorem checkSession_eq_ok_iff {known : List String} {s : SessionConfig}
    {seen seen' : SeenSessions} :
    checkSession known s seen = .ok seen' ↔
      s.WellFormed known ∧ seen.Fresh [s] ∧ seen' = seen.add s := by
  -- which of the tables the session enters depends on what it receives
  cases hr : s.receive with
  | all =>
    obtain ⟨hpeople, hrooms⟩ : s.receive.people = [] ∧ s.receive.rooms = [] := by
      simp [hr, Receive.people, Receive.rooms]
    have hadd : seen.add s = { seen with names := s.name :: seen.names, all := some s.name } := by
      simp [SeenSessions.add, hr, Receive.people, Receive.rooms]
    rw [SeenSessions.fresh_singleton_iff, SessionConfig.wellFormed_of_unlisted hpeople hrooms, hadd,
      hpeople, hrooms, checkSession, check_eq_ok_iff, check_eq_ok_iff, check_eq_ok_iff, hr]
    cases hall : seen.all with
    | some first => simp
    | none =>
      simp only [Table.fresh_nil, Except.ok.injEq, reduceCtorEq, false_implies, true_implies,
        true_and, eq_comm (b := seen')]
      tauto
  | groups =>
    obtain ⟨hpeople, hrooms⟩ : s.receive.people = [] ∧ s.receive.rooms = [] := by
      simp [hr, Receive.people, Receive.rooms]
    have hadd : seen.add s =
        { seen with names := s.name :: seen.names, groups := some s.name } := by
      simp [SeenSessions.add, hr, Receive.people, Receive.rooms]
    rw [SeenSessions.fresh_singleton_iff, SessionConfig.wellFormed_of_unlisted hpeople hrooms, hadd,
      hpeople, hrooms, checkSession, check_eq_ok_iff, check_eq_ok_iff, check_eq_ok_iff, hr]
    cases hgroups : seen.groups with
    | some first => simp
    | none =>
      simp only [Table.fresh_nil, Except.ok.injEq, reduceCtorEq, false_implies, true_implies,
        true_and, eq_comm (b := seen')]
      tauto
  | selective people rooms =>
    rw [checkSession_selective hr, SeenSessions.fresh_singleton_iff, hr]
    simp only [claimListed_eq_ok_iff, decide_eq_true_eq, reduceCtorEq, false_implies, and_true]
    have hadd : seen.add s = { seen with
        names := s.name :: seen.names
        roomOwner := (rooms.map fun x ↦ (x, s.name)).reverse ++ seen.roomOwner
        personOwner := (people.map fun x ↦ (x, s.name)).reverse ++ seen.personOwner } := by
      simp [SeenSessions.add, hr, Receive.people, Receive.rooms]
    rw [hadd]
    constructor
    · rintro ⟨hnamed, hnew, huser, _, _, ⟨hknown, hpeople, rfl⟩, ⟨hrooms, hfresh, rfl⟩, rfl⟩
      refine ⟨⟨hnamed, huser, ?_, ?_⟩, ⟨hnew, hpeople, hfresh⟩, rfl⟩
      · simpa [hr, Receive.people] using hknown
      · simpa [hr, Receive.rooms] using hrooms
    · rintro ⟨⟨hnamed, huser, hknown, hrooms⟩, ⟨hnew, hpeople, hfresh⟩, rfl⟩
      rw [hr] at hknown hrooms
      exact ⟨hnamed, hnew, huser, _, _, ⟨hknown, hpeople, rfl⟩, ⟨hrooms, hfresh, rfl⟩, rfl⟩

theorem SeenSessions.fresh_cons_iff {seen : SeenSessions} {s : SessionConfig}
    {ss : List SessionConfig} :
    seen.Fresh (s :: ss) ↔ seen.Fresh [s] ∧ (seen.add s).Fresh ss := by
  have hpeople : ∀ k, k ∈ (seen.add s).personOwner.map Prod.fst ↔
      k ∈ s.receive.people ++ seen.personOwner.map Prod.fst := by
    simp [add]
  have hrooms : ∀ k, k ∈ (seen.add s).roomOwner.map Prod.fst ↔
      k ∈ s.receive.rooms ++ seen.roomOwner.map Prod.fst := by
    simp [add]
  have hall : ∀ k, k ∈ ((seen.add s).all.toList.map fun _ ↦ ()) ↔
      k ∈ s.receive.allKey ++ seen.all.toList.map fun _ ↦ () := by
    by_cases h : s.receive = .all <;> simp [add, Receive.allKey, h]
  have hgroups : ∀ k, k ∈ ((seen.add s).groups.toList.map fun _ ↦ ()) ↔
      k ∈ s.receive.groupsKey ++ seen.groups.toList.map fun _ ↦ () := by
    by_cases h : s.receive = .groups <;> simp [add, Receive.groupsKey, h]
  constructor
  · rintro ⟨hn, hp, hr, ha, hg⟩
    rw [Table.fresh_cons, ← Table.fresh_singleton] at hn hp hr ha hg
    exact ⟨⟨hn.1, hp.1, hr.1, ha.1, hg.1⟩, hn.2, (Table.fresh_congr hpeople).mpr hp.2,
      (Table.fresh_congr hrooms).mpr hr.2, (Table.fresh_congr hall).mpr ha.2,
      (Table.fresh_congr hgroups).mpr hg.2⟩
  · rintro ⟨⟨hn, hp, hr, ha, hg⟩, hn', hp', hr', ha', hg'⟩
    rw [Table.fresh_congr hpeople] at hp'
    rw [Table.fresh_congr hrooms] at hr'
    rw [Table.fresh_congr hall] at ha'
    rw [Table.fresh_congr hgroups] at hg'
    rw [Table.fresh_singleton] at hn hp hr ha hg
    exact ⟨Table.fresh_cons.mpr ⟨hn, hn'⟩, Table.fresh_cons.mpr ⟨hp, hp'⟩,
      Table.fresh_cons.mpr ⟨hr, hr'⟩, Table.fresh_cons.mpr ⟨ha, ha'⟩,
      Table.fresh_cons.mpr ⟨hg, hg'⟩⟩

theorem checkSessions_ok_iff {known : List String} {ss : List SessionConfig}
    {seen : SeenSessions} :
    (∃ seen', checkSessions known ss seen = .ok seen') ↔
      (∀ s ∈ ss, s.WellFormed known) ∧ seen.Fresh ss := by
  induction ss generalizing seen with
  | nil =>
    refine ⟨fun _ ↦ ⟨nofun, ?_⟩, fun _ ↦ ⟨seen, rfl⟩⟩
    exact ⟨Table.fresh_nil _ _, Table.fresh_nil _ _, Table.fresh_nil _ _, Table.fresh_nil _ _,
      Table.fresh_nil _ _⟩
  | cons s ss ih =>
    have hfirst : (∃ seen', checkSessions known (s :: ss) seen = .ok seen') ↔
        ∃ next, checkSession known s seen = .ok next ∧
          ∃ seen', checkSessions known ss next = .ok seen' := by
      rw [checkSessions]
      cases checkSession known s seen <;> simp
    rw [hfirst, List.forall_mem_cons, SeenSessions.fresh_cons_iff]
    simp only [checkSession_eq_ok_iff, ih]
    constructor
    · rintro ⟨_, ⟨hwell, hfresh, rfl⟩, hrest, hlater⟩
      exact ⟨⟨hwell, hrest⟩, hfresh, hlater⟩
    · rintro ⟨⟨hwell, hrest⟩, hfresh, hlater⟩
      exact ⟨_, ⟨hwell, hfresh, rfl⟩, hrest, hlater⟩

/-! ## The whole configuration -/

theorem fresh_unambiguous_iff {c : Config} :
    SeenSessions.Fresh {} c.sessions ↔ c.Unambiguous := by
  constructor
  · rintro ⟨hn, hp, hr, ha, hg⟩
    exact ⟨hn.1, hp.1, hr.1, ha.1, hg.1⟩
  · rintro ⟨hn, hp, hr, ha, hg⟩
    exact ⟨Table.fresh_seen_nil.mpr hn, Table.fresh_seen_nil.mpr hp, Table.fresh_seen_nil.mpr hr,
      Table.fresh_seen_nil.mpr ha, Table.fresh_seen_nil.mpr hg⟩

theorem SessionConfig.wellFormed_congr {known known' : List String} {s : SessionConfig}
    (h : ∀ p, p ∈ known ↔ p ∈ known') : s.WellFormed known ↔ s.WellFormed known' :=
  ⟨fun ⟨hnamed, huser, hpeople, hrooms⟩ ↦ ⟨hnamed, huser, fun p hp ↦ (h p).mp (hpeople p hp),
      hrooms⟩,
    fun ⟨hnamed, huser, hpeople, hrooms⟩ ↦ ⟨hnamed, huser, fun p hp ↦ (h p).mpr (hpeople p hp),
      hrooms⟩⟩

/-- The two loops, one after the other. -/
theorem loops_ok_iff (c : Config) :
    (match checkPeople c.matrix.userId c.people [] [] with
      | .error e => (.error e : Except ConfigError Unit)
      | .ok names =>
        match checkSessions names c.sessions {} with
        | .error e => .error e
        | .ok _ => .ok ()) = .ok () ↔
      ∃ names, checkPeople c.matrix.userId c.people [] [] = .ok names ∧
        ∃ seen, checkSessions names c.sessions {} = .ok seen := by
  cases checkPeople c.matrix.userId c.people [] [] with
  | error e => simp
  | ok names =>
    dsimp only
    cases hs : checkSessions names c.sessions {} <;> simp [hs]

/-- Validation accepts just the configurations whose entries are well formed and of which nothing is
listed twice. -/
theorem Config.validate_eq_ok_iff {c : Config} : c.validate = .ok () ↔ c.Valid := by
  have hloops : (∃ names, checkPeople c.matrix.userId c.people [] [] = .ok names ∧
      ∃ seen, checkSessions names c.sessions {} = .ok seen) ↔
      (∀ p ∈ c.people, p.WellFormed c.matrix.userId) ∧
        (c.people.flatMap fun p ↦ [p.name]).Nodup ∧
        (c.people.flatMap PersonConfig.addresses).Nodup ∧
        (∀ s ∈ c.sessions, s.WellFormed (c.people.map PersonConfig.name)) ∧ c.Unambiguous := by
    have hknown : ∀ s : SessionConfig,
        s.WellFormed ((c.people.map PersonConfig.name).reverse ++ []) ↔
          s.WellFormed (c.people.map PersonConfig.name) := fun s ↦
      SessionConfig.wellFormed_congr (by simp)
    simp only [checkPeople_eq_ok_iff, checkSessions_ok_iff, Table.fresh_seen_nil,
      fresh_unambiguous_iff]
    constructor
    · rintro ⟨_, ⟨hwell, hnames, haddresses, rfl⟩, hsessions, hunambiguous⟩
      exact ⟨hwell, hnames, haddresses, fun s hs ↦ (hknown s).mp (hsessions s hs), hunambiguous⟩
    · rintro ⟨hwell, hnames, haddresses, hsessions, hunambiguous⟩
      exact ⟨_, ⟨hwell, hnames, haddresses, rfl⟩, fun s hs ↦ (hknown s).mpr (hsessions s hs),
        hunambiguous⟩
  unfold Config.validate
  rw [check_eq_ok_iff, check_eq_ok_iff, check_eq_ok_iff, check_eq_ok_iff, check_eq_ok_iff,
    check_eq_ok_iff, check_eq_ok_iff, check_eq_ok_iff]
  refine (and_congr_right fun _ ↦ and_congr_right fun _ ↦ and_congr_right fun _ ↦
    and_congr_right fun _ ↦ and_congr_right fun _ ↦ and_congr_right fun _ ↦
    and_congr_right fun _ ↦ and_congr_right fun _ ↦ (loops_ok_iff c).trans hloops).trans ?_
  constructor
  · rintro ⟨h₁, h₂, h₃, h₄, h₅, h₆, h₇, h₈, hperson, hnames, haddresses, hsession, hun⟩
    exact ⟨⟨h₁, h₂, h₃, by simpa using h₄, h₅, h₆, h₇, h₈⟩, hperson, hnames, haddresses, hsession,
      hun⟩
  · rintro ⟨⟨h₁, h₂, h₃, h₄, h₅, h₆, h₇, h₈⟩, hperson, hnames, haddresses, hsession, hun⟩
    exact ⟨h₁, h₂, h₃, by simpa using h₄, h₅, h₆, h₇, h₈, hperson, hnames, haddresses, hsession,
      hun⟩

end Silta
