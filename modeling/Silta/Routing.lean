import Mathlib.Data.Finset.Card
import Silta.Config
import Silta.Lib.Table

/-!
# Routing

`Routing::new` and the pure routing rules derived from a configuration: who gets an inbound
message, and which rooms a session may write to or read.
-/

namespace Silta

/-- Why an inbound message was not delivered. -/
inductive DropReason
  | ownMessage
  | unknownSender
  | noSession
  deriving DecidableEq, Repr

/-- The routing decision for one inbound message. -/
inductive Inbound
  | deliver (session : String) (person : PersonConfig) (room : RoomKind)
  | drop (reason : DropReason)
  deriving DecidableEq, Repr

/-- Why a send was refused. -/
inductive SendDenied
  | unknownSession
  | notAllowed
  deriving DecidableEq, Repr

/-- What the daemon knows about a room besides its members. -/
structure RoomShape where
  direct : Bool
  named : Bool
  deriving DecidableEq, Repr

/-- Group or one person's room. -/
def isGroup (people : Nat) (shape : RoomShape) : Bool :=
  decide (2 ≤ people) || (!shape.direct && shape.named)

/-- Routing tables derived from a validated configuration. -/
structure Routing where
  bot : String
  people : List PersonConfig
  byAddress : String → Option (Fin people.length)
  sessions : List SessionConfig
  byName : String → Option (Fin sessions.length)
  byRoom : String → Option (Fin sessions.length)
  byPerson : String → Option (Fin sessions.length)
  all : Option (Fin sessions.length)
  groups : Option (Fin sessions.length)

namespace Routing

def new (config : Config) : Routing where
  bot := config.matrix.userId
  people := config.people
  byAddress := Table.index (·.addresses) config.people
  sessions := config.sessions
  byName := Table.index (fun s ↦ [s.name]) config.sessions
  byRoom := Table.index (·.receive.rooms) config.sessions
  byPerson := Table.index (·.receive.people) config.sessions
  all := Table.index (·.receive.allKey) config.sessions ()
  groups := Table.index (·.receive.groupsKey) config.sessions ()

def isBot (r : Routing) (address : String) : Bool := address == r.bot

/-- The registered person behind an address. -/
def personFor (r : Routing) (address : String) : Option PersonConfig :=
  (r.byAddress address).map r.people.get

def session (r : Routing) (name : String) : Option SessionConfig :=
  (r.byName name).map r.sessions.get

def sessionNames (r : Routing) : List String := r.sessions.map SessionConfig.name

/-- The registered people among a room's members other than the bot, and whether every such member
is registered. -/
def peopleIn (r : Routing) : List String → Finset String × Bool
  | [] => (∅, true)
  | member :: members =>
    let (people, allRegistered) := r.peopleIn members
    if r.isBot member then (people, allRegistered)
    else match r.personFor member with
      | some person => (insert person.name people, allRegistered)
      | none => (people, false)

/-- Decide who gets an inbound message. -/
def inbound (r : Routing) (sender roomId : String) (members : List String) (shape : RoomShape) :
    Inbound :=
  if r.isBot sender then .drop .ownMessage
  else match r.personFor sender with
    | none => .drop .unknownSender
    | some person =>
      -- for the kind of the room it does not matter whether every member is registered
      let (people, _) := r.peopleIn members
      let group := isGroup people.card shape
      let owner := match r.byRoom roomId with
        | some i => some i
        | none => (if group then r.groups else r.byPerson person.name).or r.all
      let room := if group then RoomKind.group else RoomKind.dm
      match owner with
      | some i => .deliver (r.sessions.get i).name person room
      | none => .drop .noSession

/-- A session owns a room it lists, and any room whose members other than the bot are all
registered people it receives from.  The listing is only looked up for the session itself: a room
that another session lists falls through to the second rule. -/
def ownsRoom (r : Routing) (i : Fin r.sessions.length) (roomId : String) (members : List String)
    (shape : RoomShape) : Except SendDenied Unit :=
  if r.byRoom roomId = some i then .ok ()
  else
    let (people, allRegistered) := r.peopleIn members
    if people = ∅ ∨ !allRegistered then .error .notAllowed
    else
      let group := isGroup people.card shape
      let owned := match (r.sessions.get i).receive with
        | .all => true
        | .groups => group
        | .selective listed _ => !group && decide (∀ p ∈ people, p ∈ listed)
      if owned then .ok () else .error .notAllowed

/-- Apply a session's send policy to a room. -/
def maySend (r : Routing) (session roomId : String) (members : List String) (shape : RoomShape) :
    Except SendDenied Unit :=
  match r.byName session with
  | none => .error .unknownSession
  | some i =>
    match (r.sessions.get i).send with
    | .any => .ok ()
    | .own => r.ownsRoom i roomId members shape

/-- Whether a session may read a room's history. -/
def mayRead (r : Routing) (session roomId : String) (members : List String) (shape : RoomShape) :
    Except SendDenied Unit :=
  match r.byName session with
  | none => .error .unknownSession
  | some i =>
    if r.all = some i then .ok ()
    else r.ownsRoom i roomId members shape

/-! ## The tables of an accepted configuration -/

section Tables

variable {c : Config} (hc : c.validate = .ok ())
include hc

theorem byName_eq_some_iff {name : String} {i : Fin (new c).sessions.length} :
    (new c).byName name = some i ↔ ((new c).sessions.get i).name = name :=
  (Table.index_eq_some_iff (c.validate_unambiguous hc).names).trans
    (List.mem_singleton.trans eq_comm)

theorem byRoom_eq_some_iff {room : String} {i : Fin (new c).sessions.length} :
    (new c).byRoom room = some i ↔ room ∈ ((new c).sessions.get i).receive.rooms :=
  Table.index_eq_some_iff (c.validate_unambiguous hc).rooms

theorem byPerson_eq_some_iff {person : String} {i : Fin (new c).sessions.length} :
    (new c).byPerson person = some i ↔ person ∈ ((new c).sessions.get i).receive.people :=
  Table.index_eq_some_iff (c.validate_unambiguous hc).people

theorem all_eq_some_iff {i : Fin (new c).sessions.length} :
    (new c).all = some i ↔ ((new c).sessions.get i).receive = .all :=
  (Table.index_eq_some_iff (c.validate_unambiguous hc).all).trans Receive.mem_allKey

theorem groups_eq_some_iff {i : Fin (new c).sessions.length} :
    (new c).groups = some i ↔ ((new c).sessions.get i).receive = .groups :=
  (Table.index_eq_some_iff (c.validate_unambiguous hc).groups).trans Receive.mem_groupsKey

end Tables

/-! ## People in a room -/

theorem mem_peopleIn {r : Routing} {members : List String} {name : String} :
    name ∈ (r.peopleIn members).1 ↔
      ∃ m ∈ members, r.isBot m = false ∧ ∃ p, r.personFor m = some p ∧ p.name = name := by
  induction members with
  | nil => simp [peopleIn]
  | cons m ms ih =>
    unfold peopleIn
    cases hb : r.isBot m with
    | true => simp [hb, ih]
    | false =>
      cases hp : r.personFor m with
      | none => simp [hb, hp, ih]
      | some p => simp [hb, hp, ih, @eq_comm _ name p.name]

theorem peopleIn_allRegistered {r : Routing} {members : List String} :
    (r.peopleIn members).2 = true ↔
      ∀ m ∈ members, r.isBot m = false → (r.personFor m).isSome := by
  induction members with
  | nil => simp [peopleIn]
  | cons m ms ih =>
    unfold peopleIn
    cases hb : r.isBot m with
    | true => simp [hb, ih]
    | false =>
      cases hp : r.personFor m with
      | none => simp [hb, hp]
      | some p => simp [hb, hp, ih]

/-! ## Ownership -/

/-- The rule for a room that is not listed: the session receives from everyone in the room. -/
def Covers (r : Routing) (i : Fin r.sessions.length) (members : List String) (shape : RoomShape) :
    Prop :=
  (r.peopleIn members).1 ≠ ∅ ∧ (r.peopleIn members).2 = true ∧
    match (r.sessions.get i).receive with
    | .all => True
    | .groups => isGroup (r.peopleIn members).1.card shape = true
    | .selective listed _ => isGroup (r.peopleIn members).1.card shape = false ∧
        ∀ p ∈ (r.peopleIn members).1, p ∈ listed

theorem ownsRoom_eq_ok_iff {r : Routing} {i : Fin r.sessions.length} {roomId : String}
    {members : List String} {shape : RoomShape} :
    r.ownsRoom i roomId members shape = .ok () ↔
      r.byRoom roomId = some i ∨ r.Covers i members shape := by
  unfold ownsRoom Covers
  by_cases hroom : r.byRoom roomId = some i
  · simp [hroom]
  cases hreg : (r.peopleIn members).2 with
  | false => simp [hroom, hreg]
  | true =>
    by_cases hempty : (r.peopleIn members).1 = ∅
    · simp [hroom, hempty]
    · cases hrec : (r.sessions.get i).receive <;> simp [hroom, hreg, hempty]

/-- What an accepted message's delivery says: its sender is registered, and the owner is the
session listing the room, or else the one that takes the group or the person, or else the one that
takes everything. -/
theorem inbound_eq_deliver_iff {r : Routing} {sender roomId session : String}
    {members : List String} {shape : RoomShape} {person : PersonConfig} {kind : RoomKind} :
    r.inbound sender roomId members shape = .deliver session person kind ↔
      r.isBot sender = false ∧ r.personFor sender = some person ∧
      kind = (if isGroup (r.peopleIn members).1.card shape then RoomKind.group else .dm) ∧
      ∃ i, (r.sessions.get i).name = session ∧
        (r.byRoom roomId = some i ∨ r.byRoom roomId = none ∧
          ((if isGroup (r.peopleIn members).1.card shape then r.groups
            else r.byPerson person.name).or r.all) = some i) := by
  unfold inbound
  cases hb : r.isBot sender with
  | true => simp
  | false =>
    cases hp : r.personFor sender with
    | none => simp
    | some p =>
      simp only [Bool.false_eq_true, if_false, true_and, Option.some.injEq]
      cases hroom : r.byRoom roomId with
      | some i =>
        simp only [Inbound.deliver.injEq, Option.some.injEq, reduceCtorEq, false_and, or_false]
        constructor
        · rintro ⟨rfl, rfl, rfl⟩
          exact ⟨rfl, rfl, i, rfl, rfl⟩
        · rintro ⟨rfl, rfl, j, rfl, rfl⟩
          exact ⟨rfl, rfl, rfl⟩
      | none =>
        simp only [reduceCtorEq, true_and, false_or]
        constructor
        · intro h
          split at h
          next i hi =>
            obtain ⟨rfl, rfl, rfl⟩ := Inbound.deliver.inj h
            exact ⟨rfl, rfl, i, rfl, hi⟩
          · cases h
        · rintro ⟨rfl, rfl, i, rfl, hi⟩
          rw [hi]

end Routing

end Silta
