import Silta.Routing

/-!
# Reading and answering

The permission rules against the routing rule: a session may answer in, and read, every room it is
given messages from; and it reads only rooms whose messages it is given, except where a room that
another session lists also falls under the rule for unlisted rooms.
-/

namespace Silta

namespace Routing

/-- Every message that a registered member other than the bot sends to the room is routed to the
session. -/
def GivenMessages (r : Routing) (session roomId : String) (members : List String)
    (shape : RoomShape) : Prop :=
  ∀ sender ∈ members, r.isBot sender = false → ∀ person, r.personFor sender = some person →
    ∃ kind, r.inbound sender roomId members shape = .deliver session person kind

/-- The session that takes everything. -/
def TakesAll (r : Routing) (session : String) : Prop :=
  ∃ i, r.byName session = some i ∧ r.all = some i

instance (r : Routing) (session : String) : Decidable (r.TakesAll session) :=
  inferInstanceAs (Decidable (∃ _, _))

/-- If a session may read the room, it is given the room's messages. -/
def ReadsOnlyOwn (r : Routing) (session roomId : String) (members : List String)
    (shape : RoomShape) : Prop :=
  r.mayRead session roomId members shape = .ok () → r.GivenMessages session roomId members shape

/-- The room is listed by another session although the session covers everyone in it. -/
def ListedElsewhere (r : Routing) (session roomId : String) (members : List String)
    (shape : RoomShape) : Prop :=
  ∃ i j, r.byName session = some i ∧ r.byRoom roomId = some j ∧ i ≠ j ∧ r.Covers i members shape

theorem mem_peopleIn_of_sender {r : Routing} {members : List String} {sender : String}
    {person : PersonConfig} (hmem : sender ∈ members) (hbot : r.isBot sender = false)
    (hp : r.personFor sender = some person) : person.name ∈ (r.peopleIn members).1 :=
  mem_peopleIn.mpr ⟨sender, hmem, hbot, person, hp, rfl⟩

/-- A room that is not a group has at most one person in it. -/
theorem eq_of_not_isGroup {people : Finset String} {shape : RoomShape} {p q : String}
    (h : isGroup people.card shape = false) (hp : p ∈ people) (hq : q ∈ people) : p = q := by
  have hcard : people.card ≤ 1 := by
    simp only [isGroup, Bool.or_eq_false_iff, decide_eq_false_iff_not] at h
    omega
  exact Finset.card_le_one.mp hcard p hp q hq

section Valid

variable {c : Config} (hc : c.validate = .ok ())
include hc

theorem mayRead_of_owns {i : Fin (new c).sessions.length} {room : String} {members : List String}
    {shape : RoomShape} (h : (new c).byRoom room = some i ∨ (new c).Covers i members shape) :
    (new c).mayRead ((new c).sessions.get i).name room members shape = .ok () := by
  have hname : (new c).byName ((new c).sessions.get i).name = some i :=
    (byName_eq_some_iff hc).mpr rfl
  simp only [mayRead, hname, ownsRoom_eq_ok_iff.mpr h, ite_self]

theorem maySend_of_owns {i : Fin (new c).sessions.length} {room : String} {members : List String}
    {shape : RoomShape} (h : (new c).byRoom room = some i ∨ (new c).Covers i members shape) :
    (new c).maySend ((new c).sessions.get i).name room members shape = .ok () := by
  have hname : (new c).byName ((new c).sessions.get i).name = some i :=
    (byName_eq_some_iff hc).mpr rfl
  simp only [maySend, hname]
  split
  · rfl
  · exact ownsRoom_eq_ok_iff.mpr h

/-- The session an unlisted room is routed to covers it, whichever of the routing cases applied. -/
theorem covers_of_routed {sender : String} {members : List String} {shape : RoomShape}
    {person : PersonConfig} {i : Fin (new c).sessions.length} (hmem : sender ∈ members)
    (hbot : (new c).isBot sender = false) (hp : (new c).personFor sender = some person)
    (hreg : ((new c).peopleIn members).2 = true)
    (h : ((if isGroup ((new c).peopleIn members).1.card shape then (new c).groups
      else (new c).byPerson person.name).or (new c).all) = some i) :
    (new c).Covers i members shape := by
  have hin := mem_peopleIn_of_sender hmem hbot hp
  refine ⟨Finset.ne_empty_of_mem hin, hreg, ?_⟩
  rcases Option.or_eq_some_iff.mp h with hspec | ⟨-, hall⟩
  · cases hg : isGroup ((new c).peopleIn members).1.card shape with
    | true =>
      rw [hg, if_pos rfl] at hspec
      rw [(groups_eq_some_iff hc).mp hspec]
    | false =>
      rw [hg, if_neg Bool.false_ne_true] at hspec
      have hlisted := (byPerson_eq_some_iff hc).mp hspec
      cases hrec : ((new c).sessions.get i).receive with
      | all => exact absurd (hrec ▸ hlisted) List.not_mem_nil
      | groups => exact absurd (hrec ▸ hlisted) List.not_mem_nil
      | selective listed rooms =>
        rw [hrec] at hlisted
        refine ⟨rfl, fun q hq ↦ ?_⟩
        rw [eq_of_not_isGroup hg hq hin]
        exact hlisted
  · rw [(all_eq_some_iff hc).mp hall]
    trivial

/-- The other way round: a session that covers an unlisted room, and does not take everything, is
the one each of its messages is routed to. -/
theorem routed_of_covers {members : List String} {shape : RoomShape} {person : PersonConfig}
    {i : Fin (new c).sessions.length} (hall : (new c).all ≠ some i)
    (hin : person.name ∈ ((new c).peopleIn members).1) (h : (new c).Covers i members shape) :
    ((if isGroup ((new c).peopleIn members).1.card shape then (new c).groups
      else (new c).byPerson person.name).or (new c).all) = some i := by
  obtain ⟨-, -, hcov⟩ := h
  cases hrec : ((new c).sessions.get i).receive with
  | all => exact absurd ((all_eq_some_iff hc).mpr hrec) hall
  | groups =>
    rw [hrec] at hcov
    rw [if_pos hcov, (groups_eq_some_iff hc).mpr hrec, Option.some_or]
  | selective listed rooms =>
    rw [hrec] at hcov
    have hperson : (new c).byPerson person.name = some i := by
      rw [byPerson_eq_some_iff hc, hrec]
      exact hcov.2 _ hin
    rw [hcov.1, if_neg Bool.false_ne_true, hperson, Option.some_or]

/-- A session can always answer what it was given. -/
theorem maySend_mayRead_of_inbound {sender room session : String} {members : List String}
    {shape : RoomShape} {person : PersonConfig} {kind : RoomKind} (hmem : sender ∈ members)
    (hreg : ∀ m ∈ members, (new c).isBot m = false → ((new c).personFor m).isSome)
    (h : (new c).inbound sender room members shape = .deliver session person kind) :
    (new c).maySend session room members shape = .ok () ∧
      (new c).mayRead session room members shape = .ok () := by
  obtain ⟨hbot, hp, -, i, rfl, howner⟩ := inbound_eq_deliver_iff.mp h
  have howns : (new c).byRoom room = some i ∨ (new c).Covers i members shape := by
    rcases howner with hroom | ⟨-, hrouted⟩
    · exact Or.inl hroom
    · exact Or.inr (covers_of_routed hc hmem hbot hp (peopleIn_allRegistered.mpr hreg) hrouted)
  exact ⟨maySend_of_owns hc howns, mayRead_of_owns hc howns⟩

/-- A session other than the one that takes everything reads only rooms it is given, except where
it covers everyone in a room that another session lists. -/
theorem readsOnlyOwn_iff {session room : String} {members : List String} {shape : RoomShape}
    (hs : ¬ (new c).TakesAll session) :
    (new c).ReadsOnlyOwn session room members shape ↔
      ¬ (new c).ListedElsewhere session room members shape := by
  constructor
  · rintro hown ⟨i, j, hname, hroom, hne, hcov⟩
    obtain rfl := (byName_eq_some_iff hc).mp hname
    obtain ⟨name, hin⟩ := Finset.nonempty_iff_ne_empty.mpr hcov.1
    obtain ⟨sender, hmem, hbot, person, hp, -⟩ := mem_peopleIn.mp hin
    obtain ⟨kind, hdel⟩ :=
      hown (mayRead_of_owns hc (Or.inr hcov)) sender hmem hbot person hp
    obtain ⟨-, -, -, k, hk, howner⟩ := inbound_eq_deliver_iff.mp hdel
    -- the message goes to the session that lists the room, under its own name
    have hjk : j = k := by
      rcases howner with h | ⟨h, -⟩
      · exact Option.some.inj (hroom.symm.trans h)
      · rw [hroom] at h
        cases h
    subst hjk
    exact hne (Option.some.inj (hname.symm.trans ((byName_eq_some_iff hc).mpr hk)))
  · intro hlisted hread sender hmem hbot person hp
    cases hname : (new c).byName session with
    | none =>
      simp only [mayRead, hname, reduceCtorEq] at hread
    | some i =>
      obtain rfl := (byName_eq_some_iff hc).mp hname
      have hall : (new c).all ≠ some i := fun h ↦ hs ⟨i, hname, h⟩
      simp only [mayRead, hname, if_neg hall, ownsRoom_eq_ok_iff] at hread
      refine ⟨_, inbound_eq_deliver_iff.mpr ⟨hbot, hp, rfl, i, rfl, ?_⟩⟩
      rcases hread with hroom | hcov
      · exact Or.inl hroom
      cases hroom : (new c).byRoom room with
      | some j =>
        by_cases hij : i = j
        · exact Or.inl (hij ▸ rfl)
        · exact absurd ⟨i, j, hname, hroom, hij, hcov⟩ hlisted
      | none =>
        have hin := mem_peopleIn_of_sender hmem hbot hp
        exact Or.inr ⟨rfl, routed_of_covers hc hall hin hcov⟩

end Valid

/-- The configuration of one session for the groups, one for each person, and one for a room. -/
def minds : Config where
  socket := "/run/silta/siltad.sock"
  stateDir := "/var/lib/silta"
  matrix := {
    homeserverUrl := "http://127.0.0.1"
    userId := "@silta:silta.test"
    password := "secret"
    deviceId := "silta" }
  people := [
    { name := "Bob", role := .owner, addresses := ["@bob:silta.test"] },
    { name := "Alice", role := .family, addresses := ["@alice:silta.test", "@alice2:silta.test"] }]
  sessions := [
    { name := "hub", receive := .groups, send := .own, user := "silta-hub" },
    { name := "bob", receive := .selective ["Bob"] [], send := .own, user := "silta-bob" },
    { name := "alice", receive := .selective ["Alice"] [], send := .own, user := "silta-alice" },
    { name := "family", receive := .selective [] ["!family:silta.test"], send := .own,
      user := "silta-family" }]
  inboxMaxAgeDays := 30
  attachmentMaxMb := 20

theorem minds_valid : minds.validate = .ok () := by
  decide +kernel

theorem maySend_mayRead_of_inbound_minds :
    (new minds).maySend "bob" "!dm:silta.test" ["@silta:silta.test", "@bob:silta.test"]
        ⟨true, false⟩ = .ok () ∧
      (new minds).mayRead "bob" "!dm:silta.test" ["@silta:silta.test", "@bob:silta.test"]
        ⟨true, false⟩ = .ok () := by
  have hdel : (new minds).inbound "@bob:silta.test" "!dm:silta.test"
      ["@silta:silta.test", "@bob:silta.test"] ⟨true, false⟩ =
        .deliver "bob" { name := "Bob", role := .owner, addresses := ["@bob:silta.test"] } .dm := by
    decide +kernel
  exact maySend_mayRead_of_inbound minds_valid (by decide) (by decide +kernel) hdel

theorem readsOnlyOwn_iff_minds :
    (new minds).ReadsOnlyOwn "bob" "!dm:silta.test" ["@silta:silta.test", "@bob:silta.test"]
        ⟨true, false⟩ ↔
      ¬ (new minds).ListedElsewhere "bob" "!dm:silta.test"
        ["@silta:silta.test", "@bob:silta.test"] ⟨true, false⟩ :=
  readsOnlyOwn_iff minds_valid (by decide +kernel)

/-- The hub may read the room that the family session lists, and is not given its messages. -/
theorem readsOnlyOwn_fails :
    ¬ ∀ (c : Config) (session room : String) (members : List String) (shape : RoomShape),
      c.validate = .ok () → ¬ (new c).TakesAll session →
        (new c).ReadsOnlyOwn session room members shape := by
  intro h
  have hread := h minds "hub" "!family:silta.test"
    ["@silta:silta.test", "@bob:silta.test", "@alice:silta.test"] ⟨false, true⟩ minds_valid
    (by decide +kernel) (by decide +kernel)
  obtain ⟨kind, hdel⟩ := hread "@bob:silta.test" (by decide) (by decide +kernel)
    { name := "Bob", role := .owner, addresses := ["@bob:silta.test"] } (by decide +kernel)
  have hfamily : (new minds).inbound "@bob:silta.test" "!family:silta.test"
      ["@silta:silta.test", "@bob:silta.test", "@alice:silta.test"] ⟨false, true⟩ =
        .deliver "family" { name := "Bob", role := .owner, addresses := ["@bob:silta.test"] }
          .group := by
    decide +kernel
  rw [hfamily] at hdel
  exact absurd (Inbound.deliver.inj hdel).1 (by decide)

end Routing

end Silta
