import Mathlib.Data.Set.Finite.Basic
import Silta.RoutingOrder
import Silta.Wire

/-!
# Whom the welcome announces

The people announced to a session and the people whose messages reach it are two rules over the same
registry.
-/

namespace Silta

/-- A person as the welcome announces them. -/
def PersonConfig.announced (p : PersonConfig) : Person := ⟨p.name, p.role⟩

namespace Routing

/-- The people announced to a session in `welcome`. -/
def peopleFor (r : Routing) (session : String) : List Person :=
  let listed : Option (List String) := match (r.session session).map SessionConfig.receive with
    -- a session that lists rooms hears about everyone
    | some (.selective people []) => some people
    | _ => none
  (r.people.filter fun p ↦ listed.all fun l ↦ l.contains p.name).map PersonConfig.announced

/-- Some message of the person is delivered to the session: one of their addresses in some room that
has the bot and the address among its members. -/
def Hears (r : Routing) (session : String) (p : PersonConfig) : Prop :=
  ∃ sender room members shape kind, isRoomId room = true ∧ sender ∈ members ∧ r.bot ∈ members ∧
    r.inbound sender room members shape = .deliver session p kind

theorem session_eq_some_iff {c : Config} (hc : c.Valid) {name : String} {s : SessionConfig} :
    (new c).session name = some s ↔ s ∈ c.sessions ∧ s.name = name := by
  have hlookup : (new c).session name = some s ↔ s ∈ c.sessions ∧ name ∈ [s.name] :=
    Table.lookup_eq_some_iff hc.unambiguous.names
  rw [hlookup, List.mem_singleton, eq_comm]

/-- Only a session that lists people and no rooms is told of some people only. -/
theorem mem_peopleFor_iff {c : Config} (hc : c.Valid) {s : SessionConfig} (hs : s ∈ c.sessions)
    {x : Person} :
    x ∈ (new c).peopleFor s.name ↔
      ∃ p ∈ c.people, p.announced = x ∧
        ∀ people, s.receive = .selective people [] → p.name ∈ people := by
  have hsession : (new c).session s.name = some s := (session_eq_some_iff hc).mpr ⟨hs, rfl⟩
  have hpeople : (new c).people = c.people := rfl
  unfold peopleFor
  rw [hsession, Option.map_some, hpeople, List.mem_map]
  simp only [List.mem_filter, and_assoc]
  refine exists_congr fun p ↦ and_congr_right fun _ ↦ ?_
  rw [and_comm]
  refine and_congr_right fun _ ↦ ?_
  split
  · next people hlist =>
    have hreceive : s.receive = .selective people [] := Option.some.inj hlist
    simp [hreceive]
  · next hother =>
    refine iff_of_true rfl fun people hreceive ↦ absurd ?_ (hother people)
    exact congrArg some hreceive

/-- No session lists every room. -/
theorem exists_unlisted_room (c : Config) :
    ∃ room, isRoomId room = true ∧ ∀ s ∈ c.sessions, room ∉ s.receive.rooms := by
  -- there are room ids of every length
  let room : Nat → String := fun n ↦ String.ofList ('!' :: List.replicate n 'a')
  have hinj : Function.Injective room := by
    intro m n h
    have hlength := congrArg (fun s ↦ s.toList.length) h
    simpa [room] using hlength
  obtain ⟨_, ⟨n, rfl⟩, hnew⟩ := (Set.infinite_range_of_injective hinj).exists_notMem_finset
    (c.sessions.flatMap (·.receive.rooms)).toFinset
  refine ⟨room n, ?_, fun s hs hmem ↦ hnew ?_⟩
  · simp [isRoomId, room]
  · exact List.mem_toFinset.mpr (List.mem_flatMap.mpr ⟨s, hs, hmem⟩)

section Valid

variable {c : Config} (hc : c.validate = .ok ())
include hc

/-- A message that reaches a session listing people and no rooms is of a person it lists. -/
theorem listed_of_inbound {sender room session : String} {members people : List String}
    {shape : RoomShape} {p : PersonConfig} {kind : RoomKind} {s : SessionConfig}
    (hs : s ∈ c.sessions) (hname : s.name = session) (hreceive : s.receive = .selective people [])
    (h : (new c).inbound sender room members shape = .deliver session p kind) :
    p.name ∈ people := by
  obtain ⟨-, -, -, i, hi, howner⟩ := inbound_eq_deliver_iff.mp h
  -- names are unique, so the owner is the session itself
  have hget : (new c).sessions.get i = s := by
    have hvalid := Config.validate_eq_ok_iff.mp hc
    have h₁ := (session_eq_some_iff hvalid).mpr ⟨List.get_mem c.sessions i, hi⟩
    have h₂ := (session_eq_some_iff hvalid).mpr ⟨hs, hname⟩
    exact Option.some.inj (h₁.symm.trans h₂)
  have hr : ((new c).sessions.get i).receive = .selective people [] := by
    rw [hget, hreceive]
  rcases howner with hroom | ⟨-, hrule⟩
  -- it lists no room
  · have hmem := (byRoom_eq_some_iff hc).mp hroom
    rw [hr] at hmem
    exact absurd hmem List.not_mem_nil
  rw [Option.or_eq_some_iff] at hrule
  rcases hrule with hspecific | ⟨-, hall⟩
  · split at hspecific
    -- it is neither the session for groups nor the one for all
    · rw [groups_eq_some_iff hc, hr] at hspecific
      nomatch hspecific
    · rw [byPerson_eq_some_iff hc, hr] at hspecific
      exact hspecific
  · rw [all_eq_some_iff hc, hr] at hall
    nomatch hall

/-- The room of the person and the bot reaches the session that lists the person. -/
theorem hears_of_listed {people : List String} {p : PersonConfig} {s : SessionConfig}
    (hs : s ∈ c.sessions) (hreceive : s.receive = .selective people []) (hp : p ∈ c.people)
    (hlisted : p.name ∈ people) (haddress : p.addresses ≠ []) : (new c).Hears s.name p := by
  have hvalid := Config.validate_eq_ok_iff.mp hc
  obtain ⟨a, ha⟩ := List.exists_mem_of_ne_nil _ haddress
  obtain ⟨room, hid, hunlisted⟩ := exists_unlisted_room c
  obtain ⟨i, hget⟩ : ∃ i : Fin (new c).sessions.length, (new c).sessions.get i = s :=
    List.get_of_mem hs
  have hown : (new c).isBot a = false :=
    beq_eq_false_iff_ne.mpr ((hvalid.person p hp).addresses a ha).2
  have hfor : (new c).personFor a = some p := (personFor_eq_some_iff hvalid).mpr ⟨hp, ha⟩
  have hbot : (new c).isBot (new c).bot = true := beq_self_eq_true _
  -- one person beside the bot makes no group
  have hcard : ((new c).peopleIn [(new c).bot, a]).1 = {p.name} := by
    simp [peopleIn, hbot, hown, hfor]
  have hdm : isGroup ((new c).peopleIn [(new c).bot, a]).1.card ⟨true, false⟩ = false := by
    rw [hcard, Finset.card_singleton]
    rfl
  refine ⟨a, room, [(new c).bot, a], ⟨true, false⟩, .dm, hid, by simp, by simp, ?_⟩
  refine inbound_eq_deliver_iff.mpr ⟨hown, hfor, by rw [hdm]; rfl, i, by rw [hget], .inr ⟨?_, ?_⟩⟩
  · -- no session lists this room
    rw [Option.eq_none_iff_forall_ne_some]
    intro j hj
    exact hunlisted _ (List.get_mem c.sessions j) ((byRoom_eq_some_iff hc).mp hj)
  · have hperson : (new c).byPerson p.name = some i := by
      rw [byPerson_eq_some_iff hc, hget, hreceive]
      exact hlisted
    rw [hdm, if_neg Bool.false_ne_true, hperson, Option.some_or]

/-- Everyone a session hears from is announced to it.  A session that lists people and no rooms is
told of the people it lists, and hears from each of them who has an address. -/
theorem peopleFor_hears (session : String) :
    (∀ sender room members shape p kind,
        (new c).inbound sender room members shape = .deliver session p kind →
          p.announced ∈ (new c).peopleFor session) ∧
      ∀ s ∈ c.sessions, s.name = session → ∀ people, s.receive = .selective people [] →
        ∀ x ∈ (new c).peopleFor session, ∃ p ∈ c.people, p.announced = x ∧ p.name ∈ people ∧
          (p.addresses ≠ [] → (new c).Hears session p) := by
  have hvalid := Config.validate_eq_ok_iff.mp hc
  constructor
  · intro sender room members shape p kind hdel
    obtain ⟨-, hfor, -, i, hi, -⟩ := inbound_eq_deliver_iff.mp hdel
    have hp := ((personFor_eq_some_iff hvalid).mp hfor).1
    have hs : (new c).sessions.get i ∈ c.sessions := List.get_mem c.sessions i
    rw [← hi]
    refine (mem_peopleFor_iff hvalid hs).mpr ⟨p, hp, rfl, fun people hreceive ↦ ?_⟩
    exact listed_of_inbound hc hs hi hreceive hdel
  · rintro s hs rfl people hreceive x hx
    obtain ⟨p, hp, hannounced, hlisted⟩ := (mem_peopleFor_iff hvalid hs).mp hx
    have hmem := hlisted people hreceive
    exact ⟨p, hp, hannounced, hmem, hears_of_listed hc hs hreceive hp hmem⟩

end Valid

theorem peopleFor_hears_minds :
    (⟨"Bob", .owner⟩ : Person) ∈ (new minds).peopleFor "bob" ∧
      ∃ p ∈ minds.people, p.announced = ⟨"Bob", .owner⟩ ∧ p.name ∈ ["Bob"] ∧
        (p.addresses ≠ [] → (new minds).Hears "bob" p) := by
  have ⟨hannounced, hheard⟩ := peopleFor_hears minds_valid "bob"
  have hbob : (⟨"Bob", .owner⟩ : Person) ∈ (new minds).peopleFor "bob" := by
    apply hannounced "@bob:silta.test" "!dm:silta.test" ["@silta:silta.test", "@bob:silta.test"]
      ⟨true, false⟩ { name := "Bob", role := .owner, addresses := ["@bob:silta.test"] } .dm
    decide +kernel
  have hsession : minds.sessions.get ⟨1, by decide⟩ ∈ minds.sessions := List.get_mem ..
  exact ⟨hbob, hheard _ hsession rfl ["Bob"] rfl _ hbob⟩

end Routing

end Silta
