import Mathlib.Data.Option.Basic
import Silta.RoomAccess
import Silta.Validation

/-!
# Routing and the order of the registry

The decisions of a routing depend on who is registered and which session lists whom, and not on the
order in which the configuration says so, nor on which of a person's addresses is in a room.
-/

namespace Silta

/-! ## Configurations that say the same -/

/-- The same person, with the addresses in another order. -/
def PersonConfig.Reordered (p q : PersonConfig) : Prop :=
  p.name = q.name ∧ p.role = q.role ∧ p.addresses.Perm q.addresses

/-- The same rooms, with the lists in another order. -/
inductive Receive.Reordered : Receive → Receive → Prop
  | all : Reordered .all .all
  | groups : Reordered .groups .groups
  | selective {people people' rooms rooms' : List String} :
      people.Perm people' → rooms.Perm rooms' →
        Reordered (.selective people rooms) (.selective people' rooms')

/-- The same session, with its lists in another order. -/
structure SessionConfig.Reordered (s t : SessionConfig) : Prop where
  name : s.name = t.name
  receive : s.receive.Reordered t.receive
  send : s.send = t.send
  user : s.user = t.user

/-- The same configuration, with its people, its sessions and the entries of their lists in another
order. -/
structure Config.Reordered (c d : Config) : Prop where
  socket : c.socket = d.socket
  stateDir : c.stateDir = d.stateDir
  matrix : c.matrix = d.matrix
  people : Table.Reordered PersonConfig.Reordered c.people d.people
  sessions : Table.Reordered SessionConfig.Reordered c.sessions d.sessions
  inboxMaxAgeDays : c.inboxMaxAgeDays = d.inboxMaxAgeDays
  attachmentMaxMb : c.attachmentMaxMb = d.attachmentMaxMb

/-- The same members of a room: in another order, some of them more than once, with the bot, or
with another address of one person. -/
inductive Config.SameMembers (c : Config) : List String → List String → Prop
  | reorder {ms ms' : List String} : ms.Perm ms' → SameMembers c ms ms'
  | again {m : String} {ms : List String} : m ∈ ms → SameMembers c ms (m :: ms)
  | bot {ms : List String} : SameMembers c ms (c.matrix.userId :: ms)
  | address {p : PersonConfig} {a b : String} {ms ms' : List String} :
      p ∈ c.people → a ∈ p.addresses → b ∈ p.addresses →
        SameMembers c (ms ++ a :: ms') (ms ++ b :: ms')
  | trans {ms ms' ms'' : List String} :
      SameMembers c ms ms' → SameMembers c ms' ms'' → SameMembers c ms ms''

/-- One decision about a message, up to the order of the person's addresses. -/
inductive Inbound.Same : Inbound → Inbound → Prop
  | deliver {session : String} {p q : PersonConfig} {kind : RoomKind} :
      p.Reordered q → Same (.deliver session p kind) (.deliver session q kind)
  | drop {reason : DropReason} : Same (.drop reason) (.drop reason)

namespace Receive.Reordered

variable {r r' : Receive}

theorem people (h : r.Reordered r') : r.people.Perm r'.people := by
  cases h with
  | all => exact .nil
  | groups => exact .nil
  | selective hpeople _ => exact hpeople

theorem rooms (h : r.Reordered r') : r.rooms.Perm r'.rooms := by
  cases h with
  | all => exact .nil
  | groups => exact .nil
  | selective _ hrooms => exact hrooms

theorem allKey (h : r.Reordered r') : r.allKey = r'.allKey := by
  cases h <;> rfl

theorem groupsKey (h : r.Reordered r') : r.groupsKey = r'.groupsKey := by
  cases h <;> rfl

theorem eq_all_iff (h : r.Reordered r') : r = .all ↔ r' = .all := by
  cases h <;> simp

end Receive.Reordered

/-! ## Validation -/

theorem PersonConfig.Reordered.wellFormed {bot : String} {p q : PersonConfig}
    (h : p.Reordered q) (hp : p.WellFormed bot) : q.WellFormed bot := by
  obtain ⟨hname, -, haddresses⟩ := h
  exact ⟨hname ▸ hp.named, fun a ha ↦ hp.addresses a (haddresses.symm.subset ha)⟩

theorem SessionConfig.Reordered.wellFormed {known : List String} {s t : SessionConfig}
    (h : s.Reordered t) (hs : s.WellFormed known) : t.WellFormed known :=
  ⟨h.name ▸ hs.named, h.user ▸ hs.user,
    fun p hp ↦ hs.people p (h.receive.people.symm.subset hp),
    fun r hr ↦ hs.rooms r (h.receive.rooms.symm.subset hr)⟩

theorem Config.Set.reordered {c d : Config} (h : c.Reordered d) (hc : c.Set) : d.Set where
  socket := h.socket ▸ hc.socket
  stateDir := h.stateDir ▸ hc.stateDir
  homeserverUrl := h.matrix ▸ hc.homeserverUrl
  userId := h.matrix ▸ hc.userId
  password := h.matrix ▸ hc.password
  deviceId := h.matrix ▸ hc.deviceId
  inboxMaxAgeDays := h.inboxMaxAgeDays ▸ hc.inboxMaxAgeDays
  attachmentMaxMb := h.attachmentMaxMb ▸ hc.attachmentMaxMb

theorem Config.Unambiguous.reordered {c d : Config} (h : c.Reordered d) (hc : c.Unambiguous) :
    d.Unambiguous where
  names := (h.sessions.flatMap_perm fun _ _ hst ↦ .of_eq (by rw [hst.name])).nodup_iff.mp hc.names
  people := (h.sessions.flatMap_perm fun _ _ hst ↦ hst.receive.people).nodup_iff.mp hc.people
  rooms := (h.sessions.flatMap_perm fun _ _ hst ↦ hst.receive.rooms).nodup_iff.mp hc.rooms
  all := (h.sessions.flatMap_perm fun _ _ hst ↦ .of_eq hst.receive.allKey).nodup_iff.mp hc.all
  groups := (h.sessions.flatMap_perm fun _ _ hst ↦
    .of_eq hst.receive.groupsKey).nodup_iff.mp hc.groups

/-- Validation does not look at the order either. -/
theorem Config.Valid.reordered {c d : Config} (h : c.Reordered d) (hc : c.Valid) : d.Valid where
  set := hc.set.reordered h
  person q hq := by
    obtain ⟨p, hp, hpq⟩ := h.people.exists_left hq
    rw [← h.matrix]
    exact hpq.wellFormed (hc.person p hp)
  personNames :=
    (h.people.flatMap_perm fun _ _ hpq ↦ .of_eq (by rw [hpq.1])).nodup_iff.mp hc.personNames
  addresses := (h.people.flatMap_perm fun _ _ hpq ↦ hpq.2.2).nodup_iff.mp hc.addresses
  session t ht := by
    obtain ⟨s, hs, hst⟩ := h.sessions.exists_left ht
    have hnames : (c.people.map PersonConfig.name).Perm (d.people.map PersonConfig.name) := by
      rw [List.map_eq_flatMap, List.map_eq_flatMap]
      exact h.people.flatMap_perm fun _ _ hpq ↦ .of_eq (by rw [hpq.1])
    exact (SessionConfig.wellFormed_congr fun _ ↦ hnames.mem_iff).mp
      (hst.wellFormed (hc.session s hs))
  unambiguous := hc.unambiguous.reordered h

namespace Routing

/-! ## Values found in two tables -/

section Rel

variable {α β : Type} {R : α → α → Prop} {x x' y y' : Option α}

theorem rel_or (h : Option.Rel R x x') (h' : Option.Rel R y y') :
    Option.Rel R (x.or y) (x'.or y') := by
  cases h with
  | none => exact h'
  | some hr => exact .some hr

theorem map_eq_of_rel {f : α → β} (hf : ∀ a b, R a b → f a = f b) (h : Option.Rel R x x') :
    x.map f = x'.map f := by
  cases h with
  | none => rfl
  | some hr => exact congrArg some (hf _ _ hr)

end Rel

/-! ## Who is in a room -/

/-- The names of a room's members other than the bot, and `none` for a member who is not
registered. -/
def present (r : Routing) (members : List String) : Set (Option String) :=
  {name | ∃ m ∈ members, r.isBot m = false ∧ (r.personFor m).map PersonConfig.name = name}

theorem peopleIn_congr {r r' : Routing} {ms ms' : List String}
    (h : r.present ms = r'.present ms') : r.peopleIn ms = r'.peopleIn ms' := by
  have hpeople : ∀ (r : Routing) (ms : List String) (name : String),
      name ∈ (r.peopleIn ms).1 ↔ some name ∈ r.present ms := by
    intro r ms name
    rw [mem_peopleIn]
    simp only [present, Set.mem_ofPred_eq, Option.map_eq_some_iff]
  have hregistered : ∀ (r : Routing) (ms : List String),
      (r.peopleIn ms).2 = true ↔ none ∉ r.present ms := by
    intro r ms
    rw [peopleIn_allRegistered]
    simp only [present, Set.mem_ofPred_eq, Option.map_eq_none_iff, not_exists, not_and,
      Option.isSome_iff_ne_none, ne_eq]
  refine Prod.ext (Finset.ext fun name ↦ ?_) (Bool.eq_iff_iff.mpr ?_)
  · rw [hpeople, hpeople, h]
  · rw [hregistered, hregistered, h]

theorem personFor_eq_some_iff {c : Config} (hc : c.Valid) {a : String} {p : PersonConfig} :
    (new c).personFor a = some p ↔ p ∈ c.people ∧ a ∈ p.addresses :=
  Table.lookup_eq_some_iff hc.addresses

theorem present_sameMembers {c : Config} (hc : c.Valid) {ms ms' : List String}
    (h : c.SameMembers ms ms') : (new c).present ms = (new c).present ms' := by
  induction h with
  | reorder hperm =>
    ext name
    simp only [present, Set.mem_ofPred_eq, hperm.mem_iff]
  | again hm =>
    ext name
    simp only [present, Set.mem_ofPred_eq, List.mem_cons, exists_eq_or_imp]
    exact ⟨Or.inr, fun h ↦ h.elim (fun h ↦ ⟨_, hm, h⟩) id⟩
  | bot =>
    ext name
    have hbot : (new c).isBot c.matrix.userId = true := beq_self_eq_true _
    simp only [present, Set.mem_ofPred_eq, List.mem_cons, exists_eq_or_imp, hbot,
      Bool.true_eq_false, false_and, false_or]
  | @address p a b ms ms' hp ha hb =>
    -- neither address is the bot's own, and both are the person's
    have hown : ∀ a ∈ p.addresses, (new c).isBot a = false := fun a ha ↦
      beq_eq_false_iff_ne.mpr ((hc.person p hp).addresses a ha).2
    have hfor : ∀ a ∈ p.addresses, (new c).personFor a = some p := fun a ha ↦
      (personFor_eq_some_iff hc).mpr ⟨hp, ha⟩
    ext name
    simp only [present, Set.mem_ofPred_eq, List.mem_append, List.mem_cons, or_and_right, exists_or,
      exists_eq_left, hown a ha, hown b hb, hfor a ha, hfor b hb]
  | trans _ _ ih ih' => exact ih.trans ih'

section Reordered

variable {c d : Config} (hc : c.Valid) (h : c.Reordered d)
include hc h

omit hc in
theorem isBot_reordered (a : String) : (new c).isBot a = (new d).isBot a := by
  simp only [isBot, new, h.matrix]

theorem personFor_reordered (a : String) :
    Option.Rel PersonConfig.Reordered ((new c).personFor a) ((new d).personFor a) :=
  h.people.lookup (fun _ _ hpq ↦ hpq.2.2) hc.addresses a

theorem present_reordered (ms : List String) : (new c).present ms = (new d).present ms := by
  have hname : ∀ m, ((new c).personFor m).map PersonConfig.name =
      ((new d).personFor m).map PersonConfig.name :=
    fun m ↦ map_eq_of_rel (fun _ _ hpq ↦ hpq.1) (personFor_reordered hc h m)
  simp only [present, isBot_reordered h, hname]

theorem peopleIn_reordered {ms ms' : List String} (hms : c.SameMembers ms ms') :
    (new c).peopleIn ms = (new d).peopleIn ms' :=
  peopleIn_congr ((present_sameMembers hc hms).trans (present_reordered hc h ms'))

end Reordered

/-! ## Which session takes a room -/

/-- The session a room's messages go to. -/
def owner (c : Config) (room : String) (group : Bool) (person : String) : Option SessionConfig :=
  (Table.lookup (·.receive.rooms) c.sessions room).or
    ((if group then Table.lookup (·.receive.groupsKey) c.sessions ()
      else Table.lookup (·.receive.people) c.sessions person).or
      (Table.lookup (·.receive.allKey) c.sessions ()))

theorem inbound_eq (c : Config) (sender room : String) (ms : List String) (shape : RoomShape) :
    (new c).inbound sender room ms shape =
      if (new c).isBot sender then .drop .ownMessage
      else match (new c).personFor sender with
        | none => .drop .unknownSender
        | some person =>
          match owner c room (isGroup ((new c).peopleIn ms).1.card shape) person.name with
          | none => .drop .noSession
          | some s => .deliver s.name person
              (if isGroup ((new c).peopleIn ms).1.card shape then .group else .dm) := by
  unfold inbound
  cases (new c).personFor sender with
  | none => rfl
  | some person =>
    have howner : owner c room (isGroup ((new c).peopleIn ms).1.card shape) person.name =
        (((new c).byRoom room).or ((if isGroup ((new c).peopleIn ms).1.card shape then
          (new c).groups else (new c).byPerson person.name).or (new c).all)).map
            (new c).sessions.get := by
      rw [Option.map_or, Option.map_or, apply_ite (Option.map (new c).sessions.get)]
      rfl
    dsimp only
    rw [howner]
    cases (new c).byRoom room with
    | some i => rfl
    | none =>
      rw [Option.none_or]
      cases (if isGroup ((new c).peopleIn ms).1.card shape then
        (new c).groups else (new c).byPerson person.name).or (new c).all <;> rfl

section Decisions

variable {c d : Config} (hc : c.Valid) (h : c.Reordered d)
include hc h

theorem owner_reordered (room : String) (group : Bool) (person : String) :
    Option.Rel SessionConfig.Reordered (owner c room group person)
      (owner d room group person) := by
  have hu := hc.unambiguous
  have hrooms := h.sessions.lookup (fun _ _ hst ↦ hst.receive.rooms) hu.rooms room
  have hpeople := h.sessions.lookup (fun _ _ hst ↦ hst.receive.people) hu.people person
  have hall := h.sessions.lookup (fun _ _ hst ↦ .of_eq hst.receive.allKey) hu.all ()
  have hgroups := h.sessions.lookup (fun _ _ hst ↦ .of_eq hst.receive.groupsKey) hu.groups ()
  refine rel_or hrooms (rel_or ?_ hall)
  cases group
  · exact hpeople
  · exact hgroups

theorem inbound_reordered {ms ms' : List String} (hms : c.SameMembers ms ms')
    (sender room : String) (shape : RoomShape) :
    ((new c).inbound sender room ms shape).Same ((new d).inbound sender room ms' shape) := by
  rw [inbound_eq, inbound_eq, ← isBot_reordered h, ← peopleIn_reordered hc h hms]
  by_cases hown : (new c).isBot sender = true
  · rw [if_pos hown, if_pos hown]
    exact .drop
  rw [if_neg hown, if_neg hown]
  have hperson := personFor_reordered hc h sender
  generalize (new c).personFor sender = x, (new d).personFor sender = y at hperson
  cases hperson with
  | none => exact .drop
  | @some p q hpq =>
    have howner := owner_reordered hc h room (isGroup ((new c).peopleIn ms).1.card shape) p.name
    dsimp only
    rw [← hpq.1]
    generalize owner c room _ p.name = x, owner d room _ p.name = y at howner ⊢
    cases howner with
    | none => exact .drop
    | some hst =>
      dsimp only
      rw [hst.name]
      exact .deliver hpq

/-- A name belongs to a session in both or in neither. -/
theorem byName_reordered (session : String) :
    (new c).byName session = none ∧ (new d).byName session = none ∨
      ∃ i j, (new c).byName session = some i ∧ (new d).byName session = some j ∧
        ((new c).sessions.get i).Reordered ((new d).sessions.get j) := by
  have hs : Option.Rel SessionConfig.Reordered (((new c).byName session).map (new c).sessions.get)
      (((new d).byName session).map (new d).sessions.get) :=
    h.sessions.lookup (fun _ _ hst ↦ .of_eq (by rw [hst.name])) hc.unambiguous.names session
  cases hi : (new c).byName session with
  | none =>
    cases hj : (new d).byName session with
    | none => exact Or.inl ⟨rfl, rfl⟩
    | some j =>
      rw [hi, hj] at hs
      nomatch hs
  | some i =>
    cases hj : (new d).byName session with
    | none =>
      rw [hi, hj] at hs
      nomatch hs
    | some j =>
      rw [hi, hj] at hs
      cases hs with
      | some hst => exact Or.inr ⟨i, j, rfl, rfl, hst⟩

theorem ownsRoom_reordered {ms ms' : List String} (hms : c.SameMembers ms ms') (room : String)
    (shape : RoomShape) {i : Fin (new c).sessions.length} {j : Fin (new d).sessions.length}
    (hst : ((new c).sessions.get i).Reordered ((new d).sessions.get j)) :
    (new c).ownsRoom i room ms shape = (new d).ownsRoom j room ms' shape := by
  have hc' := Config.validate_eq_ok_iff.mpr hc
  have hd' := Config.validate_eq_ok_iff.mpr (hc.reordered h)
  have hroom : (new c).byRoom room = some i ↔ (new d).byRoom room = some j := by
    rw [byRoom_eq_some_iff hc', byRoom_eq_some_iff hd', hst.receive.rooms.mem_iff]
  have hrec := hst.receive
  unfold ownsRoom
  rw [← peopleIn_reordered hc h hms]
  generalize ((new c).sessions.get i).receive = rec, ((new d).sessions.get j).receive = rec'
    at hrec
  by_cases howns : (new c).byRoom room = some i
  · rw [if_pos howns, if_pos (hroom.mp howns)]
  rw [if_neg howns, if_neg (mt hroom.mpr howns)]
  cases hrec with
  | all => rfl
  | groups => rfl
  | selective hpeople _ => simp only [hpeople.mem_iff]

theorem maySend_reordered {ms ms' : List String} (hms : c.SameMembers ms ms')
    (session room : String) (shape : RoomShape) :
    (new c).maySend session room ms shape = (new d).maySend session room ms' shape := by
  unfold maySend
  rcases byName_reordered hc h session with ⟨hi, hj⟩ | ⟨i, j, hi, hj, hst⟩
  · rw [hi, hj]
  · rw [hi, hj]
    dsimp only
    rw [ownsRoom_reordered hc h hms room shape hst, hst.send]

theorem mayRead_reordered {ms ms' : List String} (hms : c.SameMembers ms ms')
    (session room : String) (shape : RoomShape) :
    (new c).mayRead session room ms shape = (new d).mayRead session room ms' shape := by
  unfold mayRead
  rcases byName_reordered hc h session with ⟨hi, hj⟩ | ⟨i, j, hi, hj, hst⟩
  · rw [hi, hj]
  · have hall : (new c).all = some i ↔ (new d).all = some j := by
      rw [all_eq_some_iff (Config.validate_eq_ok_iff.mpr hc),
        all_eq_some_iff (Config.validate_eq_ok_iff.mpr (hc.reordered h)), hst.receive.eq_all_iff]
    rw [hi, hj]
    dsimp only
    rw [ownsRoom_reordered hc h hms room shape hst]
    exact if_congr hall rfl rfl

end Decisions

/-- Routing depends on the registry and not on how it is written. -/
theorem decisions_reordered {c d : Config} {ms ms' : List String} (hc : c.validate = .ok ())
    (h : c.Reordered d) (hms : c.SameMembers ms ms') :
    d.validate = .ok () ∧
      ∀ (sender session room : String) (shape : RoomShape),
        ((new c).inbound sender room ms shape).Same ((new d).inbound sender room ms' shape) ∧
          (new c).maySend session room ms shape = (new d).maySend session room ms' shape ∧
          (new c).mayRead session room ms shape = (new d).mayRead session room ms' shape := by
  have hvalid := Config.validate_eq_ok_iff.mp hc
  exact ⟨Config.validate_eq_ok_iff.mpr (hvalid.reordered h), fun sender session room shape ↦
    ⟨inbound_reordered hvalid h hms sender room shape,
      maySend_reordered hvalid h hms session room shape,
      mayRead_reordered hvalid h hms session room shape⟩⟩

/-- The same configuration, written in another order. -/
def mindsReordered : Config where
  socket := minds.socket
  stateDir := minds.stateDir
  matrix := minds.matrix
  people := [
    { name := "Alice", role := .family, addresses := ["@alice2:silta.test", "@alice:silta.test"] },
    { name := "Bob", role := .owner, addresses := ["@bob:silta.test"] }]
  sessions := [
    { name := "alice", receive := .selective ["Alice"] [], send := .own, user := "silta-alice" },
    { name := "hub", receive := .groups, send := .own, user := "silta-hub" },
    { name := "bob", receive := .selective ["Bob"] [], send := .own, user := "silta-bob" },
    { name := "family", receive := .selective [] ["!family:silta.test"], send := .own,
      user := "silta-family" }]
  inboxMaxAgeDays := minds.inboxMaxAgeDays
  attachmentMaxMb := minds.attachmentMaxMb

theorem minds_reordered : minds.Reordered mindsReordered where
  socket := rfl
  stateDir := rfl
  matrix := rfl
  people := ⟨_, .swap _ _ _, .cons ⟨rfl, rfl, .swap _ _ _⟩ (.cons ⟨rfl, rfl, .refl _⟩ .nil)⟩
  sessions := by
    have hsame : ∀ s : SessionConfig, s.receive.Reordered s.receive → s.Reordered s :=
      fun s hr ↦ ⟨rfl, hr, rfl, rfl⟩
    refine ⟨mindsReordered.sessions, ?_, ?_⟩
    · decide +kernel
    · exact .cons (hsame _ (.selective (.refl _) (.refl _))) (.cons (hsame _ .groups)
        (.cons (hsame _ (.selective (.refl _) (.refl _)))
          (.cons (hsame _ (.selective (.refl _) (.refl _))) .nil)))
  inboxMaxAgeDays := rfl
  attachmentMaxMb := rfl

theorem decisions_reordered_minds :
    mindsReordered.validate = .ok () ∧
      ∀ (sender session room : String) (shape : RoomShape),
        ((new minds).inbound sender room ["@alice:silta.test"] shape).Same
            ((new mindsReordered).inbound sender room ["@alice2:silta.test"] shape) ∧
          (new minds).maySend session room ["@alice:silta.test"] shape =
            (new mindsReordered).maySend session room ["@alice2:silta.test"] shape ∧
          (new minds).mayRead session room ["@alice:silta.test"] shape =
            (new mindsReordered).mayRead session room ["@alice2:silta.test"] shape :=
  decisions_reordered minds_valid minds_reordered
    (@Config.SameMembers.address minds
      { name := "Alice", role := .family, addresses := ["@alice:silta.test", "@alice2:silta.test"] }
      "@alice:silta.test" "@alice2:silta.test" [] [] (by decide) (by decide) (by decide))

end Routing

end Silta
