import Silta.Outgoing

/-!
# A session acts only where it may

Over the whole life of a connection: what a command does is what it says, in its own room, after the
routing has allowed it there; and it edits only what the bot has written.
-/

namespace Silta

namespace Outgoing

open ClientLines (Connection Incoming Serde parseClientLine LineError Host Fail)
open Deeds (Prog Guarded Required During Does Stable Triple)
open Text (ReplyConfig)
open Transfer (Received)

/-! ## What is posted -/

/-- What was posted, with the answer to it. -/
structure Post where
  roomId : String
  posted : Posted
  answer : Except String String

def Deed.post? : Deed → Option Post
  | .post roomId posted answer => some ⟨roomId, posted, answer⟩
  | _ => none

def posts (log : Log) : List Post := log.filterMap Deed.post?

theorem posts_append (log deeds : Log) : posts (log ++ deeds) = posts log ++ posts deeds :=
  List.filterMap_append ..

@[simp] theorem posts_stopTyping (roomId : String) : posts (stopTyping roomId) = [] := rfl

@[simp] theorem posts_afterSend (roomId : String) (more : Bool) :
    posts (afterSend roomId more) = [] := by
  cases more <;> rfl

/-! ## What a command may do -/

/-- A stretch of the log begins with a command, or with an acknowledgement, after which nothing is
done. -/
def Deed.begins : Deed → Bool
  | .command _ | .ack _ => true
  | _ => false

def roomOf : CmdKind → String
  | .reply cmd => cmd.roomId
  | .react cmd => cmd.roomId
  | .edit cmd => cmd.roomId
  | .sendFile cmd => cmd.roomId
  | .fetchMessages cmd => cmd.roomId
  | .fetchMessage cmd => cmd.roomId
  | .searchMessages cmd => cmd.roomId
  | .typing cmd => cmd.roomId

/-- By what was found of the room since the command began, the rule allows the session. -/
def Cleared (may : Rule) (session roomId : String) (stretch : Log) : Prop :=
  ∃ members direct named, .getRoom roomId (some true) ∈ stretch ∧
    .members roomId (.ok members) ∈ stretch ∧ .isDirect roomId direct ∈ stretch ∧
    .named roomId named ∈ stretch ∧ may session roomId members (shapeOf direct named) = .ok ()

/-- The event was found to be a message of the bot, and no edit. -/
def Mine (d : Daemon) (roomId target : String) (stretch : Log) : Prop :=
  ∃ found m, .loadOrFetchEvent roomId target (.ok found) ∈ stretch ∧
    found.sender.any d.routing.isBot = true ∧ found.event = .roomMessage m ∧
    m.content.relatesTo ≠ some .replacement

/-- The relation is the one that is asked for with a quote and a thread. -/
def Relates (d : Daemon) (replyTo thread : Option String) (config : Option ReplyConfig) : Prop :=
  ∃ quoted root : Option String, replyTo.map d.crates.parseEventId = quoted.map some ∧
    thread.map d.crates.parseEventId = root.map some ∧ config = Text.replyConfig quoted root

def Post.threaded (p : Post) : Bool :=
  match p.posted with
  | .message message => message.relation.any Prod.snd
  | _ => false

/-- The relation of the message that comes after these: of the first one the relation that is asked
for, and each later one follows the one before it if the first has come to be in a thread. -/
def due (first : Option ReplyConfig) (ps : List Post) : Option ReplyConfig :=
  match ps.head?, ps.getLast? with
  | some p, some q =>
    if p.threaded then q.answer.toOption.map fun id ↦ ⟨id, .maybeThreaded, .no⟩ else none
  | _, _ => first

/-- The message is the next chunk of the reply, after those that were posted. -/
structure Continues (d : Daemon) (cmd : Reply) (ps : List Post) (message : Message) : Prop where
  chunk : ∃ chunks, Text.chunkText cmd.text.toList Text.chunkBytes = some chunks ∧
    chunks[ps.length]? = some message.text
  relation : ∃ first, Relates d cmd.replyTo cmd.thread first ∧
    message.relation.map Prod.fst = due first ps
  answered : ∀ p ∈ ps, ∃ id, p.answer = .ok id

/-- The upload is the file that was received, with what the command says of it. -/
structure Carries (d : Daemon) (cmd : SendFile) (received : Received) (upload : Upload) : Prop where
  name : upload.name =
    Transfer.safeName d.crates.transfers received.header.name received.header.mime
  mime : upload.mime = (d.crates.parseMime received.header.mime).getD
    ⟨"application/octet-stream", "application"⟩
  info : upload.info = infoKind upload.mime
  caption : upload.caption = cmd.caption.filter fun c ↦ !(Text.trim c.toList).isEmpty
  relation : Relates d cmd.replyTo cmd.thread upload.reply

/-- What a command may post; `files` are those that came in, by transfer. -/
def MayPost (d : Daemon) (files : String → Received → Prop) (roomId : String) (stretch : Log) :
    CmdKind → Posted → Prop
  | .reply cmd, .message message => Continues d cmd (posts stretch) message
  | .react cmd, .reaction target emoji =>
      d.crates.parseEventId cmd.eventId = some target ∧ emoji = cmd.emoji
  | .edit cmd, .replacement target text =>
      d.crates.parseEventId cmd.eventId = some target ∧ text = cmd.text ∧
        Mine d roomId target stretch
  | .sendFile cmd, .attachment upload => ∃ received, files cmd.transfer received ∧
      .read received.path (.ok upload.data) ∈ stretch ∧ Carries d cmd received upload
  | _, _ => False

/-- The room is that of the command, and the rule allows the session there. -/
def Inside (d : Daemon) (may : Rule) (session : String) (kind : CmdKind) (roomId : String)
    (stretch : Log) : Prop :=
  d.crates.parseRoomId (roomOf kind) = some roomId ∧ Cleared may session roomId stretch

/-- What a command may do, by what came of it so far. -/
def Allowed (d : Daemon) (files : String → Received → Prop) (session : String) :
    Deed → Log → Deed → Prop
  | .command kind, stretch, deed =>
    match deed with
    | .getRoom .. | .members .. | .isDirect .. | .named .. | .maxUploadSize .. | .read .. => True
    | .loadOrFetchEvent roomId _ _ =>
      Inside d d.routing.maySend session kind roomId stretch ∨
        Inside d d.routing.mayRead session kind roomId stretch
    | .messages roomId => Inside d d.routing.mayRead session kind roomId stretch
    | .makeReplyEvent roomId _ _ | .typingNotice roomId _ | .typingStart roomId
    | .typingStop roomId => Inside d d.routing.maySend session kind roomId stretch
    | .post roomId posted _ =>
      Inside d d.routing.maySend session kind roomId stretch ∧
        MayPost d files roomId stretch kind posted
    | .command _ | .ack _ => False
  | _, _, _ => False

/-- Everything in the log was allowed when it was done. -/
def Lawful (d : Daemon) (files : String → Received → Prop) (session : String) (log : Log) : Prop :=
  Guarded (Required Deed.begins (Allowed d files session)) log

/-- Within a command, from a state of its stretch to another. -/
abbrev Acts {α : Type} (d : Daemon) (files : String → Received → Prop) (session : String)
    (kind : CmdKind) (F : Log → Prop) (x : Act α) (G : α → Log → Prop) : Prop :=
  Does Deed.begins (Allowed d files session) (.command kind) F x G

/-! ## What stays known -/

/-- What goes on to hold while nothing is posted. -/
abbrev Quiet (F : Log → Prop) : Prop := Deeds.StableUnder (fun deed ↦ deed.post? = none) F

theorem quiet_true : Quiet fun _ ↦ True := fun _ _ _ _ ↦ trivial

theorem quiet_posts (ps : List Post) : Quiet fun stretch ↦ posts stretch = ps := by
  intro stretch deed hdeed h
  rw [posts_append, h]
  simp [posts, hdeed]

theorem stable_cleared {may : Rule} {session roomId : String} :
    Stable (Cleared may session roomId) := by
  rintro stretch deed ⟨members, direct, named, hroom, hmembers, hdirect, hnamed, hok⟩
  exact ⟨members, direct, named, List.mem_append_left _ hroom, List.mem_append_left _ hmembers,
    List.mem_append_left _ hdirect, List.mem_append_left _ hnamed, hok⟩

theorem stable_inside {d : Daemon} {may : Rule} {session : String} {kind : CmdKind}
    {roomId : String} : Stable (Inside d may session kind roomId) :=
  (Deeds.stable_const _).and stable_cleared

/-! ## Rooms -/

section Rooms

variable {env : Env} {d : Daemon} {files : String → Received → Prop} {session : String}
  {kind : CmdKind}

theorem joinedRoom_acts (roomId : String) {F : Log → Prop} (hF : Quiet F) :
    Acts d files session kind F (joinedRoom env d roomId) fun room stretch ↦
      F stretch ∧ d.crates.parseRoomId roomId = some room ∧
        .getRoom room (some true) ∈ stretch := by
  unfold joinedRoom
  split
  · exact Does.fail
  · next room hparse =>
    refine Does.bind (Does.askedUnder hF (fun _ ↦ rfl) (fun _ ↦ rfl) fun _ _ _ ↦ trivial) ?_
    intro joined
    rcases joined with _ | _ | _
    · exact Does.fail
    · exact Does.fail
    · exact Does.pure fun stretch h ↦ ⟨h.1, hparse, h.2⟩

theorem memberIds_acts (roomId : String) {F : Log → Prop} (hF : Quiet F) :
    Acts d files session kind F (memberIds env roomId) fun members stretch ↦
      F stretch ∧ .members roomId (.ok members) ∈ stretch := by
  refine Does.bind (Does.askedUnder hF (fun _ ↦ rfl) (fun _ ↦ rfl) fun _ _ _ ↦ trivial) ?_
  intro answer
  cases answer with
  | error e => exact Does.fail
  | ok members => exact Does.pure fun stretch h ↦ h

theorem roomShape_acts (roomId : String) {F : Log → Prop} (hF : Quiet F) :
    Acts d files session kind F (roomShape env roomId) fun shape stretch ↦
      F stretch ∧ ∃ direct named, .isDirect roomId direct ∈ stretch ∧
        .named roomId named ∈ stretch ∧ shape = shapeOf direct named := by
  refine Does.bind (Does.askedUnder hF (fun _ ↦ rfl) (fun _ ↦ rfl) fun _ _ _ ↦ trivial)
    fun direct ↦ ?_
  refine Does.bind (Does.askedUnder (hF.and ((Deeds.stable_mem _).under _)) (fun _ ↦ rfl)
    (fun _ ↦ rfl) fun _ _ _ ↦ trivial) fun named ↦ ?_
  exact Does.pure fun stretch h ↦ ⟨h.1.1, direct, named, h.1.2, h.2, rfl⟩

/-- Whoever gets a room has it cleared. -/
theorem allowedRoom_acts (may : Rule) (verb roomId : String) {F : Log → Prop} (hF : Quiet F) :
    Acts d files session kind F (allowedRoom env d session may verb roomId)
      fun room stretch ↦ F stretch ∧ d.crates.parseRoomId roomId = some room ∧
        Cleared may session room stretch := by
  refine Does.bind (joinedRoom_acts roomId hF) fun room ↦ ?_
  have hjoined : Quiet fun stretch ↦ F stretch ∧ d.crates.parseRoomId roomId = some room ∧
      Deed.getRoom room (some true) ∈ stretch :=
    hF.and (((Deeds.stable_const _).and (Deeds.stable_mem _)).under _)
  refine Does.bind (memberIds_acts room hjoined) fun members ↦ ?_
  refine Does.bind (roomShape_acts room (hjoined.and ((Deeds.stable_mem _).under _)))
    fun shape ↦ ?_
  cases hmay : may session room members shape with
  | error e => exact Does.fail
  | ok u =>
    refine Does.pure fun stretch h ↦ ?_
    obtain ⟨⟨⟨hfacts, hparse, hroom⟩, hmembers⟩, direct, named, hdirect, hnamed, rfl⟩ := h
    exact ⟨hfacts, hparse, members, direct, named, hroom, hmembers, hdirect, hnamed, hmay⟩

theorem writableRoom_acts {roomId : String} (hroom : roomOf kind = roomId) {F : Log → Prop}
    (hF : Quiet F) :
    Acts d files session kind F (writableRoom env d session roomId) fun room stretch ↦
      F stretch ∧ Inside d d.routing.maySend session kind room stretch := by
  unfold Inside
  rw [hroom]
  exact allowedRoom_acts _ _ _ hF

theorem readableRoom_acts {roomId : String} (hroom : roomOf kind = roomId) {F : Log → Prop}
    (hF : Quiet F) :
    Acts d files session kind F (readableRoom env d session roomId) fun room stretch ↦
      F stretch ∧ Inside d d.routing.mayRead session kind room stretch := by
  unfold Inside
  rw [hroom]
  exact allowedRoom_acts _ _ _ hF

end Rooms

/-! ## Posting -/

section Posting

variable {env : Env} {d : Daemon} {files : String → Received → Prop} {session : String}
  {kind : CmdKind} {roomId : String}

/-- The indicator is handled in a room where the session may post. -/
theorem allowed_typing {stretch : Log}
    (h : Inside d d.routing.maySend session kind roomId stretch) :
    (∀ deed ∈ stopTyping roomId, Allowed d files session (.command kind) stretch deed) ∧
      ∀ more, ∀ deed ∈ afterSend roomId more,
        Allowed d files session (.command kind) stretch deed := by
  have hstop : ∀ deed ∈ stopTyping roomId,
      Allowed d files session (.command kind) stretch deed := by
    intro deed hdeed
    rcases List.mem_pair.mp hdeed with rfl | rfl <;> exact h
  refine ⟨hstop, fun more deed hdeed ↦ ?_⟩
  cases more with
  | false => exact hstop deed hdeed
  | true =>
    simp only [afterSend, if_true, List.mem_cons, List.not_mem_nil, or_false] at hdeed
    rcases hdeed with rfl | rfl | rfl <;> exact h

theorem begins_typing :
    (∀ deed ∈ stopTyping roomId, deed.begins = false) ∧
      ∀ more, ∀ deed ∈ afterSend roomId more, deed.begins = false := by
  refine ⟨by simp [stopTyping, Deed.begins], fun more ↦ ?_⟩
  cases more <;> simp [afterSend, stopTyping, Deed.begins]

theorem sent_acts {posted : Posted} {more : Bool} {failed : String → String} {F : Log → Prop}
    (hF : Stable F)
    (hin : ∀ stretch, F stretch → Inside d d.routing.maySend session kind roomId stretch ∧
      MayPost d files roomId stretch kind posted) :
    Acts d files session kind F (sent env roomId posted more failed) fun _ ↦ F := by
  refine Does.bind (Does.asked hF (fun _ ↦ rfl) fun _ ↦ hin) fun answer ↦ ?_
  cases answer with
  | error e => exact Does.fail
  | ok id =>
    refine Does.bind (G := fun _ ↦ F) ?_ fun _ ↦ Does.pure fun _ h ↦ h
    refine (Does.sayAll hF (fun deed hdeed ↦ begins_typing.2 more deed hdeed) ?_).mono
      (fun _ h ↦ h.1) fun _ _ h ↦ h
    exact fun deed hdeed stretch h ↦ (allowed_typing (hin stretch h).1).2 more deed hdeed

theorem parseEventId_eq_ok {s id : String}
    (h : Text.parseEventId (client env d session) s = .ok id) :
    d.crates.parseEventId s = some id := by
  unfold Text.parseEventId at h
  split at h
  · next hparse => exact hparse.trans (congrArg some (Except.ok.inj h))
  · cases h

theorem relates_of_parse {env : Env} {replyTo thread quoted root : Option String}
    (hquoted : Text.parseOptionalEventId (client env d session) replyTo = .ok quoted)
    (hroot : Text.parseOptionalEventId (client env d session) thread = .ok root) :
    Relates d replyTo thread (Text.replyConfig quoted root) := by
  have hparsed {text id : Option String}
      (h : Text.parseOptionalEventId (client env d session) text = .ok id) :
      text.map d.crates.parseEventId = id.map some := by
    cases text with
    | none =>
      obtain rfl := Except.ok.inj h
      rfl
    | some s =>
      obtain ⟨parsed, hparse, rfl⟩ : ∃ parsed, Text.parseEventId (client env d session) s =
          .ok parsed ∧ some parsed = id := by
        cases hs : Text.parseEventId (client env d session) s with
        | error e =>
          rw [Text.parseOptionalEventId, hs] at h
          cases h
        | ok parsed =>
          rw [Text.parseOptionalEventId, hs] at h
          exact ⟨parsed, rfl, Except.ok.inj h⟩
      exact congrArg some (parseEventId_eq_ok hparse)
  exact ⟨quoted, root, hparsed hquoted, hparsed hroot, rfl⟩

theorem doReact_acts (react : React) :
    Acts d files session (.react react) (fun _ ↦ True) (doReact env d session react)
      fun _ _ ↦ True := by
  unfold doReact
  split
  · exact Does.fail
  refine Does.lift_bind fun target htarget ↦ ?_
  refine Does.bind (writableRoom_acts rfl quiet_true) fun room ↦ ?_
  refine (sent_acts stable_inside fun stretch h ↦ ⟨h, ?_⟩).mono (fun _ h ↦ h.2)
    fun _ _ _ ↦ trivial
  exact ⟨parseEventId_eq_ok htarget, rfl⟩

theorem editable_eq_ok {target : String} {found : Found} (h : editable d target found = .ok ()) :
    found.sender.any d.routing.isBot = true ∧ ∃ m, found.event = .roomMessage m ∧
      m.content.relatesTo ≠ some .replacement := by
  unfold editable at h
  split at h
  · cases h
  · next hbot =>
    refine ⟨by simpa using hbot, ?_⟩
    split at h
    · next m hm =>
      split at h
      · cases h
      · next horiginal => exact ⟨m, hm, horiginal⟩
    · cases h
    · cases h

theorem doEdit_acts (edit : Edit) :
    Acts d files session (.edit edit) (fun _ ↦ True) (doEdit env d session edit)
      fun _ _ ↦ True := by
  unfold doEdit
  split
  · exact Does.fail
  split
  · exact Does.fail
  refine Does.lift_bind fun target htarget ↦ ?_
  refine Does.bind (writableRoom_acts rfl quiet_true) fun room ↦ ?_
  have hinside : Stable (Inside d d.routing.maySend session (.edit edit) room) := stable_inside
  refine Does.bind (Does.asked ((Deeds.stable_const True).and hinside) (fun _ ↦ rfl)
    fun _ _ h ↦ .inl h.2) fun answer ↦ ?_
  cases answer with
  | error e => exact Does.fail
  | ok found =>
    refine Does.lift_bind fun u hfound ↦ ?_
    obtain ⟨hbot, m, hm, horiginal⟩ := editable_eq_ok hfound
    refine (sent_acts (hinside.and (Deeds.stable_mem _)) fun stretch h ↦ ⟨h.1, ?_⟩).mono
      (fun _ h ↦ ⟨h.1.2, h.2⟩) fun _ _ _ ↦ trivial
    exact ⟨parseEventId_eq_ok htarget, rfl, found, m, h.2, hbot, hm, horiginal⟩

theorem withinLimit_acts {name : String} {size : Nat} {F : Log → Prop} (hF : Stable F) :
    Acts d files session kind F (withinLimit env d name size) fun _ ↦ F := by
  refine Does.bind (Does.asked hF (fun _ ↦ rfl) fun _ _ _ ↦ trivial) fun limit ↦ ?_
  cases limit with
  | error e => exact Does.pure fun _ h ↦ h.1
  | ok max =>
    dsimp only
    split
    · exact Does.fail
    · exact Does.pure fun _ h ↦ h.1

theorem doSendFile_acts (cmd : SendFile) {received : Received}
    (hfile : files cmd.transfer received) :
    Acts d files session (.sendFile cmd) (fun _ ↦ True) (doSendFile env d session cmd received)
      fun _ _ ↦ True := by
  unfold doSendFile
  refine Does.lift_bind fun quoted hquoted ↦ Does.lift_bind fun root hroot ↦ ?_
  refine Does.bind (writableRoom_acts rfl quiet_true) fun room ↦ ?_
  have hinside : Stable (Inside d d.routing.maySend session (.sendFile cmd) room) := stable_inside
  refine Does.bind ((withinLimit_acts hinside).mono (fun _ h ↦ h.2) fun _ _ h ↦ h) fun _ ↦ ?_
  refine Does.bind (Does.asked hinside (fun _ ↦ rfl) fun _ _ _ ↦ trivial) fun answer ↦ ?_
  cases answer with
  | error e => exact Does.fail
  | ok data =>
    refine (sent_acts (hinside.and (Deeds.stable_mem _)) fun stretch h ↦ ⟨h.1, ?_⟩).mono
      (fun _ h ↦ h) fun _ _ _ ↦ trivial
    exact ⟨received, hfile, h.2, {
      name := by dsimp only
      mime := by dsimp only
      info := by dsimp only
      caption := by dsimp only
      relation := relates_of_parse hquoted hroot }⟩

/-! ### A reply -/

/-- What the loop over the chunks keeps: how far it is, by what it has posted. -/
structure Underway (d : Daemon) (session : String) (reply : Reply) (roomId : String)
    (all chunks : List (List Char)) (i : Nat) (last : Option String) (inThread : Bool)
    (stretch : Log) : Prop where
  inside : Inside d d.routing.maySend session (.reply reply) roomId stretch
  rest : all.drop i = chunks
  count : (posts stretch).length = i
  answered : ∀ p ∈ posts stretch, ∃ id, p.answer = .ok id
  last : ∀ p, (posts stretch).getLast? = some p → p.answer.toOption = last
  thread : ∀ p, (posts stretch).head? = some p → p.threaded = inThread

abbrev Replying (d : Daemon) (files : String → Received → Prop) (session : String) (reply : Reply)
    (F : Log → Prop) (log : Log) : Prop :=
  During Deed.begins (Allowed d files session) (.command (.reply reply)) F log

section Loop

variable {reply : Reply} {all chunks : List (List Char)} {i : Nat} {last : Option String}
  {inThread : Bool}

theorem Underway.quiet :
    Quiet (Underway d session reply roomId all chunks i last inThread) := by
  intro stretch deed hdeed h
  have hposts : posts (stretch ++ [deed]) = posts stretch := quiet_posts _ stretch deed hdeed rfl
  exact {
    inside := stable_inside stretch deed h.inside
    rest := h.rest
    count := hposts ▸ h.count
    answered := hposts ▸ h.answered
    last := hposts ▸ h.last
    thread := hposts ▸ h.thread }

theorem Underway.due {first config : Option ReplyConfig} {stretch : Log}
    (h : Underway d session reply roomId all chunks i last inThread stretch)
    (hconfig : Text.chunkConfig first i last inThread = some config) :
    config = due first (posts stretch) := by
  obtain ⟨-, -, hcount, -, hlast, hthread⟩ := h
  unfold Text.chunkConfig at hconfig
  cases hposts : posts stretch with
  | nil =>
    have hzero : i = 0 := by rw [← hcount, hposts]; rfl
    rw [if_pos hzero] at hconfig
    exact (Option.some.inj hconfig).symm
  | cons p ps =>
    have hq := List.getLast?_eq_some_getLast (List.cons_ne_nil p ps)
    rw [hposts] at hcount hlast hthread
    rw [if_neg (by rw [← hcount]; exact Nat.succ_ne_zero _)] at hconfig
    show config = match (p :: ps).head?, (p :: ps).getLast? with
      | some p, some q =>
        if p.threaded then q.answer.toOption.map fun id ↦ ⟨id, .maybeThreaded, .no⟩ else none
      | _, _ => first
    rw [hq]
    show config = if p.threaded then _ else none
    rw [hthread p rfl, hlast _ hq]
    cases inThread with
    | false => exact (Option.some.inj hconfig).symm
    | true =>
      obtain ⟨id, rfl, rfl⟩ := Option.map_eq_some_iff.mp hconfig
      rfl

/-- One more message is posted: the next chunk, related as it is due. -/
theorem Underway.concat {chunk : List Char} {message : Message} {id : String} {stretch : Log}
    (h : Underway d session reply roomId all (chunk :: chunks) i last inThread stretch) :
    Underway d session reply roomId all chunks (i + 1) (some id)
      (if i = 0 then message.relation.any Prod.snd else inThread)
      (stretch ++ [.post roomId (.message message) (.ok id)]) := by
  have hposts : posts (stretch ++ [.post roomId (.message message) (.ok id)]) =
      posts stretch ++ [⟨roomId, .message message, .ok id⟩] := posts_append _ _
  refine {
    inside := stable_inside stretch _ h.inside
    rest := ?_
    count := by rw [hposts, List.length_append, h.count]; rfl
    answered := ?_
    last := ?_
    thread := ?_ }
  · rw [← List.tail_drop, h.rest]
    rfl
  · rw [hposts, List.forall_mem_append]
    refine ⟨h.answered, fun p hp ↦ ⟨id, ?_⟩⟩
    rw [List.mem_singleton.mp hp]
  · intro p hp
    rw [hposts, List.getLast?_concat] at hp
    rw [← Option.some.inj hp]
    rfl
  · intro p hp
    rw [hposts] at hp
    by_cases hi : i = 0
    · have hnil : posts stretch = [] := List.length_eq_zero_iff.mp (h.count.trans hi)
      rw [hnil] at hp
      rw [if_pos hi, ← Option.some.inj hp]
      rfl
    · obtain ⟨q, ps, hcons⟩ := List.exists_cons_of_length_pos
        (show 0 < (posts stretch).length by rw [h.count]; omega)
      rw [hcons, List.cons_append] at hp
      rw [if_neg hi]
      exact h.thread p (by rw [hcons]; exact hp)

theorem withRelation_replying (env : Env) (content : Message) (config : Option ReplyConfig)
    {F : Log → Prop} (hF : Quiet F) {log : Log}
    (hinside : ∀ stretch, F stretch →
      Inside d d.routing.maySend session (.reply reply) roomId stretch)
    (h : Replying d files session reply F log) :
    Replying d files session reply F
        (Text.withRelation (client env d session) roomId content config log).2 ∧
      ∀ related, (Text.withRelation (client env d session) roomId content config log).1 =
        .ok related → related.text = content.text ∧
          (content.relation = none → related.relation.map Prod.fst = config) := by
  unfold Text.withRelation
  cases config with
  | none =>
    refine ⟨h, fun related hrelated ↦ ?_⟩
    rw [← Except.ok.inj hrelated]
    exact ⟨rfl, fun hnone ↦ by rw [hnone]; rfl⟩
  | some config =>
    have hasked : Replying d files session reply F
        (log ++ [.makeReplyEvent roomId config (env.makeReplyEvent log roomId config)]) :=
      h.concat rfl hinside fun _ hin ↦ hF _ _ rfl hin
    simp only [client_makeReplyEvent]
    cases hanswer : env.makeReplyEvent log roomId config with
    | ok inThread =>
      rw [hanswer] at hasked
      refine ⟨hasked, fun related hrelated ↦ ?_⟩
      rw [← Except.ok.inj hrelated]
      exact ⟨rfl, fun _ ↦ rfl⟩
    | error e =>
      rw [hanswer] at hasked
      cases e with
      | fetch e => exact ⟨hasked, nofun⟩
      | other e => exact ⟨hasked, nofun⟩

theorem sendChunks_replying {first : Option ReplyConfig} {total : Nat}
    (hall : Text.chunkText reply.text.toList Text.chunkBytes = some all)
    (hfirst : Relates d reply.replyTo reply.thread first) {log log' : Log}
    {result : Except Fail (Option String)}
    (h : Replying d files session reply
      (Underway d session reply roomId all chunks i last inThread) log)
    (hrun : Text.sendChunks (client env d session) roomId first total chunks i last inThread log =
      some (result, log')) :
    Replying d files session reply
      (Inside d d.routing.maySend session (.reply reply) roomId) log' := by
  induction chunks generalizing i last inThread log with
  | nil =>
    obtain ⟨-, rfl⟩ := Prod.mk.inj (Option.some.inj hrun)
    exact h.mono fun _ hin ↦ hin.inside
  | cons chunk chunks ih =>
    unfold Text.sendChunks at hrun
    split at hrun
    · cases hrun
    · next config hconfig =>
      obtain ⟨hasked, hrelated⟩ := withRelation_replying env ⟨chunk, none⟩ config Underway.quiet
        (fun _ hin ↦ hin.inside) h
      rw [client_textMarkdown] at hrun
      rcases hwith : Text.withRelation (client env d session) roomId ⟨chunk, none⟩ config log with
        ⟨_ | content, log₁⟩
      · rw [hwith] at hrun hasked
        obtain ⟨-, rfl⟩ := Prod.mk.inj (Option.some.inj hrun)
        exact hasked.mono fun _ hin ↦ hin.inside
      · rw [hwith] at hrun hasked hrelated
        obtain ⟨htext, hrelation⟩ := hrelated content rfl
        -- the message is posted as the chunk that comes next
        have hmay (answer : Except String String) (stretch : Log)
            (hin : Underway d session reply roomId all (chunk :: chunks) i last inThread stretch) :
            Allowed d files session (.command (.reply reply)) stretch
              (.post roomId (.message content) answer) := by
          refine ⟨hin.inside, ⟨all, hall, ?_⟩, ⟨first, hfirst, ?_⟩, hin.answered⟩
          · rw [hin.count, htext, ← List.head?_drop, hin.rest]
            rfl
          · exact (hrelation rfl).trans (hin.due hconfig)
        simp only [client_send] at hrun
        cases hanswer : env.post log₁ roomId (.message content) with
        | error e =>
          rw [hanswer] at hrun
          obtain ⟨-, rfl⟩ := Prod.mk.inj (Option.some.inj hrun)
          have hposted : Replying d files session reply
              (Inside d d.routing.maySend session (.reply reply) roomId)
              (log₁ ++ [.post roomId (.message content) (.error e)]) :=
            hasked.concat rfl (hmay _) fun _ hin ↦ stable_inside _ _ hin.inside
          exact hposted.concatAll stable_inside begins_typing.1
            fun deed hdeed stretch hin ↦ (allowed_typing hin).1 deed hdeed
        | ok id =>
          rw [hanswer] at hrun
          exact ih (hasked.concat rfl (hmay _) fun _ hin ↦ hin.concat) hrun

end Loop

theorem doReply_acts (reply : Reply) :
    Acts d files session (.reply reply) (fun stretch ↦ posts stretch = [])
      (doReply env d session reply) fun _ _ ↦ True := by
  intro log hlog
  obtain ⟨result, log', hrun⟩ := Text.exists_doReply (client env d session) reply log
  have hdone : Replying d files session reply (fun _ ↦ True) log' := by
    unfold Text.doReply at hrun
    split at hrun
    · obtain ⟨-, rfl⟩ := Prod.mk.inj (Option.some.inj hrun)
      exact hlog.mono fun _ _ ↦ trivial
    split at hrun
    · obtain ⟨-, rfl⟩ := Prod.mk.inj (Option.some.inj hrun)
      exact hlog.mono fun _ _ ↦ trivial
    · obtain ⟨-, rfl⟩ := Prod.mk.inj (Option.some.inj hrun)
      exact hlog.mono fun _ _ ↦ trivial
    next quoted root hquoted hroot =>
    have hwrite : Acts d files session (.reply reply) (fun stretch ↦ posts stretch = [])
        (writableRoom env d session reply.roomId) fun room stretch ↦ posts stretch = [] ∧
          Inside d d.routing.maySend session (.reply reply) room stretch :=
      writableRoom_acts rfl (quiet_posts [])
    have hroom := hwrite log hlog
    rw [client_writableRoom] at hrun
    rcases hwritable : (writableRoom env d session reply.roomId).run log with ⟨_ | room, log₁⟩
    · rw [hwritable] at hrun hroom
      obtain ⟨-, rfl⟩ := Prod.mk.inj (Option.some.inj hrun)
      exact hroom
    · rw [hwritable] at hrun hroom
      dsimp only at hrun
      split at hrun
      · cases hrun
      · next chunks hchunks =>
        -- before the first chunk nothing is posted
        have hbegun : Replying d files session reply
            (Underway d session reply room chunks chunks 0 none false) log₁ := by
          refine During.mono hroom fun stretch ⟨hnone, hinside⟩ ↦ ?_
          exact {
            inside := hinside
            rest := List.drop_zero
            count := by rw [hnone]; rfl
            answered := by rw [hnone]; exact fun p hp ↦ absurd hp List.not_mem_nil
            last := by rw [hnone]; exact nofun
            thread := by rw [hnone]; exact nofun }
        have hrelates := relates_of_parse hquoted hroot
        split at hrun
        · cases hrun
        · next e log₂ hsend =>
          obtain ⟨-, rfl⟩ := Prod.mk.inj (Option.some.inj hrun)
          exact (sendChunks_replying hchunks hrelates hbegun hsend).mono fun _ _ ↦ trivial
        · cases hrun
        · next id log₂ hsend =>
          obtain ⟨-, rfl⟩ := Prod.mk.inj (Option.some.inj hrun)
          have hsent := sendChunks_replying hchunks hrelates hbegun hsend
          refine During.mono (hsent.concatAll stable_inside
            (fun deed hdeed ↦ begins_typing.2 reply.more deed hdeed) ?_) fun _ _ ↦ trivial
          exact fun deed hdeed stretch hin ↦ (allowed_typing hin).2 reply.more deed hdeed
  have heq : (doReply env d session reply).run log = (result, log') := by
    show (Text.doReply (client env d session) reply log).getD _ = _
    rw [hrun]
    rfl
  rw [heq]
  cases result with
  | error e => exact hdone
  | ok id => exact hdone

end Posting

/-! ## Reading -/

section Reading

variable {env : Env} {d : Daemon} {files : String → Received → Prop} {session : String}
  {kind : CmdKind} {roomId : String}

theorem scanned_acts {α : Type}
    {scan : (String → Except Fail (History.Room Content.RoomMessageContent)) → Except Fail α}
    (hroom : roomOf kind = roomId) :
    Acts d files session kind (fun _ ↦ True) (scanned env d session roomId scan)
      fun _ _ ↦ True := by
  refine Does.bind (readableRoom_acts hroom quiet_true) fun room ↦ ?_
  refine Does.bind (G := fun _ _ ↦ True) (Does.say rfl (fun _ hin ↦ hin.2) fun _ _ ↦ trivial) ?_
  intro _ log hlog
  show Deeds.Comes _ _ _ _ (scan _) log
  cases scan fun _ ↦ .ok (historyRoom env d log room) with
  | error e => exact hlog
  | ok a => exact hlog

theorem doFetchMessages_acts (cmd : FetchMessages) :
    Acts d files session (.fetchMessages cmd) (fun _ ↦ True) (doFetchMessages env d session cmd)
      fun _ _ ↦ True :=
  scanned_acts rfl

theorem doSearchMessages_acts (build : String → Except String History.Regex)
    (cmd : SearchMessages) :
    Acts d files session (.searchMessages cmd) (fun _ ↦ True)
      (doSearchMessages env d session build cmd) fun _ _ ↦ True := by
  unfold doSearchMessages
  split
  · exact Does.fail
  · exact scanned_acts rfl

theorem doFetchMessage_acts (cmd : FetchMessage) :
    Acts d files session (.fetchMessage cmd) (fun _ ↦ True) (doFetchMessage env d session cmd)
      fun _ _ ↦ True := by
  refine Does.lift_bind fun target _ ↦ ?_
  refine Does.bind (readableRoom_acts rfl quiet_true) fun room ↦ ?_
  refine Does.bind (Does.asked ((Deeds.stable_const True).and stable_inside) (fun _ ↦ rfl)
    fun _ _ hin ↦ .inr hin.2) fun answer ↦ ?_
  cases answer with
  | error e => exact Does.fail
  | ok found =>
    dsimp only
    split
    · exact Does.pure fun _ _ ↦ trivial
    · exact Does.fail

end Reading

/-! ## The life of a connection -/

section Connections

variable {env : Env} {d : Daemon} {files : String → Received → Prop} {session : String}
  {build : String → Except String History.Regex}

/-- A command that begins in a lawful log and acts as it may leaves a lawful log. -/
theorem lawful_begun {α : Type} {kind : CmdKind} {x : Act α} {F : Log → Prop}
    {G : α → Log → Prop} {log : Log} (h : Lawful d files session log)
    (hx : Acts d files session kind F x G) (hF : F []) :
    Deeds.Comes Deed.begins (Allowed d files session) (.command kind) G ((begun kind x).run log).1
        ((begun kind x).run log).2 ∧
      Lawful d files session ((begun kind x).run log).2 := by
  have hcomes := hx (log ++ [.command kind]) (During.begin h rfl hF)
  refine ⟨hcomes, ?_⟩
  change Lawful d files session (x.run (log ++ [.command kind])).2
  generalize x.run (log ++ [.command kind]) = after at hcomes
  obtain ⟨_ | a, log'⟩ := after
  · exact During.lawful hcomes
  · exact During.lawful hcomes

theorem lawful_execute {log : Log} (h : Lawful d files session log) (cmd : Cmd) :
    Lawful d files session (ClientLines.execute (host env d session build) log cmd).2 := by
  unfold ClientLines.execute
  split
  · next reply _ => exact (lawful_begun h (doReply_acts reply) rfl).2
  · exact (lawful_begun h (doReact_acts _) trivial).2
  · exact (lawful_begun h (doEdit_acts _) trivial).2
  · exact h
  · exact (lawful_begun h (doFetchMessages_acts _) trivial).2
  · exact (lawful_begun h (doFetchMessage_acts _) trivial).2
  · exact (lawful_begun h (doSearchMessages_acts build _) trivial).2
  · next typing _ =>
    have hroom : Acts d files session (.typing typing) (fun _ ↦ True)
        (do let _ ← writableRoom env d session typing.roomId; pure ()) fun _ stretch ↦
          ∃ room, Inside d d.routing.maySend session (.typing typing) room stretch :=
      Does.bind (writableRoom_acts rfl quiet_true) fun room ↦
        Does.pure fun _ hin ↦ ⟨room, hin.2⟩
    obtain ⟨hcomes, hlawful⟩ := lawful_begun h hroom trivial
    rw [host_writableRoom]
    generalize Prog.run (begun (.typing ⟨typing.roomId⟩) _) log = after at hcomes hlawful ⊢
    obtain ⟨_ | _, log'⟩ := after
    · exact hlawful
    · obtain ⟨-, stretch, hstretch, room, hparse, hcleared⟩ := hcomes
      show Lawful d files session (log' ++ ((d.crates.parseRoomId typing.roomId).map _).toList)
      rw [show d.crates.parseRoomId typing.roomId = some room from hparse]
      exact Deeds.guarded_concat.mpr ⟨hlawful, .inr ⟨_, stretch, hstretch, hparse, hcleared⟩⟩

theorem lawful_command {serde : Serde} {conn : Connection Log}
    (h : Lawful d files session conn.world)
    (hfiles : ∀ transfer received, conn.received transfer = some received →
      files transfer received) (cmd : Cmd) :
    Lawful d files session (conn.command serde (host env d session build) cmd).2.world := by
  unfold Connection.command
  split
  · next file _ =>
    unfold Connection.sendFile
    split
    · next received hreceived =>
      exact (lawful_begun h (doSendFile_acts _ (hfiles _ _ hreceived)) trivial).2
    · exact h
  · exact lawful_execute h cmd

theorem world_fail {W : Type} (conn : Connection W) (transfer : String)
    (err : Transfer.TransferError) : (conn.fail transfer err).world = conn.world := by
  unfold Connection.fail
  split <;> rfl

/-- The lines of a file ask nothing of Matrix. -/
theorem world_file {W : Type} (crates : Transfer.Crates) (host : Host W) (conn : Connection W) :
    (∀ header, (conn.beginFile crates host header).world = (host.fault conn.world).2) ∧
      (∀ data, (conn.chunk crates host data).world = (host.fault conn.world).2) ∧
      ∀ last, (conn.endFile host last).world = (host.fault conn.world).2 := by
  refine ⟨fun header ↦ ?_, fun data ↦ ?_, fun last ↦ ?_⟩
  · unfold Connection.beginFile
    dsimp only
    split <;> rfl
  · unfold Connection.chunk
    dsimp only
    split
    · rfl
    · exact world_fail _ _ _
  · unfold Connection.endFile
    dsimp only
    split
    · rfl
    · exact world_fail _ _ _

/-- Whatever a line says, what is done for it is allowed. -/
theorem lawful_handle {crates : Transfer.Crates} {serde : Serde} {conn : Connection Log}
    (h : Lawful d files session conn.world)
    (hfiles : ∀ transfer received, conn.received transfer = some received →
      files transfer received) (incoming : Incoming) :
    Lawful d files session
      (conn.handle crates serde (host env d session build) incoming).2.world := by
  have hfile := world_file crates (host env d session build) conn
  cases incoming with
  | badRequest id message => exact h
  | ignored message => exact h
  | message message =>
    cases message with
    | cmd cmd => exact lawful_command h hfiles cmd
    | hello hello => exact h
    | file header =>
      show Lawful d files session (conn.beginFile crates _ header).world
      rw [hfile.1 header]
      exact h
    | chunk data =>
      show Lawful d files session (conn.chunk crates _ data).world
      rw [hfile.2.1 data]
      exact h
    | fileEnd last =>
      show Lawful d files session (conn.endFile _ last).world
      rw [hfile.2.2 last]
      exact h
    | ack ack => exact Deeds.guarded_concat.mpr ⟨h, .inl rfl⟩

end Connections

/-- The loop, with the connection that it ends with. -/
def served {W : Type} (crates : Transfer.Crates) (serde : Serde) (host : Host W) :
    Connection W → List (Except LineError String) → List CmdResult × Connection W
  | conn, [] => ([], conn)
  | conn, .error _ :: _ => ([], conn)
  | conn, .ok line :: rest =>
    match parseClientLine serde line with
    | none => ([], conn)
    | some incoming =>
      let (result, conn) := conn.handle crates serde host incoming
      let (results, conn) := served crates serde host conn rest
      (result.toList ++ results, conn)

theorem served_fst {W : Type} (crates : Transfer.Crates) (serde : Serde) (host : Host W)
    (conn : Connection W) (lines : List (Except LineError String)) :
    (served crates serde host conn lines).1 = ClientLines.serve crates serde host conn lines := by
  induction lines generalizing conn with
  | nil => rfl
  | cons line rest ih =>
    cases line with
    | error e => rfl
    | ok line =>
      unfold served ClientLines.serve
      cases parseClientLine serde line with
      | none => rfl
      | some incoming => exact congrArg _ (ih _)

/-- After some of the lines, the connection has the file as one that came in whole under this
transfer. -/
def CameIn {W : Type} (crates : Transfer.Crates) (serde : Serde) (host : Host W)
    (conn : Connection W) (lines : List (Except LineError String)) (transfer : String)
    (received : Received) : Prop :=
  ∃ k, (served crates serde host conn (lines.take k)).2.received transfer = some received

theorem CameIn.cons {W : Type} {crates : Transfer.Crates} {serde : Serde} {host : Host W}
    {conn : Connection W} {line : String} {rest : List (Except LineError String)}
    {incoming : Incoming} (hparse : parseClientLine serde line = some incoming) {transfer : String}
    {received : Received}
    (h : CameIn crates serde host (conn.handle crates serde host incoming).2 rest transfer
      received) :
    CameIn crates serde host conn (.ok line :: rest) transfer received := by
  obtain ⟨k, hk⟩ := h
  refine ⟨k + 1, ?_⟩
  rw [List.take_succ_cons, served, hparse]
  exact hk

/-- A session acts only where it may.  Whatever its lines say and however Matrix answers, all
through the life of a connection: what is done for a command is done in the room of the command,
after the room and its members were read for this command and the routing has allowed the session
there; what is posted is what the command says, of a reply the next of its chunks, an edit only of a
message that was found to be the bot's, as a file the one that came in on this connection under the
transfer that the command names; and no history is read without the right to. -/
theorem lawful_served (env : Env) (d : Daemon) (session : String)
    (build : String → Except String History.Regex) (crates : Transfer.Crates) (serde : Serde)
    (conn : Connection Log) (lines : List (Except LineError String)) :
    Lawful d
      (CameIn crates serde (host env d session build) { conn with world := [] } lines) session
      (served crates serde (host env d session build) { conn with world := [] } lines).2.world := by
  have hrest {files : String → Received → Prop} (conn : Connection Log)
      (h : Lawful d files session conn.world)
      (hfiles : ∀ transfer received,
        CameIn crates serde (host env d session build) conn lines transfer received →
          files transfer received) :
      Lawful d files session
        (served crates serde (host env d session build) conn lines).2.world := by
    induction lines generalizing conn with
    | nil => exact h
    | cons line rest ih =>
      cases line with
      | error e => exact h
      | ok line =>
        unfold served
        split
        · exact h
        · next incoming hparse =>
          have hheld : ∀ transfer received, conn.received transfer = some received →
              files transfer received :=
            fun transfer received hreceived ↦ hfiles _ _ ⟨0, hreceived⟩
          exact ih _ (lawful_handle h hheld incoming)
            fun transfer received hcame ↦ hfiles _ _ (hcame.cons hparse)
  exact hrest _ Deeds.guarded_nil fun _ _ hcame ↦ hcame

end Outgoing

end Silta
