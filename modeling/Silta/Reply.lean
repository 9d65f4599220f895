import Silta.Chunks
import Silta.ClientLines

/-!
# Posting a reply

`do_reply` posts the chunks of a text one after the other, and answers with the event of the last.
Both places where it expects to have posted one are `none` here when it has not.
-/

namespace Silta.Text

open ClientLines (Fail)

/-! ## Sizes in bytes -/

/-- The sizes are those of the UTF-8 encodings. -/
theorem len_eq_utf8ByteSize (text : List Char) : len text = (String.ofList text).utf8ByteSize := by
  induction text with
  | nil => rfl
  | cons c cs ih =>
    have hone : (String.ofList [c]).utf8ByteSize = lenUtf8 c := by
      rw [← String.singleton_eq_ofList, String.utf8ByteSize_singleton]
      rfl
    rw [len_cons, ih, ← List.singleton_append, String.ofList_append, String.utf8ByteSize_append,
      hone]

/-! ## The command -/

inductive ReplyWithinThread
  | yes
  | no
  deriving DecidableEq, Repr

inductive EnforceThread
  | threaded (reply : ReplyWithinThread)
  | maybeThreaded
  deriving DecidableEq, Repr

inductive AddMentions
  | yes
  | no
  deriving DecidableEq, Repr

/-- The relation of a message to another one. -/
structure ReplyConfig where
  eventId : String
  enforceThread : EnforceThread
  addMentions : AddMentions
  deriving DecidableEq, Repr

/-- Why the SDK has not made a related event, with the text of the error. -/
inductive ReplyError
  | fetch (text : String)
  | other (text : String)
  deriving DecidableEq, Repr

/-- What `do_reply` asks of Matrix and of the rest of the daemon, each with the state that it leaves
behind, and the debug text of a string. -/
structure Client (Room Content W : Type) where
  quote : String → String
  parseEventId : String → Option String
  writableRoom : String → W → Except Fail Room × W
  roomId : Room → String
  textMarkdown : List Char → Content
  makeReplyEvent : Room → Content → ReplyConfig → W → Except ReplyError Content × W
  isThread : Content → Bool
  send : Room → Content → W → Except String String × W
  stopTyping : Room → W → W
  afterSend : Room → Bool → W → W

variable {Room Content W : Type}

def bad (message : String) : Fail := (.badRequest, message)

def parseEventId (client : Client Room Content W) (s : String) : Except Fail String :=
  match client.parseEventId s with
  | some id => .ok id
  | none => .error (bad (client.quote s ++ " is not an event id"))

def parseOptionalEventId (client : Client Room Content W) :
    Option String → Except Fail (Option String)
  | none => .ok none
  | some s => (parseEventId client s).map some

/-- What a quote and a thread mean for the relation of an outgoing message. -/
def replyConfig : Option String → Option String → Option ReplyConfig
  | some quoted, some _ => some ⟨quoted, .threaded .yes, .no⟩
  | some quoted, none => some ⟨quoted, .maybeThreaded, .no⟩
  | none, some root => some ⟨root, .threaded .no, .no⟩
  | none, none => none

def withRelation (client : Client Room Content W) (room : Room) (content : Content)
    (config : Option ReplyConfig) (w : W) : Except Fail Content × W :=
  match config with
  | none => (.ok content, w)
  | some config =>
    match client.makeReplyEvent room content config w with
    | (.ok content, w) => (.ok content, w)
    | (.error (.fetch e), w) =>
      (.error (.notFound, "cannot fetch the event to relate to: " ++ e), w)
    | (.error (.other e), w) => (.error (bad e), w)

/-- The relation of chunk `i`: later chunks of a threaded reply follow the one before. -/
def chunkConfig (first : Option ReplyConfig) (i : Nat) (last : Option String) (inThread : Bool) :
    Option (Option ReplyConfig) :=
  if i = 0 then some first
  else if inThread then last.map fun id ↦ some ⟨id, .maybeThreaded, .no⟩
  else some none

/-- The loop over the chunks. -/
def sendChunks (client : Client Room Content W) (room : Room) (first : Option ReplyConfig)
    (total : Nat) : List (List Char) → Nat → Option String → Bool → W →
      Option (Except Fail (Option String) × W)
  | [], _, last, _, w => some (.ok last, w)
  | chunk :: chunks, i, last, inThread, w =>
    match chunkConfig first i last inThread with
    | none => none
    | some config =>
      match withRelation client room (client.textMarkdown chunk) config w with
      | (.error e, w) => some (.error e, w)
      | (.ok content, w) =>
        let inThread := if i = 0 then client.isThread content else inThread
        match client.send room content w with
        | (.ok id, w) => sendChunks client room first total chunks (i + 1) (some id) inThread w
        | (.error e, w) =>
          some (.error (.sendFailed,
            s!"sending to {client.roomId room} failed after {i} of {total} chunks: {e}"),
            client.stopTyping room w)

/-- Chunks are far below a quarter of what an event may hold. -/
def chunkBytes : Nat := 8 * 1024

def doReply (client : Client Room Content W) (reply : Reply) (w : W) :
    Option (Except Fail String × W) :=
  if (trim reply.text.toList).isEmpty then some (.error (bad "text is empty"), w)
  else
    match parseOptionalEventId client reply.replyTo, parseOptionalEventId client reply.thread with
    | .error e, _ => some (.error e, w)
    | .ok _, .error e => some (.error e, w)
    | .ok replyTo, .ok thread =>
      match client.writableRoom reply.roomId w with
      | (.error e, w) => some (.error e, w)
      | (.ok room, w) =>
        match chunkText reply.text.toList chunkBytes with
        | none => none
        | some chunks =>
          match sendChunks client room (replyConfig replyTo thread) chunks.length chunks 0 none
            false w with
          | none => none
          | some (.error e, w) => some (.error e, w)
          | some (.ok none, _) => none
          | some (.ok (some last), w) => some (.ok last, client.afterSend room reply.more w)

/-- Once one chunk was posted, every other has one to follow, and the last one is known. -/
theorem exists_sendChunks (client : Client Room Content W) (room : Room)
    (first : Option ReplyConfig) (total : Nat) (chunks : List (List Char)) (i : Nat)
    (last : Option String) (inThread : Bool) (w : W) (h : i = 0 ∨ last.isSome) :
    ∃ result w', sendChunks client room first total chunks i last inThread w = some (result, w') ∧
      ∀ id, result = .ok id → chunks ≠ [] ∨ last.isSome → id.isSome := by
  induction chunks generalizing i last inThread w with
  | nil =>
    refine ⟨.ok last, w, rfl, fun id hid hlast ↦ ?_⟩
    obtain rfl := Except.ok.inj hid
    exact hlast.resolve_left (absurd rfl)
  | cons chunk chunks ih =>
    obtain ⟨config, hconfig⟩ : ∃ config, chunkConfig first i last inThread = some config := by
      unfold chunkConfig
      split_ifs with hi
      · exact ⟨_, rfl⟩
      · obtain ⟨id, rfl⟩ := Option.isSome_iff_exists.mp (h.resolve_left hi)
        exact ⟨_, rfl⟩
      · exact ⟨_, rfl⟩
    rw [sendChunks, hconfig]
    dsimp only
    obtain ⟨related, w₁⟩ := withRelation client room (client.textMarkdown chunk) config w
    cases related with
    | error e => exact ⟨_, _, rfl, nofun⟩
    | ok content =>
      dsimp only
      obtain ⟨sent, w₂⟩ := client.send room content w₁
      cases sent with
      | error e => exact ⟨_, _, rfl, nofun⟩
      | ok id =>
        dsimp only
        obtain ⟨result, w', hrun, hlast⟩ := ih (i + 1) (some id)
          (if i = 0 then client.isThread content else inThread) w₂ (Or.inr rfl)
        exact ⟨result, w', hrun, fun id hid _ ↦ hlast id hid (Or.inr rfl)⟩

/-- Whatever Matrix does, a reply gets an answer. -/
theorem exists_doReply (client : Client Room Content W) (reply : Reply) (w : W) :
    ∃ result w', doReply client reply w = some (result, w') := by
  unfold doReply
  split_ifs with hblank
  · exact ⟨_, _, rfl⟩
  rw [List.isEmpty_iff, blank_trim] at hblank
  split
  · exact ⟨_, _, rfl⟩
  · exact ⟨_, _, rfl⟩
  · next replyTo thread _ _ =>
    obtain ⟨room, w₁⟩ := client.writableRoom reply.roomId w
    cases room with
    | error e => exact ⟨_, _, rfl⟩
    | ok room =>
      obtain ⟨chunks, hchunks, -, hink⟩ :=
        exists_chunkText (show 4 ≤ chunkBytes by decide) reply.text.toList
      have hne : chunks ≠ [] := by
        rintro rfl
        exact hblank (ink_eq_nil_iff.mp hink.symm)
      obtain ⟨result, w', hrun, hlast⟩ := exists_sendChunks client room
        (replyConfig replyTo thread) chunks.length chunks 0 none false w₁ (Or.inl rfl)
      simp only [hchunks, hrun]
      cases result with
      | error e => exact ⟨_, _, rfl⟩
      | ok id =>
        obtain ⟨last, rfl⟩ := Option.isSome_iff_exists.mp (hlast id rfl (Or.inl hne))
        exact ⟨_, _, rfl⟩

/-- Chunking stays within the cap and does not fail, and a reply that is accepted has a chunk to
post. -/
theorem chunkText_total {maxBytes : Nat} (hcap : 4 ≤ maxBytes) :
    (∀ text : List Char, ∃ chunks, chunkText text maxBytes = some chunks ∧
      (∀ c ∈ chunks, c ≠ [] ∧ (String.ofList c).utf8ByteSize ≤ maxBytes) ∧
      (chunks = [] ↔ ∀ c ∈ text, Transfer.isWhitespace c = true)) ∧
    ∀ (Room Content W : Type) (client : Client Room Content W) (reply : Reply) (w : W),
      ∃ result w', doReply client reply w = some (result, w') := by
  refine ⟨fun text ↦ ?_, fun _ _ _ ↦ exists_doReply⟩
  obtain ⟨chunks, hchunks, hwithin, hink⟩ := exists_chunkText hcap text
  refine ⟨chunks, hchunks, fun c hc ↦ ?_, ?_, fun hblank ↦ ?_⟩
  · rw [← len_eq_utf8ByteSize]
    exact hwithin c hc
  · rintro rfl
    exact ink_eq_nil_iff.mp hink.symm
  · rw [chunkText_of_blank hcap (trimEnd_eq_nil.mpr hblank)] at hchunks
    exact (Option.some.inj hchunks).symm

theorem chunkText_total_eight :
    (∀ text : List Char, ∃ chunks, chunkText text 8 = some chunks ∧
      (∀ c ∈ chunks, c ≠ [] ∧ (String.ofList c).utf8ByteSize ≤ 8) ∧
      (chunks = [] ↔ ∀ c ∈ text, Transfer.isWhitespace c = true)) ∧
    ∀ (Room Content W : Type) (client : Client Room Content W) (reply : Reply) (w : W),
      ∃ result w', doReply client reply w = some (result, w') :=
  chunkText_total (by decide)

end Silta.Text
