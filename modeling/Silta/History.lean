import Silta.ClientLines
import Silta.RoomAccess

/-!
# Reading a room back

The backward scan over the pages of a room's history, the two commands that use it, and what a
session reads that calls again from every `more` it is given.
-/

namespace Silta

namespace History

open ClientLines

structure Media where
  name : String
  mime : String
  size : Option Nat
  caption : String
  deriving DecidableEq, Repr

inductive Body
  | text (text : String)
  | media (media : Media)
  /-- An edit of an earlier message. -/
  | edit
  | other (msgtype : String)
  deriving DecidableEq, Repr

/-- What the bridge reads in the content of a message. -/
structure Parsed where
  inReplyTo : Option String
  thread : Option String
  body : Body
  deriving DecidableEq, Repr

structure RoomMessage (C : Type) where
  eventId : String
  sender : String
  originServerTs : Nat
  content : C
  deriving DecidableEq, Repr

/-- An event of the timeline as it deserializes: not at all, as another kind of event, or as a
message with its content of type `C`. -/
inductive TimelineEvent (C : Type)
  | malformed
  | other (originServerTs : Nat)
  | roomMessage (m : RoomMessage C)
  deriving DecidableEq, Repr

/-- One answer to a request for messages, newest first, with the token to continue from. -/
structure Page (C : Type) where
  chunk : List (TimelineEvent C)
  «end» : Option String
  deriving DecidableEq, Repr

/-- A room with what the scan uses of it and of the daemon: the request for a page from a token and
of a size, the routing, the reading of a content and the text of a time. -/
structure Room (C : Type) where
  roomId : String
  messages : Option String → Nat → Except String (Page C)
  routing : Routing
  parse : C → Parsed
  rfc3339Utc : Nat → String

def TimelineEvent.originServerTs {C : Type} : TimelineEvent C → Option Nat
  | .malformed => none
  | .other ts => some ts
  | .roomMessage m => some m.originServerTs

namespace Room

variable {C : Type}

/-- One raw timeline event as a history message: registered senders and the bot only, messages
only. -/
def historyMessage (room : Room C) : TimelineEvent C → Option HistoryMessage
  | .malformed => none
  | .other _ => none
  | .roomMessage m =>
    let own := room.routing.isBot m.sender
    let person := if own then none else room.routing.personFor m.sender
    -- a sender who is neither the bot nor registered
    if !own && person.isNone then none
    else
      let parsed := room.parse m.content
      let message (text : String) (attachments : List HistoryAttachment) : HistoryMessage :=
        { eventId := m.eventId, sender := m.sender, person := person.map PersonConfig.name,
          role := person.map PersonConfig.role, own := own, ts := room.rfc3339Utc m.originServerTs,
          inReplyTo := parsed.inReplyTo, thread := parsed.thread, text := text, matchStart := none,
          attachments := attachments }
      match parsed.body with
      | .text text => some (message text [])
      | .media media => some (message media.caption [⟨media.name, media.mime, media.size.getD 0⟩])
      | .edit => none
      | .other _ => none

/-- The message of an event, if there is one and `keep` accepts it; `keep` may change it. -/
def kept (room : Room C) (keep : HistoryMessage → HistoryMessage × Bool)
    (event : TimelineEvent C) : Option HistoryMessage :=
  (room.historyMessage event).bind fun message ↦
    if (keep message).2 then some (keep message).1 else none

/-- The body of the loop over the events of a page. -/
def readEvent (room : Room C) (keep : HistoryMessage → HistoryMessage × Bool) (scan : Scan)
    (event : TimelineEvent C) : Scan :=
  { scan with
    messages := scan.messages ++ (room.kept keep event).toList
    scanned := scan.scanned + 1
    «until» := (event.originServerTs.map room.rfc3339Utc).or scan.until }

/-- The loop over the pages; `left` is how many more may be read after this one. -/
def scanPages (room : Room C) (pageSize wanted : Nat)
    (keep : HistoryMessage → HistoryMessage × Bool) :
    Nat → Option String → Scan → Except Fail Scan
  | left, «from», scan =>
    match room.messages «from» pageSize with
    | .error e => .error (.sendFailed, s!"history request for {room.roomId} failed: {e}")
    | .ok page =>
      let scan := page.chunk.foldl (room.readEvent keep) scan
      match page.end with
      | none => .ok { scan with more := none }
      | some token =>
        if page.chunk.isEmpty then .ok { scan with more := none }
        else if wanted ≤ scan.messages.length then .ok { scan with more := some token }
        else match left with
          | 0 => .ok { scan with more := some token }
          | left + 1 => room.scanPages pageSize wanted keep left (some token) scan

/-- Page backwards from `from` (or the end of the room) collecting the messages `keep` accepts,
until `wanted` are collected, `maxPages` pages are read, or the history ends. -/
def scanHistory (room : Room C) («from» : Option String) (pageSize wanted maxPages : Nat)
    (keep : HistoryMessage → HistoryMessage × Bool) : Except Fail Scan :=
  -- a first page is read whatever the limit is
  room.scanPages pageSize wanted keep (maxPages - 1) «from» ⟨[], none, 0, none⟩

/-- The count `pages` where the loop over the pages ends. -/
def countPages (room : Room C) (pageSize wanted : Nat)
    (keep : HistoryMessage → HistoryMessage × Bool) : Nat → Option String → Scan → Nat
  | left, «from», scan =>
    match room.messages «from» pageSize with
    | .error _ => 0
    | .ok page =>
      let scan := page.chunk.foldl (room.readEvent keep) scan
      match page.end with
      | none => 1
      | some token =>
        if page.chunk.isEmpty then 1
        else if wanted ≤ scan.messages.length then 1
        else match left with
          | 0 => 1
          | left + 1 => room.countPages pageSize wanted keep left (some token) scan + 1

def historyPages (room : Room C) («from» : Option String) (pageSize wanted maxPages : Nat)
    (keep : HistoryMessage → HistoryMessage × Bool) : Nat :=
  room.countPages pageSize wanted keep (maxPages - 1) «from» ⟨[], none, 0, none⟩

end Room

/-! ## The commands -/

def historyDefault : Nat := 20

def historyMax : Nat := 100

def historyMaxPages : Nat := 5

def searchPage : Nat := 100

def searchMaxPages : Nat := 10

/-- `limit.unwrap_or(HISTORY_DEFAULT).clamp(1, HISTORY_MAX)` -/
def clampLimit (limit : Option Nat) : Nat := min (max (limit.getD historyDefault) 1) historyMax

section Commands

variable {C : Type} (readableRoom : String → Except Fail (Room C))

def doFetchMessages (cmd : FetchMessages) : Except Fail (List HistoryMessage × Option String) := do
  let room ← readableRoom cmd.roomId
  let limit := clampLimit cmd.limit
  let scan ← room.scanHistory cmd.from limit limit historyMaxPages fun message ↦ (message, true)
  .ok (scan.messages, scan.more)

/-- What a search uses of a regular expression: where its first match in a text starts, in bytes. -/
abbrev Regex := String → Option String.Pos.Raw

/-- A match in the text says how many characters stand before it. -/
def searchKeep (regex : Regex) (message : HistoryMessage) : HistoryMessage × Bool :=
  match regex message.text with
  | some start =>
    ({ message with matchStart := some (String.Pos.Raw.extract message.text 0 start).length }, true)
  | none => (message, message.attachments.any fun attachment ↦ (regex attachment.name).isSome)

def doSearchMessages (build : String → Except String Regex) (cmd : SearchMessages) :
    Except Fail Scan :=
  match build cmd.pattern with
  | .error e => .error (.badRequest, s!"invalid regular expression: {e}")
  | .ok regex => do
    let limit := clampLimit cmd.limit
    let room ← readableRoom cmd.roomId
    room.scanHistory cmd.from searchPage limit searchMaxPages (searchKeep regex)

end Commands

/-! ## The pages of one call -/

namespace Room

variable {C : Type} {room : Room C} {pageSize : Nat} {keep : HistoryMessage → HistoryMessage × Bool}

/-- The homeserver serves a finite chain of pages from a token on: each with a token to the next
one, except the last.  A page may be empty. -/
inductive Served (room : Room C) (pageSize : Nat) :
    Option String → List (List (TimelineEvent C)) → Prop
  | last {«from» : Option String} {chunk : List (TimelineEvent C)} :
      room.messages «from» pageSize = .ok ⟨chunk, none⟩ → Served room pageSize «from» [chunk]
  | page {«from» : Option String} {chunk : List (TimelineEvent C)} {token : String}
      {pages : List (List (TimelineEvent C))} :
      room.messages «from» pageSize = .ok ⟨chunk, some token⟩ →
        Served room pageSize (some token) pages → Served room pageSize «from» (chunk :: pages)

/-- The messages of the pages that `keep` accepts, newest first. -/
def accepted (room : Room C) (keep : HistoryMessage → HistoryMessage × Bool)
    (pages : List (List (TimelineEvent C))) : List HistoryMessage :=
  pages.flatten.filterMap (room.kept keep)

theorem accepted_append (pages pages' : List (List (TimelineEvent C))) :
    room.accepted keep (pages ++ pages') =
      room.accepted keep pages ++ room.accepted keep pages' := by
  rw [accepted, List.flatten_append, List.filterMap_append]
  rfl

theorem accepted_cons (chunk : List (TimelineEvent C)) (pages : List (List (TimelineEvent C))) :
    room.accepted keep (chunk :: pages) =
      chunk.filterMap (room.kept keep) ++ room.accepted keep pages := by
  rw [accepted, List.flatten_cons, List.filterMap_append]
  rfl

theorem foldl_readEvent (room : Room C) (keep : HistoryMessage → HistoryMessage × Bool)
    (chunk : List (TimelineEvent C)) (scan : Scan) :
    (chunk.foldl (room.readEvent keep) scan).messages =
        scan.messages ++ chunk.filterMap (room.kept keep) ∧
      (chunk.foldl (room.readEvent keep) scan).scanned = scan.scanned + chunk.length := by
  induction chunk generalizing scan with
  | nil => simp
  | cons event chunk ih =>
    obtain ⟨hmessages, hscanned⟩ := ih (room.readEvent keep scan event)
    rw [List.foldl_cons, hmessages, hscanned]
    constructor
    · cases hkept : room.kept keep event <;> simp [readEvent, hkept]
    · simp only [readEvent, List.length_cons]
      omega

/-- What a scan that began as `before` has read and where it has stopped: `read` are its pages,
`rest` those that it has left. -/
structure Scanned (room : Room C) (keep : HistoryMessage → HistoryMessage × Bool)
    (pageSize wanted left : Nat) (before after : Scan)
    (read rest : List (List (TimelineEvent C))) : Prop where
  messages : after.messages = before.messages ++ room.accepted keep read
  scanned : after.scanned = before.scanned + read.flatten.length
  nonempty : read ≠ []
  limit : read.length ≤ left + 1
  /-- It goes on from pages that hold something only. -/
  full : ∀ page ∈ read.dropLast, page ≠ []
  ended : after.more = none → rest = [] ∨ read.getLast? = some []
  goesOn : ∀ token, after.more = some token → room.Served pageSize (some token) rest ∧
    read.getLast? ≠ some [] ∧ (wanted ≤ after.messages.length ∨ read.length = left + 1)

/-- Where the loop ends at a page that is not the last one, that page is all that is read. -/
theorem Scanned.stop {chunk : List (TimelineEvent C)} {token : String}
    {pages : List (List (TimelineEvent C))} (hpages : room.Served pageSize (some token) pages)
    {wanted left : Nat} {before : Scan} {more : Option String}
    (hnone : more = none → chunk = [])
    (hsome : ∀ token', more = some token' → token' = token ∧ chunk ≠ [] ∧
      (wanted ≤ (chunk.foldl (room.readEvent keep) before).messages.length ∨ left = 0)) :
    room.Scanned keep pageSize wanted left before
      { chunk.foldl (room.readEvent keep) before with more := more } [chunk] pages where
  messages := by simpa [accepted] using (foldl_readEvent room keep chunk before).1
  scanned := by simpa using (foldl_readEvent room keep chunk before).2
  nonempty := List.cons_ne_nil chunk []
  limit := Nat.le_add_left 1 left
  full := nofun
  ended hmore := by
    rw [hnone hmore]
    exact .inr rfl
  goesOn := by
    intro token' hmore
    obtain ⟨rfl, hchunk, hlimit⟩ := hsome token' hmore
    exact ⟨hpages, by simpa using hchunk, by simpa [eq_comm] using hlimit⟩

/-- The loop goes on from a page that holds something. -/
theorem Scanned.cons {chunk : List (TimelineEvent C)} {wanted left : Nat} {before after : Scan}
    {read rest : List (List (TimelineEvent C))} (hchunk : chunk ≠ [])
    (h : room.Scanned keep pageSize wanted left (chunk.foldl (room.readEvent keep) before) after
      read rest) :
    room.Scanned keep pageSize wanted (left + 1) before after (chunk :: read) rest := by
  obtain ⟨hmessages, hscanned⟩ := foldl_readEvent room keep chunk before
  obtain ⟨page, read', rfl⟩ := List.exists_cons_of_ne_nil h.nonempty
  exact {
    messages := by rw [h.messages, hmessages, accepted_cons chunk, List.append_assoc]
    scanned := by
      rw [h.scanned, hscanned, @List.flatten_cons _ chunk, List.length_append]
      omega
    nonempty := List.cons_ne_nil chunk _
    limit := by
      have hlimit := h.limit
      rw [List.length_cons]
      omega
    full := by
      rw [List.dropLast_cons_cons, List.forall_mem_cons]
      exact ⟨hchunk, h.full⟩
    ended := h.ended
    goesOn := by
      intro token' hmore
      obtain ⟨hserved, hlast, hlimit⟩ := h.goesOn token' hmore
      refine ⟨hserved, hlast, hlimit.imp_right fun hlength ↦ ?_⟩
      rw [List.length_cons, hlength] }

theorem scanPages_served {«from» : Option String} {pages : List (List (TimelineEvent C))}
    (h : room.Served pageSize «from» pages) (wanted left : Nat) (before : Scan) :
    ∃ after read rest, room.scanPages pageSize wanted keep left «from» before = .ok after ∧
      pages = read ++ rest ∧ room.Scanned keep pageSize wanted left before after read rest ∧
        room.countPages pageSize wanted keep left «from» before = read.length := by
  induction h generalizing left before with
  | @last «from» chunk hpage =>
    obtain ⟨hmessages, hscanned⟩ := foldl_readEvent room keep chunk before
    refine ⟨_, [chunk], [], by rw [scanPages, hpage], rfl, ?_, by rw [countPages, hpage]; rfl⟩
    exact {
      messages := by simpa [accepted] using hmessages
      scanned := by simpa using hscanned
      nonempty := List.cons_ne_nil chunk []
      limit := Nat.le_add_left 1 left
      full := nofun
      ended := fun _ ↦ .inl rfl
      goesOn := nofun }
  | @page «from» chunk token pages hpage hpages ih =>
    rw [scanPages, countPages, hpage]
    dsimp only
    -- the four ways out of the match on the token of the page
    by_cases hempty : chunk.isEmpty = true
    · rw [if_pos hempty, if_pos hempty]
      have hnil := List.isEmpty_iff.mp hempty
      exact ⟨_, [chunk], pages, rfl, rfl, .stop hpages (fun _ ↦ hnil) nofun, rfl⟩
    rw [if_neg hempty, if_neg hempty]
    have hchunk : chunk ≠ [] := mt List.isEmpty_iff.mpr hempty
    by_cases hwanted : wanted ≤ (chunk.foldl (room.readEvent keep) before).messages.length
    · rw [if_pos hwanted, if_pos hwanted]
      refine ⟨_, [chunk], pages, rfl, rfl, .stop hpages nofun fun token' htoken ↦ ?_, rfl⟩
      exact ⟨(Option.some.inj htoken).symm, hchunk, .inl hwanted⟩
    rw [if_neg hwanted, if_neg hwanted]
    cases left with
    | zero =>
      refine ⟨_, [chunk], pages, rfl, rfl, .stop hpages nofun fun token' htoken ↦ ?_, rfl⟩
      exact ⟨(Option.some.inj htoken).symm, hchunk, .inr rfl⟩
    | succ left =>
      obtain ⟨after, read, rest, hrun, hsplit, hafter, hcount⟩ :=
        ih left (chunk.foldl (room.readEvent keep) before)
      exact ⟨after, chunk :: read, rest, hrun, by rw [hsplit]; rfl, hafter.cons hchunk,
        congrArg (· + 1) hcount⟩

/-! ## Paging through -/

/-- One call after the other from each `more` that is returned, until it is absent.  Every call may
want another count and have another limit of pages. -/
inductive Paging (room : Room C) (keep : HistoryMessage → HistoryMessage × Bool) (pageSize : Nat) :
    List (Nat × Nat) → Option String → List Scan → Prop
  | last {wanted maxPages : Nat} {calls : List (Nat × Nat)} {«from» : Option String} {scan : Scan} :
      room.scanHistory «from» pageSize wanted maxPages keep = .ok scan → scan.more = none →
        Paging room keep pageSize ((wanted, maxPages) :: calls) «from» [scan]
  | next {wanted maxPages : Nat} {calls : List (Nat × Nat)} {«from» : Option String} {scan : Scan}
      {token : String} {scans : List Scan} :
      room.scanHistory «from» pageSize wanted maxPages keep = .ok scan → scan.more = some token →
        Paging room keep pageSize calls (some token) scans →
          Paging room keep pageSize ((wanted, maxPages) :: calls) «from» (scan :: scans)

/-- How many pages the calls have read together. -/
def pagesRead (room : Room C) (keep : HistoryMessage → HistoryMessage × Bool) (pageSize : Nat) :
    List (Nat × Nat) → Option String → List Scan → Nat
  | (wanted, maxPages) :: calls, «from», scan :: scans =>
    room.historyPages «from» pageSize wanted maxPages keep +
      room.pagesRead keep pageSize calls scan.more scans
  | _, _, _ => 0

/-- What the calls have read together: `read` are the pages up to the last one that was read, which
is the last page of all or an empty one. -/
structure ReadThrough (room : Room C) (keep : HistoryMessage → HistoryMessage × Bool)
    (scans : List Scan) (read rest : List (List (TimelineEvent C))) : Prop where
  messages : scans.flatMap Scan.messages = room.accepted keep read
  scanned : (scans.map Scan.scanned).sum = read.flatten.length
  nonempty : read ≠ []
  full : ∀ page ∈ read.dropLast, page ≠ []
  ended : rest = [] ∨ read.getLast? = some []

theorem scanHistory_served (keep : HistoryMessage → HistoryMessage × Bool)
    {«from» : Option String} {pages : List (List (TimelineEvent C))}
    (h : room.Served pageSize «from» pages) (wanted maxPages : Nat) :
    ∃ after read rest, room.scanHistory «from» pageSize wanted maxPages keep = .ok after ∧
      pages = read ++ rest ∧
        room.Scanned keep pageSize wanted (maxPages - 1) ⟨[], none, 0, none⟩ after read rest ∧
        room.historyPages «from» pageSize wanted maxPages keep = read.length :=
  scanPages_served h wanted (maxPages - 1) ⟨[], none, 0, none⟩

/-- A fetch answers with what one scan of five pages at most has read. -/
theorem doFetchMessages_served {readableRoom : String → Except Fail (Room C)} {cmd : FetchMessages}
    {pages : List (List (TimelineEvent C))} (hroom : readableRoom cmd.roomId = .ok room)
    (h : room.Served (clampLimit cmd.limit) cmd.from pages) :
    ∃ after read rest, doFetchMessages readableRoom cmd = .ok (after.messages, after.more) ∧
      pages = read ++ rest ∧
        room.Scanned (fun message ↦ (message, true)) (clampLimit cmd.limit) (clampLimit cmd.limit)
          (historyMaxPages - 1) ⟨[], none, 0, none⟩ after read rest := by
  obtain ⟨after, read, rest, hrun, hsplit, hafter, -⟩ :=
    scanHistory_served (fun message ↦ (message, true)) h (clampLimit cmd.limit) historyMaxPages
  refine ⟨after, read, rest, ?_, hsplit, hafter⟩
  show (readableRoom cmd.roomId).bind _ = _
  rw [hroom, Except.bind]
  show (room.scanHistory _ _ _ _ _).bind _ = _
  rw [hrun]
  rfl

theorem doSearchMessages_served {readableRoom : String → Except Fail (Room C)}
    {build : String → Except String Regex} {regex : Regex} {cmd : SearchMessages}
    {pages : List (List (TimelineEvent C))} (hbuild : build cmd.pattern = .ok regex)
    (hroom : readableRoom cmd.roomId = .ok room) (h : room.Served searchPage cmd.from pages) :
    ∃ after read rest, doSearchMessages readableRoom build cmd = .ok after ∧
      pages = read ++ rest ∧
        room.Scanned (searchKeep regex) searchPage (clampLimit cmd.limit) (searchMaxPages - 1)
          ⟨[], none, 0, none⟩ after read rest := by
  obtain ⟨after, read, rest, hrun, hsplit, hafter, -⟩ :=
    scanHistory_served (searchKeep regex) h (clampLimit cmd.limit) searchMaxPages
  refine ⟨after, read, rest, ?_, hsplit, hafter⟩
  rw [doSearchMessages, hbuild]
  show (readableRoom cmd.roomId).bind _ = _
  rw [hroom]
  exact hrun

theorem Paging.readThrough {calls : List (Nat × Nat)} {«from» : Option String} {scans : List Scan}
    (h : room.Paging keep pageSize calls «from» scans) {pages : List (List (TimelineEvent C))}
    (hserved : room.Served pageSize «from» pages) :
    ∃ read rest, pages = read ++ rest ∧ room.ReadThrough keep scans read rest ∧
      room.pagesRead keep pageSize calls «from» scans = read.length := by
  induction h generalizing pages with
  | @last wanted maxPages calls «from» scan hcall hmore =>
    obtain ⟨after, read, rest, hrun, hsplit, hafter, hcount⟩ :=
      scanHistory_served keep hserved wanted maxPages
    obtain rfl : after = scan := Except.ok.inj (hrun.symm.trans hcall)
    have hmessages := hafter.messages
    have hscanned := hafter.scanned
    rw [List.nil_append] at hmessages
    rw [Nat.zero_add] at hscanned
    refine ⟨read, rest, hsplit, {
      messages := by rw [List.flatMap_singleton, hmessages]
      scanned := by rw [List.map_singleton, List.sum_singleton, hscanned]
      nonempty := hafter.nonempty
      full := hafter.full
      ended := hafter.ended hmore }, ?_⟩
    rw [pagesRead, hcount, hmore, pagesRead.eq_def]
    cases calls <;> rfl
  | @next wanted maxPages calls «from» scan token scans hcall hmore hpaging ih =>
    obtain ⟨after, read, rest, hrun, hsplit, hafter, hcount⟩ :=
      scanHistory_served keep hserved wanted maxPages
    obtain rfl : after = scan := Except.ok.inj (hrun.symm.trans hcall)
    obtain ⟨hrest, hlast, -⟩ := hafter.goesOn token hmore
    obtain ⟨read', rest', hsplit', hread', hcount'⟩ := ih hrest
    obtain ⟨page, pages', rfl⟩ := List.exists_cons_of_ne_nil hread'.nonempty
    have hmessages := hafter.messages
    have hscanned := hafter.scanned
    rw [List.nil_append] at hmessages
    rw [Nat.zero_add] at hscanned
    refine ⟨read ++ page :: pages', rest', by rw [hsplit, hsplit', List.append_assoc], ?_,
      by rw [pagesRead, hcount, hmore, hcount', List.length_append]⟩
    exact {
      messages := by
        rw [List.flatMap_cons, hread'.messages, hmessages, accepted_append]
      scanned := by
        rw [List.map_cons, List.sum_cons, hread'.scanned, hscanned, List.flatten_append,
          List.length_append]
      nonempty := by simp
      full := by
        intro chunk hchunk
        rw [List.dropLast_append_cons, List.mem_append] at hchunk
        -- no page of the earlier call was empty, its last one not either
        rcases hchunk with hchunk | hchunk
        · rw [← List.dropLast_append_getLast hafter.nonempty, List.mem_append,
            List.mem_singleton] at hchunk
          rcases hchunk with hchunk | rfl
          · exact hafter.full chunk hchunk
          · rw [List.getLast?_eq_some_getLast hafter.nonempty] at hlast
            exact fun hnil ↦ hlast (congrArg some hnil)
        · exact hread'.full chunk hchunk
      ended := by
        rw [List.getLast?_append_of_ne_nil _ (List.cons_ne_nil page pages')]
        exact hread'.ended }

/-- Where only the last page is empty or none, nothing is left. -/
theorem ReadThrough.rest_eq_nil {scans : List Scan}
    {pages read rest : List (List (TimelineEvent C))}
    (hread : room.ReadThrough keep scans read rest) (hsplit : pages = read ++ rest)
    (hfull : ∀ page ∈ pages.dropLast, page ≠ []) : rest = [] := by
  rcases hread.ended with hrest | hlast
  · exact hrest
  by_contra hne
  -- the empty page that ended the calls would stand before the last one
  have hmem : [] ∈ read := List.mem_of_getLast? hlast
  refine hfull [] ?_ rfl
  rw [hsplit, List.dropLast_append_of_ne_nil hne]
  exact List.mem_append_left _ hmem

/-- As many calls as there are pages are enough. -/
theorem exists_paging {pages : List (List (TimelineEvent C))} {«from» : Option String}
    (h : room.Served pageSize «from» pages) {calls : List (Nat × Nat)}
    (hcalls : pages.length ≤ calls.length) :
    ∃ scans, room.Paging keep pageSize calls «from» scans := by
  induction hn : pages.length using Nat.strong_induction_on generalizing pages «from» calls with
  | _ n ih =>
    obtain ⟨after, read, rest, hrun, hsplit, hafter, -⟩ :=
      scanHistory_served keep h (calls.headD (0, 0)).1 (calls.headD (0, 0)).2
    have hread : 0 < read.length := List.length_pos_iff.mpr hafter.nonempty
    have hlength : pages.length = read.length + rest.length := by rw [hsplit, List.length_append]
    cases calls with
    | nil =>
      rw [List.length_nil] at hcalls
      omega
    | cons call calls =>
      rw [List.length_cons] at hcalls
      cases hmore : after.more with
      | none => exact ⟨[after], .last hrun hmore⟩
      -- a call reads one page at least
      | some token =>
        obtain ⟨hrest, -⟩ := hafter.goesOn token hmore
        have hleft : rest.length ≤ calls.length := by omega
        obtain ⟨scans, hscans⟩ := ih rest.length (by omega) hrest hleft rfl
        exact ⟨after :: scans, .next hrun hmore hscans⟩

/-- Calling again until no `more` is returned ends, and reads the pages up to the last one or the
first empty one, each of their messages once; where only the last page is empty or none, it reads
them all. -/
theorem paging_reads {pages : List (List (TimelineEvent C))} {«from» : Option String}
    (h : room.Served pageSize «from» pages) (keep : HistoryMessage → HistoryMessage × Bool) :
    (∀ calls : List (Nat × Nat), pages.length ≤ calls.length →
        ∃ scans, room.Paging keep pageSize calls «from» scans) ∧
      ∀ calls scans, room.Paging keep pageSize calls «from» scans →
        (∃ read rest, pages = read ++ rest ∧ room.ReadThrough keep scans read rest) ∧
          ((∀ page ∈ pages.dropLast, page ≠ []) →
            scans.flatMap Scan.messages = room.accepted keep pages) := by
  refine ⟨fun calls hcalls ↦ exists_paging h hcalls, fun calls scans hpaging ↦ ?_⟩
  obtain ⟨read, rest, hsplit, hread, -⟩ := hpaging.readThrough h
  refine ⟨⟨read, rest, hsplit, hread⟩, fun hfull ↦ ?_⟩
  rw [hread.messages, hsplit, hread.rest_eq_nil hsplit hfull, List.append_nil]

/-- Paging through misses nothing: the calls end, with each accepted message once, newest first, and
only when the last page was read. -/
def MissesNothing (room : Room C) (keep : HistoryMessage → HistoryMessage × Bool) (pageSize : Nat)
    («from» : Option String) (pages : List (List (TimelineEvent C))) : Prop :=
  (∀ calls : List (Nat × Nat), pages.length ≤ calls.length →
      ∃ scans, room.Paging keep pageSize calls «from» scans) ∧
    ∀ calls scans, room.Paging keep pageSize calls «from» scans →
      scans.flatMap Scan.messages = room.accepted keep pages ∧
        room.pagesRead keep pageSize calls «from» scans = pages.length

theorem missesNothing_iff {pages : List (List (TimelineEvent C))} {«from» : Option String}
    (h : room.Served pageSize «from» pages) (keep : HistoryMessage → HistoryMessage × Bool) :
    room.MissesNothing keep pageSize «from» pages ↔ ∀ page ∈ pages.dropLast, page ≠ [] := by
  obtain ⟨hexists, hreads⟩ := paging_reads h keep
  constructor
  · rintro ⟨-, hwhole⟩
    -- the calls read up to the first empty page, and they have read the last one
    obtain ⟨scans, hpaging⟩ := hexists (List.replicate pages.length (0, 0)) (by simp)
    obtain ⟨-, hcount⟩ := hwhole _ scans hpaging
    obtain ⟨read, rest, hsplit, hread, hlength⟩ := hpaging.readThrough h
    have hrest : rest = [] := by
      rw [hlength, hsplit, List.length_append] at hcount
      exact List.length_eq_zero_iff.mp (by omega)
    rw [hsplit, hrest, List.append_nil]
    exact hread.full
  · intro hfull
    refine ⟨hexists, fun calls scans hpaging ↦ ?_⟩
    obtain ⟨-, hmessages⟩ := hreads calls scans hpaging
    obtain ⟨read, rest, hsplit, hread, hlength⟩ := hpaging.readThrough h
    refine ⟨hmessages hfull, ?_⟩
    rw [hlength, hsplit, hread.rest_eq_nil hsplit hfull, List.append_nil]

/-- A room of three pages, the second of which is empty: what Bob wrote last, and the message before
it. -/
def bobs : Room String where
  roomId := "!dm:silta.test"
  messages
    | none, _ => .ok ⟨[.roomMessage ⟨"$2", "@bob:silta.test", 2000, "later"⟩], some "t1"⟩
    | some "t1", _ => .ok ⟨[], some "t2"⟩
    | some "t2", _ => .ok ⟨[.roomMessage ⟨"$1", "@bob:silta.test", 1000, "first"⟩], none⟩
    | some _, _ => .error "unknown token"
  routing := .new Routing.minds
  parse text := ⟨none, none, .text text⟩
  rfc3339Utc ms := toString ms

def bobsPages : List (List (TimelineEvent String)) := [
  [.roomMessage ⟨"$2", "@bob:silta.test", 2000, "later"⟩], [],
  [.roomMessage ⟨"$1", "@bob:silta.test", 1000, "first"⟩]]

theorem bobs_served : bobs.Served 20 none bobsPages := .page rfl (.page rfl (.last rfl))

/-- The same two messages, with the empty page after them. -/
def bobsFull : Room String :=
  { bobs with
    messages
      | none, _ => .ok ⟨[.roomMessage ⟨"$2", "@bob:silta.test", 2000, "later"⟩], some "t1"⟩
      | some "t1", _ => .ok ⟨[.roomMessage ⟨"$1", "@bob:silta.test", 1000, "first"⟩], some "t2"⟩
      | some "t2", _ => .ok ⟨[], none⟩
      | some _, _ => .error "unknown token" }

theorem missesNothing_bobsFull : bobsFull.MissesNothing (fun message ↦ (message, true)) 20 none
    [[.roomMessage ⟨"$2", "@bob:silta.test", 2000, "later"⟩],
      [.roomMessage ⟨"$1", "@bob:silta.test", 1000, "first"⟩], []] :=
  (missesNothing_iff (.page rfl (.page rfl (.last rfl))) fun message ↦ (message, true)).mpr
    (by simp)

/-- The first message is not read: the empty page before it ends the scan without a `more`. -/
theorem paging_misses :
    ¬∀ (room : Room String) (pageSize : Nat) («from» : Option String)
      (pages : List (List (TimelineEvent String))) (calls : List (Nat × Nat)) (scans : List Scan),
      room.Served pageSize «from» pages →
        room.Paging (fun message ↦ (message, true)) pageSize calls «from» scans →
          scans.flatMap Scan.messages = room.accepted (fun message ↦ (message, true)) pages := by
  intro h
  have hall := h bobs 20 none bobsPages [(20, historyMaxPages)] _ bobs_served (.last rfl rfl)
  exact absurd hall (by decide +kernel)

end Room

end History

end Silta
