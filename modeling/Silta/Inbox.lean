import Silta.Protocol
import Silta.Receiver

/-!
# The inbox of a session

The plugin over all its connections: the files that the daemon streams before an event, the events
on their way to Claude Code, and the paths that these name.  A redelivered event streams to the
paths of the first delivery, and a lost connection removes what it has begun.
-/

namespace Silta

namespace Inbox

open Transfer

/-- An event with the path of each attachment, `none` where its transfer did not arrive. -/
structure Inbound where
  event : Event
  paths : List (Option String)
  deriving DecidableEq, Repr

structure Plugin where
  spool : Spool
  /-- The files of the connection that no event has named yet, by transfer. -/
  received : String → Option String
  queue : List Inbound
  /-- The paths that Claude Code was given, with what the files held, until they are swept. -/
  handed : List (String × Bytes)

/-- What happens to the plugin. -/
inductive Act
  /-- A line of a transfer, with the error of the file operation that fails at it, if one does. -/
  | file (piece : Piece) (fault : Option String)
  | event (event : Event)
  /-- The pump notifies Claude Code of the next event. -/
  | hand
  /-- The connection is lost, and the next one begins. -/
  | lost (transfers : List String)
  /-- The plugin is killed and started again. -/
  | restart
  | sweep (path : String)
  deriving DecidableEq, Repr

/-- The receiver of a connection.  The daemon caps the size. -/
def newReceiver (inbox : String) : Receiver := .new inbox "" (2 ^ 64 - 1)

namespace Plugin

def start (inbox : String) (files : String → Option Bytes) : Plugin where
  spool := ⟨newReceiver inbox, files⟩
  received _ := none
  queue := []
  handed := []

def fileEnd (s : Plugin) (fault : Option String) (last : FileEnd) : Plugin :=
  match s.spool.end last fault with
  | (.ok done, spool) =>
    { s with
      spool := spool
      received := Function.update s.received done.header.transfer (some done.path) }
  | (.error _, spool) => { s with spool := spool }

def file (c : Crates) (s : Plugin) (fault : Option String) : Piece → Plugin
  | .header header => { s with spool := (s.spool.begin c header fault).2 }
  | .chunk data => { s with spool := (s.spool.chunk c data fault).2 }
  | .end last => s.fileEnd fault last

/-- Each attachment takes its file. -/
def takePaths (received : String → Option String) :
    List Attachment → List (Option String) × (String → Option String)
  | [] => ([], received)
  | a :: attachments =>
    let (paths, rest) := takePaths (Function.update received a.transfer none) attachments
    (received a.transfer :: paths, rest)

def event (s : Plugin) (event : Event) : Plugin :=
  let (paths, received) := takePaths s.received event.attachments
  { s with received := received, queue := s.queue ++ [⟨event, paths⟩] }

/-- The paths that the next event names. -/
def nextPaths (s : Plugin) : List String :=
  s.queue.head?.elim [] fun inbound ↦ inbound.paths.filterMap id

def hand (s : Plugin) : Plugin :=
  { s with
    queue := s.queue.tail
    handed := s.handed ++ s.nextPaths.filterMap fun path ↦ (s.spool.files path).map (path, ·) }

def lost (s : Plugin) (transfers : List String) : Plugin :=
  { s with
    spool := ⟨newReceiver s.spool.receiver.dir, (s.spool.abortAll transfers).files⟩
    received := fun _ ↦ none }

/-- Nothing is aborted: partial files stay. -/
def restart (s : Plugin) : Plugin :=
  { s with
    spool := ⟨newReceiver s.spool.receiver.dir, s.spool.files⟩
    received := fun _ ↦ none
    queue := [] }

def sweep (s : Plugin) (path : String) : Plugin :=
  { s with spool := s.spool.removeFile path, handed := s.handed.filter (·.1 ≠ path) }

def step (c : Crates) (s : Plugin) : Act → Plugin
  | .file piece fault => s.file c fault piece
  | .event event => s.event event
  | .hand => s.hand
  | .lost transfers => s.lost transfers
  | .restart => s.restart
  | .sweep path => s.sweep path

/-- `abort_all` goes over the keys of the table. -/
def Step (c : Crates) (s : Plugin) (a : Act) (t : Plugin) : Prop :=
  (∀ transfers, a = .lost transfers → (Call.abortAll transfers).Lists s.spool) ∧ t = s.step c a

/-- Every file that Claude Code was given is there, as it was then. -/
def Whole (s : Plugin) : Prop :=
  ∀ path bytes, (path, bytes) ∈ s.handed → s.spool.files path = some bytes

/-- No open transfer writes to the path. -/
def Closed (s : Spool) (path : String) : Prop :=
  ∀ transfer o, s.receiver.openTransfers transfer = some o → o.path ≠ path

/-- A header that is accepted is not for a file that Claude Code was given, and no path is given
while a transfer writes to it. -/
def Spares (c : Crates) (s : Plugin) : Act → Prop
  | .file (.header header) fault =>
    s.spool.receiver.openTransfers header.transfer = none → fault = none →
      ∀ p ∈ s.handed, s.spool.receiver.pathFor c header ≠ p.1
  | .hand => ∀ path ∈ s.nextPaths, Closed s.spool path
  | _ => True

/-! ## What a step leaves alone -/

/-- A path that no transfer writes to has what it had. -/
structure Keeps (path : String) (s t : Spool) : Prop where
  closed : Closed t path
  files : t.files path = s.files path

namespace Keeps

variable {c : Crates} {path : String} {s : Spool}

theorem refl (h : Closed s path) : Keeps path s s := ⟨h, rfl⟩

theorem trans {t u : Spool} (h : Keeps path s t) (k : Keeps path t u) : Keeps path s u :=
  ⟨k.closed, k.files.trans h.files⟩

theorem close (h : Closed s path) (transfer : String) : Keeps path s (s.close transfer) where
  closed := by
    intro transfer' o ho
    rw [Spool.openTransfers_close] at ho
    by_cases heq : transfer' = transfer
    · rw [heq, Function.update_self] at ho
      cases ho
    · rw [Function.update_of_ne heq] at ho
      exact h transfer' o ho
  files := rfl

theorem removeFile (h : Closed s path) {other : String} (hne : other ≠ path) :
    Keeps path s (s.removeFile other) where
  closed := h
  files := Function.update_of_ne (Ne.symm hne) ..

theorem forget (h : Closed s path) {transfer : String} {o : Open}
    (ho : s.receiver.openTransfers transfer = some o) :
    Keeps path s ((s.close transfer).removeFile o.path) :=
  have hclose := close h transfer
  hclose.trans (removeFile hclose.closed (h transfer o ho))

theorem discard (h : Closed s path) (transfer : String) : Keeps path s (s.discard transfer) := by
  cases ho : s.receiver.openTransfers transfer with
  | none =>
    rw [s.discard_of_none ho]
    exact .refl h
  | some o =>
    rw [s.discard_eq ho]
    exact forget h ho

theorem abortAll (h : Closed s path) (transfers : List String) :
    Keeps path s (s.abortAll transfers) := by
  induction transfers generalizing s with
  | nil => exact .refl h
  | cons transfer rest ih =>
    have hdiscard := discard h transfer
    exact hdiscard.trans (ih hdiscard.closed)

theorem put (h : Closed s path) {transfer : String} {o : Open} (ho : o.path ≠ path)
    (bytes : Option Bytes) : Keeps path s (s.put transfer o bytes) where
  closed := by
    intro transfer' o' ho'
    rw [Spool.openTransfers_put] at ho'
    by_cases heq : transfer' = transfer
    · rw [heq, Function.update_self] at ho'
      obtain rfl := Option.some.inj ho'
      exact ho
    · rw [Function.update_of_ne heq] at ho'
      exact h transfer' o' ho'
  files := Function.update_of_ne (Ne.symm ho) ..

theorem begin (h : Closed s path) {header : FileHeader} {fault : Option String}
    (hne : s.receiver.openTransfers header.transfer = none → fault = none →
      s.receiver.pathFor c header ≠ path) : Keeps path s (s.begin c header fault).2 := by
  unfold Spool.begin
  split
  · exact .refl h
  next hfree =>
    split
    · exact .refl h
    · split
      · exact .refl h
      · exact put h (hne (Option.not_isSome_iff_eq_none.mp hfree) rfl) (some [])

theorem chunk (h : Closed s path) (data : FileChunk) (fault : Option String) :
    Keeps path s (s.chunk c data fault).2 := by
  rcases s.chunk_cases c data fault with
    ⟨err, hchunk, -⟩ | ⟨o, ho, ⟨err, hchunk, -⟩ | ⟨bytes, -, -, hchunk⟩⟩
  · rw [hchunk]
    exact .refl h
  · rw [hchunk]
    exact discard h data.transfer
  · rw [hchunk]
    exact put h (o := { o with received := o.received + bytes.length }) (h data.transfer o ho) _

theorem «end» (h : Closed s path) (last : FileEnd) (fault : Option String) :
    Keeps path s (s.end last fault).2 := by
  rcases s.end_cases last fault with ⟨-, hend⟩ | ⟨o, ho, ⟨-, err, hend, -⟩ | ⟨-, -, hend⟩⟩
  · rw [hend]
    exact .refl h
  · rw [hend]
    exact forget h ho
  · rw [hend]
    exact close h last.transfer

end Keeps

/-! ## Runs -/

theorem fileEnd_eq (s : Plugin) (fault : Option String) (last : FileEnd) :
    (s.fileEnd fault last).spool = (s.spool.end last fault).2 ∧
      (s.fileEnd fault last).handed = s.handed := by
  unfold fileEnd
  split
  · next h =>
    rw [h]
    exact ⟨rfl, rfl⟩
  · next h =>
    rw [h]
    exact ⟨rfl, rfl⟩

theorem handed_file (c : Crates) (s : Plugin) (fault : Option String) (piece : Piece) :
    (s.file c fault piece).handed = s.handed := by
  cases piece with
  | header header => rfl
  | chunk data => rfl
  | «end» last => exact (s.fileEnd_eq fault last).2

/-- What holds along a run: the files that were handed are whole, and no transfer writes to them. -/
structure Safe (s : Plugin) : Prop where
  whole : s.Whole
  closed : ∀ p ∈ s.handed, Closed s.spool p.1

namespace Safe

variable {c : Crates} {s : Plugin}

/-- A step that hands nothing over, and keeps the files that were. -/
theorem keeps (h : s.Safe) {t : Plugin} (hhanded : t.handed = s.handed)
    (hkeeps : ∀ p ∈ s.handed, Keeps p.1 s.spool t.spool) : t.Safe where
  whole := by
    intro path bytes hmem
    rw [hhanded] at hmem
    rw [(hkeeps _ hmem).files]
    exact h.whole path bytes hmem
  closed := by
    intro p hp
    rw [hhanded] at hp
    exact (hkeeps p hp).closed

theorem file (h : s.Safe) {piece : Piece} {fault : Option String}
    (hspares : s.Spares c (.file piece fault)) : (s.file c fault piece).Safe := by
  apply h.keeps (s.handed_file c fault piece)
  intro p hp
  have hclosed := h.closed p hp
  cases piece with
  | header header => exact .begin hclosed fun hfree hfault ↦ hspares hfree hfault p hp
  | chunk data => exact .chunk hclosed data fault
  | «end» last =>
    rw [show (s.file c fault (.end last)).spool = _ from (s.fileEnd_eq fault last).1]
    exact .end hclosed last fault

theorem hand (h : s.Safe) (hspares : s.Spares c .hand) : s.hand.Safe where
  whole := by
    intro path bytes hmem
    rcases List.mem_append.mp hmem with hold | hnew
    · exact h.whole path bytes hold
    · obtain ⟨path', -, hp⟩ := List.mem_filterMap.mp hnew
      obtain ⟨bytes', hfile, hp⟩ := Option.map_eq_some_iff.mp hp
      obtain ⟨rfl, rfl⟩ := Prod.mk.inj hp
      exact hfile
  closed := by
    intro p hp
    rcases List.mem_append.mp hp with hold | hnew
    · exact h.closed p hold
    · obtain ⟨path, hpath, hp⟩ := List.mem_filterMap.mp hnew
      obtain ⟨bytes, -, rfl⟩ := Option.map_eq_some_iff.mp hp
      exact hspares path hpath

/-- The next connection begins with no transfer. -/
theorem closed_new (inbox : String) (files : String → Option Bytes) (path : String) :
    Closed ⟨newReceiver inbox, files⟩ path := by
  intro transfer o ho
  cases ho

theorem lost (h : s.Safe) (transfers : List String) : (s.lost transfers).Safe := by
  apply h.keeps (t := s.lost transfers) rfl
  intro p hp
  exact ⟨closed_new _ _ p.1, (Keeps.abortAll (h.closed p hp) transfers).files⟩

theorem restart (h : s.Safe) : s.restart.Safe := by
  apply h.keeps (t := s.restart) rfl
  intro p hp
  exact ⟨closed_new _ _ p.1, rfl⟩

theorem sweep (h : s.Safe) (path : String) : (s.sweep path).Safe where
  whole := by
    intro path' bytes hmem
    obtain ⟨hmem, hne⟩ := List.mem_filter.mp hmem
    rw [show (s.sweep path).spool.files path' = _ from
      Function.update_of_ne (of_decide_eq_true hne) ..]
    exact h.whole path' bytes hmem
  closed := fun p hp ↦ h.closed p (List.mem_of_mem_filter hp)

theorem step (h : s.Safe) {a : Act} (hspares : s.Spares c a) : (s.step c a).Safe := by
  cases a with
  | file piece fault => exact h.file hspares
  | event event => exact ⟨h.whole, h.closed⟩
  | hand => exact h.hand hspares
  | lost transfers => exact h.lost transfers
  | restart => exact h.restart
  | sweep path => exact h.sweep path

end Safe

/-- Where no transfer begins on a path that was handed, and none is open on a path that is handed,
what Claude Code was given stays whole over every connection. -/
theorem whole_of_spares {c : Crates} {inbox : String} {files : String → Option Bytes}
    {acts : List Act} {s : Plugin}
    (hrun : Lts.Run (fun s a t ↦ Step c s a t ∧ s.Spares c a) (start inbox files) acts s) :
    s.Whole := by
  have hstart : (start inbox files).Safe := ⟨fun _ _ ↦ nofun, fun _ ↦ nofun⟩
  have hsafe : s.Safe := by
    apply hrun.invariant (I := Safe) (P := fun _ ↦ True) _ hstart fun _ _ ↦ trivial
    rintro s a t h - ⟨⟨-, rfl⟩, hspares⟩
    exact h.step hspares
  exact hsafe.whole

/-- Otherwise the file goes: a header that is accepted for it empties it, and with the connection
it is lost. -/
theorem files_lost_of_header {c : Crates} {s : Plugin} {header : FileHeader}
    (hfree : s.spool.receiver.openTransfers header.transfer = none)
    (hsize : header.size ≤ s.spool.receiver.maxBytes) {transfers : List String}
    (hlists : (Call.abortAll transfers).Lists (s.file c none (.header header)).spool) :
    ((s.file c none (.header header)).lost transfers).spool.files
      (s.spool.receiver.pathFor c header) = none := by
  have hbegin : (s.spool.begin c header none).2 =
      s.spool.put header.transfer ⟨header, s.spool.receiver.pathFor c header, 0⟩ (some []) := by
    unfold Spool.begin
    rw [if_neg (by simp [hfree]), if_neg (by omega)]
    rfl
  have hopen : (s.file c none (.header header)).spool.receiver.openTransfers header.transfer =
      some ⟨header, s.spool.receiver.pathFor c header, 0⟩ := by
    show (s.spool.begin c header none).2.receiver.openTransfers header.transfer = _
    rw [hbegin, Spool.openTransfers_put, Function.update_self]
  have hsettles := (s.file c none (.header header)).spool.settles c
  exact (hsettles.aborted transfers hlists header.transfer).2 _ hopen

def photoHeader : FileHeader := ⟨"e-1", "n", "text/plain", 1⟩

/-- A message with an attachment of one byte. -/
def photo : Event where
  kind := .message
  person := "Bob"
  role := .owner
  sender := "@bob:silta.test"
  roomId := "!a:silta.test"
  room := .dm
  eventId := "$e"
  ts := "2026-01-01T00:00:00Z"
  inReplyTo := none
  thread := none
  reactsTo := none
  text := ""
  transcribed := false
  attachments := [⟨"e-1", "n", "text/plain", 1⟩]

def delivery : List Act :=
  [.file (.header photoHeader) none, .file (.chunk ⟨"e-1", "AQ=="⟩) none,
    .file (.end ⟨"e-1"⟩) none, .event photo]

def given : Plugin := delivery.foldl (step base64Crates) (start "/inbox" fun _ ↦ none)

theorem given_openTransfers : given.spool.receiver.openTransfers = fun _ ↦ none := by
  funext transfer
  by_cases heq : transfer = "e-1"
  · rw [heq]
    decide +kernel
  · show Function.update (Function.update (Function.update _ "e-1" _) "e-1" _) "e-1" _ transfer = _
    rw [Function.update_of_ne heq, Function.update_of_ne heq, Function.update_of_ne heq]
    rfl

theorem run_hand : Lts.Run (fun s a t ↦ Step base64Crates s a t ∧ s.Spares base64Crates a)
    (start "/inbox" fun _ ↦ none) (delivery ++ [.hand]) given.hand := by
  have hnone : ∀ p ∈ ([] : List (String × Bytes)), (newReceiver "/inbox").pathFor base64Crates
      photoHeader ≠ p.1 := fun _ ↦ nofun
  have hnil : Lts.Run (fun s a t ↦ Step base64Crates s a t ∧ s.Spares base64Crates a)
      (start "/inbox" fun _ ↦ none) [] _ := .nil _
  have hheader := hnil.snoc (l := .file (.header photoHeader) none)
    ⟨⟨nofun, rfl⟩, fun _ _ ↦ hnone⟩
  have hchunk := hheader.snoc (l := .file (.chunk ⟨"e-1", "AQ=="⟩) none) ⟨⟨nofun, rfl⟩, trivial⟩
  have hend := hchunk.snoc (l := .file (.end ⟨"e-1"⟩) none) ⟨⟨nofun, rfl⟩, trivial⟩
  have hevent := hend.snoc (l := .event photo) ⟨⟨nofun, rfl⟩, trivial⟩
  refine hevent.snoc (l := .hand) ⟨⟨nofun, rfl⟩, fun path _ transfer o ho ↦ ?_⟩
  have hclosed : given.spool.receiver.openTransfers transfer = none :=
    congrFun given_openTransfers transfer
  cases hclosed.symm.trans ho

/-- The attachment that was handed over is there. -/
theorem whole_of_spares_photo : given.hand.spool.files "/inbox/e-1-n" = some [1] :=
  whole_of_spares run_hand "/inbox/e-1-n" [1] (by decide +kernel)

/-- The connection is lost before the acknowledgement, and the next one in the redelivery. -/
theorem not_whole_photo : ¬∀ acts s,
    Lts.Run (Step base64Crates) (start "/inbox" fun _ ↦ none) acts s → s.Whole := by
  intro h
  have hrun : Lts.Run (Step base64Crates) (start "/inbox" fun _ ↦ none) (delivery ++ [.hand])
      given.hand := run_hand.mono fun _ _ _ hstep ↦ hstep.1
  have hlost := hrun.snoc (l := .lost []) ⟨fun transfers heq transfer ↦ by
    obtain rfl := Act.lost.inj heq
    rw [show given.hand.spool.receiver.openTransfers transfer = none from
      congrFun given_openTransfers transfer]
    simp, rfl⟩
  have hheader := hlost.snoc (l := .file (.header photoHeader) none) ⟨nofun, rfl⟩
  have hlists : (Call.abortAll ["e-1"]).Lists
      ((given.hand.lost []).file base64Crates none (.header photoHeader)).spool := by
    intro transfer
    show _ ↔ (Function.update (fun _ ↦ none) "e-1" _ transfer).isSome = true
    by_cases heq : transfer = "e-1"
    · simp [heq]
    · simp [heq]
  have hagain := hheader.snoc (l := .lost ["e-1"]) ⟨fun transfers heq ↦ by
    obtain rfl := Act.lost.inj heq
    exact hlists, rfl⟩
  have hgone := files_lost_of_header (s := given.hand.lost []) rfl (by decide) hlists
  have hwhole := h _ _ hagain "/inbox/e-1-n" [1] (by decide +kernel)
  have hpath : (given.hand.lost []).spool.receiver.pathFor base64Crates photoHeader =
      "/inbox/e-1-n" := by decide +kernel
  rw [hpath] at hgone
  exact Option.some_ne_none _ (hwhole.symm.trans hgone)

end Plugin

end Inbox

end Silta
