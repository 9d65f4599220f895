import Mathlib.Algebra.Order.BigOperators.Group.List
import Mathlib.Algebra.Order.Group.Nat
import Silta.Inbox
import Silta.LineCut

/-!
# From the spool to the inbox

What the daemon writes for an event, the files of the spool before the line of the event, and what
the plugin makes of the stream: however it is cut into reads, and wherever it ends, the events come
in their order, each with the files that were there.
-/

namespace Silta

namespace Passage

open ClientLines (LineError)
open Inbox (Plugin newReceiver)
open LineCut (Objects Rest lineOf cut arrived)
open LineReader (Reader Wake streamOf utf8)
open Transfer (Crates Bytes Piece Open Spool chunks send)

/-! ## The two sides -/

def wrap : Piece → DaemonMessage
  | .header header => .file header
  | .chunk chunk => .chunk chunk
  | .end last => .fileEnd last

def headerOf (a : Attachment) : FileHeader := ⟨a.transfer, a.name, a.mime, a.size⟩

/-- What the writer of a connection takes from its queue; an event with the spool as it is then. -/
inductive Sent
  | event (event : Event) (files : String → Option Bytes)
  | result (result : CmdResult)

/-- The lines of a transfer.  An attachment that is missing from the spool has none. -/
def streamed (c : Crates) (reads : Nat → Nat) (files : String → Option Bytes) (a : Attachment) :
    List DaemonMessage :=
  match files a.transfer with
  | some content => (send c reads (headerOf a) content).map wrap
  | none => []

def writeEvent (c : Crates) (reads : Nat → Nat) (event : Event) (files : String → Option Bytes) :
    List DaemonMessage :=
  event.attachments.flatMap (streamed c reads files) ++ [.event event]

def messages (c : Crates) (reads : Nat → Nat) : Sent → List DaemonMessage
  | .event event files => writeEvent c reads event files
  | .result result => [.result result]

/-- A message in the loop of the plugin. -/
def receive (c : Crates) (s : Plugin) : DaemonMessage → Plugin
  | .event event => s.event event
  | .file header => s.file c none (.header header)
  | .chunk chunk => s.file c none (.chunk chunk)
  | .fileEnd last => s.file c none (.end last)
  | .welcome _ | .error _ | .result _ => s

/-- The loop of the plugin over the lines that it reads: a line that it cannot parse is ignored, and
an error of the daemon, of the reading or the end of the stream ends it. -/
def serve (c : Crates) (s : Plugin) : List (Except LineError (Option String)) → Plugin
  | .ok (some line) :: rest =>
    match parseDaemonLine compact line with
    | some (.error _) => s
    | some message => serve c (receive c s message) rest
    | none => serve c s rest
  | _ => s

/-! ## A cut stream -/

theorem objects : Objects DaemonMessage.toJson where
  obj message := by cases message <;> exact ⟨_, rfl⟩
  within message := message.within 121

section Reading

variable {c : Crates} {max : Nat}

/-- Whole lines are taken as they were written. -/
theorem serve_lines {ms : List DaemonMessage} (hr : ∀ m ∈ ms, m.InRange)
    (hno : ∀ m ∈ ms, ∀ e, m ≠ .error e) (s : Plugin)
    (rest : List (Except LineError (Option String))) :
    serve c s ((ms.map fun m ↦ .ok (some (lineOf DaemonMessage.toJson m))) ++ rest) =
      serve c (ms.foldl (receive c) s) rest := by
  induction ms generalizing s with
  | nil => rfl
  | cons m ms ih =>
    have hm := List.mem_cons_self (a := m) (l := ms)
    have hparse : parseDaemonLine compact (lineOf DaemonMessage.toJson m) = some m := by
      rw [parseDaemonLine, objects.tree_lineOf, Option.bind_some,
        DaemonMessage.read_toJson (hr m hm)]
    have hread : serve c s (((m :: ms).map fun m ↦
        .ok (some (lineOf DaemonMessage.toJson m))) ++ rest) =
        serve c (receive c s m) ((ms.map fun m ↦
          .ok (some (lineOf DaemonMessage.toJson m))) ++ rest) := by
      rw [List.map_cons, List.cons_append, serve, hparse]
      split
      · next e heq => exact absurd (Option.some.inj heq) (hno m hm e)
      · next message _ heq => rw [Option.some.inj heq]
      · next heq => cases heq
    rw [hread, ih (fun m' h ↦ hr m' (List.mem_cons_of_mem m h))
      (fun m' h ↦ hno m' (List.mem_cons_of_mem m h)), List.foldl_cons]

/-- What comes after the lines changes nothing. -/
theorem serve_rest {rest : List (Except LineError (Option String))} (h : Rest rest) (s : Plugin) :
    serve c s rest = s := by
  cases h with
  | «end» => rfl
  | error err => rfl
  | part line hline =>
    have hparse : parseDaemonLine compact line = none := by
      rw [parseDaemonLine]
      cases htree : compact.tree line with
      | none => rfl
      | some value =>
        cases value with
        | obj fields => exact absurd htree (hline fields)
        | _ => rfl
    rw [serve, hparse]
    rfl

/-- However the stream is cut into reads, and wherever it ends, what the plugin takes are the first
of the messages: those whose lines have come, up to one that is too long. -/
theorem serve_cut {ms : List DaemonMessage} (hr : ∀ m ∈ ms, m.InRange)
    (hno : ∀ m ∈ ms, ∀ e, m ≠ .error e) {n j : Nat} {wakes : List Wake}
    (hstream : streamOf wakes = cut DaemonMessage.toJson ms n j) (s : Plugin) :
    ∃ k, serve c s ((Reader.withMax max).results wakes) = (ms.take k).foldl (receive c) s ∧
      ((∀ m ∈ arrived DaemonMessage.toJson ms n j,
        (utf8 (lineOf DaemonMessage.toJson m)).length ≤ max) →
          ms.take k = arrived DaemonMessage.toJson ms n j) := by
  obtain ⟨k, rest, hresults, hrest, hall⟩ := objects.results_cut max hstream
  refine ⟨k, ?_, hall⟩
  rw [hresults, serve_lines (fun m h ↦ hr m (List.mem_of_mem_take h))
    (fun m h ↦ hno m (List.mem_of_mem_take h)), serve_rest hrest]

end Reading

/-! ## One transfer -/

section Transfers

variable {c : Crates} {reads : Nat → Nat} {s : Spool} {header : FileHeader}
  {transfer path : String} {bytes : Option Bytes}

/-- The chunks of a transfer that is not open are refused. -/
theorem foldl_chunks_closed (hfree : s.receiver.openTransfers transfer = none) (left : Bytes) :
    (chunks c reads transfer left).foldl (fun s data ↦ (s.chunk c data none).2) s = s := by
  induction hlength : left.length using Nat.strong_induction_on generalizing left with
  | _ n ih =>
    subst hlength
    by_cases hnil : left = []
    · rw [hnil, Transfer.chunks_nil, List.foldl_nil]
    · have hpos := List.length_pos_iff.mpr hnil
      have hbytes : 0 < Transfer.chunkBytes := by decide
      have hrefused : (s.chunk c ⟨transfer, c.encode (left.take Transfer.chunkBytes)⟩ none).2 =
          s := by
        unfold Spool.chunk
        simp only [hfree]
      rw [Transfer.chunks_of_ne_nil c reads transfer hnil, List.foldl_cons, hrefused]
      exact ih _ (by rw [List.length_drop]; omega) _ rfl

/-- What the chunks of a file make of the transfer: it grows by the file, unless that is more than
it announced. -/
theorem foldl_chunks_put (hcodec : ∀ bytes, c.decode (c.encode bytes) = .ok bytes)
    (hfree : s.receiver.openTransfers header.transfer = none) {done : Nat} {written : Bytes}
    (hdone : done ≤ header.size) (left : Bytes) :
    (chunks c reads header.transfer left).foldl (fun s data ↦ (s.chunk c data none).2)
        (s.put header.transfer ⟨header, path, done⟩ (some written)) =
      if done + left.length ≤ header.size then
        s.put header.transfer ⟨header, path, done + left.length⟩ (some (written ++ left))
      else s.write path none := by
  induction hlength : left.length using Nat.strong_induction_on generalizing left done written with
  | _ n ih =>
    subst hlength
    by_cases hnil : left = []
    · subst hnil
      rw [Transfer.chunks_nil, List.foldl_nil, List.length_nil, Nat.add_zero, if_pos hdone,
        List.append_nil]
    · have hpos := List.length_pos_iff.mpr hnil
      have hbytes : 0 < Transfer.chunkBytes := by decide
      have hsum : (left.take Transfer.chunkBytes).length +
          (left.drop Transfer.chunkBytes).length = left.length := by
        rw [← List.length_append, List.take_append_drop]
      have hless : (left.drop Transfer.chunkBytes).length < left.length := by
        rw [List.length_drop]
        omega
      rw [Transfer.chunks_of_ne_nil c reads header.transfer hnil, List.foldl_cons,
        Spool.chunk_put hcodec hfree]
      split
      · next hover =>
        have hfree' : (s.write path none).receiver.openTransfers header.transfer = none := hfree
        rw [foldl_chunks_closed hfree', if_neg (by omega)]
      · next hfits =>
        rw [ih _ hless (Nat.le_of_not_lt hfits) _ rfl, List.append_assoc, List.take_append_drop,
          Nat.add_assoc, hsum]

theorem foldl_receive_chunks (s : Plugin) (list : List FileChunk) :
    (list.map DaemonMessage.chunk).foldl (receive c) s =
      { s with spool := list.foldl (fun s data ↦ (s.chunk c data none).2) s.spool } := by
  induction list generalizing s with
  | nil => rfl
  | cons data list ih => exact ih _

theorem fileEnd_put {s : Plugin} (hfree : s.spool.receiver.openTransfers header.transfer = none)
    (received : Nat) :
    ({ s with spool := s.spool.put header.transfer ⟨header, path, received⟩ bytes } :
        Plugin).fileEnd none ⟨header.transfer⟩ =
      if received = header.size then
        { s with
          spool := s.spool.write path bytes
          received := Function.update s.received header.transfer (some path) }
      else { s with spool := s.spool.write path none } := by
  unfold Plugin.fileEnd
  simp only [Spool.end_put hfree]
  by_cases hsize : received = header.size
  · rw [if_pos hsize, if_pos hsize]
  · rw [if_neg hsize, if_neg hsize]

variable (reads) in
/-- A transfer that is not interrupted: the plugin has the file if it is as large as announced, and
otherwise nothing is left of it. -/
theorem foldl_send {s : Plugin} (hcodec : ∀ bytes, c.decode (c.encode bytes) = .ok bytes)
    (hfree : s.spool.receiver.openTransfers header.transfer = none)
    (hsize : header.size ≤ s.spool.receiver.maxBytes) (content : Bytes) :
    ((send c reads header content).map wrap).foldl (receive c) s =
      if content.length = header.size then
        { s with
          spool := s.spool.write (s.spool.receiver.pathFor c header) (some content)
          received := Function.update s.received header.transfer
            (some (s.spool.receiver.pathFor c header)) }
      else { s with spool := s.spool.write (s.spool.receiver.pathFor c header) none } := by
  have hbegin : (s.spool.begin c header none).2 =
      s.spool.put header.transfer ⟨header, s.spool.receiver.pathFor c header, 0⟩ (some []) := by
    rw [Spool.begin_free hfree, if_neg (by omega)]
  have hlines : (send c reads header content).map wrap = .file header ::
      ((chunks c reads header.transfer content).map DaemonMessage.chunk ++
        [.fileEnd ⟨header.transfer⟩]) := by
    rw [send, List.cons_append, List.map_cons, List.map_append, List.map_map]
    rfl
  rw [hlines, List.foldl_cons, List.foldl_append, foldl_receive_chunks]
  show Plugin.fileEnd { s with
    spool := (chunks c reads header.transfer content).foldl
      (fun s data ↦ (s.chunk c data none).2) (s.spool.begin c header none).2 } none
        ⟨header.transfer⟩ = _
  rw [hbegin, foldl_chunks_put hcodec hfree (Nat.zero_le _), Nat.zero_add, List.nil_append]
  by_cases hfits : content.length ≤ header.size
  · rw [if_pos hfits, fileEnd_put hfree]
  · -- what is over the announced size was dropped with the transfer
    have hfree' : (s.spool.write (s.spool.receiver.pathFor c header)
        none).receiver.openTransfers header.transfer = none := hfree
    rw [if_neg hfits, if_neg (by omega)]
    unfold Plugin.fileEnd Spool.end
    simp only [hfree']

end Transfers

/-! ## The files of an event -/

/-- Where the plugin puts the file of an attachment. -/
def pathOf (c : Crates) (inbox : String) (a : Attachment) : String :=
  (newReceiver inbox).pathFor c (headerOf a)

/-- The path that comes with an attachment: where its file was in the spool, as large as it says. -/
def given (c : Crates) (inbox : String) (files : String → Option Bytes) (a : Attachment) :
    Option String :=
  (files a.transfer).bind fun content ↦
    if content.length = a.size then some (pathOf c inbox a) else none

/-- The attachments of an event keep apart. -/
structure Fine (c : Crates) (inbox : String) (attachments : List Attachment) : Prop where
  transfers : (attachments.map Attachment.transfer).Nodup
  paths : (attachments.map (pathOf c inbox)).Nodup

/-- What the lines of these attachments make of the plugin. -/
structure Took (c : Crates) (inbox : String) (files : String → Option Bytes)
    (attachments : List Attachment) (s t : Plugin) : Prop where
  receiver : t.spool.receiver = newReceiver inbox
  queue : t.queue = s.queue
  received : ∀ a ∈ attachments,
    t.received a.transfer = (given c inbox files a).or (s.received a.transfer)
  others : ∀ transfer ∉ attachments.map Attachment.transfer,
    t.received transfer = s.received transfer
  elsewhere : ∀ path, path ∉ attachments.map (pathOf c inbox) →
    t.spool.files path = s.spool.files path
  content : ∀ a ∈ attachments, ∀ content, files a.transfer = some content →
    content.length = a.size → t.spool.files (pathOf c inbox a) = some content

section Attachments

variable {c : Crates} (reads : Nat → Nat) {inbox : String} (files : String → Option Bytes)

theorem took_one (hcodec : ∀ bytes, c.decode (c.encode bytes) = .ok bytes) {a : Attachment}
    (hsize : a.InRange) {s : Plugin} (hreceiver : s.spool.receiver = newReceiver inbox) :
    Took c inbox files [a] s ((streamed c reads files a).foldl (receive c) s) := by
  unfold streamed
  cases hfile : files a.transfer with
  | none =>
    refine ⟨hreceiver, rfl, fun b hb ↦ ?_, fun _ _ ↦ rfl, fun _ _ ↦ rfl,
      fun b hb content hcontent ↦ ?_⟩
    · rw [List.mem_singleton.mp hb, given, hfile]
      rfl
    · rw [List.mem_singleton.mp hb, hfile] at hcontent
      cases hcontent
  | some content =>
    have hfree : s.spool.receiver.openTransfers (headerOf a).transfer = none := by
      rw [hreceiver]
      rfl
    have hmax : (headerOf a).size ≤ s.spool.receiver.maxBytes := by
      rw [hreceiver]
      exact Nat.le_sub_one_of_lt hsize
    have hpathFor : s.spool.receiver.pathFor c (headerOf a) = pathOf c inbox a := by
      rw [hreceiver, pathOf]
    dsimp only
    rw [foldl_send reads hcodec hfree hmax content, hpathFor]
    by_cases hequal : content.length = (headerOf a).size
    · rw [if_pos hequal]
      have hgiven : given c inbox files a = some (pathOf c inbox a) := by
        rw [given, hfile, Option.bind_some]
        exact if_pos hequal
      refine ⟨Spool.receiver_write.trans hreceiver, rfl, fun b hb ↦ ?_, fun transfer hnot ↦ ?_,
        fun path hpath ↦ ?_, fun b hb content' hcontent _ ↦ ?_⟩
      · rw [List.mem_singleton.mp hb, hgiven]
        exact Function.update_self ..
      · rw [List.map_singleton, List.mem_singleton] at hnot
        exact Function.update_of_ne hnot ..
      · rw [List.map_singleton, List.mem_singleton] at hpath
        rw [Spool.files_write, Function.update_of_ne hpath]
      · obtain rfl := List.mem_singleton.mp hb
        rw [Spool.files_write, Function.update_self, ← hfile, hcontent]
    · rw [if_neg hequal]
      refine ⟨Spool.receiver_write.trans hreceiver, rfl, fun b hb ↦ ?_, fun _ _ ↦ rfl,
        fun path hpath ↦ ?_, fun b hb content' hcontent hsame ↦ ?_⟩
      · have hdiffers : ¬ content.length = a.size := hequal
        rw [List.mem_singleton.mp hb, given, hfile, Option.bind_some, if_neg hdiffers]
        rfl
      · rw [List.map_singleton, List.mem_singleton] at hpath
        rw [Spool.files_write, Function.update_of_ne hpath]
      · obtain rfl := List.mem_singleton.mp hb
        obtain rfl := Option.some.inj (hfile.symm.trans hcontent)
        exact absurd hsame hequal

theorem took_attachments (hcodec : ∀ bytes, c.decode (c.encode bytes) = .ok bytes)
    {attachments : List Attachment} (hr : ∀ a ∈ attachments, a.InRange)
    (hfine : Fine c inbox attachments) {s : Plugin}
    (hreceiver : s.spool.receiver = newReceiver inbox) :
    Took c inbox files attachments s
      ((attachments.flatMap (streamed c reads files)).foldl (receive c) s) := by
  induction attachments generalizing s with
  | nil => exact ⟨hreceiver, rfl, nofun, fun _ _ ↦ rfl, fun _ _ ↦ rfl, nofun⟩
  | cons a attachments ih =>
    obtain ⟨htransfer, htransfers⟩ := List.nodup_cons.mp hfine.transfers
    obtain ⟨hpath, hpaths⟩ := List.nodup_cons.mp hfine.paths
    have hfirst := took_one reads files hcodec
      (hr a List.mem_cons_self) hreceiver
    have hrest := ih (fun b hb ↦ hr b (List.mem_cons_of_mem a hb)) ⟨htransfers, hpaths⟩
      hfirst.receiver
    rw [List.flatMap_cons, List.foldl_append]
    refine ⟨hrest.receiver, hrest.queue.trans hfirst.queue, fun b hb ↦ ?_, fun transfer hnot ↦ ?_,
      fun path hnot ↦ ?_, fun b hb content hcontent hsame ↦ ?_⟩
    · rcases List.mem_cons.mp hb with rfl | hlater
      · -- no later attachment has its name
        rw [hrest.others _ htransfer]
        exact hfirst.received b List.mem_cons_self
      · have hne : b.transfer ≠ a.transfer := fun heq ↦
          htransfer (heq ▸ List.mem_map_of_mem hlater)
        rw [hrest.received b hlater, hfirst.others _ (by simpa using hne)]
    · rw [List.map_cons, List.mem_cons, not_or] at hnot
      rw [hrest.others _ hnot.2, hfirst.others _ (by simpa using hnot.1)]
    · rw [List.map_cons, List.mem_cons, not_or] at hnot
      rw [hrest.elsewhere path hnot.2, hfirst.elsewhere path (by simpa using hnot.1)]
    · rcases List.mem_cons.mp hb with rfl | hlater
      · rw [hrest.elsewhere _ hpath]
        exact hfirst.content b List.mem_cons_self content hcontent hsame
      · exact hrest.content b hlater content hcontent hsame

/-- The attachments of an event take what was received for them, and leave the rest. -/
theorem takePaths_eq (received : String → Option String) {attachments : List Attachment}
    (h : (attachments.map Attachment.transfer).Nodup) :
    (Plugin.takePaths received attachments).1 =
        attachments.map (fun a ↦ received a.transfer) ∧
      ∀ transfer, (Plugin.takePaths received attachments).2 transfer =
        if transfer ∈ attachments.map Attachment.transfer then none else received transfer := by
  induction attachments generalizing received with
  | nil => exact ⟨rfl, fun transfer ↦ by simp [Plugin.takePaths]⟩
  | cons a attachments ih =>
    obtain ⟨hnot, hnodup⟩ := List.nodup_cons.mp h
    obtain ⟨hpaths, hrest⟩ := ih (Function.update received a.transfer none) hnodup
    constructor
    · rw [Plugin.takePaths, List.map_cons]
      show received a.transfer :: _ = _
      rw [hpaths]
      congr 1
      apply List.map_congr_left
      intro b hb
      rw [Function.update_of_ne]
      rintro heq
      exact hnot (heq ▸ List.mem_map_of_mem hb)
    · intro transfer
      show (Plugin.takePaths (Function.update received a.transfer none) attachments).2 transfer = _
      rw [hrest, List.map_cons]
      by_cases heq : transfer = a.transfer
      · subst heq
        rw [if_neg hnot, if_pos List.mem_cons_self, Function.update_self]
      · simp only [List.mem_cons, heq, false_or, Function.update_of_ne heq]

end Attachments

/-! ## A connection -/

def Sent.InRange : Sent → Prop
  | .event e _ => e.InRange
  | .result r => r.InRange

/-- The attachments of what is sent. -/
def Sent.attachments : Sent → List Attachment
  | .event e _ => e.attachments
  | .result _ => []

/-- What Claude Code is given of what is sent. -/
def Sent.inbound (c : Crates) (inbox : String) : Sent → Option Inbox.Inbound
  | .event e files => some ⟨e, e.attachments.map (given c inbox files)⟩
  | .result _ => none

/-- The plugin between two events. -/
structure Ready (inbox : String) (s : Plugin) : Prop where
  receiver : s.spool.receiver = newReceiver inbox
  received : ∀ transfer, s.received transfer = none

/-- What the messages of an event, or of a result, make of the plugin. -/
structure Passed (c : Crates) (inbox : String) (sent : Sent) (s t : Plugin) : Prop where
  ready : Ready inbox t
  queue : t.queue = s.queue ++ (sent.inbound c inbox).toList
  elsewhere : ∀ path ∉ sent.attachments.map (pathOf c inbox),
    t.spool.files path = s.spool.files path
  content : ∀ event files, sent = .event event files → ∀ a ∈ event.attachments, ∀ path,
    given c inbox files a = some path → t.spool.files path = files a.transfer

section Connection

variable {c : Crates} {reads : Nat → Nat} {inbox : String}

theorem mem_streamed {files : String → Option Bytes} {a : Attachment} {m : DaemonMessage}
    (h : m ∈ streamed c reads files a) :
    m = .file (headerOf a) ∨ (∃ data, m = .chunk data) ∨ m = .fileEnd ⟨a.transfer⟩ := by
  unfold streamed at h
  split at h
  · obtain ⟨piece, hpiece, rfl⟩ := List.mem_map.mp h
    cases piece with
    | header header =>
      left
      have hheader : header = headerOf a := by simpa [send] using hpiece
      rw [hheader]
      rfl
    | chunk data => exact .inr (.inl ⟨data, rfl⟩)
    | «end» last =>
      have hlast : last = ⟨a.transfer⟩ := by simpa [send, headerOf] using hpiece
      exact .inr (.inr (hlast ▸ rfl))
  · cases h

theorem mem_messages {sent : Sent} {m : DaemonMessage} (h : m ∈ messages c reads sent) :
    (∃ result, sent = .result result ∧ m = .result result) ∨
      (∃ event files, sent = .event event files ∧ m = .event event) ∨
        ∃ a ∈ sent.attachments,
          m = .file (headerOf a) ∨ (∃ data, m = .chunk data) ∨ m = .fileEnd ⟨a.transfer⟩ := by
  cases sent with
  | result result => exact .inl ⟨result, rfl, List.mem_singleton.mp h⟩
  | event event files =>
    right
    rcases List.mem_append.mp h with hfile | hevent
    · obtain ⟨a, ha, hm⟩ := List.mem_flatMap.mp hfile
      exact .inr ⟨a, ha, mem_streamed hm⟩
    · exact .inl ⟨event, files, rfl, List.mem_singleton.mp hevent⟩

theorem inRange_messages {sent : Sent} (h : sent.InRange) :
    ∀ m ∈ messages c reads sent, m.InRange := by
  intro m hm
  rcases mem_messages hm with ⟨result, rfl, rfl⟩ | ⟨event, files, rfl, rfl⟩ |
    ⟨a, ha, rfl | ⟨data, rfl⟩ | rfl⟩
  · exact h
  · exact h
  · cases sent with
    | event event files => exact h a ha
    | result result => cases ha
  · trivial
  · trivial

theorem noError_messages (sent : Sent) : ∀ m ∈ messages c reads sent, ∀ e, m ≠ .error e := by
  rintro m hm e rfl
  rcases mem_messages hm with ⟨_, _, heq⟩ | ⟨_, _, _, heq⟩ | ⟨_, _, heq | ⟨_, heq⟩ | heq⟩
  all_goals cases heq

theorem given_eq_some {files : String → Option Bytes} {a : Attachment} {path : String}
    (h : given c inbox files a = some path) :
    path = pathOf c inbox a ∧ ∃ content, files a.transfer = some content ∧
      content.length = a.size := by
  obtain ⟨content, hfile, hpath⟩ := Option.bind_eq_some_iff.mp h
  split at hpath
  · next hsize => exact ⟨(Option.some.inj hpath).symm, content, hfile, hsize⟩
  · cases hpath

variable (reads) in
theorem passed_one (hcodec : ∀ bytes, c.decode (c.encode bytes) = .ok bytes) {sent : Sent}
    (hr : sent.InRange) (hfine : Fine c inbox sent.attachments) {s : Plugin}
    (hready : Ready inbox s) :
    Passed c inbox sent s ((messages c reads sent).foldl (receive c) s) := by
  cases sent with
  | result result =>
    exact ⟨hready, (List.append_nil _).symm, fun _ _ ↦ rfl, fun _ _ heq ↦ (by cases heq)⟩
  | event event files =>
    have hfine : Fine c inbox event.attachments := hfine
    have htook := took_attachments reads files hcodec hr hfine hready.receiver
    rw [messages, writeEvent, List.foldl_append]
    generalize (event.attachments.flatMap (streamed c reads files)).foldl (receive c) s = t
      at htook ⊢
    obtain ⟨hpaths, hrest⟩ := takePaths_eq t.received hfine.transfers
    show Passed c inbox _ s (t.event event)
    refine ⟨⟨htook.receiver, fun transfer ↦ ?_⟩, ?_, htook.elsewhere, ?_⟩
    · refine (hrest transfer).trans ?_
      split
      · rfl
      · next hnot => rw [htook.others transfer hnot, hready.received]
    · show t.queue ++ [⟨event, (Plugin.takePaths t.received event.attachments).1⟩] = _
      rw [hpaths, htook.queue]
      congr 3
      apply List.map_congr_left
      intro a ha
      rw [htook.received a ha, hready.received, Option.or_none]
    · intro event' files' heq a ha path hpath
      obtain ⟨rfl, rfl⟩ := Sent.event.inj heq
      obtain ⟨rfl, content, hfile, hsize⟩ := given_eq_some hpath
      rw [hfile]
      exact htook.content a ha content hfile hsize

/-- What is sent comes in its order, and a file stays until its path is written to again. -/
theorem passed_run (hcodec : ∀ bytes, c.decode (c.encode bytes) = .ok bytes) {sents : List Sent}
    (hr : ∀ sent ∈ sents, sent.InRange) (hfine : ∀ sent ∈ sents, Fine c inbox sent.attachments)
    {s : Plugin} (hready : Ready inbox s) {t : Plugin}
    (ht : (sents.flatMap (messages c reads)).foldl (receive c) s = t) :
    Ready inbox t ∧ t.queue = s.queue ++ sents.filterMap (Sent.inbound c inbox) ∧
      (∀ path, (∀ sent ∈ sents, path ∉ sent.attachments.map (pathOf c inbox)) →
        t.spool.files path = s.spool.files path) ∧
      ∀ earlier event files later, sents = earlier ++ .event event files :: later →
        ∀ a ∈ event.attachments, ∀ path, given c inbox files a = some path →
          (∀ sent ∈ later, path ∉ sent.attachments.map (pathOf c inbox)) →
            t.spool.files path = files a.transfer := by
  induction sents generalizing s with
  | nil =>
    subst ht
    exact ⟨hready, (List.append_nil _).symm, fun _ _ ↦ rfl, fun earlier _ _ _ heq ↦ by
      cases earlier <;> cases heq⟩
  | cons sent sents ih =>
    have hfirst := passed_one reads hcodec (hr sent List.mem_cons_self)
      (hfine sent List.mem_cons_self) hready
    rw [List.flatMap_cons, List.foldl_append] at ht
    obtain ⟨hready', hqueue, helsewhere, hcontent⟩ :=
      ih (fun x hx ↦ hr x (List.mem_cons_of_mem sent hx))
        (fun x hx ↦ hfine x (List.mem_cons_of_mem sent hx)) hfirst.ready ht
    refine ⟨hready', ?_, fun path hnot ↦ ?_,
      fun earlier event files later heq a ha path hpath hnot ↦ ?_⟩
    · rw [hqueue, hfirst.queue, List.append_assoc]
      congr 1
      cases hinbound : sent.inbound c inbox <;> simp [hinbound]
    · rw [helsewhere path fun x hx ↦ hnot x (List.mem_cons_of_mem sent hx)]
      exact hfirst.elsewhere path (hnot sent List.mem_cons_self)
    · cases earlier with
      | nil =>
        -- the first, and none of the later ones writes to the path
        obtain ⟨rfl, rfl⟩ := List.cons.inj heq
        rw [helsewhere path hnot]
        exact hfirst.content event files rfl a ha path hpath
      | cons other earlier =>
        obtain ⟨rfl, rfl⟩ := List.cons.inj heq
        exact hcontent earlier event files later rfl a ha path hpath hnot

/-! ## A connection that is lost -/

/-- Its files stay under the names that it gives them. -/
def Named (inbox : String) (s : Spool) : Prop :=
  s.receiver.dir = inbox ∧ s.receiver.namePrefix = ""

namespace Named

variable {s : Spool}

theorem pathFor (h : Named inbox s) (header : FileHeader) :
    s.receiver.pathFor c header = (newReceiver inbox).pathFor c header := by
  rw [Transfer.Receiver.pathFor, h.1, h.2]
  rfl

theorem discard (h : Named inbox s) (transfer : String) : Named inbox (s.discard transfer) := by
  cases ho : s.receiver.openTransfers transfer with
  | none => rwa [s.discard_of_none ho]
  | some o => rwa [s.discard_eq ho]

theorem begin (h : Named inbox s) (header : FileHeader) :
    Named inbox (s.begin c header none).2 := by
  rcases s.begin_cases c header none with ⟨_, hbegin, -⟩ | ⟨-, hbegin⟩
  · rwa [hbegin]
  · rwa [hbegin]

theorem chunk (h : Named inbox s) (data : FileChunk) : Named inbox (s.chunk c data none).2 := by
  rcases s.chunk_cases c data none with
    ⟨_, hchunk, -⟩ | ⟨_, -, ⟨_, hchunk, -⟩ | ⟨_, -, -, hchunk⟩⟩
  · rwa [hchunk]
  · rw [hchunk]
    exact h.discard data.transfer
  · rwa [hchunk]

theorem «end» (h : Named inbox s) (last : FileEnd) : Named inbox (s.end last none).2 := by
  rcases s.end_cases last none with ⟨-, hend⟩ | ⟨_, -, ⟨-, _, hend, -⟩ | ⟨-, -, hend⟩⟩
  · rwa [hend]
  · rwa [hend]
  · rwa [hend]

end Named

theorem closed_of_ready {s : Plugin} (h : Ready inbox s) (path : String) :
    Inbox.Plugin.Closed s.spool path := by
  intro transfer o ho
  rw [h.receiver] at ho
  cases ho

/-- A path that no header names keeps its file. -/
theorem files_foldl {ms : List DaemonMessage} {s : Plugin} {path : String}
    (hclosed : Inbox.Plugin.Closed s.spool path) (hnamed : Named inbox s.spool)
    (hne : ∀ header, .file header ∈ ms → (newReceiver inbox).pathFor c header ≠ path) :
    (ms.foldl (receive c) s).spool.files path = s.spool.files path := by
  induction ms generalizing s with
  | nil => rfl
  | cons m ms ih =>
    have hstep : Inbox.Plugin.Keeps path s.spool (receive c s m).spool ∧
        Named inbox (receive c s m).spool := by
      have hrefl := Inbox.Plugin.Keeps.refl hclosed
      cases m with
      | welcome _ => exact ⟨hrefl, hnamed⟩
      | error _ => exact ⟨hrefl, hnamed⟩
      | result _ => exact ⟨hrefl, hnamed⟩
      | event event => exact ⟨⟨hclosed, rfl⟩, hnamed⟩
      | file header =>
        refine ⟨.begin hclosed fun _ _ ↦ ?_, hnamed.begin header⟩
        rw [hnamed.pathFor]
        exact hne header List.mem_cons_self
      | chunk data => exact ⟨.chunk hclosed data none, hnamed.chunk data⟩
      | fileEnd last =>
        have hspool : (receive c s (.fileEnd last)).spool = (s.spool.end last none).2 :=
          (s.fileEnd_eq none last).1
        rw [hspool]
        exact ⟨.end hclosed last none, hnamed.end last⟩
    obtain ⟨hkeeps, hnamed'⟩ := hstep
    rw [List.foldl_cons, ih hkeeps.closed hnamed'
      fun header hmem ↦ hne header (List.mem_cons_of_mem m hmem)]
    exact hkeeps.files

/-- Only the line of an event gives Claude Code anything. -/
theorem queue_foldl {ms : List DaemonMessage} {s : Plugin} (hno : ∀ event, .event event ∉ ms) :
    (ms.foldl (receive c) s).queue = s.queue := by
  induction ms generalizing s with
  | nil => rfl
  | cons m ms ih =>
    have hqueue : (receive c s m).queue = s.queue := by
      cases m with
      | event event => exact absurd List.mem_cons_self (hno event)
      | fileEnd last =>
        show (s.fileEnd none last).queue = s.queue
        unfold Plugin.fileEnd
        split <;> rfl
      | _ => rfl
    rw [List.foldl_cons, ih fun event hmem ↦ hno event (List.mem_cons_of_mem m hmem), hqueue]

/-- The event comes last. -/
theorem no_event_of_take {sent : Sent} {m : Nat} (hm : m < (messages c reads sent).length)
    (event : Event) : .event event ∉ (messages c reads sent).take m := by
  intro hmem
  cases sent with
  | result result => cases List.mem_singleton.mp (List.mem_of_mem_take hmem)
  | event e files =>
    rw [messages, writeEvent, List.length_append, List.length_singleton] at hm
    rw [messages, writeEvent, List.take_append_of_le_length (by omega)] at hmem
    obtain ⟨a, -, hstreamed⟩ := List.mem_flatMap.mp (List.mem_of_mem_take hmem)
    rcases mem_streamed hstreamed with heq | ⟨_, heq⟩ | heq
    all_goals cases heq

/-- What has come of an event before its line writes to the files of the event only. -/
theorem files_take {sent : Sent} {s : Plugin} (hready : Ready inbox s) (m : Nat) {path : String}
    (hpath : path ∉ sent.attachments.map (pathOf c inbox)) :
    (((messages c reads sent).take m).foldl (receive c) s).spool.files path =
      s.spool.files path := by
  have hnamed : Named inbox s.spool := by
    rw [Named, hready.receiver]
    exact ⟨rfl, rfl⟩
  refine files_foldl (closed_of_ready hready path) hnamed fun header hmem heq ↦ ?_
  rcases mem_messages (List.mem_of_mem_take hmem) with
    ⟨_, _, h⟩ | ⟨_, _, _, h⟩ | ⟨a, ha, h | ⟨_, h⟩ | h⟩
  · cases h
  · cases h
  · obtain rfl := DaemonMessage.file.inj h
    exact hpath (List.mem_map.mpr ⟨a, ha, heq⟩)
  · cases h
  · cases h

/-- Of what is sent, that is taken which comes before its last line is cut off: the events are given
to Claude Code, once each and in their order, with their files. -/
theorem passed_take (hcodec : ∀ bytes, c.decode (c.encode bytes) = .ok bytes) {sents : List Sent}
    (hr : ∀ sent ∈ sents, sent.InRange) (hfine : ∀ sent ∈ sents, Fine c inbox sent.attachments)
    {s : Plugin} (hready : Ready inbox s) {k : Nat} {t : Plugin}
    (ht : ((sents.flatMap (messages c reads)).take k).foldl (receive c) s = t) :
    ∃ before after, sents = before ++ after ∧
      before.flatMap (messages c reads) <+: (sents.flatMap (messages c reads)).take k ∧
      (∀ next ∈ after.head?, ((sents.flatMap (messages c reads)).take k).length <
        ((before ++ [next]).flatMap (messages c reads)).length) ∧
      t.queue = s.queue ++ before.filterMap (Sent.inbound c inbox) ∧
      ∀ earlier event files later, before = earlier ++ .event event files :: later →
        ∀ a ∈ event.attachments, ∀ path, given c inbox files a = some path →
          (∀ sent ∈ later ++ after.head?.toList,
            path ∉ sent.attachments.map (pathOf c inbox)) →
          t.spool.files path = files a.transfer := by
  rcases Lines.exists_take_flatMap (messages c reads) sents k with
    hall | ⟨before, next, after, m, rfl, hm, htake⟩
  · rw [List.take_of_length_le hall] at ht ⊢
    obtain ⟨-, hqueue, -, hcontent⟩ := passed_run hcodec hr hfine hready ht
    refine ⟨sents, [], (List.append_nil _).symm, List.prefix_rfl, fun _ h ↦ (by cases h), hqueue,
      ?_⟩
    intro earlier event files later heq a ha path hpath hnot
    exact hcontent earlier event files later heq a ha path hpath fun sent hsent ↦
      hnot sent (List.mem_append_left _ hsent)
  · -- the connection is lost before the line of `next`
    rw [htake] at ht ⊢
    rw [List.foldl_append] at ht
    obtain ⟨hready', hqueue, -, hcontent⟩ := passed_run hcodec (s := s)
      (fun sent hsent ↦ hr sent (List.mem_append_left _ hsent))
      (fun sent hsent ↦ hfine sent (List.mem_append_left _ hsent)) hready rfl
    refine ⟨before, next :: after, rfl, List.prefix_append _ _, ?_, ?_, ?_⟩
    · intro _ hhead
      rw [← Option.some.inj (Option.mem_def.mp hhead), List.flatMap_append, List.flatMap_singleton,
        List.length_append, List.length_append, List.length_take]
      omega
    · rw [← ht, queue_foldl (no_event_of_take hm), hqueue]
    · intro earlier event files later heq a ha path hpath hnot
      have hnext : path ∉ next.attachments.map (pathOf c inbox) :=
        hnot next (List.mem_append_right _ List.mem_cons_self)
      rw [← ht, files_take hready' m hnext]
      exact hcontent earlier event files later heq a ha path hpath fun sent hsent ↦
        hnot sent (List.mem_append_left _ hsent)

theorem inRange_sents {sents : List Sent} (hr : ∀ sent ∈ sents, sent.InRange) :
    ∀ m ∈ sents.flatMap (messages c reads), m.InRange := by
  intro m hm
  obtain ⟨sent, hsent, hm⟩ := List.mem_flatMap.mp hm
  exact inRange_messages (hr sent hsent) m hm

theorem noError_sents (sents : List Sent) :
    ∀ m ∈ sents.flatMap (messages c reads), ∀ e, m ≠ .error e := by
  intro m hm
  obtain ⟨sent, -, hm⟩ := List.mem_flatMap.mp hm
  exact noError_messages sent m hm

/-- However the stream is cut into reads, and wherever it is lost: the events whose lines have come
are given to Claude Code, once each and in their order, each with the paths of the files that were
in the spool, and such a file is whole until its path is written to again. -/
theorem passed (hcodec : ∀ bytes, c.decode (c.encode bytes) = .ok bytes) {max : Nat}
    {sents : List Sent} (hr : ∀ sent ∈ sents, sent.InRange)
    (hfine : ∀ sent ∈ sents, Fine c inbox sent.attachments)
    (hfits : ∀ sent ∈ sents, ∀ m ∈ messages c reads sent,
      (utf8 (lineOf DaemonMessage.toJson m)).length ≤ max)
    {n j : Nat} {wakes : List Wake}
    (hstream : streamOf wakes = cut DaemonMessage.toJson (sents.flatMap (messages c reads)) n j)
    {s : Plugin} (hready : Ready inbox s) {t : Plugin}
    (ht : serve c s ((Reader.withMax max).results wakes) = t) :
    ∃ before after, sents = before ++ after ∧
      before.flatMap (messages c reads) <+:
        arrived DaemonMessage.toJson (sents.flatMap (messages c reads)) n j ∧
      (∀ next ∈ after.head?,
        (arrived DaemonMessage.toJson (sents.flatMap (messages c reads)) n j).length <
          ((before ++ [next]).flatMap (messages c reads)).length) ∧
      t.queue = s.queue ++ before.filterMap (Sent.inbound c inbox) ∧
      ∀ earlier event files later, before = earlier ++ .event event files :: later →
        ∀ a ∈ event.attachments, ∀ path, given c inbox files a = some path →
          (∀ sent ∈ later ++ after.head?.toList,
            path ∉ sent.attachments.map (pathOf c inbox)) →
          t.spool.files path = files a.transfer := by
  obtain ⟨k, hk, harrived⟩ := serve_cut (inRange_sents hr) (noError_sents sents) hstream s
  rw [← harrived fun m hm ↦ by
    obtain ⟨sent, hsent, hm⟩ := List.mem_flatMap.mp (LineCut.mem_of_mem_arrived hm)
    exact hfits sent hsent m hm]
  exact passed_take hcodec hr hfine hready (hk.symm.trans ht)

end Connection

def photoFiles (_transfer : String) : Option Bytes := some [1]

theorem messages_photo :
    messages Transfer.base64Crates (fun _ ↦ 1) (.event Plugin.photo photoFiles) =
      [.file Plugin.photoHeader, .chunk ⟨"e-1", "AQ=="⟩, .fileEnd ⟨"e-1"⟩,
        .event Plugin.photo] := by
  have htake : List.take Transfer.chunkBytes [1] = ([1] : Bytes) := rfl
  have hdrop : List.drop Transfer.chunkBytes [1] = ([] : Bytes) := rfl
  have hdata : Transfer.base64Crates.encode [1] = "AQ==" :=
    congrArg String.ofList (by decide : Base64.encodeChars [1] = ['A', 'Q', '=', '='])
  have hsend : send Transfer.base64Crates (fun _ ↦ 1) Plugin.photoHeader [1] =
      [.header Plugin.photoHeader, .chunk ⟨"e-1", "AQ=="⟩, .end ⟨"e-1"⟩] := by
    rw [send, Transfer.chunks_of_ne_nil _ _ _ (by simp), htake, hdrop, Transfer.chunks_nil, hdata]
    rfl
  show (send Transfer.base64Crates (fun _ ↦ 1) Plugin.photoHeader [1]).map wrap ++ [] ++
    [.event Plugin.photo] = _
  rw [hsend]
  rfl

/-- The lines of a photo. -/
def photoStream : Bytes :=
  cut DaemonMessage.toJson
    (messages Transfer.base64Crates (fun _ ↦ 1) (.event Plugin.photo photoFiles)) 4 0

theorem photoStream_ne_nil : photoStream ≠ [] := by
  rw [photoStream, messages_photo]
  exact List.append_ne_nil_of_left_ne_nil
    (List.append_ne_nil_of_left_ne_nil (by simp [LineReader.writeLine]) _) _

/-- As long as all its lines. -/
def photoMax : Nat :=
  ((messages Transfer.base64Crates (fun _ ↦ 1) (.event Plugin.photo photoFiles)).map
    fun m ↦ (utf8 (lineOf DaemonMessage.toJson m)).length).sum

/-- It comes in one read. -/
theorem passed_photo : (serve Transfer.base64Crates (Plugin.start "/inbox" fun _ ↦ none)
    ((Reader.withMax photoMax).results [.read photoStream photoStream_ne_nil])).spool.files
      "/inbox/e-1-n" = some [1] := by
  have hr : ∀ sent ∈ [Sent.event Plugin.photo photoFiles], sent.InRange := by
    intro sent hsent
    rw [List.mem_singleton.mp hsent]
    intro a ha
    rw [List.mem_singleton.mp ha]
    exact (by decide : 1 < 2 ^ 64)
  have hfine : ∀ sent ∈ [Sent.event Plugin.photo photoFiles],
      Fine Transfer.base64Crates "/inbox" sent.attachments := by
    intro sent hsent
    rw [List.mem_singleton.mp hsent]
    exact ⟨List.nodup_singleton _, List.nodup_singleton _⟩
  have hfits : ∀ sent ∈ [Sent.event Plugin.photo photoFiles],
      ∀ m ∈ messages Transfer.base64Crates (fun _ ↦ 1) sent,
        (utf8 (lineOf DaemonMessage.toJson m)).length ≤ photoMax := by
    intro sent hsent m hm
    rw [List.mem_singleton.mp hsent] at hm
    exact List.le_sum_of_mem (List.mem_map_of_mem hm)
  have hstream : streamOf [.read photoStream photoStream_ne_nil] =
      cut DaemonMessage.toJson ([Sent.event Plugin.photo photoFiles].flatMap
        (messages Transfer.base64Crates fun _ ↦ 1)) 4 0 := by
    rw [List.flatMap_singleton, streamOf, List.flatMap_singleton, Wake.bytes, photoStream]
  have hready : Ready "/inbox" (Plugin.start "/inbox" fun _ ↦ none) := ⟨rfl, fun _ ↦ rfl⟩
  obtain ⟨before, after, hsents, -, hlost, -, hcontent⟩ :=
    passed Transfer.decode_encode hr hfine hfits hstream hready rfl
  have hbefore : before = [.event Plugin.photo photoFiles] := by
    cases before with
    | cons sent before =>
      obtain ⟨rfl, hnil⟩ := List.cons.inj hsents
      rw [(List.append_eq_nil_iff.mp hnil.symm).1]
    | nil =>
      have hless := hlost (.event Plugin.photo photoFiles) (by
        rw [← List.nil_append after, ← hsents]
        rfl)
      rw [List.flatMap_singleton, List.nil_append, List.flatMap_singleton, messages_photo] at hless
      simp [arrived] at hless
  have hafter : after = [] := by
    rw [hbefore] at hsents
    exact (List.cons.inj hsents).2.symm
  exact hcontent [] Plugin.photo photoFiles [] hbefore _ (List.mem_singleton_self _) "/inbox/e-1-n"
    (by decide +kernel) (by simp [hafter])

end Passage

end Silta
