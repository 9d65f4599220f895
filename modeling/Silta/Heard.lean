import Silta.Passage
import Silta.SpoolFiles

/-!
# From a room to Claude Code

The daemon with its spool, the stream of one connection, and the plugin at the other end of it: what
Claude Code is given was said to the session, comes in the order in which it was written, and has
the files that were downloaded.
-/

namespace Silta

namespace Heard

open Arrivals (Daemon Made Faithful)
open Inbox (Plugin)
open LineCut (lineOf cut)
open LineReader (Reader Wake streamOf utf8)
open Passage (Sent messages given pathOf Fine Ready)
open Replay (Marks Clock)
open SpoolFiles (Label File Downloaded letsIn)
open Transfer (Crates Bytes)

/-! ## What is written to a connection -/

/-- An event that was written, with the files of the spool as they were then. -/
structure Written where
  event : Event
  files : String → Option Bytes

/-- The daemon, with what it has written to one connection. -/
structure State where
  daemon : SpoolFiles.State
  written : List Written

def State.start (clock : Clock) (marks : Marks) (files : String → Option File) : State :=
  ⟨.start clock marks files, []⟩

def contents (s : SpoolFiles.State) (transfer : String) : Option Bytes :=
  (s.files transfer).map File.content

def note (i : Nat) (s : State) : Label → List Written
  | .daemon (.delivery (.write j event)) =>
    if j = i then s.written ++ [⟨event, contents s.daemon⟩] else s.written
  -- the connections of the next daemon are others
  | .restart _ => []
  | _ => s.written

inductive Step (d : Daemon) (i : Nat) : State → Label → State → Prop
  | mk (s : State) (l : Label) (t : SpoolFiles.State) (hstep : SpoolFiles.Step d s.daemon l t) :
      Step d i s l ⟨t, note i s l⟩

/-- The label without the files. -/
def arrivalOf : Label → Option Arrivals.Label
  | .daemon l => some l
  | .fetched dispatch media _ _ _ _ => some (.fetched dispatch media)
  | .restart clock => some (.restart clock)
  | _ => none

theorem arrivals_step {d : Daemon} {s t : SpoolFiles.State} {l : Label}
    (hstep : SpoolFiles.Step d s l t) :
    (∃ l', arrivalOf l = some l' ∧ Arrivals.Step d s.daemon l' t.daemon) ∨
      arrivalOf l = none ∧ t.daemon = s.daemon := by
  cases hstep with
  | daemon l t hplain hstep => exact .inl ⟨l, rfl, hstep⟩
  | fetched dispatch media f nowMs content left hmem =>
    exact .inl ⟨_, rfl, .fetched s.daemon dispatch media f hmem⟩
  | restart clock => exact .inl ⟨_, rfl, .restart s.daemon clock⟩
  | remove | look | sweep => exact .inr ⟨rfl, rfl⟩

/-! ## The session of a connection -/

section Sessions

variable {s t : Delivery.State} {i : Nat} {conn : Delivery.Conn}

theorem session_setStage (hi : s.At i conn) {j : Nat} {other : Delivery.Conn} (hj : s.At j other)
    (writer : Bool) (stage : Delivery.Stage) :
    ∃ next, (s.setStage j { other with writer := writer } stage).At i next ∧
      next.session = conn.session := by
  by_cases hij : i = j
  · subst hij
    obtain rfl := Delivery.State.at_unique hi hj
    exact ⟨_, (Delivery.State.at_setStage hj).mpr (.inl ⟨rfl, rfl⟩), rfl⟩
  · exact ⟨conn, (Delivery.State.at_setStage hj).mpr (.inr ⟨hij, hi⟩), rfl⟩

/-- A connection is of one session for good. -/
theorem session_delivery {l : Delivery.Label} (hi : s.At i conn) (hstep : Delivery.Step s l t) :
    ∃ next, t.At i next ∧ next.session = conn.session := by
  cases hstep with
  | @deliver r answer d h =>
    have hconns := ((s.setRegistry r).afterDeliver_eq d answer).1
    exact ⟨conn, (Delivery.State.at_congr hconns).mpr hi, rfl⟩
  | claim session channel h => exact ⟨conn, Delivery.State.at_append.mpr (.inl hi), rfl⟩
  | drain nowMs hj => exact session_setStage hi hj _ _
  | extend hj => exact session_setStage hi hj _ _
  | hand hj => exact session_setStage hi hj _ _
  | serve hj => exact session_setStage hi hj _ _
  | release hj => exact session_setStage hi hj _ _
  | takeInflight hj => exact session_setStage hi hj _ _
  | restore nowMs hj => exact session_setStage hi hj _ _
  | _ => exact ⟨conn, hi, rfl⟩

end Sessions

theorem session_arrivals {d : Daemon} {s t : Arrivals.State} {l : Arrivals.Label}
    (hplain : SpoolFiles.plain l = true) {i : Nat} {conn : Delivery.Conn}
    (hi : s.delivery.At i conn) (hstep : Arrivals.Step d s l t) :
    ∃ next, t.delivery.At i next ∧ next.session = conn.session := by
  cases hstep with
  | dispatch _ _ _ _ hstep => exact session_delivery hi hstep
  | delivery _ _ _ hstep => exact session_delivery hi hstep
  | restart => cases hplain
  | _ => exact ⟨conn, hi, rfl⟩

theorem session_daemon {d : Daemon} {s t : SpoolFiles.State} {l : Label}
    (hl : l.isRestart = false) {i : Nat} {conn : Delivery.Conn} (hi : s.daemon.delivery.At i conn)
    (hstep : SpoolFiles.Step d s l t) :
    ∃ next, t.daemon.delivery.At i next ∧ next.session = conn.session := by
  cases hstep with
  | daemon l t hplain hstep => exact session_arrivals hplain hi hstep
  | restart => cases hl
  | _ => exact ⟨conn, hi, rfl⟩

/-! ## What is known of what was written -/

/-- The event was made of an arrival for the session, and the files of its attachments were
downloaded. -/
structure Known (d : Daemon) (ls : List Label) (session : String) (w : Written) : Prop where
  made : ∃ ts, Made d (ls.filterMap arrivalOf) session (ts, w.event)
  files : ∀ a ∈ w.event.attachments, ∃ nowMs content, Downloaded d ls a.transfer nowMs content ∧
    content.length = a.size ∧
      (ls.countP (letsIn a.transfer) ≤ 1 → ∀ bytes, w.files a.transfer = some bytes →
        bytes = content)

theorem Known.snoc {d : Daemon} {ls : List Label} {session : String} {w : Written}
    (h : Known d ls session w) (l : Label) : Known d (ls ++ [l]) session w where
  made := by
    obtain ⟨ts, hmade⟩ := h.made
    rw [List.filterMap_append]
    exact ⟨ts, hmade.mono (List.subset_append_left _ _)⟩
  files a ha := by
    obtain ⟨nowMs, content, hdown, hsize, hsame⟩ := h.files a ha
    refine ⟨nowMs, content, hdown.mono (List.subset_append_left _ _), hsize, fun hone ↦ hsame ?_⟩
    rw [List.countP_append] at hone
    omega

section Runs

variable {d : Daemon} {i : Nat} {clock : Clock} {marks : Marks} {files : String → Option File}
  {ls : List Label} {s t : State} {l : Label}

theorem faithful_run {s : SpoolFiles.State}
    (h : Lts.Run (SpoolFiles.Step d) (.start clock marks files) ls s) :
    Faithful d (ls.filterMap arrivalOf) s.daemon := by
  refine h.history (I := fun ls s ↦ Faithful d (ls.filterMap arrivalOf) s.daemon) ?_ ?_
  · have hstart : Faithful d [] (Arrivals.State.start clock) := .init clock
    exact ⟨hstart.wired, hstart.tasks, hstart.sourced⟩
  · intro ls s l t hpre hstep
    rw [List.filterMap_append]
    rcases arrivals_step hstep with ⟨l', hl', hstep⟩ | ⟨hnone, heq⟩
    · rw [List.filterMap_cons_some hl', List.filterMap_nil]
      exact hpre.step hstep
    · rw [List.filterMap_cons_none hnone, List.filterMap_nil, List.append_nil, heq]
      exact hpre

/-- What is known of an event when it is written. -/
theorem known_of_write {s t : SpoolFiles.State} {event : Event}
    (h : Lts.Run (SpoolFiles.Step d) (.start clock marks files) ls s)
    (hstep : SpoolFiles.Step d s (.daemon (.delivery (.write i event))) t) :
    ∃ conn, s.daemon.delivery.At i conn ∧ Known d ls conn.session ⟨event, contents s⟩ := by
  cases hstep with
  | daemon _ t hplain hstep =>
    cases hstep with
    | delivery _ delivery _ hstep =>
      obtain ⟨conn, ts, hi, hmade⟩ := (faithful_run h).sourced.written hstep
      obtain ⟨conn', ts', hi', hstored⟩ := (SpoolFiles.equipped_run h).sourced.written hstep
      refine ⟨conn, hi, ⟨ts, hmade⟩, fun a ha ↦ ?_⟩
      obtain ⟨nowMs, content, hdown, hsize⟩ := hstored a ha
      refine ⟨nowMs, content, hdown, hsize, fun hone bytes hbytes ↦ ?_⟩
      have hcount : ls.countP (SpoolFiles.fetches a.transfer) ≤ 1 :=
        (Nat.le_add_right _ _).trans ((SpoolFiles.count_run h a.transfer).trans hone)
      obtain ⟨file, hfile, rfl⟩ := Option.map_eq_some_iff.mp hbytes
      rw [SpoolFiles.file_run h a.transfer hcount nowMs content hdown file hfile]

/-- Whatever was written to the connection is known. -/
structure Inv (d : Daemon) (i : Nat) (clock : Clock) (marks : Marks)
    (files : String → Option File) (ls : List Label) (s : State) : Prop where
  run : Lts.Run (SpoolFiles.Step d) (.start clock marks files) ls s.daemon
  written : ∀ w ∈ s.written, ∃ conn, s.daemon.daemon.delivery.At i conn ∧
    Known d ls conn.session w

theorem Inv.step (h : Inv d i clock marks files ls s) (hstep : Step d i s l t) :
    Inv d i clock marks files (ls ++ [l]) t := by
  obtain ⟨daemon, hstep⟩ := hstep
  refine ⟨h.run.snoc hstep, fun w hw ↦ ?_⟩
  cases hl : l.isRestart with
  | true =>
    cases l with
    | restart clock => cases hw
    | _ => cases hl
  | false =>
    have hold (hw : w ∈ s.written) : ∃ conn, daemon.daemon.delivery.At i conn ∧
        Known d (ls ++ [l]) conn.session w := by
      obtain ⟨conn, hi, hknown⟩ := h.written w hw
      obtain ⟨next, hnext, hsession⟩ := session_daemon hl hi hstep
      exact ⟨next, hnext, hsession ▸ hknown.snoc l⟩
    dsimp only at hw
    unfold note at hw
    split at hw
    · next j event =>
      split at hw
      · next hj =>
        subst hj
        rcases List.mem_append.mp hw with hw | hnew
        · exact hold hw
        · obtain rfl := List.mem_singleton.mp hnew
          obtain ⟨conn, hi, hknown⟩ := known_of_write h.run hstep
          obtain ⟨next, hnext, hsession⟩ := session_daemon hl hi hstep
          exact ⟨next, hnext, hsession ▸ hknown.snoc _⟩
      · exact hold hw
    · cases hl
    · exact hold hw

theorem inv_run (h : Lts.Run (Step d i) (.start clock marks files) ls s) :
    Inv d i clock marks files ls s :=
  h.history (I := Inv d i clock marks files) ⟨.nil _, nofun⟩
    fun _ _ _ _ hpre hstep ↦ hpre.step hstep

end Runs

/-- An event has one attachment at most, and that is within the cap. -/
theorem attachments_of_made {d : Daemon} {ls : List Arrivals.Label} {session : String}
    {item : Nat × Event} (h : Made d ls session item) :
    item.2.attachments = [] ∨ ∃ a, item.2.attachments = [a] ∧ a.size ≤ d.maxBytes := by
  obtain ⟨a, -, -, htells⟩ := h
  unfold Arrivals.Tells at htells
  split at htells
  · obtain ⟨-, htells⟩ := htells
    split at htells
    · exact .inl htells.2
    · rcases htells with ⟨-, bytes, hle, heq⟩ | ⟨heq, -⟩
      · exact .inr ⟨_, heq, hle⟩
      · exact .inl heq
    · cases htells
  · exact .inl htells.1.attachments

/-! ## What Claude Code is given -/

/-- What is sent of an event. -/
def written? : Sent → Option Written
  | .event event files => some ⟨event, files⟩
  | .result _ => none

/-- What Claude Code is given of an event. -/
def inbound (c : Crates) (inbox : String) (w : Written) : Inbox.Inbound :=
  ⟨w.event, w.event.attachments.map (given c inbox w.files)⟩

theorem filterMap_inbound (c : Crates) (inbox : String) (sents : List Sent) :
    sents.filterMap (Sent.inbound c inbox) =
      (sents.filterMap written?).map (inbound c inbox) := by
  rw [List.map_filterMap]
  congr 1
  funext sent
  cases sent <;> rfl

theorem eq_of_written? {sent : Sent} {w : Written} (h : written? sent = some w) :
    sent = .event w.event w.files := by
  cases sent with
  | event event files =>
    obtain rfl := Option.some.inj h
    rfl
  | result result => cases h

section

variable {d : Daemon} {i : Nat} {clock : Clock} {marks : Marks} {files : String → Option File}
  {ls : List Label} {s : State} {c : Crates} {reads : Nat → Nat} {inbox : String}
  {sents : List Sent}

/-- The attachments of what is sent are in range and keep apart. -/
theorem sendable (h : Inv d i clock marks files ls s) (hmaxBytes : d.maxBytes < 2 ^ 64)
    (hsents : sents.filterMap written? = s.written)
    (hresults : ∀ result, .result result ∈ sents → Sent.InRange (.result result)) :
    ∀ sent ∈ sents, sent.InRange ∧ Fine c inbox sent.attachments := by
  intro sent hsent
  cases sent with
  | result result => exact ⟨hresults result hsent, List.nodup_nil, List.nodup_nil⟩
  | event event eventFiles =>
    have hw : (⟨event, eventFiles⟩ : Written) ∈ s.written := by
      rw [← hsents]
      exact List.mem_filterMap.mpr ⟨_, hsent, rfl⟩
    obtain ⟨conn, -, ⟨ts, hmade⟩, -⟩ := h.written _ hw
    show (∀ a ∈ event.attachments, a.InRange) ∧ Fine c inbox event.attachments
    rcases attachments_of_made hmade with hnone | ⟨a, hone, hsize⟩
    · rw [show event.attachments = [] from hnone]
      exact ⟨nofun, List.nodup_nil, List.nodup_nil⟩
    · rw [show event.attachments = [a] from hone]
      refine ⟨fun b hb ↦ ?_, List.nodup_singleton _, List.nodup_singleton _⟩
      rw [List.mem_singleton.mp hb]
      exact lt_of_le_of_lt hsize hmaxBytes

/-- What Claude Code is given was said to it.  In every run of the daemon with its spool, across
restarts, and however the stream of a connection is cut into reads, is lost, or has lines that are
too long: Claude Code is given the first of the events that were written to the connection, once
each and in their order, and all of them if every line fits and comes.  Each was made of an arrival
that the routing gives to the session of the connection.  Where a path comes with an attachment, its
file was downloaded with that size, and if one message of that name was let in, the path holds what
was downloaded until a later event has the same path. -/
theorem given_written (h : Lts.Run (Step d i) (.start clock marks files) ls s)
    (hcodec : ∀ bytes, c.decode (c.encode bytes) = .ok bytes) (hmaxBytes : d.maxBytes < 2 ^ 64)
    (hsents : sents.filterMap written? = s.written)
    (hresults : ∀ result, .result result ∈ sents → Sent.InRange (.result result))
    {max n j : Nat} {wakes : List Wake}
    (hstream : streamOf wakes = cut DaemonMessage.toJson (sents.flatMap (messages c reads)) n j)
    {p t : Plugin} (hready : Ready inbox p)
    (ht : Passage.serve c p ((Reader.withMax max).results wakes) = t) :
    ∃ came left, s.written = came ++ left ∧ t.queue = p.queue ++ came.map (inbound c inbox) ∧
      ((∀ m ∈ sents.flatMap (messages c reads),
          (utf8 (lineOf DaemonMessage.toJson m)).length ≤ max) →
        (sents.flatMap (messages c reads)).length ≤ n → left = []) ∧
      (∀ w ∈ came, ∃ conn ts, s.daemon.daemon.delivery.At i conn ∧
        Made d (ls.filterMap arrivalOf) conn.session (ts, w.event)) ∧
      ∀ earlier w later, came = earlier ++ w :: later → ∀ a ∈ w.event.attachments, ∀ path,
        given c inbox w.files a = some path →
          ∃ nowMs content, Downloaded d ls a.transfer nowMs content ∧ content.length = a.size ∧
            (ls.countP (letsIn a.transfer) ≤ 1 →
              (∀ x ∈ later ++ left.head?.toList, path ∉ x.event.attachments.map (pathOf c inbox)) →
                t.spool.files path = some content) := by
  have hinv := inv_run h
  have hsendable : ∀ sent ∈ sents, sent.InRange ∧ Fine c inbox sent.attachments :=
    sendable hinv hmaxBytes hsents hresults
  obtain ⟨k, hk, hwhole⟩ := Passage.serve_cut
    (Passage.inRange_sents fun sent hsent ↦ (hsendable sent hsent).1)
    (Passage.noError_sents sents) hstream p
  obtain ⟨before, after, rfl, -, hlost, hqueue, hcontent⟩ :=
    Passage.passed_take hcodec (fun sent hsent ↦ (hsendable sent hsent).1)
      (fun sent hsent ↦ (hsendable sent hsent).2) hready (hk.symm.trans ht)
  rw [List.filterMap_append] at hsents
  refine ⟨before.filterMap written?, after.filterMap written?, hsents.symm, ?_, ?_, ?_, ?_⟩
  · rw [hqueue, filterMap_inbound]
  · intro hfits hn
    cases after with
    | nil => rfl
    | cons next after =>
      -- a line of it would be missing
      have hless := hlost next rfl
      rw [hwhole fun m hm ↦ hfits m (LineCut.mem_of_mem_arrived hm), LineCut.arrived_of_le hn]
        at hless
      simp only [List.flatMap_append, List.flatMap_cons, List.flatMap_nil, List.length_append,
        List.length_nil] at hless
      omega
  · intro w hw
    obtain ⟨conn, hi, ⟨ts, hmade⟩, -⟩ := hinv.written w (hsents ▸ List.mem_append_left _ hw)
    exact ⟨conn, ts, hi, hmade⟩
  · intro earlier w later heq a ha path hpath
    have hw : w ∈ s.written := by
      rw [← hsents, heq]
      simp
    obtain ⟨conn, -, hknown⟩ := hinv.written w hw
    obtain ⟨nowMs, content, hdown, hsize, hsame⟩ := hknown.files a ha
    refine ⟨nowMs, content, hdown, hsize, fun hone hnot ↦ ?_⟩
    obtain ⟨-, bytes, hbytes, -⟩ := Passage.given_eq_some hpath
    obtain ⟨earlier', rest, rfl, -, hrest⟩ := List.filterMap_eq_append_iff.mp heq
    obtain ⟨results, sent, later', rfl, -, hsent, hlater⟩ := List.filterMap_eq_cons_iff.mp hrest
    obtain rfl := eq_of_written? hsent
    rw [← hsame hone bytes hbytes, ← hbytes]
    refine hcontent (earlier' ++ results) w.event w.files later' (by simp) a ha path hpath ?_
    intro other hother
    cases other with
    | result result => exact List.not_mem_nil
    | event event eventFiles =>
      refine hnot ⟨event, eventFiles⟩ ?_
      rcases List.mem_append.mp hother with hmem | hhead
      · exact List.mem_append_left _ (hlater ▸ List.mem_filterMap.mpr ⟨_, hmem, rfl⟩)
      · obtain ⟨after, rfl⟩ := List.head?_eq_some_iff.mp (Option.mem_toList.mp hhead)
        exact List.mem_append_right later List.mem_cons_self

end

theorem exists_noted {d : Daemon} {i : Nat} {s : SpoolFiles.State} {ls : List Label}
    {t : SpoolFiles.State} (h : Lts.Run (SpoolFiles.Step d) s ls t) :
    ∃ written, Lts.Run (Step d i) ⟨s, []⟩ ls ⟨t, written⟩ := by
  induction h with
  | nil => exact ⟨[], .nil _⟩
  | snoc _ hstep ih =>
    obtain ⟨written, hrun⟩ := ih
    exact ⟨_, hrun.snoc (.mk _ _ _ hstep)⟩

/-- The photo that is written to Bob's session is given to it. -/
theorem given_written_photo : ∃ (t : Plugin) (ls : List Label) (conn : Delivery.Conn) (ts : Nat),
    (∃ paths, ⟨SpoolFiles.photoEvent, paths⟩ ∈ t.queue) ∧
      Made Arrivals.mindsDaemon (ls.filterMap arrivalOf) conn.session
        (ts, SpoolFiles.photoEvent) := by
  obtain ⟨ls, s, s', hrun, hstep, -⟩ := SpoolFiles.photo_run
  obtain ⟨written, hnoted⟩ := exists_noted (i := 0) hrun
  have hlast := hnoted.snoc (.mk _ _ _ hstep)
  let photo : Written := ⟨SpoolFiles.photoEvent, contents s⟩
  let sents : List Sent := (written ++ [photo]).map fun w ↦ .event w.event w.files
  have hsents : sents.filterMap written? = written ++ [photo] := by
    rw [List.filterMap_map]
    exact List.filterMap_some
  let ms := sents.flatMap (messages Transfer.base64Crates fun _ ↦ 1)
  have hmem : .event SpoolFiles.photoEvent ∈ ms := by
    refine List.mem_flatMap.mpr ⟨.event photo.event photo.files, ?_, ?_⟩
    · exact List.mem_map.mpr ⟨photo, by simp, rfl⟩
    · exact List.mem_append_right _ List.mem_cons_self
  have hstream :
      streamOf [.read (cut DaemonMessage.toJson ms ms.length 0) (LineCut.cut_ne_nil hmem)] =
      cut DaemonMessage.toJson ms ms.length 0 := by
    rw [streamOf, List.flatMap_singleton, Wake.bytes]
  obtain ⟨t, ht⟩ : ∃ t, Passage.serve Transfer.base64Crates (.start "/inbox" fun _ ↦ none)
      ((Reader.withMax (ms.map fun m ↦ (utf8 (lineOf DaemonMessage.toJson m)).length).sum).results
        [.read (cut DaemonMessage.toJson ms ms.length 0) (LineCut.cut_ne_nil hmem)]) = t := ⟨_, rfl⟩
  have hready : Ready "/inbox" (.start "/inbox" fun _ ↦ none) := ⟨rfl, fun _ ↦ rfl⟩
  obtain ⟨came, left, hwritten, hqueue, hall, hmade, -⟩ := given_written hlast
    Transfer.decode_encode (by decide) hsents (fun result hresult ↦ by simp [sents] at hresult)
    hstream hready ht
  have hnone : left = [] :=
    hall (fun m hm ↦ List.le_sum_of_mem (List.mem_map_of_mem hm)) le_rfl
  have hphoto : photo ∈ came := by
    rw [hnone, List.append_nil] at hwritten
    rw [← hwritten]
    exact List.mem_append_right written List.mem_cons_self
  obtain ⟨conn, ts, -, hmade⟩ := hmade photo hphoto
  refine ⟨t, _, conn, ts, ⟨(inbound Transfer.base64Crates "/inbox" photo).paths, ?_⟩, hmade⟩
  rw [hqueue]
  exact List.mem_append_right _ (List.mem_map.mpr ⟨photo, hphoto, rfl⟩)

end Heard

end Silta
