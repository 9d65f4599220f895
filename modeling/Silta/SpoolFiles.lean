import Silta.ArrivalLedger

/-!
# The files of the spool

The inbox of the spool beside the daemon: a download writes the file of its message, an
acknowledgement removes it, and the sweeper takes what has lain there for a day.  Between two starts
an event goes to its session with the file that was downloaded for it.
-/

namespace Silta

namespace SpoolFiles

open Arrivals (Daemon Arrival Task Fetched transferOf fetchAttachment handle)
open Delivery (Dispatch)
open History (Media)
open Replay (Marks Clock)
open Transfer (Bytes)

/-- A file of the inbox: when it was written last, and what it holds. -/
structure File where
  modified : Nat
  content : Bytes

structure State where
  daemon : Arrivals.State
  /-- The files of the inbox, by the transfers that name them. -/
  files : String → Option File
  /-- Acknowledged, with files that are to be removed. -/
  acked : Multiset Event
  /-- What the sweeper found old and has not removed yet. -/
  doomed : Option String

/-- The daemon starts with the marks and the files that it finds. -/
def State.start (clock : Clock) (marks : Marks) (files : String → Option File) : State where
  daemon := { Arrivals.State.start clock with marks := marks, saved := marks }
  files := files
  acked := 0
  doomed := none

/-- A day. -/
def leftoverMaxAgeMs : Nat := 24 * 3600 * 1000

/-- The file of a transfer after its download.  Nothing is written before the size is known to be
within the cap; a write that fails or is cut off leaves whatever it leaves. -/
def download (d : Daemon) (media : Media) (f : Fetched) (nowMs : Nat) (content : Bytes)
    (left : Option Bytes) (file : Option File) : Option File :=
  let cut := (left.map (File.mk nowMs)).or file
  if media.size.any (d.maxBytes < ·) then file
  else if f.timedOut then cut
  else match f.content with
    | .error _ => file
    | .ok bytes =>
      if d.maxBytes < bytes then file
      else match f.fault with
        | some _ => cut
        | none => some ⟨nowMs, content⟩

/-- The download gives the event its attachment. -/
def saves (d : Daemon) (media : Media) (f : Fetched) : Bool :=
  !media.size.any (d.maxBytes < ·) && !f.timedOut &&
    match Arrivals.download d.maxBytes f with
    | .ok _ => true
    | .error _ => false

inductive Label
  | daemon (l : Arrivals.Label)
  | fetched (dispatch : Dispatch) (media : Media) (f : Fetched) (nowMs : Nat) (content : Bytes)
      (left : Option Bytes)
  | remove (event : Event)
  | look (transfer : String) (modified nowMs : Nat)
  | sweep (transfer : String)
  | restart (clock : Clock)

def Label.isRestart : Label → Bool
  | .restart _ => true
  | _ => false

/-- The step has to do with no file. -/
def plain : Arrivals.Label → Bool
  | .fetched _ _ | .restart _ => false
  | _ => true

/-- The event whose files the step leaves to be removed. -/
def acking : Arrivals.Label → Multiset Event
  | .delivery (.ack _ _ (some item)) => {item.2}
  | _ => 0

inductive Step (d : Daemon) : State → Label → State → Prop
  | daemon (s : State) (l : Arrivals.Label) (t : Arrivals.State) (h : plain l = true)
      (hstep : Arrivals.Step d s.daemon l t) :
      Step d s (.daemon l) { s with daemon := t, acked := acking l + s.acked }
  | fetched (s : State) (dispatch : Dispatch) (media : Media) (f : Fetched) (nowMs : Nat)
      (content : Bytes) (left : Option Bytes) (h : .attachment dispatch media ∈ s.daemon.tasks)
      (hcontent : ∀ bytes, f.content = .ok bytes → content.length = bytes) :
      Step d s (.fetched dispatch media f nowMs content left)
        { s with
          daemon.tasks := .ready { dispatch with
              event := fetchAttachment d dispatch.event media f } ::ₘ
            s.daemon.tasks.erase (.attachment dispatch media)
          files := Function.update s.files (transferOf dispatch.event.eventId)
            (download d media f nowMs content left
              (s.files (transferOf dispatch.event.eventId))) }
  -- the mark of the message is set before, which makes no difference to the files
  | remove (s : State) (event : Event) (h : event ∈ s.acked) :
      Step d s (.remove event)
        { s with
          files := fun transfer ↦
            if transfer ∈ event.attachments.map Attachment.transfer then none
            else s.files transfer
          acked := s.acked.erase event }
  | look (s : State) (transfer : String) (file : File) (nowMs : Nat)
      (h : s.files transfer = some file) (hold : file.modified < nowMs - leftoverMaxAgeMs) :
      Step d s (.look transfer file.modified nowMs) { s with doomed := some transfer }
  -- by its name, whatever the file is by now
  | sweep (s : State) (transfer : String) (h : s.doomed = some transfer) :
      Step d s (.sweep transfer)
        { s with files := Function.update s.files transfer none, doomed := none }
  | restart (s : State) (clock : Clock) :
      Step d s (.restart clock) (.start clock s.daemon.saved s.files)

/-! ## What a download does -/

section Downloads

variable {d : Daemon} {media : Media} {f : Fetched}

theorem download_of_saves (h : saves d media f = true) (nowMs : Nat) (content : Bytes)
    (left : Option Bytes) (file : Option File) :
    download d media f nowMs content left file = some ⟨nowMs, content⟩ := by
  simp only [saves, Bool.and_eq_true, Bool.not_eq_true'] at h
  obtain ⟨⟨hsize, htime⟩, hok⟩ := h
  unfold download
  rw [if_neg (by simp [hsize]), if_neg (by simp [htime])]
  unfold Arrivals.download at hok
  split at hok
  · next bytes hbytes =>
    cases hcontent : f.content with
    | error e => simp [hcontent] at hbytes
    | ok size =>
      simp only [hcontent] at hbytes ⊢
      split at hbytes
      · cases hbytes
      · next hle =>
        rw [if_neg hle]
        cases hfault : f.fault with
        | some e => simp [hfault] at hbytes
        | none => rfl
  · cases hok

/-- Whatever a download writes has its time. -/
theorem download_cases (d : Daemon) (media : Media) (f : Fetched) (nowMs : Nat) (content : Bytes)
    (left : Option Bytes) (file : Option File) :
    download d media f nowMs content left file = file ∨
      ∃ bytes, download d media f nowMs content left file = some ⟨nowMs, bytes⟩ := by
  have hcut : (left.map (File.mk nowMs)).or file = file ∨
      ∃ bytes, (left.map (File.mk nowMs)).or file = some ⟨nowMs, bytes⟩ := by
    cases left with
    | none => exact .inl rfl
    | some bytes => exact .inr ⟨bytes, rfl⟩
  unfold download
  dsimp only
  split
  · exact .inl rfl
  · split
    · exact hcut
    · split
      · exact .inl rfl
      · split
        · exact .inl rfl
        · split
          · exact hcut
          · exact .inr ⟨content, rfl⟩

/-- An attachment is the file of its message, as large as what was downloaded. -/
theorem mem_attachments_fetchAttachment {message : Event} {a : Attachment}
    (hnone : message.attachments = [])
    (h : a ∈ (fetchAttachment d message media f).attachments) :
    a.transfer = transferOf message.eventId ∧ saves d media f = true ∧ f.content = .ok a.size := by
  have hnote (line : String) : a ∉ (Arrivals.note message line).attachments := by
    show a ∉ message.attachments
    rw [hnone]
    exact List.not_mem_nil
  unfold fetchAttachment at h
  unfold saves
  split at h
  · exact absurd h (hnote _)
  · next hsize =>
    split at h
    · exact absurd h (hnote _)
    · next htime =>
      split at h
      · next bytes hbytes =>
        obtain rfl : a = ⟨transferOf message.eventId, media.name, media.mime, bytes⟩ := by
          simpa [hnone] using h
        refine ⟨rfl, ?_, ?_⟩
        · simp [hsize, htime, hbytes]
        · unfold Arrivals.download at hbytes
          cases hcontent : f.content with
          | error e => simp [hcontent] at hbytes
          | ok size =>
            simp only [hcontent] at hbytes
            split at hbytes
            · cases hbytes
            · split at hbytes
              · cases hbytes
              · rw [Except.ok.inj hbytes]
      · exact absurd h (hnote _)
      · exact absurd h (hnote _)

/-- What is let in has no attachment yet, and the id of its arrival. -/
theorem attachments_of_handle {marks : Marks} {clock : Clock} {a : Arrival} {task : Task}
    (h : handle d marks clock a = some task) :
    task.dispatch.event.attachments = [] ∧
      task.dispatch.event.eventId = a.message.eventId := by
  obtain ⟨⟨session, person, kind⟩, -, htask, -⟩ := Arrivals.handle_eq_some h
  obtain ⟨-, -, -, -, -, hmessage, -⟩ := Arrivals.taskOf_head htask
  refine ⟨?_, congrArg Replay.Message.eventId hmessage⟩
  obtain ⟨room, incoming⟩ := a
  cases incoming with
  | message e =>
    simp only [Arrivals.taskOf, Arrivals.messageTask] at htask
    split at htask
    · obtain rfl := Option.some.inj htask
      rfl
    · obtain rfl := Option.some.inj htask
      rfl
    · cases htask
  | reaction e =>
    obtain rfl := Option.some.inj htask
    rfl

end Downloads

/-! ## What is known of the files -/

/-- The step lets in a message whose attachment would be this transfer. -/
def letsIn (transfer : String) : Label → Bool
  | .daemon (.arrive a _ (some _)) => transferOf a.message.eventId = transfer
  | _ => false

/-- The step downloads this transfer. -/
def fetches (transfer : String) : Label → Bool
  | .fetched dispatch _ _ _ _ _ => transferOf dispatch.event.eventId = transfer
  | _ => false

/-- The task waits for the download of this transfer. -/
def awaits (transfer : String) : Task → Bool
  | .attachment dispatch _ => transferOf dispatch.event.eventId = transfer
  | _ => false

/-- The transfer was downloaded, with this content at this time. -/
def Downloaded (d : Daemon) (ls : List Label) (transfer : String) (nowMs : Nat)
    (content : Bytes) : Prop :=
  ∃ dispatch media f left, .fetched dispatch media f nowMs content left ∈ ls ∧
    transferOf dispatch.event.eventId = transfer ∧ saves d media f = true ∧
    f.content = .ok content.length

/-- Each attachment of the event was downloaded, and is as large as it says. -/
def Stored (d : Daemon) (ls : List Label) (event : Event) : Prop :=
  ∀ a ∈ event.attachments, ∃ nowMs content, Downloaded d ls a.transfer nowMs content ∧
    content.length = a.size

/-- An event with this attachment was acknowledged, and its files are removed. -/
def Removed (ls : List Label) (transfer : String) : Prop :=
  ∃ session eventId item, .daemon (.delivery (.ack session eventId (some item))) ∈ ls ∧
    .remove item.2 ∈ ls ∧ transfer ∈ item.2.attachments.map Attachment.transfer

/-- The sweeper took the file, a day after it was written. -/
def Swept (ls : List Label) (transfer : String) (modified : Nat) : Prop :=
  .sweep transfer ∈ ls ∧
    ∃ nowMs, .look transfer modified nowMs ∈ ls ∧ modified + leftoverMaxAgeMs < nowMs

section Mono

variable {d : Daemon} {ls ms : List Label} {transfer : String}

theorem Downloaded.mono {nowMs : Nat} {content : Bytes}
    (h : Downloaded d ls transfer nowMs content) (hsub : ls ⊆ ms) :
    Downloaded d ms transfer nowMs content := by
  obtain ⟨dispatch, media, f, left, hmem, hrest⟩ := h
  exact ⟨dispatch, media, f, left, hsub hmem, hrest⟩

theorem Downloaded.before {l : Label} {nowMs : Nat} {content : Bytes}
    (h : Downloaded d (ls ++ [l]) transfer nowMs content) (hl : fetches transfer l = false) :
    Downloaded d ls transfer nowMs content := by
  obtain ⟨dispatch, media, f, left, hmem, hname, hrest⟩ := h
  refine ⟨dispatch, media, f, left, ?_, hname, hrest⟩
  rcases List.mem_append.mp hmem with hold | hnew
  · exact hold
  · rw [← List.mem_singleton.mp hnew] at hl
    exact absurd hname (of_decide_eq_false hl)

theorem Stored.mono {event : Event} (h : Stored d ls event) (hsub : ls ⊆ ms) :
    Stored d ms event := by
  intro a ha
  obtain ⟨nowMs, content, hdown, hsize⟩ := h a ha
  exact ⟨nowMs, content, hdown.mono hsub, hsize⟩

theorem Removed.mono (h : Removed ls transfer) (hsub : ls ⊆ ms) : Removed ms transfer := by
  obtain ⟨session, eventId, item, hack, hremove, hmem⟩ := h
  exact ⟨session, eventId, item, hsub hack, hsub hremove, hmem⟩

theorem Swept.mono {modified : Nat} (h : Swept ls transfer modified) (hsub : ls ⊆ ms) :
    Swept ms transfer modified := by
  obtain ⟨hsweep, nowMs, hlook, hold⟩ := h
  exact ⟨hsub hsweep, nowMs, hsub hlook, hold⟩

theorem Stored.of_nil {event : Event} (h : event.attachments = []) : Stored d ls event := by
  intro a ha
  rw [h] at ha
  cases ha

end Mono

/-- What is known of a task: what is ready has its attachments, what waits has none. -/
def Known (d : Daemon) (ls : List Label) : Task → Prop
  | .ready dispatch => Stored d ls dispatch.event
  | .attachment dispatch _ => dispatch.event.attachments = []
  | .reaction dispatch _ => dispatch.event.attachments = []

theorem Known.mono {d : Daemon} {ls ms : List Label} {task : Task} (h : Known d ls task)
    (hsub : ls ⊆ ms) : Known d ms task := by
  cases task with
  | ready dispatch => exact Stored.mono h hsub
  | attachment dispatch media => exact h
  | reaction dispatch target => exact h

theorem known_of_nil {d : Daemon} {ls : List Label} {task : Task}
    (h : task.dispatch.event.attachments = []) : Known d ls task := by
  cases task with
  | ready dispatch => exact Stored.of_nil h
  | attachment dispatch media => exact h
  | reaction dispatch target => exact h

/-- Whatever the daemon has for a session has its attachments. -/
structure Equipped (d : Daemon) (ls : List Label) (s : State) : Prop where
  wired : Delivery.Wired s.daemon.delivery
  tasks : ∀ task ∈ s.daemon.tasks, Known d ls task
  sourced : Delivery.Sourced (fun _ item ↦ Stored d ls item.2) s.daemon.delivery
  acked : ∀ event ∈ s.acked,
    ∃ session eventId item, .daemon (.delivery (.ack session eventId (some item))) ∈ ls ∧
      item.2 = event

namespace Equipped

variable {d : Daemon} {ls ms : List Label} {s t : State}

theorem start (clock : Clock) (marks : Marks) (files : String → Option File) :
    Equipped d ls (.start clock marks files) where
  wired := .init clock.replayWindowMs
  tasks task htask := absurd htask (Multiset.notMem_zero task)
  sourced := .init clock.replayWindowMs
  acked event hevent := absurd hevent (Multiset.notMem_zero event)

theorem mono (h : Equipped d ls s) (hsub : ls ⊆ ms) : Equipped d ms s where
  wired := h.wired
  tasks task htask := (h.tasks task htask).mono hsub
  sourced := h.sourced.mono fun _ _ hstored ↦ hstored.mono hsub
  acked event hevent := by
    obtain ⟨session, eventId, item, hmem, heq⟩ := h.acked event hevent
    exact ⟨session, eventId, item, hsub hmem, heq⟩

theorem daemon (h : Equipped d ls s) {l : Arrivals.Label} {t : Arrivals.State}
    (hplain : plain l = true) (hstep : Arrivals.Step d s.daemon l t) :
    Delivery.Wired t.delivery ∧ (∀ task ∈ t.tasks, Known d ls task) ∧
      Delivery.Sourced (fun _ item ↦ Stored d ls item.2) t.delivery := by
  cases hstep with
  | arrive a =>
    refine ⟨h.wired, fun task htask ↦ ?_, h.sourced⟩
    rcases Multiset.mem_add.mp htask with hnow | hold
    · exact known_of_nil (attachments_of_handle (by simpa using hnow)).1
    · exact h.tasks task hold
  | fetched => cases hplain
  | reacted dispatch target found hmem =>
    refine ⟨h.wired, fun task htask ↦ ?_, h.sourced⟩
    rcases Multiset.mem_add.mp htask with hnow | hold
    · split at hnow
      · obtain rfl := Multiset.mem_singleton.mp hnow
        exact known_of_nil (h.tasks _ hmem)
      · exact absurd hnow (Multiset.notMem_zero task)
    · exact h.tasks task (Multiset.mem_of_mem_erase hold)
  | dispatch dispatch answer delivery hmem hstep =>
    have hknown : (Delivery.Label.deliver dispatch answer).Known
        (fun _ item ↦ Stored d ls item.2) := h.tasks _ hmem
    exact ⟨Delivery.wired_step h.wired hstep,
      fun task htask ↦ h.tasks task (Multiset.mem_of_mem_erase htask),
      Delivery.sourced_step h.sourced h.wired hknown hstep⟩
  | delivery l delivery hl hstep =>
    have hknown : l.Known (fun _ item ↦ Stored d ls item.2) := by
      cases l with
      | deliver => cases hl
      | _ => trivial
    exact ⟨Delivery.wired_step h.wired hstep, h.tasks,
      Delivery.sourced_step h.sourced h.wired hknown hstep⟩
  | newer | saved | failed => exact ⟨h.wired, h.tasks, h.sourced⟩
  | restart => cases hplain

theorem step (h : Equipped d ls s) {l : Label} (hstep : Step d s l t) :
    Equipped d (ls ++ [l]) t := by
  have hnew : l ∈ ls ++ [l] := List.mem_append_right ls List.mem_cons_self
  replace h := h.mono (List.subset_append_left ls [l])
  cases hstep with
  | daemon l t hplain hstep =>
    obtain ⟨hwired, htasks, hsourced⟩ := h.daemon hplain hstep
    refine ⟨hwired, htasks, hsourced, fun event hevent ↦ ?_⟩
    rcases Multiset.mem_add.mp hevent with hnow | hold
    · unfold acking at hnow
      split at hnow
      · next session eventId item =>
        exact ⟨session, eventId, item, hnew, (Multiset.mem_singleton.mp hnow).symm⟩
      · exact absurd hnow (Multiset.notMem_zero event)
    · exact h.acked event hold
  | fetched dispatch media f nowMs content left hmem hcontent =>
    refine ⟨h.wired, fun task htask ↦ ?_, h.sourced, h.acked⟩
    rcases Multiset.mem_cons.mp htask with rfl | hold
    · intro a ha
      obtain ⟨htransfer, hsaves, hsize⟩ := mem_attachments_fetchAttachment (h.tasks _ hmem) ha
      have hlength := hcontent a.size hsize
      exact ⟨nowMs, content, ⟨dispatch, media, f, left, hnew, htransfer.symm, hsaves,
        hlength ▸ hsize⟩, hlength⟩
    · exact h.tasks task (Multiset.mem_of_mem_erase hold)
  | remove event hmem =>
    exact ⟨h.wired, h.tasks, h.sourced,
      fun other hother ↦ h.acked other (Multiset.mem_of_mem_erase hother)⟩
  | look | sweep => exact ⟨h.wired, h.tasks, h.sourced, h.acked⟩
  | restart clock => exact .start clock _ _

end Equipped

theorem equipped_run {d : Daemon} {clock : Clock} {marks : Marks} {files : String → Option File}
    {ls : List Label} {s : State} (h : Lts.Run (Step d) (.start clock marks files) ls s) :
    Equipped d ls s :=
  h.history (I := Equipped d) (.start clock marks files)
    fun _ _ _ _ hpre hstep ↦ hpre.step hstep

/-! ## One message of a name -/

/-- A transfer is downloaded only for a message that was let in. -/
theorem count_step {d : Daemon} {s t : State} {ls : List Label} {l : Label} {transfer : String}
    (h : ls.countP (fetches transfer) + s.daemon.tasks.countP (awaits transfer ·) ≤
      ls.countP (letsIn transfer))
    (hequipped : ∀ a answer task, l = .daemon (.arrive a answer (some task)) →
      task.dispatch.event.eventId = a.message.eventId)
    (hstep : Step d s l t) :
    (ls ++ [l]).countP (fetches transfer) + t.daemon.tasks.countP (awaits transfer ·) ≤
      (ls ++ [l]).countP (letsIn transfer) := by
  simp only [List.countP_append, List.countP_singleton]
  cases hstep with
  | daemon l t hplain hstep =>
    have hno : fetches transfer (.daemon l) = false := rfl
    rw [hno, if_neg (by decide)]
    cases hstep with
    | arrive a =>
      have hid := hequipped a
      cases hhandle : handle d s.daemon.marks s.daemon.clock a with
      | none => simpa [hhandle, letsIn] using h
      | some task =>
        rw [hhandle] at hid
        have hid := hid _ task rfl
        have hmore : (if awaits transfer task = true then 1 else 0) ≤
            if letsIn transfer (.daemon (.arrive a (a.verdict s.daemon.marks s.daemon.clock)
              (some task))) = true then 1 else 0 := by
          cases task with
          | attachment dispatch media =>
            have hid : dispatch.event.eventId = a.message.eventId := hid
            simp [awaits, letsIn, hid]
          | ready dispatch => simp [awaits]
          | reaction dispatch target => simp [awaits]
        simp only [Option.toList_some, Multiset.coe_singleton, Multiset.singleton_add,
          Multiset.countP_cons]
        omega
    | fetched => cases hplain
    | reacted dispatch target found hmem =>
      have hless := Multiset.countP_le_of_le (fun task ↦ awaits transfer task = true)
        (Multiset.erase_le (.reaction dispatch target) s.daemon.tasks)
      have hnone : Multiset.countP (fun task ↦ awaits transfer task = true)
          (if Arrivals.reactsToBot d found = true then {.ready dispatch} else 0) = 0 := by
        rw [Multiset.countP_eq_zero]
        intro task htask
        split at htask
        · rw [Multiset.mem_singleton.mp htask]
          exact Bool.false_ne_true
        · exact absurd htask (Multiset.notMem_zero task)
      rw [Multiset.countP_add, hnone]
      omega
    | dispatch dispatch answer delivery hmem hstep =>
      have hless := Multiset.countP_le_of_le (fun task ↦ awaits transfer task = true)
        (Multiset.erase_le (.ready dispatch) s.daemon.tasks)
      dsimp only
      omega
    | delivery | newer | saved | failed => exact h.trans (Nat.le_add_right _ _)
    | restart => cases hplain
  | fetched dispatch media f nowMs content left hmem hcontent =>
    -- the task that waits is done with
    rw [← Multiset.cons_erase hmem, Multiset.countP_cons] at h
    have hone : (if fetches transfer (.fetched dispatch media f nowMs content left) = true
        then 1 else 0) = if awaits transfer (.attachment dispatch media) = true then 1 else 0 := rfl
    rw [Multiset.countP_cons, hone]
    simp only [letsIn, awaits, Bool.false_eq_true, if_false, add_zero] at h ⊢
    omega
  | remove | look | sweep =>
    simp only [fetches, letsIn, Bool.false_eq_true, if_false, add_zero]
    exact h
  | restart clock =>
    simp only [fetches, letsIn, Bool.false_eq_true, if_false, add_zero]
    have hzero : (State.start clock s.daemon.saved s.files).daemon.tasks = 0 := rfl
    rw [hzero, Multiset.countP_zero]
    omega

theorem count_run {d : Daemon} {clock : Clock} {marks : Marks} {files : String → Option File}
    {ls : List Label} {s : State} (h : Lts.Run (Step d) (.start clock marks files) ls s)
    (transfer : String) :
    ls.countP (fetches transfer) + s.daemon.tasks.countP (awaits transfer ·) ≤
      ls.countP (letsIn transfer) := by
  refine h.history (I := fun ls s ↦ ls.countP (fetches transfer) +
    s.daemon.tasks.countP (awaits transfer ·) ≤ ls.countP (letsIn transfer)) le_rfl ?_
  intro ls s l t hpre hstep
  refine count_step hpre ?_ hstep
  rintro a answer task rfl
  cases hstep with
  | daemon l t hplain hstep =>
    generalize htask : some task = made at hstep
    cases hstep with
    | arrive a => exact (attachments_of_handle htask.symm).2

/-- The two are the same label where there is one of the kind at most. -/
theorem eq_of_countP_le_one {α : Type*} {p : α → Bool} {xs : List α} {x y : α}
    (h : xs.countP p ≤ 1) (hx : x ∈ xs) (hy : y ∈ xs) (hpx : p x = true) (hpy : p y = true) :
    x = y := by
  rw [List.countP_eq_length_filter] at h
  have hx := List.mem_filter.mpr ⟨hx, hpx⟩
  have hy := List.mem_filter.mpr ⟨hy, hpy⟩
  match hfilter : xs.filter p, h with
  | [], _ =>
    rw [hfilter] at hx
    cases hx
  | [z], _ =>
    rw [hfilter] at hx hy
    rw [List.mem_singleton.mp hx, List.mem_singleton.mp hy]

section Holding

variable (d : Daemon) (files : String → Option File) (transfer : String)

/-- The file was written then: it lay there at the start, or its download wrote it. -/
def WrittenAt (ls : List Label) (modified : Nat) : Prop :=
  (∃ file, files transfer = some file ∧ file.modified = modified) ∨
    ∃ l ∈ ls, fetches transfer l = true ∧
      ∃ dispatch media f content left, l = .fetched dispatch media f modified content left

/-- What becomes of the file of a transfer that is downloaded once at most. -/
structure Holding (ls : List Label) (s : State) : Prop where
  written : ∀ file, s.files transfer = some file → WrittenAt files transfer ls file.modified
  doomed : s.doomed = some transfer → ∃ modified nowMs, .look transfer modified nowMs ∈ ls ∧
    modified + leftoverMaxAgeMs < nowMs ∧ WrittenAt files transfer ls modified
  kept : ls.countP (fetches transfer) ≤ 1 → ∀ nowMs content,
    Downloaded d ls transfer nowMs content →
      s.files transfer = some ⟨nowMs, content⟩ ∨ Removed ls transfer ∨
        ∃ modified, Swept ls transfer modified ∧ WrittenAt files transfer ls modified

variable {d files transfer} {ls ms : List Label} {s t : State}

theorem WrittenAt.mono {modified : Nat} (h : WrittenAt files transfer ls modified)
    (hsub : ls ⊆ ms) : WrittenAt files transfer ms modified := by
  rcases h with hstart | ⟨l, hl, hrest⟩
  · exact .inl hstart
  · exact .inr ⟨l, hsub hl, hrest⟩

/-- A step that leaves the file, or that accounts for it. -/
theorem Holding.keep (h : Holding d files transfer ls s) {l : Label}
    (hl : fetches transfer l = false)
    (hfile : t.files transfer = s.files transfer ∨ t.files transfer = none ∧
      (Removed (ls ++ [l]) transfer ∨ ∃ modified, Swept (ls ++ [l]) transfer modified ∧
        WrittenAt files transfer (ls ++ [l]) modified))
    (hdoomed : t.doomed = some transfer → ∃ modified nowMs,
      .look transfer modified nowMs ∈ ls ++ [l] ∧ modified + leftoverMaxAgeMs < nowMs ∧
        WrittenAt files transfer (ls ++ [l]) modified) :
    Holding d files transfer (ls ++ [l]) t where
  written file hsome := by
    rcases hfile with hsame | ⟨hnone, -⟩
    · exact (h.written file (hsame ▸ hsome)).mono (List.subset_append_left ls [l])
    · cases hnone.symm.trans hsome
  doomed := hdoomed
  kept hcount nowMs content hdown := by
    have hsub := List.subset_append_left ls [l]
    rw [List.countP_append, List.countP_singleton, hl] at hcount
    rcases hfile with hsame | ⟨-, hgone⟩
    · rw [hsame]
      rcases h.kept hcount nowMs content (hdown.before hl) with
        hfile | hremoved | ⟨modified, hswept, hwritten⟩
      · exact .inl hfile
      · exact .inr (.inl (hremoved.mono hsub))
      · exact .inr (.inr ⟨modified, hswept.mono hsub, hwritten.mono hsub⟩)
    · exact .inr hgone

theorem Holding.doomed_mono (h : Holding d files transfer ls s) (l : Label)
    (hdoomed : s.doomed = some transfer) : ∃ modified nowMs,
      .look transfer modified nowMs ∈ ls ++ [l] ∧ modified + leftoverMaxAgeMs < nowMs ∧
        WrittenAt files transfer (ls ++ [l]) modified := by
  have hsub := List.subset_append_left ls [l]
  obtain ⟨modified, nowMs, hlook, hold, hwritten⟩ := h.doomed hdoomed
  exact ⟨modified, nowMs, hsub hlook, hold, hwritten.mono hsub⟩

theorem Holding.step (h : Holding d files transfer ls s) (hequipped : Equipped d ls s) {l : Label}
    (hstep : Step d s l t) : Holding d files transfer (ls ++ [l]) t := by
  have hsub := List.subset_append_left ls [l]
  have hnew : l ∈ ls ++ [l] := List.mem_append_right ls List.mem_cons_self
  cases hstep with
  | daemon l t hplain hstep =>
    exact h.keep rfl (.inl rfl) (h.doomed_mono _)
  | fetched dispatch media f nowMs content left hmem hcontent =>
    by_cases hname : transferOf dispatch.event.eventId = transfer
    · -- the one download of the transfer
      subst hname
      have hwrote : WrittenAt files (transferOf dispatch.event.eventId)
          (ls ++ [.fetched dispatch media f nowMs content left]) nowMs :=
        .inr ⟨_, hnew, decide_eq_true rfl, dispatch, media, f, content, left, rfl⟩
      refine ⟨fun file hfile ↦ ?_, h.doomed_mono _, fun hcount nowMs' content' hdown ↦ ?_⟩
      · rw [show State.files _ _ = _ from Function.update_self ..] at hfile
        rcases download_cases d media f nowMs content left
          (s.files (transferOf dispatch.event.eventId)) with hsame | ⟨bytes, hbytes⟩
        · exact (h.written file (hsame ▸ hfile)).mono hsub
        · obtain rfl := Option.some.inj (hbytes.symm.trans hfile)
          exact hwrote
      · obtain ⟨dispatch', media', f', left', hmem', hname', hsaves, hsize⟩ := hdown
        have hsame := eq_of_countP_le_one hcount hmem' hnew (decide_eq_true hname')
          (decide_eq_true rfl)
        cases hsame
        left
        rw [show State.files _ _ = _ from Function.update_self ..]
        exact download_of_saves hsaves nowMs content left _
    · exact h.keep (decide_eq_false hname)
        (.inl (Function.update_of_ne (Ne.symm hname) ..)) (h.doomed_mono _)
  | remove event hmem =>
    refine h.keep rfl ?_ (h.doomed_mono _)
    by_cases hmine : transfer ∈ event.attachments.map Attachment.transfer
    · obtain ⟨session, eventId, item, hack, rfl⟩ := hequipped.acked event hmem
      exact .inr ⟨if_pos hmine, .inl ⟨session, eventId, item, hsub hack, hnew, hmine⟩⟩
    · exact .inl (if_neg hmine)
  | look other file nowMs hfile hold =>
    refine h.keep rfl (.inl rfl) fun hdoomed ↦ ?_
    obtain rfl : other = transfer := Option.some.inj hdoomed
    exact ⟨file.modified, nowMs, hnew, by omega, (h.written file hfile).mono hsub⟩
  | sweep other hdoomed =>
    refine h.keep rfl ?_ nofun
    by_cases hmine : transfer = other
    · subst hmine
      obtain ⟨modified, nowMs, hlook, hold, hwritten⟩ := h.doomed hdoomed
      exact .inr ⟨Function.update_self .., .inr ⟨modified, ⟨hnew, nowMs, hsub hlook, hold⟩,
        hwritten.mono hsub⟩⟩
    · exact .inl (Function.update_of_ne hmine ..)
  | restart clock => exact h.keep rfl (.inl rfl) nofun

end Holding

/-- While it is there, the file of a transfer that is downloaded once at most is what was
downloaded. -/
theorem file_run {d : Daemon} {clock : Clock} {marks : Marks} {files : String → Option File}
    {ls : List Label} {s : State} (h : Lts.Run (Step d) (.start clock marks files) ls s)
    (transfer : String) : ls.countP (fetches transfer) ≤ 1 → ∀ nowMs content,
      Downloaded d ls transfer nowMs content → ∀ file, s.files transfer = some file →
        file = ⟨nowMs, content⟩ := by
  refine h.history (I := fun ls s ↦ ls.countP (fetches transfer) ≤ 1 → ∀ nowMs content,
    Downloaded d ls transfer nowMs content → ∀ file, s.files transfer = some file →
      file = ⟨nowMs, content⟩) ?_ ?_
  · rintro - nowMs content ⟨_, _, _, _, hmem, -⟩
    cases hmem
  · intro ls s l t hpre hstep hcount nowMs content hdown file hfile
    by_cases hl : fetches transfer l = true
    · -- the one download
      obtain ⟨dispatch', media', f', left', hmem', hname', hsaves, -⟩ := hdown
      have hsame := eq_of_countP_le_one hcount hmem'
        (List.mem_append_right ls List.mem_cons_self) (decide_eq_true hname') hl
      subst hsame
      cases hstep with
      | fetched =>
        subst hname'
        rw [show State.files _ _ = _ from Function.update_self .., download_of_saves hsaves]
          at hfile
        exact (Option.some.inj hfile).symm
    · have hl : fetches transfer l = false := by simpa using hl
      rw [List.countP_append, List.countP_singleton, hl] at hcount
      have hkept : s.files transfer = some file := by
        cases hstep with
        | daemon | look | restart => exact hfile
        | fetched =>
          rwa [show State.files _ _ = _ from
            Function.update_of_ne (Ne.symm (of_decide_eq_false hl)) ..] at hfile
        | remove event =>
          dsimp only at hfile
          split at hfile
          · cases hfile
          · exact hfile
        | sweep other =>
          by_cases hmine : transfer = other
          · subst hmine
            rw [show State.files _ _ = _ from Function.update_self ..] at hfile
            cases hfile
          · rwa [show State.files _ _ = _ from Function.update_of_ne hmine ..] at hfile
      exact hpre hcount nowMs content (hdown.before hl) file hkept

/-- An event goes to its session with its file.  In every run, with the marks and the files that the
daemon finds at its start, each attachment of an event that is written to a connection was
downloaded with the size it says; and if one message of that name was let in, the file still holds
what was downloaded, or the event was acknowledged, or the sweeper found the file older than a
day, be it the one that was downloaded or one that lay there before. -/
theorem written_with_file {d : Daemon} {clock : Clock} {marks : Marks}
    {files : String → Option File} {ls : List Label} {s t : State} {i : Nat} {event : Event}
    (h : Lts.Run (Step d) (.start clock marks files) ls s)
    (hstep : Step d s (.daemon (.delivery (.write i event))) t) :
    ∀ a ∈ event.attachments, ∃ nowMs content, Downloaded d ls a.transfer nowMs content ∧
      content.length = a.size ∧
      (ls.countP (letsIn a.transfer) ≤ 1 →
        s.files a.transfer = some ⟨nowMs, content⟩ ∨ Removed ls a.transfer ∨
          ∃ modified, Swept ls a.transfer modified ∧
            (modified = nowMs ∨
              ∃ file, files a.transfer = some file ∧ file.modified = modified)) := by
  have hequipped := equipped_run h
  cases hstep with
  | daemon _ t hplain hstep =>
    cases hstep with
    | delivery _ delivery _ hstep =>
      obtain ⟨conn, ts, hi, hstored⟩ := hequipped.sourced.written hstep
      intro a ha
      obtain ⟨nowMs, content, hdown, hsize⟩ := hstored a ha
      refine ⟨nowMs, content, hdown, hsize, fun hone ↦ ?_⟩
      have hcount : ls.countP (fetches a.transfer) ≤ 1 :=
        (Nat.le_add_right _ _).trans ((count_run h a.transfer).trans hone)
      have hholding : Equipped d ls s ∧ Holding d files a.transfer ls s :=
        h.history (I := fun ls s ↦ Equipped d ls s ∧ Holding d files a.transfer ls s)
          ⟨.start clock marks files, fun file hfile ↦ .inl ⟨file, hfile, rfl⟩, nofun,
            fun _ _ _ hnone ↦ by
              obtain ⟨dispatch, media, f, left, hmem, -⟩ := hnone
              cases hmem⟩
          fun _ _ _ _ hpre hstep ↦ ⟨hpre.1.step hstep, hpre.2.step hpre.1 hstep⟩
      rcases hholding.2.kept hcount nowMs content hdown with
        hfile | hremoved | ⟨modified, hswept, hwritten⟩
      · exact .inl hfile
      · exact .inr (.inl hremoved)
      · refine .inr (.inr ⟨modified, hswept, ?_⟩)
        rcases hwritten with hstart | ⟨l, hl, hfetches, dispatch, media, f, content', left, rfl⟩
        · exact .inr hstart
        · -- the one download of the transfer is this one
          obtain ⟨dispatch', media', f', left', hmem, hname, -⟩ := hdown
          have hsame := eq_of_countP_le_one hcount hl hmem hfetches (decide_eq_true hname)
          cases hsame
          exact .inl rfl

/-- Bob sends a file of one byte in his room. -/
def photo : Arrival where
  room := Arrivals.hello.room
  incoming := .message {
    sender := "@bob:silta.test"
    eventId := "$2"
    originServerTs := 5000
    content := ⟨none, .media .image ⟨"a.jpg", none, some "image/jpeg", some 1⟩⟩ }

def photoMedia : Media := ⟨"a.jpg", "image/jpeg", some 1, ""⟩

def photoDispatch : Dispatch where
  session := "bob"
  ts := 5000
  event := { Arrivals.helloDispatch.event with eventId := "$2", text := "" }

/-- The file is downloaded. -/
def photoFetched : Fetched := ⟨.ok 1, none, false⟩

def photoEvent : Event :=
  { photoDispatch.event with attachments := [⟨"2-1", "a.jpg", "image/jpeg", 1⟩] }

theorem handle_photo :
    handle Arrivals.mindsDaemon (fun _ ↦ none) ⟨1000, 300000⟩ photo =
      some (.attachment photoDispatch photoMedia) := by
  decide +kernel

theorem fetch_photo : fetchAttachment Arrivals.mindsDaemon photoDispatch.event photoMedia
    photoFetched = photoEvent := by
  decide +kernel

/-- It is downloaded while the session is connected, and is written to it. -/
theorem photo_run : ∃ ls s t,
    Lts.Run (Step Arrivals.mindsDaemon) (.start ⟨1000, 300000⟩ (fun _ ↦ none) fun _ ↦ none) ls s ∧
      Step Arrivals.mindsDaemon s (.daemon (.delivery (.write 0 photoEvent))) t ∧
      ls.countP (letsIn "2-1") ≤ 1 := by
  have hconnect := (((Lts.Run.single (Step.daemon (d := Arrivals.mindsDaemon)
    (.start ⟨1000, 300000⟩ (fun _ ↦ none) fun _ ↦ none) _ _ rfl
      (.delivery _ _ _ rfl (.claim "bob" 0 rfl)))).snoc
    (.daemon _ _ _ rfl (.delivery _ _ _ rfl (.drain (i := 0) 2000 rfl rfl rfl)))).snoc
    (.daemon _ _ _ rfl (.delivery _ _ _ rfl (.extend (i := 0) rfl rfl)))).snoc
    (.daemon _ _ _ rfl (.delivery _ _ _ rfl (.serve (i := 0) rfl rfl)))
  have harrive := hconnect.snoc (.daemon _ _ _ rfl (.arrive _ photo))
  let tasks : Multiset Task :=
    ↑(handle Arrivals.mindsDaemon (fun _ ↦ none) ⟨1000, 300000⟩ photo).toList + 0
  have hmem : Task.attachment photoDispatch photoMedia ∈ tasks := by
    simp only [tasks, handle_photo]
    simp
  have hfetch := harrive.snoc (.fetched _ photoDispatch photoMedia photoFetched 6000 [7] none hmem
    fun bytes hbytes ↦ by
      obtain rfl : 1 = bytes := Except.ok.inj hbytes
      rfl)
  have hready : Task.ready ⟨"bob", 5000, photoEvent⟩ ∈
      Task.ready ⟨"bob", 5000, fetchAttachment Arrivals.mindsDaemon photoDispatch.event photoMedia
        photoFetched⟩ ::ₘ tasks.erase (.attachment photoDispatch photoMedia) := by
    rw [fetch_photo]
    exact Multiset.mem_cons_self _ _
  have hdispatch := hfetch.snoc
    (.daemon _ _ _ rfl (.dispatch _ ⟨"bob", 5000, photoEvent⟩ (.ok ()) _ hready (.deliver _ rfl)))
  refine ⟨_, _, _, hdispatch, .daemon _ _ _ rfl
    (.delivery _ _ _ rfl (.writeEvent (i := 0) rfl rfl rfl rfl rfl)), ?_⟩
  decide +kernel

theorem written_with_file_photo : ∃ ls, ∃ s : State, ∃ nowMs content,
    Downloaded Arrivals.mindsDaemon ls "2-1" nowMs content ∧ content.length = 1 ∧
      (s.files "2-1" = some ⟨nowMs, content⟩ ∨ Removed ls "2-1" ∨ Swept ls "2-1" nowMs) := by
  obtain ⟨ls, s, t, hrun, hstep, hone⟩ := photo_run
  obtain ⟨nowMs, content, hdown, hsize, hfile⟩ :=
    written_with_file hrun hstep ⟨"2-1", "a.jpg", "image/jpeg", 1⟩ List.mem_cons_self
  refine ⟨ls, s, nowMs, content, hdown, hsize, ?_⟩
  rcases hfile hone with hthere | hremoved | ⟨modified, hswept, rfl | ⟨file, hnone, -⟩⟩
  · exact .inl hthere
  · exact .inr (.inl hremoved)
  · exact .inr (.inr hswept)
  · cases hnone

end SpoolFiles

end Silta
