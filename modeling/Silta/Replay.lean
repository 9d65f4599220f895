import Silta.Lib.Latest
import Silta.Lib.Lts

/-!
# Replay after a start

Which inbound messages are delivered after a start: the verdict over a room's watermark and the
replay window, the marks that the acknowledgements move, and every order of arrivals,
acknowledgements and restarts.
-/

namespace Silta

namespace Replay

/-- The last message delivered in a room. -/
structure Watermark where
  tsMs : Nat
  eventId : String
  deriving DecidableEq, Repr

inductive Verdict
  /-- `behindStartMs` is how long before the daemon start the message was sent. -/
  | deliver (behindStartMs : Nat)
  /-- At or before the watermark. -/
  | alreadyDelivered
  /-- Older than the replay window. -/
  | tooOld
  deriving DecidableEq, Repr

/-- When the daemon started, and how far back a start replays. -/
structure Clock where
  startedAtMs : Nat
  replayWindowMs : Nat
  deriving DecidableEq, Repr

/-- The sum is one of `u64`s. -/
def TooOld (clock : Clock) (tsMs : Nat) : Prop :=
  (tsMs + clock.replayWindowMs) % 2 ^ 64 < clock.startedAtMs

instance (clock : Clock) (tsMs : Nat) : Decidable (TooOld clock tsMs) :=
  inferInstanceAs (Decidable (_ < _))

def verdict (tsMs : Nat) (eventId : String) (mark : Option Watermark) (clock : Clock) : Verdict :=
  if mark.any fun mark ↦ tsMs < mark.tsMs ∨ tsMs = mark.tsMs ∧ eventId = mark.eventId then
    .alreadyDelivered
  else if TooOld clock tsMs then
    .tooOld
  else
    .deliver (clock.startedAtMs - tsMs)

/-- The watermarks by room. -/
abbrev Marks := String → Option Watermark

/-- What `set` does under the lock: nothing where the mark of the room is newer, else it stores the
mark and answers with the snapshot to save. -/
def Marks.set (map : Marks) (roomId : String) (mark : Watermark) : Option Marks :=
  if (map roomId).any fun current ↦ mark.tsMs < current.tsMs then
    none
  else
    some (Function.update map roomId (some mark))

/-- A message or a reaction, as its verdict and its mark see it. -/
structure Message where
  roomId : String
  eventId : String
  tsMs : Nat
  deriving DecidableEq, Repr

def Message.mark (m : Message) : Watermark := ⟨m.tsMs, m.eventId⟩

/-! ## Runs -/

structure State where
  clock : Clock
  marks : Marks
  delivered : Marks
  /-- Let in for a session, and not acknowledged so far. -/
  admitted : List (String × Message)

/-- What becomes of the mark of an acknowledgement. -/
inductive Saving
  | newer
  | saved
  | failed
  deriving DecidableEq, Repr

inductive Label
  | judge (session : String) (m : Message) (answer : Verdict)
  | ack (session : String) (m : Message) (saving : Saving)
  | restart (clock : Clock)
  deriving DecidableEq, Repr

/-- Nothing was ever delivered. -/
def State.start (clock : Clock) : State := ⟨clock, fun _ ↦ none, fun _ ↦ none, []⟩

/-- Messages arrive, are let in or not, and those let in are acknowledged in any order or never; a
restart loads the saved marks and leaves what was not acknowledged to the replay. -/
inductive Step : State → Label → State → Prop
  | judge (s : State) (session : String) (m : Message) :
      Step s (.judge session m (verdict m.tsMs m.eventId (s.marks m.roomId) s.clock))
        { s with admitted :=
            match verdict m.tsMs m.eventId (s.marks m.roomId) s.clock with
            | .deliver _ => (session, m) :: s.admitted
            | _ => s.admitted }
  | newer (s : State) (session : String) (m : Message) (hm : (session, m) ∈ s.admitted)
      (hset : s.marks.set m.roomId m.mark = none) :
      Step s (.ack session m .newer) { s with admitted := s.admitted.erase (session, m) }
  | saved (s : State) (session : String) (m : Message) (marks : Marks)
      (hm : (session, m) ∈ s.admitted) (hset : s.marks.set m.roomId m.mark = some marks) :
      Step s (.ack session m .saved)
        { s with marks := marks, delivered := marks, admitted := s.admitted.erase (session, m) }
  -- the mark in memory has moved all the same
  | failed (s : State) (session : String) (m : Message) (marks : Marks)
      (hm : (session, m) ∈ s.admitted) (hset : s.marks.set m.roomId m.mark = some marks) :
      Step s (.ack session m .failed)
        { s with marks := marks, admitted := s.admitted.erase (session, m) }
  -- what was not acknowledged comes again with the sync, and is judged anew
  | restart (s : State) (clock : Clock) :
      Step s (.restart clock) { s with clock := clock, marks := s.delivered, admitted := [] }

/-! ## What the marks stand for -/

/-- The marks are those of a history of acknowledgements, newest first: of each room the latest. -/
def Stands (marks : Marks) (acks : List Message) : Prop :=
  ∀ roomId, marks roomId =
    ((acks.filter fun m ↦ m.roomId = roomId).argmax Message.tsMs).map Message.mark

theorem Stands.nil : Stands (fun _ ↦ none) [] := fun _ ↦ rfl

theorem Stands.any_newer {marks : Marks} {acks : List Message} (h : Stands marks acks)
    (m : Message) :
    ((marks m.roomId).any fun current ↦ m.mark.tsMs < current.tsMs) =
      ((acks.filter fun a ↦ a.roomId = m.roomId).argmax Message.tsMs).any fun c ↦
        m.tsMs < c.tsMs := by
  rw [h m.roomId, Option.any_map]
  rfl

theorem latest_cons_of_ne {m : Message} {roomId : String} (acks : List Message)
    (h : m.roomId ≠ roomId) :
    ((m :: acks).filter fun a ↦ a.roomId = roomId) = acks.filter fun a ↦ a.roomId = roomId := by
  simp [h]

theorem latest_cons (m : Message) (acks : List Message) :
    ((m :: acks).filter fun a ↦ a.roomId = m.roomId) =
      m :: acks.filter fun a ↦ a.roomId = m.roomId := by
  simp

theorem Stands.newer {marks : Marks} {acks : List Message} {m : Message} (h : Stands marks acks)
    (hset : marks.set m.roomId m.mark = none) : Stands marks (m :: acks) := by
  have hnewer : ((marks m.roomId).any fun current ↦ m.mark.tsMs < current.tsMs) = true := by
    by_contra hno
    simp [Marks.set, hno] at hset
  intro roomId
  by_cases hroom : m.roomId = roomId
  · subst hroom
    rw [latest_cons, Latest.argmax_cons_eq_ite, ← h.any_newer, if_pos hnewer]
    exact h m.roomId
  · rw [latest_cons_of_ne acks hroom]
    exact h roomId

theorem Stands.set {marks marks' : Marks} {acks : List Message} {m : Message}
    (h : Stands marks acks) (hset : marks.set m.roomId m.mark = some marks') :
    Stands marks' (m :: acks) := by
  unfold Marks.set at hset
  split at hset
  · cases hset
  · next hno =>
    obtain rfl := Option.some.inj hset
    intro roomId
    by_cases hroom : m.roomId = roomId
    · subst hroom
      rw [latest_cons, Latest.argmax_cons_eq_ite, ← h.any_newer, if_neg hno]
      simp
    · rw [latest_cons_of_ne acks hroom, Function.update_of_ne (Ne.symm hroom)]
      exact h roomId

/-- The acknowledgements pass a message: one of its room has a later timestamp, or the newest of its
room and timestamp is of its event. -/
def Passed (acks : List Message) (m : Message) : Prop :=
  (∃ a ∈ acks, a.roomId = m.roomId ∧ m.tsMs < a.tsMs) ∨
    ((acks.find? fun a ↦ a.roomId = m.roomId ∧ a.tsMs = m.tsMs).any fun a ↦
      a.eventId = m.eventId) = true

instance (acks : List Message) (m : Message) : Decidable (Passed acks m) :=
  inferInstanceAs (Decidable (_ ∨ _))

/-- The verdict of the marks is that of the acknowledgements they stand for. -/
theorem verdict_alreadyDelivered_iff {marks : Marks} {acks : List Message} (h : Stands marks acks)
    (m : Message) (clock : Clock) :
    verdict m.tsMs m.eventId (marks m.roomId) clock = .alreadyDelivered ↔ Passed acks m := by
  have hverdict : verdict m.tsMs m.eventId (marks m.roomId) clock = .alreadyDelivered ↔
      ((marks m.roomId).any fun mark ↦
        m.tsMs < mark.tsMs ∨ m.tsMs = mark.tsMs ∧ m.eventId = mark.eventId) = true := by
    unfold verdict
    split
    · simp_all
    · split <;> simp_all
  rw [hverdict, h m.roomId, Option.any_map]
  set room := acks.filter fun a ↦ a.roomId = m.roomId with hroom
  have hlater : (∃ a ∈ acks, a.roomId = m.roomId ∧ m.tsMs < a.tsMs) ↔
      ((room.argmax Message.tsMs).any fun c ↦ m.tsMs < c.tsMs) = true := by
    rw [Latest.any_argmax_lt_iff]
    simp [hroom, and_assoc]
  unfold Passed
  by_cases hpast : ((room.argmax Message.tsMs).any fun c ↦ m.tsMs < c.tsMs) = true
  · -- a later one is acknowledged
    refine iff_of_true ?_ (.inl (hlater.mpr hpast))
    obtain ⟨c, hc, hlt⟩ := Option.any_eq_true _ _ |>.mp hpast
    rw [hc]
    simp [Message.mark, of_decide_eq_true hlt]
  · -- none is, so that what counts is the newest of the same timestamp
    have hle : ∀ a ∈ room, a.tsMs ≤ m.tsMs := by
      intro a ha
      by_contra hlt
      exact hpast (Latest.any_argmax_lt_iff.mpr ⟨a, ha, not_le.mp hlt⟩)
    have hfind : (acks.find? fun a ↦ a.roomId = m.roomId ∧ a.tsMs = m.tsMs) =
        (room.argmax Message.tsMs).filter fun c ↦ decide (c.tsMs = m.tsMs) := by
      rw [Latest.filter_argmax_eq_find? hle, hroom, List.find?_filter]
      congr 1
      funext a
      simp
    rw [or_iff_right (mt hlater.mp hpast), hfind]
    cases hc : room.argmax Message.tsMs with
    | none => rfl
    | some c =>
      have hcle : c.tsMs ≤ m.tsMs := hle c (List.argmax_mem hc)
      by_cases heq : c.tsMs = m.tsMs
      · simp [Message.mark, heq, eq_comm]
      · simp [Message.mark, heq, Ne.symm heq, hcle]

/-- The acknowledgements that the marks in memory and those in `delivered.json` stand for, newest
first. -/
structure Acks where
  recalled : List Message
  saved : List Message

def Acks.note (h : Acks) : Label → Acks
  | .judge .. => h
  | .ack _ m .saved => ⟨m :: h.recalled, m :: h.recalled⟩
  | .ack _ m _ => { h with recalled := m :: h.recalled }
  | .restart _ => { h with recalled := h.saved }

def Acks.after (ls : List Label) : Acks := ls.foldl Acks.note ⟨[], []⟩

theorem Acks.after_concat (ls : List Label) (l : Label) :
    Acks.after (ls ++ [l]) = (Acks.after ls).note l := by
  simp [Acks.after]

theorem stands_step {s t : State} {l : Label} {h : Acks} (hstep : Step s l t)
    (hmarks : Stands s.marks h.recalled) (hsaved : Stands s.delivered h.saved) :
    Stands t.marks (h.note l).recalled ∧ Stands t.delivered (h.note l).saved := by
  cases hstep with
  | judge => exact ⟨hmarks, hsaved⟩
  -- an older acknowledgement changes no latest, so the marks stand for it too
  | newer _ m _ hset => exact ⟨hmarks.newer hset, hsaved⟩
  | saved _ m marks _ hset => exact ⟨hmarks.set hset, hmarks.set hset⟩
  | failed _ m marks _ hset => exact ⟨hmarks.set hset, hsaved⟩
  | restart => exact ⟨hsaved, hsaved⟩

theorem stands_run {clock : Clock} {s : State} {ls : List Label}
    (h : Lts.Run Step (.start clock) ls s) :
    Stands s.marks (Acks.after ls).recalled ∧ Stands s.delivered (Acks.after ls).saved := by
  generalize hs : State.start clock = start at h
  induction h with
  | nil =>
    subst hs
    exact ⟨.nil, .nil⟩
  | snoc _ hstep ih =>
    obtain ⟨hmarks, hsaved⟩ := ih
    rw [Acks.after_concat]
    exact stands_step hstep hmarks hsaved

/-! ## Messages that were not acknowledged -/

/-- No message is judged to be delivered for a session that did not acknowledge it. -/
def NothingSwallowed (ls : List Label) : Prop :=
  ∀ pre session m answer post, ls = pre ++ .judge session m answer :: post →
    (∀ saving, .ack session m saving ∉ pre) → answer ≠ .alreadyDelivered

/-- No message is judged that its session did not acknowledge and that the acknowledgements the
daemon knows of pass. -/
def NothingPassed (ls : List Label) : Prop :=
  ∀ pre session m answer post, ls = pre ++ .judge session m answer :: post →
    (∀ saving, .ack session m saving ∉ pre) → ¬Passed (Acks.after pre).recalled m

theorem judged_alreadyDelivered_iff {clock : Clock} {s t : State} {pre : List Label}
    {session : String} {m : Message} {answer : Verdict} (h : Lts.Run Step (.start clock) pre s)
    (hstep : Step s (.judge session m answer) t) :
    answer = .alreadyDelivered ↔ Passed (Acks.after pre).recalled m := by
  cases hstep
  exact verdict_alreadyDelivered_iff (stands_run h).1 m s.clock

/-- The replay marks swallow no message exactly in the runs in which none is judged after its room
was acknowledged past it. -/
theorem nothingSwallowed_iff {clock : Clock} {s : State} {ls : List Label}
    (h : Lts.Run Step (.start clock) ls s) : NothingSwallowed ls ↔ NothingPassed ls := by
  constructor
  · intro hkept pre session m answer post heq hnever hpassed
    obtain ⟨t, t', hrun, hstep, -⟩ := h.split heq
    exact hkept pre session m answer post heq hnever
      ((judged_alreadyDelivered_iff hrun hstep).mpr hpassed)
  · intro hkept pre session m answer post heq hnever hanswer
    obtain ⟨t, t', hrun, hstep, -⟩ := h.split heq
    exact hkept pre session m answer post heq hnever
      ((judged_alreadyDelivered_iff hrun hstep).mp hanswer)

/-- A message is acknowledged, and the next one is judged. -/
theorem nothingSwallowed_next :
    NothingSwallowed [.judge "main" ⟨"!room", "$a", 5000⟩ (.deliver 0),
      .ack "main" ⟨"!room", "$a", 5000⟩ .saved,
      .judge "main" ⟨"!room", "$b", 6000⟩ (.deliver 0)] := by
  have hrun := ((Lts.Run.single
    (Step.judge (.start ⟨1000, 300000⟩) "main" ⟨"!room", "$a", 5000⟩)).snoc
    (Step.saved _ "main" ⟨"!room", "$a", 5000⟩ _ (by decide) rfl)).snoc
    (Step.judge _ "main" ⟨"!room", "$b", 6000⟩)
  refine (nothingSwallowed_iff hrun).mpr ?_
  intro pre session m answer post heq _
  match pre with
  | [] =>
    obtain ⟨⟨rfl, rfl, rfl⟩, rfl⟩ := by simpa using heq
    decide
  | [_, _] =>
    obtain ⟨rfl, rfl, ⟨rfl, rfl, rfl⟩, rfl⟩ := by simpa using heq
    decide
  | [_] | _ :: _ :: _ :: _ => simp at heq

/-- A text that was acknowledged while an attachment before it was still being downloaded: the
restart finds the mark past the attachment, and nobody ever sees it. -/
theorem nothingSwallowed_fails : ¬∀ clock ls s, Lts.Run Step (.start clock) ls s →
    NothingSwallowed ls := by
  intro h
  have hrun := h ⟨1000, 300000⟩ _ _ ((((Lts.Run.single
    (.judge _ "main" ⟨"!room", "$file", 5000⟩)).snoc
    (.judge _ "main" ⟨"!room", "$text", 6000⟩)).snoc
    (.saved _ "main" ⟨"!room", "$text", 6000⟩ _ (by decide) rfl)).snoc
    (.restart _ ⟨7000, 300000⟩) |>.snoc
    (.judge _ "main" ⟨"!room", "$file", 5000⟩))
  refine hrun _ "main" ⟨"!room", "$file", 5000⟩ _ [] rfl ?_ (by decide)
  intro saving
  cases saving <;> decide

/-! ## Messages that were acknowledged -/

def Label.acked? : Label → Option Message
  | .ack _ m _ => some m
  | _ => none

/-- The messages acknowledged so far, newest first. -/
def acked (ls : List Label) : List Message := (ls.filterMap Label.acked?).reverse

theorem acked_concat (ls : List Label) (l : Label) :
    acked (ls ++ [l]) = l.acked?.toList ++ acked ls := by
  cases h : l.acked? <;> simp [acked, h]

def Clock.note (clock : Clock) : Label → Clock
  | .restart clock => clock
  | _ => clock

/-- The clock of the last start. -/
def clockAfter (clock : Clock) (ls : List Label) : Clock := ls.foldl Clock.note clock

theorem clockAfter_concat (clock : Clock) (ls : List Label) (l : Label) :
    clockAfter clock (ls ++ [l]) = (clockAfter clock ls).note l := by
  simp [clockAfter]

/-- No acknowledged message is judged to be delivered. -/
def NothingRedelivered (ls : List Label) : Prop :=
  ∀ pre session m answer post, ls = pre ++ .judge session m answer :: post →
    m ∈ acked pre → ∀ behindStartMs, answer ≠ .deliver behindStartMs

/-- Every acknowledged message that is judged again is one that the acknowledgements pass, or is
older than the replay window. -/
def AcknowledgedPassed (clock : Clock) (ls : List Label) : Prop :=
  ∀ pre session m answer post, ls = pre ++ .judge session m answer :: post →
    m ∈ acked pre → Passed (acked pre) m ∨ TooOld (clockAfter clock pre) m.tsMs

/-- Every save has succeeded. -/
def NoSaveFailed (ls : List Label) : Prop := ∀ l ∈ ls, ∀ session m, l ≠ .ack session m .failed

theorem stands_run_of_saved {clock : Clock} {s : State} {ls : List Label}
    (h : Lts.Run Step (.start clock) ls s) (hsaves : NoSaveFailed ls) :
    Stands s.marks (acked ls) ∧ s.delivered = s.marks ∧ s.clock = clockAfter clock ls := by
  generalize hs : State.start clock = start at h
  induction h with
  | nil =>
    subst hs
    exact ⟨.nil, rfl, rfl⟩
  | snoc _ hstep ih =>
    obtain ⟨hmarks, hsaved, hclock⟩ := ih fun l hl ↦ hsaves l (List.mem_append_left _ hl)
    have hlast := hsaves _ (List.mem_append_right _ List.mem_cons_self)
    rw [acked_concat, clockAfter_concat, ← hclock]
    -- the file keeps up with the marks, so that a restart loads what they were
    cases hstep with
    | judge => exact ⟨hmarks, hsaved, rfl⟩
    | newer _ m _ hset => exact ⟨hmarks.newer hset, hsaved, rfl⟩
    | saved _ m marks _ hset => exact ⟨hmarks.set hset, rfl, rfl⟩
    | failed session m => exact absurd rfl (hlast session m)
    | restart => exact ⟨hsaved ▸ hmarks, rfl, rfl⟩

theorem verdict_deliver_iff {marks : Marks} {acks : List Message} (h : Stands marks acks)
    (m : Message) (clock : Clock) :
    (∃ behindStartMs, verdict m.tsMs m.eventId (marks m.roomId) clock = .deliver behindStartMs) ↔
      ¬(Passed acks m ∨ TooOld clock m.tsMs) := by
  rw [← verdict_alreadyDelivered_iff h m clock]
  unfold verdict
  split
  · simp
  · split <;> simp_all

/-- Where every save succeeds, a replay delivers no acknowledged message again exactly in the runs
in which each one that is judged again is passed by the acknowledgements or too old. -/
theorem nothingRedelivered_iff {clock : Clock} {s : State} {ls : List Label}
    (h : Lts.Run Step (.start clock) ls s) (hsaves : NoSaveFailed ls) :
    NothingRedelivered ls ↔ AcknowledgedPassed clock ls := by
  -- every verdict of the run, by what was acknowledged before it
  have hjudged : ∀ pre session m answer post, ls = pre ++ .judge session m answer :: post →
      ((∃ behindStartMs, answer = .deliver behindStartMs) ↔
        ¬(Passed (acked pre) m ∨ TooOld (clockAfter clock pre) m.tsMs)) := by
    intro pre session m answer post heq
    obtain ⟨t, t', hrun, hstep, -⟩ := h.split heq
    have hpre : NoSaveFailed pre := fun l hl ↦ hsaves l (heq ▸ List.mem_append_left _ hl)
    obtain ⟨hmarks, -, hclock⟩ := stands_run_of_saved hrun hpre
    cases hstep
    rw [← hclock]
    exact verdict_deliver_iff hmarks m t.clock
  constructor
  · intro hkept pre session m answer post heq hm
    by_contra hno
    obtain ⟨behindStartMs, hanswer⟩ := (hjudged pre session m answer post heq).mpr hno
    exact hkept pre session m answer post heq hm behindStartMs hanswer
  · intro hkept pre session m answer post heq hm behindStartMs hanswer
    exact (hjudged pre session m answer post heq).mp ⟨behindStartMs, hanswer⟩
      (hkept pre session m answer post heq hm)

/-- An acknowledged message is judged again after a restart. -/
theorem nothingRedelivered_restart :
    NothingRedelivered [.judge "main" ⟨"!room", "$a", 5000⟩ (.deliver 0),
      .ack "main" ⟨"!room", "$a", 5000⟩ .saved, .restart ⟨6000, 300000⟩,
      .judge "main" ⟨"!room", "$a", 5000⟩ .alreadyDelivered] := by
  have hrun := (((Lts.Run.single
    (Step.judge (.start ⟨1000, 300000⟩) "main" ⟨"!room", "$a", 5000⟩)).snoc
    (Step.saved _ "main" ⟨"!room", "$a", 5000⟩ _ (by decide) rfl)).snoc
    (Step.restart _ ⟨6000, 300000⟩)).snoc
    (Step.judge _ "main" ⟨"!room", "$a", 5000⟩)
  refine (nothingRedelivered_iff hrun (by simp [NoSaveFailed])).mpr ?_
  intro pre session m answer post heq hm
  match pre with
  | [] => cases hm
  | [_, _, _] =>
    obtain ⟨rfl, rfl, rfl, ⟨rfl, rfl, rfl⟩, rfl⟩ := by simpa using heq
    decide
  | [_] | [_, _] | _ :: _ :: _ :: _ :: _ => simp at heq

/-- Two messages of one millisecond: the acknowledgement of the second forgets the first, which the
replay of the next start delivers again. -/
theorem nothingRedelivered_fails : ¬∀ clock ls s, Lts.Run Step (.start clock) ls s →
    NoSaveFailed ls → NothingRedelivered ls := by
  intro h
  have hrun := h ⟨1000, 300000⟩ _ _ ((((((Lts.Run.single
    (.judge _ "main" ⟨"!room", "$a", 5000⟩)).snoc
    (.judge _ "main" ⟨"!room", "$b", 5000⟩)).snoc
    (.saved _ "main" ⟨"!room", "$a", 5000⟩ _ (by decide) rfl)).snoc
    (.saved _ "main" ⟨"!room", "$b", 5000⟩ _ (by decide) rfl)).snoc
    (.restart _ ⟨6000, 300000⟩)).snoc
    (.judge _ "main" ⟨"!room", "$a", 5000⟩)) (by simp [NoSaveFailed])
  exact hrun _ "main" ⟨"!room", "$a", 5000⟩ _ [] rfl (by decide) 1000 rfl

end Replay

end Silta
