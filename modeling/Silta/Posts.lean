import Silta.OutgoingRules

/-!
# What a command posts

The messages of a reply are its chunks in order, in one thread or in none, and the answer to a
command is that of the last thing it posted.
-/

namespace Silta

namespace Outgoing

open ClientLines (Fail)
open Deeds (Prog Triple)
open Text (ReplyConfig)

/-! ## The messages of a reply -/

/-- The messages after one of this event: each follows the one before it where the reply is in a
thread, and none comes after one that failed. -/
def Following (roomId : String) (threaded : Bool) :
    String → List (List Char) → List Post → Prop
  | _, _, [] => True
  | id, chunk :: chunks, p :: ps => ∃ message, p.roomId = roomId ∧ p.posted = .message message ∧
      message.text = chunk ∧
      message.relation.map Prod.fst = (if threaded then some ⟨id, .maybeThreaded, .no⟩ else none) ∧
      match p.answer with
      | .ok id => Following roomId threaded id chunks ps
      | .error _ => ps = []
  | _, [], _ :: _ => False

/-- The messages of a reply: the first with the relation that is asked for, and the others after
it, in a thread if the first has come to be in one. -/
def Series (roomId : String) (first : Option ReplyConfig) : List (List Char) → List Post → Prop
  | _, [] => True
  | chunk :: chunks, p :: ps => ∃ message, p.roomId = roomId ∧ p.posted = .message message ∧
      message.text = chunk ∧ message.relation.map Prod.fst = first ∧
      match p.answer with
      | .ok id => Following roomId (message.relation.any Prod.snd) id chunks ps
      | .error _ => ps = []
  | [], _ :: _ => False

/-- As many as there were to post are posted, the last one as this event. -/
def Complete (wanted : Nat) (ps : List Post) (id : String) : Prop :=
  ∃ ids : List String, ps.map Post.answer = ids.map .ok ∧ ids.length = wanted ∧
    ids.getLast? = some id

/-- The answer of the loop: the event of the last chunk once all are posted, or a failure while one
is not. -/
def Told (last : Option String) (chunks : List (List Char)) (ps : List Post) :
    Except Fail (Option String) → Prop
  | .ok id => ∃ ids : List String, ps.map Post.answer = ids.map .ok ∧
      ids.length = chunks.length ∧ id = ids.getLast?.or last
  | .error _ => ∀ ids : List String, ps.map Post.answer = ids.map .ok → ids.length < chunks.length

/-- One more chunk before the others. -/
theorem Told.cons {last : Option String} {chunk : List Char} {chunks : List (List Char)} {p : Post}
    {ps : List Post} {id : String} {result : Except Fail (Option String)} (hp : p.answer = .ok id)
    (h : Told (some id) chunks ps result) : Told last (chunk :: chunks) (p :: ps) result := by
  cases result with
  | ok r =>
    obtain ⟨ids, hids, hlength, rfl⟩ := h
    refine ⟨id :: ids, by simp [hp, hids], by simp [hlength], ?_⟩
    rw [List.getLast?_cons]
    cases ids.getLast? <;> rfl
  | error e =>
    intro ids hids
    cases ids with
    | nil => simp at hids
    | cons id' ids =>
      have htail := h ids (List.cons.inj hids).2
      simpa using htail

/-- None is posted before the first chunk, and the failure is that of the first. -/
theorem Told.failed {last : Option String} {chunk : List Char} {chunks : List (List Char)}
    {ps : List Post} (e : Fail) (hps : ∀ p ∈ ps, ∃ e, p.answer = .error e) :
    Told last (chunk :: chunks) ps (.error e) := by
  intro ids hids
  cases ids with
  | nil => simp
  | cons id ids =>
    cases ps with
    | nil => simp at hids
    | cons p ps =>
      obtain ⟨e', he'⟩ := hps p List.mem_cons_self
      have hhead := (List.cons.inj hids).1
      rw [he'] at hhead
      cases hhead

section Reply

variable {env : Env} {d : Daemon} {session roomId : String}

theorem posts_withRelation {content : Message} {config : Option ReplyConfig} {log log' : Log}
    {result : Except Fail Message}
    (h : Text.withRelation (client env d session) roomId content config log = (result, log')) :
    posts log' = posts log ∧ ∀ related, result = .ok related → related.text = content.text ∧
      (content.relation = none → related.relation.map Prod.fst = config) := by
  unfold Text.withRelation at h
  cases config with
  | none =>
    obtain ⟨rfl, rfl⟩ := Prod.mk.inj h
    refine ⟨rfl, fun related hrelated ↦ ?_⟩
    rw [← Except.ok.inj hrelated]
    exact ⟨rfl, fun hnone ↦ by rw [hnone]; rfl⟩
  | some config =>
    simp only [client_makeReplyEvent] at h
    cases hanswer : env.makeReplyEvent log roomId config with
    | ok inThread =>
      rw [hanswer] at h
      obtain ⟨rfl, rfl⟩ := Prod.mk.inj h
      refine ⟨by simp [posts, Deed.post?], fun related hrelated ↦ ?_⟩
      rw [← Except.ok.inj hrelated]
      exact ⟨rfl, fun _ ↦ rfl⟩
    | error e =>
      rw [hanswer] at h
      cases e with
      | fetch e =>
        obtain ⟨rfl, rfl⟩ := Prod.mk.inj h
        refine ⟨by simp [posts, Deed.post?], fun related hrelated ↦ ?_⟩
        cases hrelated
      | other e =>
        obtain ⟨rfl, rfl⟩ := Prod.mk.inj h
        refine ⟨by simp [posts, Deed.post?], fun related hrelated ↦ ?_⟩
        cases hrelated

/-- One chunk: it cannot be related, it cannot be sent, or the loop goes on with the next one. -/
theorem sendChunks_cons {first config : Option ReplyConfig} {total i : Nat} {chunk : List Char}
    {chunks : List (List Char)} {last : Option String} {inThread : Bool} {log log' : Log}
    {result : Except Fail (Option String)}
    (hconfig : Text.chunkConfig first i last inThread = some config)
    (h : Text.sendChunks (client env d session) roomId first total (chunk :: chunks) i last inThread
      log = some (result, log')) :
    ((∃ e, result = .error e) ∧ posts log' = posts log) ∨
      ∃ message answer log₂, message.text = chunk ∧ message.relation.map Prod.fst = config ∧
        posts log₂ = posts log ++ [⟨roomId, .message message, answer⟩] ∧
        match answer with
        | .error _ => (∃ e, result = .error e) ∧ posts log' = posts log₂
        | .ok id => Text.sendChunks (client env d session) roomId first total chunks (i + 1)
            (some id) (if i = 0 then message.relation.any Prod.snd else inThread) log₂ =
              some (result, log') := by
  unfold Text.sendChunks at h
  rw [hconfig] at h
  dsimp only at h
  rcases hwith : Text.withRelation (client env d session) roomId
    ((client env d session).textMarkdown chunk) config log with ⟨_ | content, log₁⟩
  · rw [hwith] at h
    obtain ⟨rfl, rfl⟩ := Prod.mk.inj (Option.some.inj h)
    exact .inl ⟨⟨_, rfl⟩, (posts_withRelation hwith).1⟩
  · rw [hwith] at h
    obtain ⟨hposts, hrelated⟩ := posts_withRelation hwith
    obtain ⟨htext, hrelation⟩ := hrelated content rfl
    refine .inr ⟨content, env.post log₁ roomId (.message content),
      log₁ ++ [.post roomId (.message content) (env.post log₁ roomId (.message content))], htext,
      hrelation rfl, by rw [posts_append, hposts]; rfl, ?_⟩
    simp only [client_send] at h
    cases hanswer : env.post log₁ roomId (.message content) with
    | error e =>
      rw [hanswer] at h
      obtain ⟨rfl, rfl⟩ := Prod.mk.inj (Option.some.inj h)
      refine ⟨⟨_, rfl⟩, ?_⟩
      rw [client_stopTyping, posts_append, posts_stopTyping, List.append_nil]
    | ok id =>
      rw [hanswer] at h
      exact h

theorem sendChunks_following {first : Option ReplyConfig} {total i : Nat}
    {chunks : List (List Char)} {id : String} {inThread : Bool} {log log' : Log}
    {result : Except Fail (Option String)} (hi : i ≠ 0)
    (h : Text.sendChunks (client env d session) roomId first total chunks i (some id) inThread log =
      some (result, log')) :
    ∃ ps, posts log' = posts log ++ ps ∧ Following roomId inThread id chunks ps ∧
      Told (some id) chunks ps result := by
  induction chunks generalizing i id log with
  | nil =>
    obtain ⟨rfl, rfl⟩ := Prod.mk.inj (Option.some.inj h)
    exact ⟨[], by simp, trivial, [], rfl, rfl, rfl⟩
  | cons chunk chunks ih =>
    have hconfig : Text.chunkConfig first i (some id) inThread =
        some (if inThread then some ⟨id, .maybeThreaded, .no⟩ else none) := by
      unfold Text.chunkConfig
      rw [if_neg hi]
      cases inThread <;> rfl
    rcases sendChunks_cons hconfig h with ⟨⟨e, rfl⟩, hposts⟩ |
      ⟨message, answer, log₂, htext, hrelation, hposts, hrest⟩
    · exact ⟨[], by simpa using hposts, trivial, Told.failed e (by simp)⟩
    · cases answer with
      | error e =>
        obtain ⟨⟨e', rfl⟩, hlog⟩ := hrest
        exact ⟨_, hlog.trans hposts, ⟨message, rfl, rfl, htext, hrelation, rfl⟩,
          Told.failed e' (by simp)⟩
      | ok id' =>
        rw [if_neg hi] at hrest
        obtain ⟨ps, hps, hfollowing, htold⟩ := ih (Nat.succ_ne_zero i) hrest
        exact ⟨⟨roomId, .message message, .ok id'⟩ :: ps, by rw [hps, hposts]; simp,
          ⟨message, rfl, rfl, htext, hrelation, hfollowing⟩, htold.cons rfl⟩

theorem sendChunks_series {first : Option ReplyConfig} {total : Nat} {chunks : List (List Char)}
    {log log' : Log} {result : Except Fail (Option String)}
    (h : Text.sendChunks (client env d session) roomId first total chunks 0 none false log =
      some (result, log')) :
    ∃ ps, posts log' = posts log ++ ps ∧ Series roomId first chunks ps ∧
      Told none chunks ps result := by
  cases chunks with
  | nil =>
    obtain ⟨rfl, rfl⟩ := Prod.mk.inj (Option.some.inj h)
    exact ⟨[], by simp, trivial, [], rfl, rfl, rfl⟩
  | cons chunk chunks =>
    rcases sendChunks_cons rfl h with ⟨⟨e, rfl⟩, hposts⟩ |
      ⟨message, answer, log₂, htext, hrelation, hposts, hrest⟩
    · exact ⟨[], by simpa using hposts, trivial, Told.failed e (by simp)⟩
    · cases answer with
      | error e =>
        obtain ⟨⟨e', rfl⟩, hlog⟩ := hrest
        exact ⟨_, hlog.trans hposts, ⟨message, rfl, rfl, htext, hrelation, rfl⟩,
          Told.failed e' (by simp)⟩
      | ok id =>
        rw [if_pos rfl] at hrest
        obtain ⟨ps, hps, hfollowing, htold⟩ := sendChunks_following (Nat.succ_ne_zero 0) hrest
        exact ⟨⟨roomId, .message message, .ok id⟩ :: ps, by rw [hps, hposts]; simp,
          ⟨message, rfl, rfl, htext, hrelation, hfollowing⟩, htold.cons rfl⟩

end Reply

/-! ## Programs that post nothing -/

/-- Whatever the program comes to, it has posted nothing. -/
def Silent {α : Type} (x : Act α) : Prop := ∀ log, posts (x.run log).2 = posts log

namespace Silent

variable {α β : Type}

theorem ask {answer : Log → α} {note : α → Deed} (hnote : ∀ a, (note a).post? = none) :
    Silent (Prog.ask answer note : Act α) := by
  intro log
  show posts (log ++ [note (answer log)]) = posts log
  simp [posts, hnote]

theorem bind {x : Act α} {f : α → Act β} (hx : Silent x) (hf : ∀ a, Silent (f a)) :
    Silent (x >>= f) := by
  intro log
  have hx := hx log
  rw [Prog.run_bind]
  rcases hrun : x.run log with ⟨_ | a, log'⟩
  · rw [hrun] at hx
    exact hx
  · rw [hrun] at hx
    exact (hf a log').trans hx

theorem pure {a : α} : Silent (Pure.pure a : Act α) := fun _ ↦ rfl

theorem fail {e : Fail} : Silent (Prog.fail e : Act α) := fun _ ↦ rfl

end Silent

theorem silent_allowedRoom {env : Env} {d : Daemon} {session : String} {may : Rule}
    {verb roomId : String} : Silent (allowedRoom env d session may verb roomId) := by
  unfold allowedRoom
  refine Silent.bind ?_ fun room ↦ Silent.bind ?_ fun members ↦ Silent.bind ?_ fun shape ↦ ?_
  · unfold joinedRoom
    split
    · exact Silent.fail
    · refine Silent.bind (Silent.ask fun _ ↦ rfl) fun joined ↦ ?_
      rcases joined with _ | _ | _
      · exact Silent.fail
      · exact Silent.fail
      · exact Silent.pure
  · refine Silent.bind (Silent.ask fun _ ↦ rfl) fun answer ↦ ?_
    cases answer with
    | error e => exact Silent.fail
    | ok members => exact Silent.pure
  · exact Silent.bind (Silent.ask fun _ ↦ rfl) fun _ ↦
      Silent.bind (Silent.ask fun _ ↦ rfl) fun _ ↦ Silent.pure
  · cases may session room members shape with
    | error e => exact Silent.fail
    | ok u => exact Silent.pure

theorem not_complete_nil {wanted : Nat} {id : String} : ¬Complete wanted [] id := by
  rintro ⟨ids, hids, -, hlast⟩
  obtain rfl : ids = [] := by simpa using hids.symm
  simp at hlast

theorem Complete.unique {wanted : Nat} {ps : List Post} {id id' : String}
    (h : Complete wanted ps id) (h' : Complete wanted ps id') : id = id' := by
  obtain ⟨ids, hids, -, hlast⟩ := h
  obtain ⟨ids', hids', -, hlast'⟩ := h'
  have hinj : Function.Injective (Except.ok : String → Except String String) :=
    fun _ _ ↦ Except.ok.inj
  obtain rfl := hinj.list_map (hids.symm.trans hids')
  exact Option.some.inj (hlast.symm.trans hlast')

/-- What a reply came to: what it posted, and how it was answered. -/
structure Replied (env : Env) (d : Daemon) (session : String) (reply : Reply) (log : Log)
    (chunks : List (List Char)) (ps : List Post) (after : Except Fail String × Log) : Prop where
  chunked : Text.chunkText reply.text.toList Text.chunkBytes = some chunks
  posted : posts after.2 = posts log ++ ps
  series : ps ≠ [] → ∃ replyTo thread room log₁,
    Text.parseOptionalEventId (client env d session) reply.replyTo = .ok replyTo ∧
    Text.parseOptionalEventId (client env d session) reply.thread = .ok thread ∧
    (writableRoom env d session reply.roomId).run log = (.ok room, log₁) ∧
    Series room (Text.replyConfig replyTo thread) chunks ps
  answer : ∀ id, after.1 = .ok id ↔ Complete chunks.length ps id

/-- A reply is posted as its chunks.  What it posts is its chunks in order, up to the first that
cannot be posted, in the room it was let into and related as it asks; and it is answered with an
event exactly if every chunk was posted, the last one as that event. -/
theorem replied_doReply (env : Env) (d : Daemon) (session : String) (reply : Reply) (log : Log) :
    ∃ chunks ps,
      Replied env d session reply log chunks ps ((doReply env d session reply).run log) := by
  obtain ⟨chunks, hchunks, -, -⟩ :=
    Text.exists_chunkText (show 4 ≤ Text.chunkBytes by decide) reply.text.toList
  obtain ⟨result, log', hrun⟩ := Text.exists_doReply (client env d session) reply log
  have heq : (doReply env d session reply).run log = (result, log') := by
    show (Text.doReply (client env d session) reply log).getD _ = _
    rw [hrun]
    rfl
  rw [heq]
  -- where nothing was posted, there is nothing that is complete
  have hnothing (e : Fail) (hresult : result = .error e) (hposts : posts log' = posts log) :
      Replied env d session reply log chunks [] (result, log') :=
    ⟨hchunks, by simpa using hposts, absurd rfl, fun id ↦
      iff_of_false (by rw [hresult]; exact nofun) not_complete_nil⟩
  unfold Text.doReply at hrun
  split at hrun
  · obtain ⟨hresult, rfl⟩ := Prod.mk.inj (Option.some.inj hrun)
    exact ⟨_, _, hnothing _ hresult.symm rfl⟩
  split at hrun
  · obtain ⟨hresult, rfl⟩ := Prod.mk.inj (Option.some.inj hrun)
    exact ⟨_, _, hnothing _ hresult.symm rfl⟩
  · obtain ⟨hresult, rfl⟩ := Prod.mk.inj (Option.some.inj hrun)
    exact ⟨_, _, hnothing _ hresult.symm rfl⟩
  next replyTo thread hreplyTo hthread =>
  have hsilent : posts ((writableRoom env d session reply.roomId).run log).2 = posts log :=
    silent_allowedRoom log
  rw [client_writableRoom] at hrun
  rcases hwritable : (writableRoom env d session reply.roomId).run log with ⟨_ | room, log₁⟩
  · rw [hwritable] at hrun hsilent
    obtain ⟨hresult, rfl⟩ := Prod.mk.inj (Option.some.inj hrun)
    exact ⟨_, _, hnothing _ hresult.symm hsilent⟩
  rw [hwritable] at hrun hsilent
  simp only [hchunks] at hrun
  split at hrun
  · cases hrun
  · next e log₂ hsend =>
    obtain ⟨rfl, rfl⟩ := Prod.mk.inj (Option.some.inj hrun)
    obtain ⟨ps, hposts, hseries, htold⟩ := sendChunks_series hsend
    refine ⟨chunks, ps, hchunks, by rw [hposts, hsilent],
      fun _ ↦ ⟨replyTo, thread, room, log₁, hreplyTo, hthread, hwritable, hseries⟩, fun id ↦ ?_⟩
    refine iff_of_false nofun ?_
    rintro ⟨ids, hids, hlength, -⟩
    exact (htold ids hids).ne hlength
  · cases hrun
  · next last log₂ hsend =>
    obtain ⟨rfl, rfl⟩ := Prod.mk.inj (Option.some.inj hrun)
    obtain ⟨ps, hposts, hseries, ids, hids, hlength, hlast⟩ := sendChunks_series hsend
    have hcomplete : Complete chunks.length ps last :=
      ⟨ids, hids, hlength, by simpa using hlast.symm⟩
    refine ⟨chunks, ps, hchunks, ?_,
      fun _ ↦ ⟨replyTo, thread, room, log₁, hreplyTo, hthread, hwritable, hseries⟩, fun id ↦ ?_⟩
    · rw [client_afterSend, posts_append, posts_afterSend, List.append_nil, hposts, hsilent]
    · constructor
      · rintro ⟨rfl⟩
        exact hcomplete
      · intro h
        rw [hcomplete.unique h]

/-! ## The answer to a command -/

/-- One thing is posted, and the indicator is seen to where it was. -/
theorem run_sent (env : Env) (roomId : String) (posted : Posted) (more : Bool)
    (failed : String → String) (log : Log) :
    (sent env roomId posted more failed).run log = match env.post log roomId posted with
      | .error e => (.error (.sendFailed, failed e), log ++ [.post roomId posted (.error e)])
      | .ok id => (.ok id, log ++ [.post roomId posted (.ok id)] ++ afterSend roomId more) := by
  simp only [sent, post, Prog.run_bind, Prog.run_ask]
  cases env.post log roomId posted with
  | error e => rfl
  | ok id => rfl

/-- The program posts one thing at most, and answers with its event. -/
def Single (x : Act String) : Prop :=
  ∀ log, ∃ ps, posts (x.run log).2 = posts log ++ ps ∧ ps.length ≤ 1 ∧
    ∀ id, (x.run log).1 = .ok id ↔ Complete 1 ps id

namespace Single

theorem fail {e : Fail} : Single (Prog.fail e) :=
  fun log ↦ ⟨[], by rw [List.append_nil]; rfl, by simp, fun _ ↦ iff_of_false nofun not_complete_nil⟩

theorem bind {α : Type} {x : Act α} {f : α → Act String} (hx : Silent x)
    (hf : ∀ a, Single (f a)) : Single (x >>= f) := by
  intro log
  have hx := hx log
  rw [Prog.run_bind]
  rcases hrun : x.run log with ⟨e | a, log'⟩
  · rw [hrun] at hx
    exact ⟨[], by simpa using hx, by simp, fun _ ↦ iff_of_false nofun not_complete_nil⟩
  · rw [hrun] at hx
    have hposts : posts log' = posts log := hx
    rw [← hposts]
    exact hf a log'

theorem lift_bind {α : Type} {x : Except Fail α} {f : α → Act String} (hf : ∀ a, Single (f a)) :
    Single (Prog.lift x >>= f) :=
  bind (fun _ ↦ rfl) hf

theorem sent {env : Env} {roomId : String} {posted : Posted} {more : Bool}
    {failed : String → String} : Single (sent env roomId posted more failed) := by
  intro log
  refine ⟨[⟨roomId, posted, env.post log roomId posted⟩], ?_⟩
  rw [run_sent]
  cases env.post log roomId posted with
  | error e =>
    refine ⟨posts_append _ _, le_rfl, fun id ↦ iff_of_false nofun ?_⟩
    rintro ⟨ids, hids, hlength, -⟩
    obtain ⟨id', rfl⟩ := List.length_eq_one_iff.mp hlength
    cases (List.cons.inj hids).1
  | ok id' =>
    refine ⟨?_, le_rfl, fun id ↦ ⟨?_, ?_⟩⟩
    · rw [posts_append, posts_afterSend, List.append_nil]
      exact posts_append _ _
    · rintro ⟨rfl⟩
      exact ⟨[id'], rfl, rfl, rfl⟩
    · rintro ⟨ids, hids, hlength, hlast⟩
      obtain ⟨id'', rfl⟩ := List.length_eq_one_iff.mp hlength
      obtain rfl : id' = id'' := Except.ok.inj (List.cons.inj hids).1
      exact congrArg Except.ok (Option.some.inj hlast)

end Single

section Commands

variable {env : Env} {d : Daemon} {session : String}

theorem single_doReact (react : React) : Single (doReact env d session react) := by
  unfold doReact
  split
  · exact Single.fail
  · exact Single.lift_bind fun target ↦
      Single.bind silent_allowedRoom fun room ↦ Single.sent

theorem single_doEdit (edit : Edit) : Single (doEdit env d session edit) := by
  unfold doEdit
  split
  · exact Single.fail
  split
  · exact Single.fail
  refine Single.lift_bind fun target ↦ Single.bind silent_allowedRoom fun room ↦ ?_
  refine Single.bind (Silent.ask fun _ ↦ rfl) fun answer ↦ ?_
  cases answer with
  | error e => exact Single.fail
  | ok found => exact Single.lift_bind fun _ ↦ Single.sent

theorem silent_withinLimit {name : String} {size : Nat} : Silent (withinLimit env d name size) := by
  refine Silent.bind (Silent.ask fun _ ↦ rfl) fun answer ↦ ?_
  cases answer with
  | error e => exact Silent.pure
  | ok max =>
    dsimp only
    split
    · exact Silent.fail
    · exact Silent.pure

theorem single_doSendFile (cmd : SendFile) (received : Transfer.Received) :
    Single (doSendFile env d session cmd received) := by
  refine Single.lift_bind fun replyTo ↦ Single.lift_bind fun thread ↦ ?_
  refine Single.bind silent_allowedRoom fun room ↦ ?_
  refine Single.bind silent_withinLimit fun _ ↦ ?_
  refine Single.bind (Silent.ask fun _ ↦ rfl) fun answer ↦ ?_
  cases answer with
  | error e => exact Single.fail
  | ok data => exact Single.sent

theorem silent_scanned {α : Type} {roomId : String}
    {scan : (String → Except Fail (History.Room Content.RoomMessageContent)) → Except Fail α} :
    Silent (scanned env d session roomId scan) := by
  refine Silent.bind silent_allowedRoom fun room log ↦ ?_
  show posts (log ++ [.messages room]) = posts log
  simp [posts, Deed.post?]

theorem silent_doSearchMessages (build : String → Except String History.Regex)
    (cmd : SearchMessages) : Silent (doSearchMessages env d session build cmd) := by
  unfold doSearchMessages
  split
  · exact Silent.fail
  · exact silent_scanned

theorem silent_doFetchMessage (cmd : FetchMessage) : Silent (doFetchMessage env d session cmd) := by
  refine Silent.bind (fun _ ↦ rfl) fun target ↦ Silent.bind silent_allowedRoom fun room ↦ ?_
  refine Silent.bind (Silent.ask fun _ ↦ rfl) fun answer ↦ ?_
  cases answer with
  | error e => exact Silent.fail
  | ok found =>
    dsimp only
    split
    · exact Silent.pure
    · exact Silent.fail

theorem silent_begun (kind : CmdKind) : Silent (Prog.say (.command kind)) := fun log ↦ by
  show posts (log ++ [.command kind]) = posts log
  simp [posts, Deed.post?]

end Commands

/-- How many things a command is to post. -/
def wanted : CmdKind → Nat
  | .reply cmd => ((Text.chunkText cmd.text.toList Text.chunkBytes).getD []).length
  | .react _ | .edit _ | .sendFile _ => 1
  | .fetchMessages _ | .fetchMessage _ | .searchMessages _ | .typing _ => 0

/-- What a reply has posted is a series of its chunks, in its room and related as it asks. -/
def InSeries (env : Env) (d : Daemon) (session : String) : CmdKind → List Post → Prop
  | .reply reply, ps => ps = [] ∨ ∃ chunks replyTo thread room log log₁,
      Text.chunkText reply.text.toList Text.chunkBytes = some chunks ∧
      Text.parseOptionalEventId (client env d session) reply.replyTo = .ok replyTo ∧
      Text.parseOptionalEventId (client env d session) reply.thread = .ok thread ∧
      (writableRoom env d session reply.roomId).run log = (.ok room, log₁) ∧
      Series room (Text.replyConfig replyTo thread) chunks ps
  | _, _ => True

/-- The answer to a command is the truth about what it posted: an event exactly if it posted
everything it was to, and that of the last. -/
def Truthful (env : Env) (d : Daemon) (session : String) (kind : CmdKind) (before : Log)
    (result : CmdResult) (after : Log) : Prop :=
  ∃ ps, posts after = posts before ++ ps ∧ ps.length ≤ wanted kind ∧
    InSeries env d session kind ps ∧ ∀ id, result.eventId = some id ↔ Complete (wanted kind) ps id

theorem eventId_finish (id : Nat) (result : Except Fail String) (eventId : String) :
    (ClientLines.finish id result).eventId = some eventId ↔ result = .ok eventId := by
  cases result with
  | error e => exact iff_of_false nofun nofun
  | ok e => simp [ClientLines.finish, ClientLines.answered, CmdResult.success]

section Commands

variable {env : Env} {d : Daemon} {session : String} {kind : CmdKind}
  {build : String → Except String History.Regex}

theorem inSeries_of_ne (h : ∀ reply, kind ≠ .reply reply) (ps : List Post) :
    InSeries env d session kind ps := by
  cases kind with
  | reply reply => exact absurd rfl (h reply)
  | _ => trivial

theorem Following.length_le {room id : String} {threaded : Bool} {chunks : List (List Char)}
    {ps : List Post} (h : Following room threaded id chunks ps) : ps.length ≤ chunks.length := by
  induction ps generalizing id chunks with
  | nil => simp
  | cons p ps ih =>
    cases chunks with
    | nil => exact h.elim
    | cons chunk chunks =>
      obtain ⟨message, -, -, -, -, hrest⟩ := h
      cases hanswer : p.answer with
      | ok id' =>
        rw [hanswer] at hrest
        simpa using ih hrest
      | error e =>
        rw [hanswer] at hrest
        simp [show ps = [] from hrest]

theorem Series.length_le {room : String} {first : Option ReplyConfig} {chunks : List (List Char)}
    {ps : List Post} (h : Series room first chunks ps) : ps.length ≤ chunks.length := by
  cases ps with
  | nil => simp
  | cons p ps =>
    cases chunks with
    | nil => exact h.elim
    | cons chunk chunks =>
      obtain ⟨message, -, -, -, -, hrest⟩ := h
      cases hanswer : p.answer with
      | ok id =>
        rw [hanswer] at hrest
        simpa using Following.length_le hrest
      | error e =>
        rw [hanswer] at hrest
        simp [show ps = [] from hrest]

theorem truthful_doReply (reply : Reply) (id : Nat) (log : Log) :
    Truthful env d session (.reply reply) log
      (ClientLines.finish id ((begun (.reply reply) (doReply env d session reply)).run log).1)
      ((begun (.reply reply) (doReply env d session reply)).run log).2 := by
  obtain ⟨chunks, ps, h⟩ := replied_doReply env d session reply (log ++ [.command (.reply reply)])
  have hwanted : wanted (.reply reply) = chunks.length := by
    show ((Text.chunkText reply.text.toList Text.chunkBytes).getD []).length = _
    rw [h.chunked]
    rfl
  have hbegun : posts (log ++ [.command (.reply reply)]) = posts log := silent_begun _ log
  refine ⟨ps, hbegun ▸ h.posted, ?_, ?_, fun eventId ↦ ?_⟩
  · rw [hwanted]
    rcases eq_or_ne ps [] with rfl | hne
    · simp
    · obtain ⟨_, _, _, _, -, -, -, hseries⟩ := h.series hne
      exact hseries.length_le
  · rcases eq_or_ne ps [] with rfl | hne
    · exact .inl rfl
    · obtain ⟨replyTo, thread, room, log₁, hreplyTo, hthread, hroom, hseries⟩ := h.series hne
      exact .inr ⟨chunks, replyTo, thread, room, _, log₁, h.chunked, hreplyTo, hthread, hroom,
        hseries⟩
  · rw [eventId_finish, hwanted]
    exact h.answer eventId

theorem truthful_single (hkind : wanted kind = 1) (hno : ∀ reply, kind ≠ .reply reply)
    {x : Act String} (hx : Single x) (id : Nat) (log : Log) : Truthful env d session kind log
      (ClientLines.finish id ((begun kind x).run log).1) ((begun kind x).run log).2 := by
  obtain ⟨ps, hposts, hlength, hanswer⟩ := Single.bind (silent_begun kind) (fun _ ↦ hx) log
  refine ⟨ps, hposts, hkind ▸ hlength, inSeries_of_ne hno ps, fun eventId ↦ ?_⟩
  rw [eventId_finish, hkind]
  exact hanswer eventId

theorem truthful_nothing {result : CmdResult} {log log' : Log} (hno : ∀ reply, kind ≠ .reply reply)
    (hposts : posts log' = posts log) (hresult : result.eventId = none) :
    Truthful env d session kind log result log' :=
  ⟨[], by simpa using hposts, by simp, inSeries_of_ne hno [],
    fun _ ↦ iff_of_false (by rw [hresult]; exact nofun) not_complete_nil⟩

theorem truthful_silent {α : Type} (hno : ∀ reply, kind ≠ .reply reply) {x : Act α}
    (hx : Silent x) {ok : α → CmdResult} (hok : ∀ a, (ok a).eventId = none) (id : Nat) (log : Log) :
    Truthful env d session kind log (ClientLines.answered id ok ((begun kind x).run log).1)
      ((begun kind x).run log).2 := by
  refine truthful_nothing hno (Silent.bind (silent_begun kind) (fun _ ↦ hx) log) ?_
  cases ((begun kind x).run log).1 with
  | error e => rfl
  | ok a => exact hok a

theorem truthful_execute {log : Log} (cmd : Cmd) (hkind : ∀ file, cmd.kind ≠ .sendFile file) :
    Truthful env d session cmd.kind log
      (ClientLines.execute (host env d session build) log cmd).1
      (ClientLines.execute (host env d session build) log cmd).2 := by
  obtain ⟨id, kind⟩ := cmd
  cases kind with
  | reply reply => exact truthful_doReply reply id log
  | react react => exact truthful_single rfl (by simp) (single_doReact react) id log
  | edit edit => exact truthful_single rfl (by simp) (single_doEdit edit) id log
  | sendFile file => exact absurd rfl (hkind file)
  | fetchMessages fetch =>
    have hfetch : Silent (doFetchMessages env d session fetch) := silent_scanned
    exact truthful_silent (by simp) hfetch (fun _ ↦ rfl) id log
  | fetchMessage fetch =>
    exact truthful_silent (by simp) (silent_doFetchMessage fetch) (fun _ ↦ rfl) id log
  | searchMessages search =>
    exact truthful_silent (by simp) (silent_doSearchMessages build search)
      (by intro scan; rfl) id log
  | typing typing =>
    have hroom : Silent (begun (.typing ⟨typing.roomId⟩) (do
        let _ ← writableRoom env d session typing.roomId
        pure ())) :=
      Silent.bind (silent_begun _) fun _ ↦ Silent.bind silent_allowedRoom fun _ ↦ Silent.pure
    have hposts := hroom log
    simp only [ClientLines.execute, host_writableRoom]
    generalize Prog.run (begun (.typing ⟨typing.roomId⟩) _) log = after at hposts
    obtain ⟨_ | _, log'⟩ := after
    · exact truthful_nothing (by simp) hposts rfl
    · refine truthful_nothing (by simp) ?_ rfl
      show posts (log' ++ ((d.crates.parseRoomId typing.roomId).map _).toList) = posts log
      rw [posts_append, show posts log' = posts log from hposts]
      cases d.crates.parseRoomId typing.roomId <;> simp [posts, Deed.post?]

/-- A command says what it has posted.  In every state of a connection and however Matrix answers: a
command posts no more than it is to, a reply its chunks in order and related as it asks; and the
result names an event exactly if everything it was to post was posted, the event of the last. -/
theorem command_truthful (env : Env) (d : Daemon) (session : String)
    (build : String → Except String History.Regex) (serde : ClientLines.Serde)
    (conn : ClientLines.Connection Log) (cmd : Cmd) :
    Truthful env d session cmd.kind conn.world
      (conn.command serde (host env d session build) cmd).1
      (conn.command serde (host env d session build) cmd).2.world := by
  obtain ⟨id, kind⟩ := cmd
  unfold ClientLines.Connection.command
  split
  · next file hkind =>
    obtain rfl : kind = .sendFile file := hkind
    unfold ClientLines.Connection.sendFile
    split
    · exact truthful_single rfl (by simp) (single_doSendFile file _) id conn.world
    · exact truthful_nothing (by simp) rfl rfl
  · next hkind => exact truthful_execute ⟨id, kind⟩ hkind

end Commands

end Outgoing

end Silta
