import Mathlib.Algebra.Order.BigOperators.Group.List
import Mathlib.Algebra.Order.Group.Nat
import Mathlib.Logic.Function.Iterate
import Silta.Commands
import Silta.Lib.Lts
import Silta.LineCut
import Silta.OutgoingRules
import Silta.Receiver

/-!
# From the plugin to the daemon

What the plugin writes for what is in its channel, and what the reader loop of the daemon makes of
the stream: however it is cut, the commands are executed once each and in their order, as they were
called, and a file is whole when the command that names it is executed.
-/

namespace Silta

namespace Requests

open ClientLines (Connection Host Serde LineError)
open Commands (Call)
open LineCut (Objects Rest lineOf cut arrived)
open LineReader (Reader Wake streamOf utf8)
open Outgoing (served)
open Transfer (Crates Bytes Piece Spool Received chunks send)

/-! ## The two sides -/

/-- What the plugin takes from its channel; a call with its file as it is when it is opened, if it
can be. -/
inductive Out
  | ack (eventId : String)
  | call (call : Call) (file : Option Bytes)

/-- The calls with the ids that the connection gives them. -/
def numbered : Nat → List Out → List (Nat × Out)
  | _, [] => []
  | id, .ack eventId :: outs => (id, .ack eventId) :: numbered id outs
  | id, .call call file :: outs => (id, .call call file) :: numbered (id + 1) outs

def wrap : Piece → ClientMessage
  | .header header => .file header
  | .chunk chunk => .chunk chunk
  | .end last => .fileEnd last

def transferOf (id : Nat) : String := "t" ++ toString id

/-- The id of the command names the transfer of its file. -/
def headerOf (id : Nat) (header : FileHeader) : FileHeader :=
  { header with transfer := transferOf id }

def messages (c : Crates) (reads : Nat → Nat) : Nat × Out → List ClientMessage
  | (_, .ack eventId) => [.ack ⟨eventId⟩]
  | (id, .call (.command kind) _) => [.cmd ⟨id, kind⟩]
  | (id, .call (.sendFile cmd _ header) (some content)) =>
    (send c reads (headerOf id header) content).map wrap ++
      [.cmd ⟨id, .sendFile { cmd with transfer := transferOf id }⟩]
  -- the file is opened before anything is written
  | (_, .call (.sendFile ..) none) => []

/-- The lines up to the end of the stream. -/
def linesOf : List (Except LineError (Option String)) → List (Except LineError String)
  | .ok (some line) :: rest => .ok line :: linesOf rest
  | .error err :: _ => [.error err]
  | _ => []

section

variable {W : Type} (c : Crates) (serde : Serde) (host : Host W)

/-- The files when the connection is over: the transfers in progress are discarded, and what no
command came for is removed.  The keys of both tables come in any order. -/
def closed (conn : Connection W) (transfers received : List String) : String → Option Bytes :=
  ((received.filterMap conn.received).foldl (fun s r ↦ s.removeFile r.path)
    (conn.spool.abortAll transfers)).files

/-- The loop over messages: the results that are queued for them, and the connection after them. -/
def loop : Connection W → List ClientMessage → List CmdResult × Connection W
  | conn, [] => ([], conn)
  | conn, m :: ms =>
    let (result, next) := conn.handle c serde host (.message m)
    let (results, last) := loop next ms
    (result.toList ++ results, last)

end

/-! ## The lines -/

theorem objects : Objects ClientMessage.toJson where
  obj message := by cases message <;> exact ⟨_, rfl⟩
  within message := message.within 124

section Lines

variable {W : Type} {c : Crates} {serde : Serde} {host : Host W}

@[simp] theorem loop_nil (conn : Connection W) : loop c serde host conn [] = ([], conn) := rfl

theorem loop_cons (conn : Connection W) (m : ClientMessage) (ms : List ClientMessage) :
    loop c serde host conn (m :: ms) =
      ((conn.handle c serde host (.message m)).1.toList ++
        (loop c serde host (conn.handle c serde host (.message m)).2 ms).1,
        (loop c serde host (conn.handle c serde host (.message m)).2 ms).2) := rfl

theorem loop_append (conn : Connection W) (ms ns : List ClientMessage) :
    loop c serde host conn (ms ++ ns) =
      ((loop c serde host conn ms).1 ++ (loop c serde host (loop c serde host conn ms).2 ns).1,
        (loop c serde host (loop c serde host conn ms).2 ns).2) := by
  induction ms generalizing conn with
  | nil => rfl
  | cons m ms ih => simp only [List.cons_append, loop_cons, ih, List.append_assoc]

/-- Whole lines are handled as they were written. -/
theorem served_lines (hserde : compact.Lawful serde) {ms : List ClientMessage}
    (hr : ∀ m ∈ ms, m.InRange) (conn : Connection W)
    (rest : List (Except LineError (Option String))) :
    served c serde host conn
        (linesOf ((ms.map fun m ↦ .ok (some (lineOf ClientMessage.toJson m))) ++ rest)) =
      ((loop c serde host conn ms).1 ++
          (served c serde host (loop c serde host conn ms).2 (linesOf rest)).1,
        (served c serde host (loop c serde host conn ms).2 (linesOf rest)).2) := by
  induction ms generalizing conn with
  | nil => rfl
  | cons m ms ih =>
    have hparse : ClientLines.parseClientLine serde (lineOf ClientMessage.toJson m) =
        some (.message m) := by
      rw [ClientLines.parseClientLine, hserde.fromStr, objects.tree_lineOf, Option.map_some,
        Option.map_some, ClientLines.classify,
        ClientMessage.read_sorted (hr m List.mem_cons_self)]
    rw [List.map_cons, List.cons_append, linesOf, served, hparse]
    dsimp only
    rw [ih fun m' h ↦ hr m' (List.mem_cons_of_mem m h), loop_cons, List.append_assoc]

/-- What comes after the lines is answered with nothing and changes nothing. -/
theorem served_rest (hserde : compact.Lawful serde)
    {rest : List (Except LineError (Option String))} (h : Rest rest) (conn : Connection W) :
    served c serde host conn (linesOf rest) = ([], conn) := by
  cases h with
  | «end» => rfl
  | error err => rfl
  | part line hline =>
    have hparse : ClientLines.parseClientLine serde line = none ∨
        ∃ message, ClientLines.parseClientLine serde line = some (.ignored message) := by
      rw [ClientLines.parseClientLine, hserde.fromStr]
      cases htree : compact.tree line with
      | none => exact .inl rfl
      | some value =>
        cases value with
        | obj fields => exact absurd htree (hline fields)
        | _ => exact .inr ⟨_, rfl⟩
    have hlines : linesOf [.ok (some line), .ok none] = [.ok line] := rfl
    rcases hparse with hparse | ⟨message, hparse⟩
    · rw [hlines, served, hparse]
    · rw [hlines, served, hparse]
      rfl

/-- However the stream is cut into reads, and wherever it ends, what the daemon handles are the
first of the messages: those whose lines have come, up to one that is too long. -/
theorem served_cut (hserde : compact.Lawful serde) {ms : List ClientMessage}
    (hr : ∀ m ∈ ms, m.InRange) {n j max : Nat} {wakes : List Wake}
    (hstream : streamOf wakes = cut ClientMessage.toJson ms n j) (conn : Connection W) :
    ∃ k, served c serde host conn (linesOf ((Reader.withMax max).results wakes)) =
        loop c serde host conn (ms.take k) ∧
      ((∀ m ∈ arrived ClientMessage.toJson ms n j,
        (utf8 (lineOf ClientMessage.toJson m)).length ≤ max) →
          ms.take k = arrived ClientMessage.toJson ms n j) := by
  obtain ⟨k, rest, hresults, hrest, hall⟩ := objects.results_cut max hstream
  refine ⟨k, ?_, hall⟩
  rw [hresults, served_lines hserde fun m h ↦ hr m (List.mem_of_mem_take h),
    served_rest hserde hrest, List.append_nil]

end Lines

/-! ## An upload -/

section Uploads

variable {W : Type}

/-- After some file operations. -/
def Later (host : Host W) (before after : W) : Prop :=
  ∃ n, after = (fun w ↦ (host.fault w).2)^[n] before

/-- Some file operation fails. -/
def Faulty (host : Host W) (before : W) : Prop :=
  ∃ w, Later host before w ∧ (host.fault w).1 ≠ none

/-- The connection while a file comes in. -/
def opened (conn : Connection W) (header : FileHeader) (path : String) (world : W)
    (written : Bytes) : Connection W :=
  { conn with
    world := world
    spool := conn.spool.put header.transfer ⟨header, path, written.length⟩ (some written) }

/-- The connection when the file is whole. -/
def came (conn : Connection W) (header : FileHeader) (path : String) (world : W)
    (content : Bytes) : Connection W :=
  { conn with
    world := world
    spool := conn.spool.write path (some content)
    received := Function.update conn.received header.transfer (some ⟨header, path⟩) }

/-- The connection when the file has failed. -/
def broken (conn : Connection W) (transfer : String) (world : W) (spool : Spool) (why : String) :
    Connection W :=
  { conn with
    world := world
    spool := spool
    failed := Function.update conn.failed transfer (some why) }

/-- Between two requests nothing is in progress. -/
structure Ready (conn : Connection W) : Prop where
  opens : ∀ transfer, conn.spool.receiver.openTransfers transfer = none
  received : ∀ transfer, conn.received transfer = none
  failed : ∀ transfer, conn.failed transfer = none

/-- What is left of a file that fails: nothing, and nothing of a file that had its path. -/
def Emptied (conn : Connection W) (path : String) (spool : Spool) : Prop :=
  spool = conn.spool ∨ spool = conn.spool.write path none

/-- How far an upload is after its header and some of its chunks. -/
inductive Midway (host : Host W) (conn : Connection W) (header : FileHeader) (path : String)
    (written : Bytes) : Connection W → Prop
  | opened (world : W) (hlater : Later host conn.world world)
      (hsize : written.length ≤ header.size) (hmax : header.size ≤ conn.spool.receiver.maxBytes) :
      Midway host conn header path written (opened conn header path world written)
  | broken (world : W) (spool : Spool) (err : Transfer.TransferError)
      (hlater : Later host conn.world world) (hspool : Emptied conn path spool)
      (hwhy : header.size < written.length ∨ conn.spool.receiver.maxBytes < header.size ∨
        Faulty host conn.world) :
      Midway host conn header path written (broken conn header.transfer world spool err.display)

/-- What has become of an upload at its end. -/
inductive Ended (host : Host W) (conn : Connection W) (header : FileHeader) (path : String)
    (content : Bytes) : Connection W → Prop
  | came (world : W) (hlater : Later host conn.world world)
      (hsize : content.length = header.size) (hmax : header.size ≤ conn.spool.receiver.maxBytes) :
      Ended host conn header path content (came conn header path world content)
  | broken (world : W) (spool : Spool) (err : Transfer.TransferError)
      (hlater : Later host conn.world world) (hspool : Emptied conn path spool)
      (hwhy : ¬(content.length = header.size ∧ header.size ≤ conn.spool.receiver.maxBytes) ∨
        Faulty host conn.world) :
      Ended host conn header path content (broken conn header.transfer world spool err.display)

namespace Later

variable {host : Host W} {w w' : W}

theorem refl (w : W) : Later host w w := ⟨0, rfl⟩

theorem step (h : Later host w w') : Later host w (host.fault w').2 := by
  obtain ⟨n, rfl⟩ := h
  refine ⟨n + 1, ?_⟩
  rw [Function.iterate_succ_apply']

end Later

variable {c : Crates} {serde : Serde} {host : Host W} {conn : Connection W} {header : FileHeader}
  {path : String} {world : W} {spool : Spool} {why : String} {written : Bytes}
  {midway : Connection W}

theorem faulty_of_eq_some {err : String} (h : Later host conn.world world)
    (hfault : (host.fault world).1 = some err) : Faulty host conn.world := by
  refine ⟨world, h, ?_⟩
  rw [hfault]
  exact Option.some_ne_none err

theorem Emptied.opens (hready : Ready conn) (h : Emptied conn path spool) (transfer : String) :
    spool.receiver.openTransfers transfer = none := by
  obtain rfl | rfl := h
  · exact hready.opens transfer
  · exact hready.opens transfer

/-! ### One message -/

theorem fail_broken (hfailed : conn.failed header.transfer = none)
    (err : Transfer.TransferError) :
    Connection.fail { conn with world := world, spool := spool } header.transfer err =
      broken conn header.transfer world spool err.display := by
  unfold Connection.fail
  rw [if_neg (by simp [hfailed])]
  rfl

theorem fail_again (err : Transfer.TransferError) :
    Connection.fail (broken conn header.transfer world spool why) header.transfer err =
      broken conn header.transfer world spool why := by
  have hsome : ((broken conn header.transfer world spool why).failed header.transfer).isSome =
      true := by
    simp [broken]
  unfold Connection.fail
  rw [if_pos hsome]

theorem chunk_opened (hcodec : ∀ bytes, c.decode (c.encode bytes) = .ok bytes)
    (hready : Ready conn) (written first : Bytes) :
    (opened conn header path world written).chunk c host ⟨header.transfer, c.encode first⟩ =
      if header.size < (written ++ first).length then
        broken conn header.transfer (host.fault world).2 (conn.spool.write path none)
          (Transfer.TransferError.sizeMismatch header.transfer (written ++ first).length
            header.size).display
      else match (host.fault world).1 with
        | some err => broken conn header.transfer (host.fault world).2
            (conn.spool.write path none) (Transfer.TransferError.io err).display
        | none => opened conn header path (host.fault world).2 (written ++ first) := by
  have hchunk : (conn.spool.put header.transfer ⟨header, path, written.length⟩
      (some written)).chunk c ⟨header.transfer, c.encode first⟩ (host.fault world).1 = _ :=
    Spool.chunk_put hcodec (hready.opens header.transfer) written.length written first
      (host.fault world).1
  rw [← List.length_append] at hchunk
  unfold Connection.chunk
  by_cases hsize : header.size < (written ++ first).length
  · rw [if_pos hsize] at hchunk ⊢
    simp only [opened, hchunk]
    exact fail_broken (hready.failed _) _
  · rw [if_neg hsize] at hchunk ⊢
    cases hfault : (host.fault world).1 with
    | some err =>
      simp only [hfault] at hchunk
      simp only [opened, hfault, hchunk]
      exact fail_broken (hready.failed _) _
    | none =>
      simp only [hfault] at hchunk
      simp only [opened, hfault, hchunk]

theorem chunk_broken (hopens : spool.receiver.openTransfers header.transfer = none)
    (data : String) :
    (broken conn header.transfer world spool why).chunk c host ⟨header.transfer, data⟩ =
      broken conn header.transfer (host.fault world).2 spool why := by
  have hchunk (fault : Option String) : spool.chunk c ⟨header.transfer, data⟩ fault =
      (.error (.unknown header.transfer), spool) := by
    unfold Spool.chunk
    simp only [hopens]
  unfold Connection.chunk
  simp only [broken, hchunk]
  exact fail_again _

theorem endFile_opened (hready : Ready conn) (content : Bytes) :
    (opened conn header path world content).endFile host ⟨header.transfer⟩ =
      match (host.fault world).1 with
      | some err => broken conn header.transfer (host.fault world).2
          (conn.spool.write path none) (Transfer.TransferError.io err).display
      | none =>
        if content.length = header.size then
          came conn header path (host.fault world).2 content
        else broken conn header.transfer (host.fault world).2 (conn.spool.write path none)
          (Transfer.TransferError.sizeMismatch header.transfer content.length
            header.size).display := by
  have hend : (conn.spool.put header.transfer ⟨header, path, content.length⟩
      (some content)).end ⟨header.transfer⟩ (host.fault world).1 = _ :=
    Spool.end_put (hready.opens header.transfer) content.length (host.fault world).1
  unfold Connection.endFile
  cases hfault : (host.fault world).1 with
  | some err =>
    simp only [hfault] at hend
    simp only [opened, hfault, hend]
    exact fail_broken (hready.failed _) _
  | none =>
    simp only [hfault] at hend
    by_cases hsize : content.length = header.size
    · rw [if_pos hsize] at hend
      simp only [opened, hfault, hend, if_pos hsize]
      rfl
    · rw [if_neg hsize] at hend
      simp only [opened, hfault, hend, if_neg hsize]
      exact fail_broken (hready.failed _) _

theorem endFile_broken (hopens : spool.receiver.openTransfers header.transfer = none) :
    (broken conn header.transfer world spool why).endFile host ⟨header.transfer⟩ =
      broken conn header.transfer (host.fault world).2 spool why := by
  have hend (fault : Option String) : spool.end ⟨header.transfer⟩ fault =
      (.error (.unknown header.transfer), spool) := by
    unfold Spool.end
    simp only [hopens]
  unfold Connection.endFile
  simp only [broken, hend]
  exact fail_again _

theorem beginFile_ready (hready : Ready conn) :
    conn.beginFile c host header =
      if conn.spool.receiver.maxBytes < header.size then
        broken conn header.transfer (host.fault conn.world).2 conn.spool
          (Transfer.TransferError.tooLarge header.size conn.spool.receiver.maxBytes).display
      else match (host.fault conn.world).1 with
        | some err => broken conn header.transfer (host.fault conn.world).2 conn.spool
            (Transfer.TransferError.io err).display
        | none => opened conn header (conn.spool.receiver.pathFor c header)
            (host.fault conn.world).2 [] := by
  have hbegin : conn.spool.begin c header (host.fault conn.world).1 = _ :=
    Spool.begin_free (hready.opens header.transfer) (host.fault conn.world).1
  unfold Connection.beginFile
  by_cases hsize : conn.spool.receiver.maxBytes < header.size
  · rw [if_pos hsize] at hbegin ⊢
    simp only [hbegin]
    rfl
  · rw [if_neg hsize] at hbegin ⊢
    cases hfault : (host.fault conn.world).1 with
    | some err =>
      simp only [hfault] at hbegin
      simp only [hfault, hbegin]
      rfl
    | none =>
      simp only [hfault] at hbegin
      simp only [hfault, hbegin]
      rfl

/-! ### The messages of an upload -/

theorem midway_begin (hready : Ready conn) :
    Midway host conn header (conn.spool.receiver.pathFor c header) []
      (conn.beginFile c host header) := by
  have hlater : Later host conn.world (host.fault conn.world).2 := (Later.refl conn.world).step
  rw [beginFile_ready hready]
  split
  · next hmax => exact .broken _ _ _ hlater (.inl rfl) (.inr (.inl hmax))
  next hmax =>
    cases hfault : (host.fault conn.world).1 with
    | some err =>
      exact .broken _ _ _ hlater (.inl rfl) (.inr (.inr (faulty_of_eq_some (.refl _) hfault)))
    | none => exact .opened _ hlater (Nat.zero_le _) (Nat.le_of_not_lt hmax)

theorem Midway.chunk (hcodec : ∀ bytes, c.decode (c.encode bytes) = .ok bytes)
    (hready : Ready conn) (h : Midway host conn header path written midway) (block : Bytes) :
    Midway host conn header path (written ++ block)
      (midway.chunk c host ⟨header.transfer, c.encode block⟩) := by
  cases h with
  | opened world hlater hsize hmax =>
    rw [chunk_opened hcodec hready]
    split
    · next hover => exact .broken _ _ _ hlater.step (.inr rfl) (.inl hover)
    next hfits =>
      cases hfault : (host.fault world).1 with
      | some err =>
        exact .broken _ _ _ hlater.step (.inr rfl)
          (.inr (.inr (faulty_of_eq_some hlater hfault)))
      | none => exact .opened _ hlater.step (Nat.le_of_not_lt hfits) hmax
  | broken world spool err hlater hspool hwhy =>
    rw [chunk_broken (hspool.opens hready _)]
    refine .broken _ _ _ hlater.step hspool (hwhy.imp_left fun hless ↦ ?_)
    rw [List.length_append]
    omega

theorem Midway.end (hready : Ready conn) (h : Midway host conn header path written midway) :
    Ended host conn header path written (midway.endFile host ⟨header.transfer⟩) := by
  cases h with
  | opened world hlater hsize hmax =>
    rw [endFile_opened hready]
    cases hfault : (host.fault world).1 with
    | some err =>
      exact .broken _ _ _ hlater.step (.inr rfl) (.inr (faulty_of_eq_some hlater hfault))
    | none =>
      dsimp only
      split
      · next hsame => exact .came _ hlater.step hsame hmax
      · next hother =>
        exact .broken _ _ _ hlater.step (.inr rfl) (.inl fun hboth ↦ hother hboth.1)
  | broken world spool err hlater hspool hwhy =>
    rw [endFile_broken (hspool.opens hready _)]
    refine .broken _ _ _ hlater.step hspool ?_
    rcases hwhy with hless | hmax | hfaulty
    · exact .inl fun hboth ↦ absurd hboth.1 (by omega)
    · exact .inl fun hboth ↦ absurd hboth.2 (by omega)
    · exact .inr hfaulty

/-- The file as the blocks that its chunks carry. -/
theorem chunks_eq_blocks (c : Crates) (reads : Nat → Nat) (transfer : String) (content : Bytes) :
    ∃ blocks : List Bytes, blocks.flatten = content ∧
      chunks c reads transfer content = blocks.map fun block ↦ ⟨transfer, c.encode block⟩ := by
  induction hlength : content.length using Nat.strong_induction_on generalizing content with
  | _ n ih =>
    subst hlength
    by_cases hnil : content = []
    · exact ⟨[], hnil.symm, hnil ▸ Transfer.chunks_nil c reads transfer⟩
    · have hpos := List.length_pos_iff.mpr hnil
      have hbytes : 0 < Transfer.chunkBytes := by decide
      have hless : (content.drop Transfer.chunkBytes).length < content.length := by
        rw [List.length_drop]
        omega
      obtain ⟨blocks, hflat, hblocks⟩ := ih _ hless _ rfl
      refine ⟨content.take Transfer.chunkBytes :: blocks, ?_, ?_⟩
      · rw [List.flatten_cons, hflat, List.take_append_drop]
      · rw [Transfer.chunks_of_ne_nil c reads transfer hnil, hblocks, List.map_cons]

def chunkOf (c : Crates) (transfer : String) (block : Bytes) : ClientMessage :=
  .chunk ⟨transfer, c.encode block⟩

theorem wrap_send (c : Crates) (reads : Nat → Nat) (header : FileHeader) (content : Bytes) :
    ∃ blocks : List Bytes, blocks.flatten = content ∧
      (send c reads header content).map wrap =
        .file header :: blocks.map (chunkOf c header.transfer) ++
          [.fileEnd ⟨header.transfer⟩] := by
  obtain ⟨blocks, hflat, hblocks⟩ := chunks_eq_blocks c reads header.transfer content
  refine ⟨blocks, hflat, ?_⟩
  rw [send, hblocks]
  simp only [List.map_append, List.map_cons, List.map_map, List.map_nil]
  rfl

/-- Over the chunks of a file, for as much of it as has been written. -/
theorem Midway.chunks (hcodec : ∀ bytes, c.decode (c.encode bytes) = .ok bytes)
    (hready : Ready conn) (h : Midway host conn header path written midway)
    (blocks : List Bytes) :
    ∃ next, loop c serde host midway (blocks.map (chunkOf c header.transfer)) = ([], next) ∧
      Midway host conn header path (written ++ blocks.flatten) next := by
  induction blocks generalizing written midway with
  | nil => exact ⟨midway, rfl, by rwa [List.flatten_nil, List.append_nil]⟩
  | cons block blocks ih =>
    obtain ⟨next, hloop, hnext⟩ := ih (h.chunk hcodec hready block)
    refine ⟨next, ?_, by rwa [List.flatten_cons, ← List.append_assoc]⟩
    rw [List.map_cons, loop_cons]
    exact congrArg (fun x ↦ (([] : List CmdResult) ++ x.1, x.2)) hloop

/-- The header and some of the chunks. -/
theorem loop_chunks (serde : Serde) (host : Host W)
    (hcodec : ∀ bytes, c.decode (c.encode bytes) = .ok bytes) (hready : Ready conn)
    (header : FileHeader) (blocks : List Bytes) :
    ∃ next, loop c serde host conn (.file header :: blocks.map (chunkOf c header.transfer)) =
        ([], next) ∧
      Midway host conn header (conn.spool.receiver.pathFor c header) blocks.flatten next := by
  have hbegin : Midway host conn header _ [] (conn.beginFile c host header) := midway_begin hready
  obtain ⟨next, hloop, hnext⟩ : ∃ next, loop c serde host (conn.beginFile c host header)
      (blocks.map (chunkOf c header.transfer)) = ([], next) ∧ _ :=
    hbegin.chunks hcodec hready blocks
  refine ⟨next, ?_, by rwa [List.nil_append] at hnext⟩
  rw [loop_cons]
  exact congrArg (fun x ↦ (([] : List CmdResult) ++ x.1, x.2)) hloop

end Uploads

/-! ## One request after the other -/

/-- What becomes of a request: the command is executed as it was called, for a file with the file
whole at its path, and answered; or the file is not there, and that is the answer. -/
inductive Serves {W : Type} (c : Crates) (serde : Serde) (host : Host W) (conn : Connection W) :
    (Nat × Out) × Option CmdResult → Connection W → Prop
  | ack (id : Nat) (eventId : String) :
      Serves c serde host conn ((id, .ack eventId), none)
        { conn with world := host.ack ⟨eventId⟩ conn.world }
  | command (id : Nat) (kind : CmdKind) (file : Option Bytes) :
      Serves c serde host conn
        ((id, .call (.command kind) file), some (conn.command serde host ⟨id, kind⟩).1)
        (conn.command serde host ⟨id, kind⟩).2
  | unopened (id : Nat) (cmd : SendFile) (name : String) (header : FileHeader) :
      Serves c serde host conn ((id, .call (.sendFile cmd name header) none), none) conn
  | sent (id : Nat) (cmd : SendFile) (name : String) (header : FileHeader) (content : Bytes)
      (world : W) (hlater : Later host conn.world world) (hsize : content.length = header.size)
      (hmax : header.size ≤ conn.spool.receiver.maxBytes) (whole : Connection W)
      (hwhole : whole = came conn (headerOf id header)
        (conn.spool.receiver.pathFor c (headerOf id header)) world content) :
      Serves c serde host conn
        ((id, .call (.sendFile cmd name header) (some content)),
          some (whole.command serde host
            ⟨id, .sendFile { cmd with transfer := transferOf id }⟩).1)
        (whole.command serde host ⟨id, .sendFile { cmd with transfer := transferOf id }⟩).2
  | refused (id : Nat) (cmd : SendFile) (name : String) (header : FileHeader) (content : Bytes)
      (world : W) (spool : Spool) (err : Transfer.TransferError)
      (hlater : Later host conn.world world)
      (hspool : Emptied conn (conn.spool.receiver.pathFor c (headerOf id header)) spool)
      (hwhy : ¬(content.length = header.size ∧ header.size ≤ conn.spool.receiver.maxBytes) ∨
        Faulty host conn.world) :
      Serves c serde host conn
        ((id, .call (.sendFile cmd name header) (some content)),
          some (.err id .fileError
            ("transfer " ++ serde.quote (transferOf id) ++ ": " ++ err.display)))
        { conn with world := world, spool := spool }

/-- Every file is what it was before or is gone, but for those of the transfers and of the files
that wait for their command. -/
def Tidy {W : Type} (files : String → Option Bytes) (conn : Connection W) : Prop :=
  ∀ path, conn.spool.files path = files path ∨ conn.spool.files path = none ∨
    (∃ transfer o, conn.spool.receiver.openTransfers transfer = some o ∧ o.path = path) ∨
    ∃ transfer r, conn.received transfer = some r ∧ r.path = path

section Runs

variable {W : Type} {c : Crates} {serde : Serde} {host : Host W} {conn next : Connection W}

/-- A command for no file that came in changes the world alone. -/
theorem ready_command (hready : Ready conn) (cmd : Cmd) :
    Ready (conn.command serde host cmd).2 ∧
      (conn.command serde host cmd).2.spool = conn.spool := by
  unfold Connection.command
  split
  · next file _ =>
    unfold Connection.sendFile
    rw [hready.received]
    refine ⟨⟨hready.opens, hready.received, fun transfer ↦ ?_⟩, rfl⟩
    by_cases heq : transfer = file.transfer
    · rw [heq]
      exact Function.update_self ..
    · exact (Function.update_of_ne heq ..).trans (hready.failed transfer)
  · exact ⟨⟨hready.opens, hready.received, hready.failed⟩, rfl⟩

/-- The command of a file that came in whole takes it away. -/
theorem command_came (hready : Ready conn) {header : FileHeader} {path : String} {world : W}
    {content : Bytes} {cmd : SendFile} (htransfer : cmd.transfer = header.transfer) (id : Nat) :
    ((came conn header path world content).command serde host ⟨id, .sendFile cmd⟩).2 =
      { conn with
        world := (host.doSendFile cmd ⟨header, path⟩ world).2
        spool := conn.spool.write path none } := by
  have hreceived : (came conn header path world content).received cmd.transfer =
      some ⟨header, path⟩ := by
    rw [htransfer]
    exact Function.update_self ..
  have hsame : Function.update conn.received header.transfer none = conn.received := by
    rw [← hready.received header.transfer, Function.update_eq_self]
  unfold Connection.command
  dsimp only
  unfold Connection.sendFile
  rw [hreceived]
  simp only [came, htransfer, Function.update_idem, hsame, Spool.removeFile_write]

/-- The command of a file that failed is answered with the reason. -/
theorem command_broken (hready : Ready conn) {world : W} {spool : Spool} {why : String}
    (cmd : SendFile) (id : Nat) :
    (broken conn cmd.transfer world spool why).command serde host ⟨id, .sendFile cmd⟩ =
      (.err id .fileError ("transfer " ++ serde.quote cmd.transfer ++ ": " ++ why),
        { conn with world := world, spool := spool }) := by
  have hreceived : (broken conn cmd.transfer world spool why).received cmd.transfer = none :=
    hready.received cmd.transfer
  have hfailed : (broken conn cmd.transfer world spool why).failed cmd.transfer = some why :=
    Function.update_self ..
  have hsame : Function.update conn.failed cmd.transfer none = conn.failed := by
    rw [← hready.failed cmd.transfer, Function.update_eq_self]
  unfold Connection.command
  dsimp only
  unfold Connection.sendFile
  rw [hreceived, hfailed]
  simp only [broken, Function.update_idem, hsame, Option.getD_some]

/-- The lines of one request, all of them. -/
theorem loop_messages (hcodec : ∀ bytes, c.decode (c.encode bytes) = .ok bytes)
    (hready : Ready conn) (reads : Nat → Nat) (request : Nat × Out) :
    ∃ result next, loop c serde host conn (messages c reads request) = (result.toList, next) ∧
      Serves c serde host conn (request, result) next := by
  rcases request with ⟨id, eventId | ⟨kind | ⟨cmd, name, header⟩, file⟩⟩
  · exact ⟨none, _, rfl, .ack id eventId⟩
  · exact ⟨_, _, rfl, .command id kind file⟩
  cases file with
  | none => exact ⟨none, conn, rfl, .unopened id cmd name header⟩
  | some content =>
    obtain ⟨blocks, rfl, hpieces⟩ := wrap_send c reads (headerOf id header) content
    obtain ⟨midway, hchunks, hmidway⟩ :=
      loop_chunks serde host hcodec hready (headerOf id header) blocks
    have hended := hmidway.end hready
    have htransfer : (headerOf id header).transfer = transferOf id := rfl
    rw [htransfer] at hpieces hchunks hended
    have hloop : loop c serde host conn
        (messages c reads (id, .call (.sendFile cmd name header) (some blocks.flatten))) =
        ([((midway.endFile host ⟨transferOf id⟩).command serde host
            ⟨id, .sendFile { cmd with transfer := transferOf id }⟩).1],
          ((midway.endFile host ⟨transferOf id⟩).command serde host
            ⟨id, .sendFile { cmd with transfer := transferOf id }⟩).2) := by
      rw [messages, hpieces, List.append_assoc, loop_append, hchunks]
      rfl
    refine ⟨some _, _, hloop, ?_⟩
    generalize midway.endFile host ⟨transferOf id⟩ = last at hended
    cases hended with
    | came world hlater hsize hmax =>
      exact .sent id cmd name header blocks.flatten world hlater hsize hmax _ rfl
    | broken world spool err hlater hspool hwhy =>
      have hanswer : (broken conn (transferOf id) world spool err.display).command serde host
          ⟨id, .sendFile { cmd with transfer := transferOf id }⟩ = _ :=
        command_broken hready { cmd with transfer := transferOf id } id
      rw [htransfer, hanswer]
      exact .refused id cmd name header blocks.flatten world spool err hlater hspool hwhy

theorem Serves.ready {label : (Nat × Out) × Option CmdResult}
    (h : Serves c serde host conn label next) (hready : Ready conn) :
    Ready next ∧
      ∀ path, next.spool.files path = conn.spool.files path ∨ next.spool.files path = none := by
  cases h with
  | ack id eventId => exact ⟨⟨hready.opens, hready.received, hready.failed⟩, fun path ↦ .inl rfl⟩
  | command id kind file =>
    obtain ⟨hnext, hspool⟩ : Ready (conn.command serde host ⟨id, kind⟩).2 ∧ _ :=
      ready_command hready ⟨id, kind⟩
    exact ⟨hnext, fun path ↦ .inl (congrArg (·.files path) hspool)⟩
  | unopened id cmd name header => exact ⟨hready, fun path ↦ .inl rfl⟩
  | sent id cmd name header content world hlater hsize hmax whole hwhole =>
    subst hwhole
    rw [command_came hready rfl]
    exact ⟨⟨hready.opens, hready.received, hready.failed⟩, fun path ↦ by
      simp only [Spool.files_write, Function.update_apply]
      split
      · exact .inr rfl
      · exact .inl rfl⟩
  | refused id cmd name header content world spool err hlater hspool hwhy =>
    refine ⟨⟨hspool.opens hready, hready.received, hready.failed⟩, fun path ↦ ?_⟩
    obtain rfl | rfl := hspool
    · exact .inl rfl
    · simp only [Spool.files_write, Function.update_apply]
      split
      · exact .inr rfl
      · exact .inl rfl

theorem Emptied.tidy {path : String} {spool : Spool} (h : Emptied conn path spool)
    (other : String) :
    spool.files other = conn.spool.files other ∨ spool.files other = none := by
  obtain rfl | rfl := h
  · exact .inl rfl
  · simp only [Spool.files_write, Function.update_apply]
    split
    · exact .inr rfl
    · exact .inl rfl

theorem Midway.tidy {header : FileHeader} {path : String} {written : Bytes}
    {midway : Connection W} (h : Midway host conn header path written midway) :
    Tidy conn.spool.files midway := by
  intro other
  cases h with
  | opened world hlater hsize hmax =>
    by_cases heq : other = path
    · exact .inr (.inr (.inl ⟨header.transfer, _, Function.update_self .., heq.symm⟩))
    · exact .inl (Function.update_of_ne heq ..)
  | broken world spool err hlater hspool hwhy => exact (hspool.tidy other).imp_right .inl

theorem Ended.tidy {header : FileHeader} {path : String} {content : Bytes} {last : Connection W}
    (h : Ended host conn header path content last) : Tidy conn.spool.files last := by
  intro other
  cases h with
  | came world hlater hsize hmax =>
    by_cases heq : other = path
    · exact .inr (.inr (.inr ⟨header.transfer, _, Function.update_self .., heq.symm⟩))
    · exact .inl (Function.update_of_ne heq ..)
  | broken world spool err hlater hspool hwhy => exact (hspool.tidy other).imp_right .inl

/-- The lines of one request, but not all of them: nothing is answered, and what is left when the
connection is over is what was there before. -/
theorem loop_take (hcodec : ∀ bytes, c.decode (c.encode bytes) = .ok bytes) (hready : Ready conn)
    {reads : Nat → Nat} {request : Nat × Out} {k : Nat}
    (hk : k < (messages c reads request).length) :
    ∃ last, loop c serde host conn ((messages c reads request).take k) = ([], last) ∧
      Tidy conn.spool.files last := by
  have hnone : ∃ last, loop c serde host conn [] = ([], last) ∧ Tidy conn.spool.files last :=
    ⟨conn, rfl, fun path ↦ .inl rfl⟩
  rcases request with ⟨id, eventId | ⟨kind | ⟨cmd, name, header⟩, _ | content⟩⟩
  · obtain rfl : k = 0 := Nat.lt_one_iff.mp hk
    exact hnone
  · obtain rfl : k = 0 := Nat.lt_one_iff.mp hk
    exact hnone
  · obtain rfl : k = 0 := Nat.lt_one_iff.mp hk
    exact hnone
  · exact absurd hk (Nat.not_lt_zero k)
  obtain ⟨blocks, rfl, hpieces⟩ := wrap_send c reads (headerOf id header) content
  rw [messages, hpieces] at hk ⊢
  obtain hbegun | hended : k ≤ blocks.length + 1 ∨ k = blocks.length + 2 := by
    simp only [List.length_append, List.length_cons, List.length_map, List.length_nil] at hk
    omega
  · -- at most chunks
    cases k with
    | zero => exact hnone
    | succ k =>
      obtain ⟨midway, hchunks, hmidway⟩ :=
        loop_chunks serde host hcodec hready (headerOf id header) (blocks.take k)
      refine ⟨midway, ?_, hmidway.tidy⟩
      rw [← hchunks, List.append_assoc, List.take_append_of_le_length (by simpa using hbegun),
        List.take_succ_cons, List.map_take]
  · -- all but the command
    obtain ⟨midway, hchunks, hmidway⟩ :=
      loop_chunks serde host hcodec hready (headerOf id header) blocks
    refine ⟨_, ?_, (hmidway.end hready).tidy⟩
    rw [List.take_left' (by simp [hended]), loop_append, hchunks]
    rfl

/-! ## All of them -/

/-- However many of the lines have come: the first of the requests, one after the other, and of the
next one nothing that stays. -/
theorem loop_requests (serde : Serde) (host : Host W)
    (hcodec : ∀ bytes, c.decode (c.encode bytes) = .ok bytes) (reads : Nat → Nat)
    (requests : List (Nat × Out)) (k : Nat) (hready : Ready conn) :
    ∃ trace after next last, requests = trace.map Prod.fst ++ after ∧
      Lts.Run (Serves c serde host) conn trace next ∧ Ready next ∧
      loop c serde host conn ((requests.flatMap (messages c reads)).take k) =
        (trace.filterMap Prod.snd, last) ∧
      Tidy next.spool.files last ∧
      ((requests.flatMap (messages c reads)).length ≤ k → after = []) := by
  induction requests generalizing conn k with
  | nil => exact ⟨[], [], conn, conn, rfl, .nil conn, hready, by simp, fun _ ↦ .inl rfl, by simp⟩
  | cons request requests ih =>
    by_cases hk : k < (messages c reads request).length
    · obtain ⟨last, hloop, htidy⟩ : ∃ last, loop c serde host conn _ = ([], last) ∧ _ :=
        loop_take hcodec hready hk
      refine ⟨[], request :: requests, conn, last, rfl, .nil conn, hready, ?_, htidy, ?_⟩
      · rw [List.flatMap_cons, List.take_append_of_le_length (Nat.le_of_lt hk)]
        exact hloop
      · rw [List.flatMap_cons, List.length_append]
        omega
    · obtain ⟨result, mid, hfirst, hserves⟩ : ∃ (result : Option CmdResult) (mid : Connection W),
          loop c serde host conn (messages c reads request) = (result.toList, mid) ∧ _ :=
        loop_messages hcodec hready reads request
      obtain ⟨trace, after, next, last, rfl, hrun, hnext, hrest, htidy, hall⟩ :=
        ih (k - (messages c reads request).length) (hserves.ready hready).1
      refine ⟨(request, result) :: trace, after, next, last, rfl, .cons hserves hrun, hnext, ?_,
        htidy, ?_⟩
      · rw [List.flatMap_cons, List.take_append, List.take_of_length_le (Nat.le_of_not_lt hk),
          loop_append, hfirst, hrest]
        cases result with
        | none => rfl
        | some result => rfl
      · rw [List.flatMap_cons, List.length_append]
        intro hle
        exact hall (by omega)

/-- The tables of a connection, each key in them. -/
structure Keys (conn : Connection W) (transfers received : List String) : Prop where
  opens : ∀ transfer, transfer ∈ transfers ↔
    (conn.spool.receiver.openTransfers transfer).isSome = true
  received : ∀ transfer, transfer ∈ received ↔ (conn.received transfer).isSome = true

theorem files_discard (s : Spool) (transfer path : String) :
    (s.discard transfer).files path = s.files path ∨ (s.discard transfer).files path = none := by
  cases ho : s.receiver.openTransfers transfer with
  | none => exact .inl (by rw [Spool.discard_of_none s ho])
  | some o =>
    rw [Spool.discard_eq s ho]
    by_cases heq : path = o.path
    · exact .inr (by rw [heq]; exact Function.update_self ..)
    · exact .inl (Function.update_of_ne heq ..)

/-- What is gone stays so, and what is there is left alone or goes. -/
theorem files_abortAll (s : Spool) (transfers : List String) (path : String) :
    (s.abortAll transfers).files path = s.files path ∨
      (s.abortAll transfers).files path = none := by
  induction transfers generalizing s with
  | nil => exact .inl rfl
  | cons transfer transfers ih =>
    rcases ih (s.discard transfer) with hsame | hnone
    · exact (files_discard s transfer path).imp hsame.trans hsame.trans
    · exact .inr hnone

theorem files_removeAll (s : Spool) (received : List Received) (path : String) :
    (received.foldl (fun s r ↦ s.removeFile r.path) s).files path =
      if path ∈ received.map Received.path then none else s.files path := by
  induction received generalizing s with
  | nil => rfl
  | cons r received ih =>
    rw [List.foldl_cons, ih, Spool.files_removeFile, Function.update_apply, List.map_cons]
    simp only [List.mem_cons]
    split <;> split <;> simp_all

/-- When the connection is over, every file is what it was before or is gone. -/
theorem closed_of_tidy {files : String → Option Bytes} (h : Tidy files conn)
    {transfers received : List String} (hkeys : Keys conn transfers received) (path : String) :
    closed conn transfers received path = files path ∨
      closed conn transfers received path = none := by
  unfold closed
  rw [files_removeAll]
  split
  · exact .inr rfl
  next hleft =>
    rcases h path with hsame | hnone | ⟨transfer, o, ho, hpath⟩ | ⟨transfer, r, hr, hpath⟩
    · exact (files_abortAll conn.spool transfers path).imp_left fun h ↦ h.trans hsame
    · exact .inr ((files_abortAll conn.spool transfers path).elim (fun h ↦ h.trans hnone) id)
    · have hmem : transfer ∈ transfers := (hkeys.opens transfer).mpr (by rw [ho]; rfl)
      have hgone := conn.spool.gone_abortAll hmem
      rw [ho] at hgone
      exact .inr (hpath ▸ hgone.2 o rfl)
    · have hmem : transfer ∈ received := (hkeys.received transfer).mpr (by rw [hr]; rfl)
      refine absurd ?_ hleft
      exact List.mem_map.mpr ⟨r, List.mem_filterMap.mpr ⟨transfer, hmem, hr⟩, hpath⟩

/-! ## The stream -/

/-- Integers are of their width. -/
def Out.InRange : Out → Prop
  | .ack _ => True
  | .call (.command kind) _ => kind.InRange
  | .call (.sendFile _ _ header) _ => header.InRange

theorem inRange_numbered {outs : List Out} (hr : ∀ out ∈ outs, out.InRange) {id : Nat}
    {request : Nat × Out} (h : request ∈ numbered id outs) :
    request.2.InRange ∧ request.1 < id + outs.length := by
  induction outs generalizing id with
  | nil => cases h
  | cons out outs ih =>
    have hout := hr out List.mem_cons_self
    have hrest (first : Nat) (hmem : request ∈ numbered first outs) :
        request.2.InRange ∧ request.1 < first + outs.length :=
      ih (fun o ho ↦ hr o (List.mem_cons_of_mem out ho)) hmem
    cases out with
    | ack eventId =>
      rcases List.mem_cons.mp h with rfl | hmem
      · exact ⟨hout, Nat.lt_add_of_pos_right (Nat.succ_pos _)⟩
      · exact ⟨(hrest id hmem).1, Nat.lt_succ_of_lt (hrest id hmem).2⟩
    | call call file =>
      rcases List.mem_cons.mp h with rfl | hmem
      · exact ⟨hout, Nat.lt_add_of_pos_right (Nat.succ_pos _)⟩
      · have hless := (hrest (id + 1) hmem).2
        rw [List.length_cons]
        exact ⟨(hrest (id + 1) hmem).1, by omega⟩

theorem inRange_messages (reads : Nat → Nat) {request : Nat × Out} (hr : request.2.InRange)
    (hid : request.1 < 2 ^ 64) : ∀ m ∈ messages c reads request, m.InRange := by
  rcases request with ⟨id, eventId | ⟨kind | ⟨cmd, name, header⟩, _ | content⟩⟩
  · simp [messages, ClientMessage.InRange]
  · intro m hm
    obtain rfl := List.mem_singleton.mp hm
    exact ⟨hid, hr⟩
  · intro m hm
    obtain rfl := List.mem_singleton.mp hm
    exact ⟨hid, hr⟩
  · exact fun m hm ↦ absurd hm List.not_mem_nil
  obtain ⟨blocks, -, hpieces⟩ := wrap_send c reads (headerOf id header) content
  rw [messages, hpieces]
  intro m hm
  simp only [List.mem_append, List.mem_cons, List.mem_map, List.not_mem_nil, or_false] at hm
  rcases hm with ((rfl | ⟨block, -, rfl⟩) | rfl) | rfl
  · exact hr
  · trivial
  · trivial
  · exact ⟨hid, trivial⟩

theorem files_run {trace : List ((Nat × Out) × Option CmdResult)}
    (hrun : Lts.Run (Serves c serde host) conn trace next) (hready : Ready conn) (path : String) :
    next.spool.files path = conn.spool.files path ∨ next.spool.files path = none := by
  have hkept : Ready next ∧ (next.spool.files path = conn.spool.files path ∨
      next.spool.files path = none) := by
    apply hrun.invariant (I := fun s ↦ Ready s ∧ (s.spool.files path = conn.spool.files path ∨
      s.spool.files path = none)) (P := fun _ ↦ True) _ ⟨hready, .inl rfl⟩ fun _ _ ↦ trivial
    rintro s label t ⟨hs, hfiles⟩ - hserves
    obtain ⟨ht, hstep⟩ := hserves.ready hs
    refine ⟨ht, (hstep path).elim (fun hsame ↦ ?_) .inr⟩
    rwa [hsame]
  exact hkept.2

/-- What the plugin asks for is done once and in its order.  However the stream of a connection is
cut into reads, is lost, or has lines that are too long: the daemon serves the first of what the
plugin took from its channel, one after the other, and all of it if every line fits and comes.  The
results are those of the commands that were executed, and when the connection is over every file of
the spool is what it was before it or is gone. -/
theorem requested (hserde : compact.Lawful serde)
    (hcodec : ∀ bytes, c.decode (c.encode bytes) = .ok bytes) (hready : Ready conn)
    {outs : List Out} (hr : ∀ out ∈ outs, out.InRange) (hids : outs.length < 2 ^ 64)
    {reads : Nat → Nat} {max n j : Nat} {wakes : List Wake}
    (hstream : streamOf wakes = cut ClientMessage.toJson
      ((numbered 1 outs).flatMap (messages c reads)) n j) :
    ∃ trace after next last, numbered 1 outs = trace.map Prod.fst ++ after ∧
      Lts.Run (Serves c serde host) conn trace next ∧
      served c serde host conn (linesOf ((Reader.withMax max).results wakes)) =
        (trace.filterMap Prod.snd, last) ∧
      ((∀ m ∈ (numbered 1 outs).flatMap (messages c reads),
          (utf8 (lineOf ClientMessage.toJson m)).length ≤ max) →
        ((numbered 1 outs).flatMap (messages c reads)).length ≤ n → after = []) ∧
      ∀ transfers received, Keys last transfers received →
        ∀ path, closed last transfers received path = conn.spool.files path ∨
          closed last transfers received path = none := by
  have hrange : ∀ m ∈ (numbered 1 outs).flatMap (messages c reads), m.InRange := by
    intro m hm
    obtain ⟨request, hrequest, hm⟩ := List.mem_flatMap.mp hm
    obtain ⟨hout, hid⟩ := inRange_numbered hr hrequest
    exact inRange_messages reads hout (by omega) m hm
  obtain ⟨k, hserved, hwhole⟩ : ∃ k, served c serde host conn _ = _ ∧ _ :=
    served_cut hserde hrange hstream conn
  obtain ⟨trace, after, next, last, hsplit, hrun, -, hloop, htidy, hall⟩ :=
    loop_requests serde host hcodec reads (numbered 1 outs) k hready
  refine ⟨trace, after, next, last, hsplit, hrun, hserved.trans hloop, ?_, ?_⟩
  · intro hfits hn
    apply hall
    have htake := hwhole fun m hm ↦ hfits m (LineCut.mem_of_mem_arrived hm)
    rw [LineCut.arrived_of_le hn] at htake
    exact List.take_eq_self_iff _ |>.mp htake
  · intro transfers received hkeys path
    rcases closed_of_tidy htidy hkeys path with hsame | hnone
    · exact (files_run hrun hready path).imp hsame.trans hsame.trans
    · exact .inr hnone

end Runs

/-- A daemon whose commands succeed and whose files can be written. -/
def willing : Host Unit where
  doReply _ w := (.ok "$1", w)
  doReact _ w := (.ok "$1", w)
  doEdit _ w := (.ok "$1", w)
  doSendFile _ _ w := (.ok "$1", w)
  doFetchMessages _ w := (.ok ([], none), w)
  doFetchMessage _ w := (.error (.notFound, "no event"), w)
  doSearchMessages _ w := (.ok ⟨[], none, 0, none⟩, w)
  writableRoom _ w := (.ok (), w)
  typingStart _ w := w
  ack _ w := w
  fault w := (none, w)

def outbox : Connection Unit :=
  ⟨(), ⟨.new "/outbox" "s-" 10, fun _ ↦ none⟩, fun _ ↦ none, fun _ ↦ none⟩

/-- A file of one byte, and an event that was taken. -/
def asked : List Out :=
  [.call (.sendFile ⟨"!r:x", "", none, none, none, false⟩ "/home/a.txt"
      ⟨"", "a.txt", "text/plain", 1⟩) (some [1]), .ack "$2"]

/-- Both of them are served when all lines have come, and the outbox is empty after them. -/
theorem requested_file : ∃ trace next, trace.map Prod.fst = numbered 1 asked ∧
    Lts.Run (Serves Transfer.base64Crates compactSerde willing) outbox trace next ∧
    ∀ path, next.spool.files path = none := by
  let ms := (numbered 1 asked).flatMap (messages Transfer.base64Crates fun _ ↦ 1)
  let most := (ms.map fun m ↦ (utf8 (lineOf ClientMessage.toJson m)).length).sum
  have hmem : .ack ⟨"$2"⟩ ∈ ms :=
    List.mem_flatMap.mpr ⟨(2, .ack "$2"), by simp [asked, numbered], List.mem_singleton_self _⟩
  have hstream : streamOf [.read (cut ClientMessage.toJson ms ms.length 0)
      (LineCut.cut_ne_nil hmem)] = cut ClientMessage.toJson ms ms.length 0 := by
    rw [streamOf, List.flatMap_singleton, Wake.bytes]
  have hready : Ready outbox := ⟨fun _ ↦ rfl, fun _ ↦ rfl, fun _ ↦ rfl⟩
  have hrange : ∀ out ∈ asked, out.InRange := by
    simp [asked, Out.InRange, FileHeader.InRange]
  obtain ⟨trace, after, next, last, hsplit, hrun, -, hall, -⟩ :
      ∃ trace after next last, numbered 1 asked = trace.map Prod.fst ++ after ∧
        Lts.Run (Serves Transfer.base64Crates compactSerde willing) outbox trace next ∧
        served _ _ _ _ (linesOf ((Reader.withMax most).results _)) = (_, last) ∧ _ :=
    requested compact_lawful Transfer.decode_encode hready hrange (by decide) hstream
  have hnone : after = [] :=
    hall (fun m hm ↦ List.le_sum_of_mem (List.mem_map_of_mem hm)) le_rfl
  rw [hnone, List.append_nil] at hsplit
  exact ⟨trace, next, hsplit.symm, hrun,
    fun path ↦ (files_run hrun hready path).elim (fun hsame ↦ hsame) id⟩

end Requests

end Silta
