import Silta.Lib.Lts
import Silta.Transfer

/-!
# The books of a receiver

Every sequence of calls of a receiver, with its table of open transfers against the files that it
writes: how much each transfer has received, what its partial file holds, and what is left of a
transfer that fails.
-/

namespace Silta

namespace Transfer

/-- A call of the receiver, with the error of the file operation that fails in it, if one does. -/
inductive Call
  | begin (header : FileHeader) (fault : Option String)
  | chunk (chunk : FileChunk) (fault : Option String)
  | «end» (last : FileEnd) (fault : Option String)
  | abortAll (transfers : List String)
  deriving DecidableEq, Repr

namespace Call

def transfer? : Call → Option String
  | .begin header _ => some header.transfer
  | .chunk data _ => some data.transfer
  | .end last _ => some last.transfer
  | .abortAll _ => none

def header? : Call → Option FileHeader
  | .begin header _ => some header
  | _ => none

/-- `abort_all` goes over the keys of the table. -/
def Lists (s : Spool) : Call → Prop
  | .abortAll transfers =>
    ∀ transfer, transfer ∈ transfers ↔ (s.receiver.openTransfers transfer).isSome = true
  | _ => True

end Call

/-- A call and its answer, which hands over what `end` has received. -/
def Spool.call (c : Crates) (s : Spool) :
    Call → Except TransferError (Option Received) × Spool
  | .begin header fault => (s.begin c header fault).map (Except.map fun _ ↦ none) id
  | .chunk data fault => (s.chunk c data fault).map (Except.map fun _ ↦ none) id
  | .end last fault => (s.end last fault).map (Except.map some) id
  | .abortAll transfers => (.ok none, s.abortAll transfers)

/-- The errors of a call for no open transfer, or for one that may not be opened. -/
def TransferError.refuses : TransferError → Bool
  | .unknown _ | .duplicate _ | .tooLarge _ _ => true
  | _ => false

/-! ## What a call does -/

namespace Spool

variable (c : Crates) (s : Spool)

/-- A transfer begins or grows, and its file is written. -/
def put (transfer : String) (o : Open) (bytes : Option Bytes) : Spool where
  receiver := { s.receiver with
    openTransfers := Function.update s.receiver.openTransfers transfer (some o) }
  files := Function.update s.files o.path bytes

theorem begin_cases (header : FileHeader) (fault : Option String) :
    (∃ err, s.begin c header fault = (.error err, s) ∧
        (err.refuses = false → s.receiver.openTransfers header.transfer = none)) ∨
      header.size ≤ s.receiver.maxBytes ∧
        s.begin c header fault = (.ok (),
          s.put header.transfer ⟨header, s.receiver.pathFor c header, 0⟩ (some [])) := by
  unfold begin
  split
  · exact .inl ⟨_, rfl, nofun⟩
  next hfree =>
    split
    · exact .inl ⟨_, rfl, nofun⟩
    next hsize =>
      split
      · exact .inl ⟨_, rfl, fun _ ↦ Option.not_isSome_iff_eq_none.mp hfree⟩
      · exact .inr ⟨by omega, rfl⟩

theorem chunk_cases (data : FileChunk) (fault : Option String) :
    (∃ err, s.chunk c data fault = (.error err, s) ∧ err.refuses = true) ∨
      ∃ o, s.receiver.openTransfers data.transfer = some o ∧
        ((∃ err, s.chunk c data fault = (.error err, s.discard data.transfer) ∧
            err.refuses = false) ∨
          ∃ bytes, c.decode data.data = .ok bytes ∧ o.received + bytes.length ≤ o.header.size ∧
            s.chunk c data fault = (.ok (),
              s.put data.transfer { o with received := o.received + bytes.length }
                ((s.files o.path).map (· ++ bytes)))) := by
  unfold chunk
  split
  · exact .inl ⟨_, rfl, rfl⟩
  next o ho =>
    refine .inr ⟨o, ho, ?_⟩
    split
    · exact .inl ⟨_, rfl, rfl⟩
    next bytes hbytes =>
      dsimp only
      split
      · exact .inl ⟨_, rfl, rfl⟩
      next hsize =>
        split
        · exact .inl ⟨_, rfl, rfl⟩
        · exact .inr ⟨bytes, hbytes, by omega, rfl⟩

theorem end_cases (last : FileEnd) (fault : Option String) :
    s.receiver.openTransfers last.transfer = none ∧
        s.end last fault = (.error (.unknown last.transfer), s) ∨
      ∃ o, s.receiver.openTransfers last.transfer = some o ∧
        ((¬(fault = none ∧ o.received = o.header.size) ∧
            ∃ err, s.end last fault =
              (.error err, (s.close last.transfer).removeFile o.path) ∧ err.refuses = false) ∨
          fault = none ∧ o.received = o.header.size ∧
            s.end last fault = (.ok ⟨o.header, o.path⟩, s.close last.transfer)) := by
  unfold Spool.end
  split
  next hnone => exact .inl ⟨hnone, rfl⟩
  next o ho =>
    refine .inr ⟨o, ho, ?_⟩
    split
    next err => exact .inl ⟨nofun, _, rfl, rfl⟩
    next =>
      split
      next hsize => exact .inl ⟨fun h ↦ hsize h.2, _, rfl, rfl⟩
      next hsize => exact .inr ⟨rfl, not_not.mp hsize, rfl⟩

theorem call_begin (header : FileHeader) (fault : Option String) :
    s.call c (.begin header fault) =
      (s.begin c header fault).map (Except.map fun _ ↦ none) id := rfl

theorem call_chunk (data : FileChunk) (fault : Option String) :
    s.call c (.chunk data fault) = (s.chunk c data fault).map (Except.map fun _ ↦ none) id := rfl

theorem call_end (last : FileEnd) (fault : Option String) :
    s.call c (.end last fault) = (s.end last fault).map (Except.map some) id := rfl

@[simp] theorem openTransfers_put (transfer : String) (o : Open) (bytes : Option Bytes) :
    (s.put transfer o bytes).receiver.openTransfers =
      Function.update s.receiver.openTransfers transfer (some o) := rfl

@[simp] theorem files_put (transfer : String) (o : Open) (bytes : Option Bytes) :
    (s.put transfer o bytes).files = Function.update s.files o.path bytes := rfl

@[simp] theorem openTransfers_close (transfer : String) :
    (s.close transfer).receiver.openTransfers =
      Function.update s.receiver.openTransfers transfer none := rfl

@[simp] theorem files_close (transfer : String) : (s.close transfer).files = s.files := rfl

@[simp] theorem openTransfers_removeFile (path : String) :
    (s.removeFile path).receiver.openTransfers = s.receiver.openTransfers := rfl

@[simp] theorem files_removeFile (path : String) :
    (s.removeFile path).files = Function.update s.files path none := rfl

theorem discard_eq {transfer : String} {o : Open}
    (h : s.receiver.openTransfers transfer = some o) :
    s.discard transfer = (s.close transfer).removeFile o.path := by
  simp only [discard, h]

theorem discard_of_none {transfer : String} (h : s.receiver.openTransfers transfer = none) :
    s.discard transfer = s := by
  simp only [discard, h]

/-- A file of the host is written. -/
def write (path : String) (bytes : Option Bytes) : Spool :=
  { s with files := Function.update s.files path bytes }

end Spool

/-! ## One transfer -/

namespace Spool

variable {c : Crates} {s : Spool} {header : FileHeader} {o o' : Open} {transfer path : String}
  {bytes bytes' : Option Bytes}

@[simp] theorem receiver_write : (s.write path bytes).receiver = s.receiver := rfl

@[simp] theorem files_write :
    (s.write path bytes).files = Function.update s.files path bytes := rfl

theorem put_put (hpath : o'.path = o.path) :
    (s.put transfer o bytes).put transfer o' bytes' = s.put transfer o' bytes' := by
  simp only [put, Function.update_idem, hpath]

theorem close_put (hfree : s.receiver.openTransfers transfer = none) :
    (s.put transfer o bytes).close transfer = s.write o.path bytes := by
  have hsame : Function.update s.receiver.openTransfers transfer none =
      s.receiver.openTransfers := by
    rw [← hfree, Function.update_eq_self]
  simp only [close, put, Function.update_idem, hsame, write]

@[simp] theorem removeFile_write :
    (s.write path bytes).removeFile path = s.write path none := by
  simp only [removeFile, write, Function.update_idem]

theorem discard_put (hfree : s.receiver.openTransfers transfer = none) :
    (s.put transfer o bytes).discard transfer = s.write o.path none := by
  have hopen : (s.put transfer o bytes).receiver.openTransfers transfer = some o :=
    Function.update_self ..
  rw [discard_eq _ hopen, close_put hfree, removeFile_write]

/-- A header for a transfer that is not open. -/
theorem begin_free (hfree : s.receiver.openTransfers header.transfer = none)
    (fault : Option String) :
    s.begin c header fault =
      if s.receiver.maxBytes < header.size then
        (.error (.tooLarge header.size s.receiver.maxBytes), s)
      else match fault with
        | some err => (.error (.io err), s)
        | none => (.ok (),
            s.put header.transfer ⟨header, s.receiver.pathFor c header, 0⟩ (some [])) := by
  unfold begin
  rw [if_neg (by simp [hfree])]
  rfl

/-- The next chunk of an open transfer. -/
theorem chunk_put (hcodec : ∀ bytes, c.decode (c.encode bytes) = .ok bytes)
    (hfree : s.receiver.openTransfers header.transfer = none) (done : Nat)
    (written first : Bytes) (fault : Option String) :
    (s.put header.transfer ⟨header, path, done⟩ (some written)).chunk c
        ⟨header.transfer, c.encode first⟩ fault =
      if header.size < done + first.length then
        (.error (.sizeMismatch header.transfer (done + first.length) header.size),
          s.write path none)
      else match fault with
        | some err => (.error (.io err), s.write path none)
        | none => (.ok (), s.put header.transfer ⟨header, path, done + first.length⟩
            (some (written ++ first))) := by
  have hopen : (s.put header.transfer ⟨header, path, done⟩
      (some written)).receiver.openTransfers header.transfer = some ⟨header, path, done⟩ :=
    Function.update_self ..
  have hfile : (s.put header.transfer ⟨header, path, done⟩ (some written)).files path =
      some written := Function.update_self ..
  unfold chunk
  simp only [hopen, hcodec, discard_put hfree]
  split
  · rfl
  · cases fault with
    | some err => rfl
    | none =>
      simp only [hfile, Option.map_some]
      exact congrArg _ (put_put rfl)

/-- The end of an open transfer. -/
theorem end_put (hfree : s.receiver.openTransfers header.transfer = none) (received : Nat)
    (fault : Option String) :
    (s.put header.transfer ⟨header, path, received⟩ bytes).end ⟨header.transfer⟩ fault =
      match fault with
      | some err => (.error (.io err), s.write path none)
      | none =>
        if received = header.size then (.ok ⟨header, path⟩, s.write path bytes)
        else (.error (.sizeMismatch header.transfer received header.size), s.write path none) := by
  have hopen : (s.put header.transfer ⟨header, path, received⟩
      bytes).receiver.openTransfers header.transfer = some ⟨header, path, received⟩ :=
    Function.update_self ..
  unfold Spool.end
  simp only [hopen, close_put hfree, removeFile_write]
  cases fault with
  | some err => rfl
  | none =>
    by_cases hsize : received = header.size
    · rw [if_neg (not_not.mpr hsize), if_pos hsize]
    · rw [if_pos hsize, if_neg hsize]

end Spool

/-! ## The books -/

/-- A receiver, with the chunks that were decoded for each transfer since its header. -/
structure Kept where
  spool : Spool
  chunks : String → List Bytes

/-- A header that is accepted starts anew; a chunk that is accepted is added. -/
def noteChunks (c : Crates) (chunks : String → List Bytes) :
    Call → Except TransferError (Option Received) → String → List Bytes
  | .begin header _, .ok _ => Function.update chunks header.transfer []
  | .chunk data _, .ok _ =>
    match c.decode data.data with
    | .ok bytes => Function.update chunks data.transfer (chunks data.transfer ++ [bytes])
    | .error _ => chunks
  | _, _ => chunks

def Kept.call (c : Crates) (s : Kept) (call : Call) : Kept where
  spool := (s.spool.call c call).2
  chunks := noteChunks c s.chunks call (s.spool.call c call).1

def Kept.Step (c : Crates) (s : Kept) (call : Call) (t : Kept) : Prop :=
  call.Lists s.spool ∧ t = s.call c call

/-- A receiver at the start of its connection, over whatever files there are. -/
def Kept.start (r : Receiver) (files : String → Option Bytes) : Kept where
  spool := ⟨.new r.dir r.namePrefix r.maxBytes, files⟩
  chunks _ := []

/-- Transfers with different ids write to different paths. -/
def DistinctPaths (c : Crates) (r : Receiver) (headers : List FileHeader) : Prop :=
  ∀ header ∈ headers, ∀ header' ∈ headers, header.transfer ≠ header'.transfer →
    r.pathFor c header ≠ r.pathFor c header'

/-- The entry of an open transfer is in order. -/
structure Entry (c : Crates) (r : Receiver) (headers : List FileHeader) (s : Kept)
    (transfer : String) (o : Open) : Prop where
  named : o.header.transfer = transfer
  header : o.header ∈ headers
  path : o.path = r.pathFor c o.header
  limit : o.header.size ≤ r.maxBytes
  size : o.received ≤ o.header.size
  received : o.received = (s.chunks transfer).flatten.length
  file : s.spool.files o.path = some (s.chunks transfer).flatten

structure Books (c : Crates) (r : Receiver) (headers : List FileHeader) (s : Kept) : Prop where
  pathFor : s.spool.receiver.pathFor c = r.pathFor c
  maxBytes : s.spool.receiver.maxBytes = r.maxBytes
  entry : ∀ transfer o, s.spool.receiver.openTransfers transfer = some o →
    Entry c r headers s transfer o

namespace Books

variable {c : Crates} {r : Receiver} {headers : List FileHeader} {s : Kept}

theorem path_ne (hpaths : DistinctPaths c r headers) (h : Books c r headers s)
    {transfer transfer' : String} {o o' : Open} (hne : transfer ≠ transfer')
    (ho : s.spool.receiver.openTransfers transfer = some o)
    (ho' : s.spool.receiver.openTransfers transfer' = some o') : o.path ≠ o'.path := by
  have he := h.entry transfer o ho
  have he' := h.entry transfer' o' ho'
  rw [he.path, he'.path]
  apply hpaths _ he.header _ he'.header
  rwa [he.named, he'.named]

theorem close (h : Books c r headers s) (transfer : String) :
    Books c r headers { s with spool := s.spool.close transfer } where
  pathFor := h.pathFor
  maxBytes := h.maxBytes
  entry := by
    intro transfer' o ho
    by_cases heq : transfer' = transfer
    · rw [heq, Spool.openTransfers_close, Function.update_self] at ho
      cases ho
    · rw [Spool.openTransfers_close, Function.update_of_ne heq] at ho
      have he := h.entry transfer' o ho
      exact ⟨he.named, he.header, he.path, he.limit, he.size, he.received, he.file⟩

/-- A transfer that fails goes with its file, which is no file of another. -/
theorem forget (hpaths : DistinctPaths c r headers) (h : Books c r headers s) {transfer : String}
    {o : Open} (ho : s.spool.receiver.openTransfers transfer = some o) :
    Books c r headers { s with spool := (s.spool.close transfer).removeFile o.path } where
  pathFor := h.pathFor
  maxBytes := h.maxBytes
  entry := by
    intro transfer' o' ho'
    have he := (h.close transfer).entry transfer' o' ho'
    have hne : transfer' ≠ transfer := by
      rintro rfl
      rw [Spool.openTransfers_removeFile, Spool.openTransfers_close,
        Function.update_self] at ho'
      cases ho'
    rw [Spool.openTransfers_removeFile, Spool.openTransfers_close,
      Function.update_of_ne hne] at ho'
    refine ⟨he.named, he.header, he.path, he.limit, he.size, he.received, ?_⟩
    rw [Spool.files_removeFile, Function.update_of_ne (h.path_ne hpaths hne ho' ho)]
    exact he.file

theorem discard (hpaths : DistinctPaths c r headers) (h : Books c r headers s)
    (transfer : String) : Books c r headers { s with spool := s.spool.discard transfer } := by
  cases ho : s.spool.receiver.openTransfers transfer with
  | none =>
    rw [s.spool.discard_of_none ho]
    exact h
  | some o =>
    rw [s.spool.discard_eq ho]
    exact h.forget hpaths ho

theorem abortAll (hpaths : DistinctPaths c r headers) (h : Books c r headers s)
    (transfers : List String) :
    Books c r headers { s with spool := s.spool.abortAll transfers } := by
  induction transfers generalizing s with
  | nil => exact h
  | cons transfer rest ih => exact ih (h.discard hpaths transfer)

/-- A transfer begins or grows, on a path of its own. -/
theorem put (h : Books c r headers s) (transfer : String) (o : Open) (chunks : List Bytes)
    (ho : Entry c r headers
      ⟨s.spool.put transfer o (some chunks.flatten), Function.update s.chunks transfer chunks⟩
      transfer o)
    (hothers : ∀ transfer' o', transfer' ≠ transfer →
      s.spool.receiver.openTransfers transfer' = some o' → o'.path ≠ o.path) :
    Books c r headers
      ⟨s.spool.put transfer o (some chunks.flatten), Function.update s.chunks transfer chunks⟩ where
  pathFor := h.pathFor
  maxBytes := h.maxBytes
  entry := by
    intro transfer' o' ho'
    by_cases heq : transfer' = transfer
    · subst heq
      rw [Spool.openTransfers_put, Function.update_self] at ho'
      obtain rfl := Option.some.inj ho'
      exact ho
    · rw [Spool.openTransfers_put, Function.update_of_ne heq] at ho'
      have he := h.entry transfer' o' ho'
      have hne := hothers transfer' o' heq ho'
      refine ⟨he.named, he.header, he.path, he.limit, he.size, ?_, ?_⟩
      · show o'.received = (Function.update s.chunks transfer chunks transfer').flatten.length
        rw [Function.update_of_ne heq]
        exact he.received
      · show (s.spool.put transfer o _).files o'.path =
          some (Function.update s.chunks transfer chunks transfer').flatten
        rw [Spool.files_put, Function.update_of_ne hne, Function.update_of_ne heq]
        exact he.file

theorem begin (hpaths : DistinctPaths c r headers) (h : Books c r headers s)
    {header : FileHeader} (hmem : header ∈ headers) (fault : Option String) :
    Books c r headers (s.call c (.begin header fault)) := by
  show Books c r headers ⟨(s.spool.begin c header fault).2,
    noteChunks c s.chunks (.begin header fault)
      ((s.spool.begin c header fault).1.map fun _ ↦ none)⟩
  rcases s.spool.begin_cases c header fault with ⟨err, hbegin, -⟩ | ⟨hsize, hbegin⟩
  · rw [hbegin]
    exact h
  · rw [hbegin, h.pathFor]
    have hput := h.put header.transfer ⟨header, r.pathFor c header, 0⟩ [] ?_ ?_
    · exact hput
    · exact ⟨rfl, hmem, rfl, h.maxBytes ▸ hsize, Nat.zero_le _, by simp, by simp⟩
    · intro transfer' o' hne ho'
      have he := h.entry transfer' o' ho'
      rw [he.path]
      apply hpaths _ he.header _ hmem
      rwa [he.named]

theorem chunk (hpaths : DistinctPaths c r headers) (h : Books c r headers s) (data : FileChunk)
    (fault : Option String) : Books c r headers (s.call c (.chunk data fault)) := by
  show Books c r headers ⟨(s.spool.chunk c data fault).2,
    noteChunks c s.chunks (.chunk data fault)
      ((s.spool.chunk c data fault).1.map fun _ ↦ none)⟩
  rcases s.spool.chunk_cases c data fault with
    ⟨err, hchunk, -⟩ | ⟨o, ho, ⟨err, hchunk, -⟩ | ⟨bytes, hbytes, hsize, hchunk⟩⟩
  · rw [hchunk]
    exact h
  · rw [hchunk]
    exact h.discard hpaths data.transfer
  · rw [hchunk]
    have he := h.entry data.transfer o ho
    have hlen : o.received + bytes.length =
        (s.chunks data.transfer ++ [bytes]).flatten.length := by
      rw [he.received]
      simp
    have hfile : (s.spool.files o.path).map (· ++ bytes) =
        some (s.chunks data.transfer ++ [bytes]).flatten := by
      rw [he.file]
      simp
    have hput := h.put data.transfer { o with received := o.received + bytes.length }
      (s.chunks data.transfer ++ [bytes]) ?_ ?_
    · rw [hfile]
      simpa only [noteChunks, Except.map, Prod.map, id, hbytes] using hput
    · refine ⟨he.named, he.header, he.path, he.limit, hsize, ?_, ?_⟩
      · show o.received + bytes.length = (Function.update s.chunks data.transfer
          (s.chunks data.transfer ++ [bytes]) data.transfer).flatten.length
        rw [Function.update_self]
        exact hlen
      · simp
    · intro transfer' o' hne ho'
      have hpath : o'.path ≠ o.path := h.path_ne hpaths hne ho' ho
      exact hpath

theorem «end» (hpaths : DistinctPaths c r headers) (h : Books c r headers s) (last : FileEnd)
    (fault : Option String) : Books c r headers (s.call c (.end last fault)) := by
  show Books c r headers ⟨(s.spool.end last fault).2,
    noteChunks c s.chunks (.end last fault) ((s.spool.end last fault).1.map some)⟩
  rcases s.spool.end_cases last fault with
    ⟨-, hend⟩ | ⟨o, ho, ⟨-, err, hend, -⟩ | ⟨-, -, hend⟩⟩
  · rw [hend]
    exact h
  · rw [hend]
    exact h.forget hpaths ho
  · rw [hend]
    exact h.close last.transfer

theorem call (hpaths : DistinctPaths c r headers) (h : Books c r headers s) (call : Call)
    (hmem : ∀ header, call.header? = some header → header ∈ headers) :
    Books c r headers (s.call c call) := by
  cases call with
  | begin header fault => exact h.begin hpaths (hmem header rfl) fault
  | chunk data fault => exact h.chunk hpaths data fault
  | «end» last fault => exact h.end hpaths last fault
  | abortAll transfers => exact h.abortAll hpaths transfers

end Books

/-! ## Failures -/

/-- What a call answers, and what is left of a transfer that fails: nothing. -/
structure Settles (c : Crates) (s : Spool) : Prop where
  endOk : ∀ last fault, (∃ received, (s.end last fault).1 = .ok received) ↔
    fault = none ∧ ∃ o, s.receiver.openTransfers last.transfer = some o ∧
      o.received = o.header.size
  unknownChunk : ∀ data fault, s.receiver.openTransfers data.transfer = none →
    s.chunk c data fault = (.error (.unknown data.transfer), s)
  unknownEnd : ∀ last fault, s.receiver.openTransfers last.transfer = none →
    s.end last fault = (.error (.unknown last.transfer), s)
  duplicate : ∀ header fault, (s.receiver.openTransfers header.transfer).isSome = true →
    s.begin c header fault = (.error (.duplicate header.transfer), s)
  tooLarge : ∀ header fault, s.receiver.openTransfers header.transfer = none →
    s.receiver.maxBytes < header.size →
    s.begin c header fault = (.error (.tooLarge header.size s.receiver.maxBytes), s)
  removed : ∀ call err transfer, (s.call c call).1 = .error err → err.refuses = false →
    call.transfer? = some transfer →
    (s.call c call).2.receiver.openTransfers transfer = none ∧
      ∀ o, s.receiver.openTransfers transfer = some o → (s.call c call).2.files o.path = none
  aborted : ∀ transfers, (Call.abortAll transfers).Lists s → ∀ transfer,
    (s.abortAll transfers).receiver.openTransfers transfer = none ∧
      ∀ o, s.receiver.openTransfers transfer = some o →
        (s.abortAll transfers).files o.path = none

namespace Spool

variable (s : Spool)

/-- The transfer is closed and its file gone. -/
def Gone (transfer : String) (o? : Option Open) (s : Spool) : Prop :=
  s.receiver.openTransfers transfer = none ∧ ∀ o, o? = some o → s.files o.path = none

theorem gone_remove {transfer : String} {o : Open} :
    Gone transfer (some o) ((s.close transfer).removeFile o.path) := by
  constructor
  · exact Function.update_self ..
  · intro o' ho'
    obtain rfl := Option.some.inj ho'
    exact Function.update_self ..

theorem gone_discard (transfer : String) :
    Gone transfer (s.receiver.openTransfers transfer) (s.discard transfer) := by
  cases ho : s.receiver.openTransfers transfer with
  | none =>
    rw [s.discard_of_none ho]
    exact ⟨ho, nofun⟩
  | some o =>
    rw [s.discard_eq ho]
    exact s.gone_remove

/-- What is gone stays gone while others are discarded. -/
theorem Gone.discard {s : Spool} {transfer : String} {o? : Option Open} (h : Gone transfer o? s)
    (other : String) : Gone transfer o? (s.discard other) := by
  cases ho : s.receiver.openTransfers other with
  | none =>
    rw [s.discard_of_none ho]
    exact h
  | some o =>
    rw [s.discard_eq ho]
    constructor
    · show Function.update s.receiver.openTransfers other none transfer = none
      by_cases heq : transfer = other
      · rw [heq, Function.update_self]
      · rw [Function.update_of_ne heq]
        exact h.1
    · intro o' ho'
      show Function.update s.files o.path none o'.path = none
      by_cases heq : o'.path = o.path
      · rw [heq, Function.update_self]
      · rw [Function.update_of_ne heq]
        exact h.2 o' ho'

theorem Gone.abortAll {s : Spool} {transfer : String} {o? : Option Open} (h : Gone transfer o? s)
    (transfers : List String) : Gone transfer o? (s.abortAll transfers) := by
  induction transfers generalizing s with
  | nil => exact h
  | cons other rest ih => exact ih (h.discard other)

theorem openTransfers_discard_of_ne {transfer other : String} (h : transfer ≠ other) :
    (s.discard other).receiver.openTransfers transfer = s.receiver.openTransfers transfer := by
  cases ho : s.receiver.openTransfers other with
  | none => rw [s.discard_of_none ho]
  | some o =>
    rw [s.discard_eq ho]
    exact Function.update_of_ne h ..

theorem gone_abortAll {transfers : List String} {transfer : String} (h : transfer ∈ transfers) :
    Gone transfer (s.receiver.openTransfers transfer) (s.abortAll transfers) := by
  -- it goes where the keys come to it first
  induction transfers generalizing s with
  | nil => cases h
  | cons other rest ih =>
    by_cases heq : transfer = other
    · rw [heq]
      exact (s.gone_discard other).abortAll rest
    · have hrest := ih (s.discard other) (List.mem_of_ne_of_mem heq h)
      rwa [s.openTransfers_discard_of_ne heq] at hrest

theorem removed (c : Crates) (call : Call) {err : TransferError} {transfer : String}
    (herr : (s.call c call).1 = .error err) (hrefuses : err.refuses = false)
    (htransfer : call.transfer? = some transfer) :
    Gone transfer (s.receiver.openTransfers transfer) (s.call c call).2 := by
  cases call with
  | begin header fault =>
    obtain rfl := Option.some.inj htransfer
    rw [s.call_begin c] at herr ⊢
    rcases s.begin_cases c header fault with ⟨err', hbegin, hfree⟩ | ⟨-, hbegin⟩
    · rw [hbegin] at herr ⊢
      cases herr
      have hnone := hfree hrefuses
      exact ⟨hnone, by simp [hnone]⟩
    · rw [hbegin] at herr
      cases herr
  | chunk data fault =>
    obtain rfl := Option.some.inj htransfer
    rw [s.call_chunk c] at herr ⊢
    rcases s.chunk_cases c data fault with
      ⟨err', hchunk, hunknown⟩ | ⟨o, ho, ⟨err', hchunk, -⟩ | ⟨bytes, -, -, hchunk⟩⟩
    · rw [hchunk] at herr
      cases herr
      rw [hunknown] at hrefuses
      cases hrefuses
    · rw [hchunk]
      exact s.gone_discard data.transfer
    · rw [hchunk] at herr
      cases herr
  | «end» last fault =>
    obtain rfl := Option.some.inj htransfer
    rw [s.call_end c] at herr ⊢
    rcases s.end_cases last fault with
      ⟨-, hend⟩ | ⟨o, ho, ⟨-, err', hend, -⟩ | ⟨-, -, hend⟩⟩
    · rw [hend] at herr
      cases herr
      cases hrefuses
    · rw [hend, ho]
      exact s.gone_remove
    · rw [hend] at herr
      cases herr
  | abortAll transfers => cases htransfer

theorem end_ok_iff (last : FileEnd) (fault : Option String) :
    (∃ received, (s.end last fault).1 = .ok received) ↔
      fault = none ∧ ∃ o, s.receiver.openTransfers last.transfer = some o ∧
        o.received = o.header.size := by
  rcases s.end_cases last fault with
    ⟨hnone, hend⟩ | ⟨o, ho, ⟨hwrong, err, hend, -⟩ | ⟨hfault, hsize, hend⟩⟩
  · rw [hend, hnone]
    simp
  · rw [hend, ho]
    constructor
    · rintro ⟨received, hok⟩
      cases hok
    · rintro ⟨hfault, o', ho', hsize⟩
      obtain rfl := Option.some.inj ho'
      exact absurd ⟨hfault, hsize⟩ hwrong
  · rw [hend]
    exact ⟨fun _ ↦ ⟨hfault, o, ho, hsize⟩, fun _ ↦ ⟨_, rfl⟩⟩

theorem settles (c : Crates) : Settles c s where
  endOk := s.end_ok_iff
  unknownChunk data fault h := by simp only [chunk, h]
  unknownEnd last fault h := by simp only [Spool.end, h]
  duplicate header fault h := by simp only [begin, h, if_true]
  tooLarge header fault hfree hsize := by
    unfold begin
    rw [if_neg (by simp [hfree]), if_pos hsize]
  removed call err transfer := s.removed c call
  aborted transfers hlists transfer := by
    cases ho : s.receiver.openTransfers transfer with
    | some o =>
      have hmem := (hlists transfer).mpr (by simp [ho])
      rw [← ho]
      exact s.gone_abortAll hmem
    | none =>
      have hgone : Gone transfer none s := ⟨ho, nofun⟩
      exact hgone.abortAll transfers

end Spool

/-- Whatever is fed to a receiver: what each open transfer has received is within its announced
size, which is within the limit, and its partial file is its decoded chunks one after another; and
a call either answers as it should or leaves nothing of the transfer behind. -/
theorem books_kept {c : Crates} {r : Receiver} {files : String → Option Bytes} {calls : List Call}
    {s : Kept} (hrun : Lts.Run (Kept.Step c) (.start r files) calls s)
    (hpaths : DistinctPaths c r (calls.filterMap Call.header?)) :
    (∀ transfer o, s.spool.receiver.openTransfers transfer = some o →
      o.received ≤ o.header.size ∧ o.header.size ≤ r.maxBytes ∧
        o.received = (s.chunks transfer).flatten.length ∧
        s.spool.files o.path = some (s.chunks transfer).flatten) ∧
      Settles c s.spool := by
  have hstart : Books c r (calls.filterMap Call.header?) (.start r files) := ⟨rfl, rfl, nofun⟩
  have hbooks : Books c r (calls.filterMap Call.header?) s := by
    apply hrun.invariant (I := Books c r (calls.filterMap Call.header?))
      (P := fun call ↦ ∀ header, call.header? = some header → header ∈ calls.filterMap Call.header?)
      _ hstart
    · intro call hcall header hheader
      exact List.mem_filterMap.mpr ⟨call, hcall, hheader⟩
    · rintro s call t h hmem ⟨-, rfl⟩
      exact h.call hpaths call hmem
  refine ⟨fun transfer o ho ↦ ?_, s.spool.settles c⟩
  have he := hbooks.entry transfer o ho
  exact ⟨he.size, he.limit, he.received, he.file⟩

/-- One byte of three has arrived. -/
theorem books_kept_oneByte :
    (Spool.feed base64Crates ⟨.new "/inbox" "" 10, fun _ ↦ none⟩
      [⟨.header ⟨"t1", "a.bin", "text/plain", 3⟩, none⟩,
        ⟨.chunk ⟨"t1", "AQ=="⟩, none⟩]).files "/inbox/t1-a.bin" = some [1] := by
  have hnil : Lts.Run (Kept.Step base64Crates) (.start (.new "/inbox" "" 10) fun _ ↦ none) [] _ :=
    .nil _
  have hrun := (hnil.snoc (l := .begin ⟨"t1", "a.bin", "text/plain", 3⟩ none)
    ⟨by trivial, rfl⟩).snoc (l := .chunk ⟨"t1", "AQ=="⟩ none) ⟨by trivial, rfl⟩
  obtain ⟨hopen, -⟩ := books_kept hrun (by
    intro header hheader header' hheader' hne
    obtain rfl := List.mem_singleton.mp hheader
    obtain rfl := List.mem_singleton.mp hheader'
    exact absurd rfl hne)
  obtain ⟨-, -, -, hfile⟩ := hopen "t1" ⟨⟨"t1", "a.bin", "text/plain", 3⟩, "/inbox/t1-a.bin", 1⟩
    (by decide +kernel)
  exact hfile.trans (by decide +kernel)

end Transfer

end Silta
