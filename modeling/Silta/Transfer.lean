import Silta.Lib.Base64
import Silta.Messages
import Mathlib.Algebra.Ring.Nat
import Mathlib.Logic.Function.Basic

/-!
# File transfers

Files over the socket: the sender's loop over the chunks of a file, the receiver's table of open
transfers and the files it writes, and that a file arrives as it was sent.
-/

namespace Silta

namespace Transfer

abbrev Bytes := List UInt8

/-- What the transfers use of other crates: standard base64, and the first extension that is known
for a mime type. -/
structure Crates where
  encode : Bytes → String
  decode : String → Except String Bytes
  mimeExtension : String → Option String

def chunkBytes : Nat := 1024 * 1024

/-- In bytes. -/
def nameMax : Nat := 100

/-- One line of a transfer. -/
inductive Piece
  | header (header : FileHeader)
  | chunk (chunk : FileChunk)
  | «end» («end» : FileEnd)
  deriving DecidableEq, Repr

def Piece.transfer : Piece → String
  | .header file => file.transfer
  | .chunk data => data.transfer
  | .end last => last.transfer

/-! ## Sending -/

/-- How much one `read` returns: at least one byte, unless the buffer or the rest of the file is
empty, and often less than there is room for. -/
def readLen (most want left : Nat) : Nat := min (max 1 most) (min want left)

theorem readLen_le_want (most want left : Nat) : readLen most want left ≤ want :=
  Nat.le_trans (Nat.min_le_right _ _) (Nat.min_le_left _ _)

theorem readLen_eq_zero_iff (most want left : Nat) :
    readLen most want left = 0 ↔ want = 0 ∨ left = 0 := by
  unfold readLen
  omega

/-- The bytes that are read into a buffer, and the rest of the file.  How much each `read` returns
depends on the place in the file. -/
def readChunk (reads : Nat → Nat) (want : Nat) (file : Bytes) : Bytes × Bytes :=
  if want = 0 then
    ([], file)
  else if readLen (reads file.length) want file.length = 0 then
    ([], file)
  else
    let rest := readChunk reads (want - readLen (reads file.length) want file.length)
      (file.drop (readLen (reads file.length) want file.length))
    (file.take (readLen (reads file.length) want file.length) ++ rest.1, rest.2)
termination_by want
decreasing_by omega

/-- However the reads fall, the buffer is filled as far as the file goes. -/
theorem readChunk_eq (reads : Nat → Nat) (want : Nat) (file : Bytes) :
    readChunk reads want file = (file.take want, file.drop want) := by
  fun_induction readChunk reads want file with
  | case1 file => simp
  | case2 want file hwant hread =>
    -- a read of nothing is the end of the file
    have hempty : file.length = 0 := by
      rw [readLen_eq_zero_iff] at hread
      omega
    rw [List.length_eq_zero_iff.mp hempty]
    simp
  | case3 want file hwant hread rest ih =>
    have hle := readLen_le_want (reads file.length) want file.length
    have hrest : rest = _ := ih
    rw [hrest]
    generalize readLen (reads file.length) want file.length = n at *
    have hsplit : file.take want = file.take n ++ (file.drop n).take (want - n) := by
      rw [← List.take_add, Nat.add_sub_cancel' hle]
    rw [hsplit, List.drop_drop, Nat.add_sub_cancel' hle]

/-- The loop of `send` over the chunks of the file. -/
def chunks (c : Crates) (reads : Nat → Nat) (transfer : String) (file : Bytes) : List FileChunk :=
  if _h : (readChunk reads chunkBytes file).1.length = 0 then
    []
  else
    ⟨transfer, c.encode (readChunk reads chunkBytes file).1⟩ ::
      chunks c reads transfer (readChunk reads chunkBytes file).2
termination_by file.length
decreasing_by
  rw [readChunk_eq] at _h ⊢
  simp only [List.length_take, List.length_drop] at _h ⊢
  omega

def send (c : Crates) (reads : Nat → Nat) (header : FileHeader) (file : Bytes) : List Piece :=
  .header header :: (chunks c reads header.transfer file).map .chunk ++ [.end ⟨header.transfer⟩]

/-! ## File names -/

/-- `char::is_control`. -/
def isControl (c : Char) : Bool := c.toNat < 0x20 ∨ 0x7f ≤ c.toNat ∧ c.toNat < 0xa0

/-- `char::is_whitespace`. -/
def isWhitespace (c : Char) : Bool :=
  0x9 ≤ c.toNat ∧ c.toNat ≤ 0xd ∨ 0x2000 ≤ c.toNat ∧ c.toNat ≤ 0x200a ∨
    c.toNat ∈ [0x20, 0x85, 0xa0, 0x1680, 0x2028, 0x2029, 0x202f, 0x205f, 0x3000]

def isSeparator (c : Char) : Bool := c = '/' ∨ c = '\\'

def trim (cs : List Char) : List Char :=
  ((cs.dropWhile isWhitespace).reverse.dropWhile isWhitespace).reverse

/-- Pops from the end, here the front, while the name is too long. -/
def popWhileLong : List Char → List Char
  | [] => []
  | c :: cs =>
    if nameMax < ((c :: cs).map Char.utf8Size).sum then
      popWhileLong cs
    else
      c :: cs

/-- A transfer or event id reduced to `[A-Za-z0-9_-]`, without a leading `$`. -/
def safeId (id : String) : String :=
  String.ofList ((id.toList.dropWhile (· = '$')).map fun c ↦
    if (c.isAlphanum || c = '-' || c = '_') = true then c else '_')

/-- The last path component of an untrusted name, made harmless. -/
def safeName (c : Crates) (name mime : String) : String :=
  -- `rsplit` at either separator, whatever the platform
  let base := (name.toList.reverse.takeWhile fun c ↦ !isSeparator c).reverse
  let out := base.map fun c ↦ if (isControl c || isSeparator c || c = ':') = true then '_' else c
  let out := (popWhileLong ((trim out).dropWhile (· = '.')).reverse).reverse
  -- nothing is left of a name of dots or blanks
  if out = [] then
    "file" ++ ((c.mimeExtension mime).map ("." ++ ·)).getD ""
  else
    String.ofList out

/-! ## Receiving -/

inductive TransferError
  | unknown (transfer : String)
  | duplicate (transfer : String)
  | tooLarge (size max : Nat)
  | sizeMismatch (transfer : String) (received declared : Nat)
  | base64 (transfer err : String)
  | io (err : String)
  deriving DecidableEq, Repr

def TransferError.display : TransferError → String
  | .unknown transfer => "transfer " ++ transfer ++ " is not open"
  | .duplicate transfer => "transfer " ++ transfer ++ " is already open"
  | .tooLarge size max => toString size ++ " bytes, over the " ++ toString max ++ " byte limit"
  | .sizeMismatch transfer received declared =>
    "transfer " ++ transfer ++ ": " ++ toString received ++
      " bytes received for a declared size of " ++ toString declared
  | .base64 transfer err => "transfer " ++ transfer ++ ": a chunk is not base64: " ++ err
  | .io err => err

/-- A transfer that arrived whole. -/
structure Received where
  header : FileHeader
  path : String
  deriving DecidableEq, Repr

/-- A transfer in progress. -/
structure Open where
  header : FileHeader
  path : String
  received : Nat
  deriving DecidableEq, Repr

structure Receiver where
  dir : String
  namePrefix : String
  maxBytes : Nat
  openTransfers : String → Option Open

def Receiver.new (dir namePrefix : String) (maxBytes : Nat) : Receiver :=
  ⟨dir, namePrefix, maxBytes, fun _ ↦ none⟩

/-- `PathBuf::join`: an absolute name stands for itself. -/
def join (dir name : String) : String :=
  if name.toList.head? = some '/' then name
  else if dir.toList.getLast?.all (· = '/') then dir ++ name
  else dir ++ "/" ++ name

/-- Where a transfer lands. -/
def Receiver.pathFor (c : Crates) (r : Receiver) (header : FileHeader) : String :=
  join r.dir (r.namePrefix ++ safeId header.transfer ++ "-" ++
    safeName c header.name header.mime)

/-- A receiver, and the files of its host by path. -/
structure Spool where
  receiver : Receiver
  files : String → Option Bytes

namespace Spool

/-- The transfer is forgotten. -/
def close (s : Spool) (transfer : String) : Spool :=
  { s with receiver := { s.receiver with
      openTransfers := Function.update s.receiver.openTransfers transfer none } }

def removeFile (s : Spool) (path : String) : Spool :=
  { s with files := Function.update s.files path none }

def discard (s : Spool) (transfer : String) : Spool :=
  match s.receiver.openTransfers transfer with
  | some o => (s.close transfer).removeFile o.path
  | none => s

/-- A `fault` is the error of a file operation that fails. -/
def begin (c : Crates) (s : Spool) (header : FileHeader) (fault : Option String) :
    Except TransferError Unit × Spool :=
  if (s.receiver.openTransfers header.transfer).isSome = true then
    (.error (.duplicate header.transfer), s)
  else if s.receiver.maxBytes < header.size then
    (.error (.tooLarge header.size s.receiver.maxBytes), s)
  else
    match fault with
    | some err => (.error (.io err), s)
    | none =>
      -- the file is created, or emptied if it exists
      let path := s.receiver.pathFor c header
      (.ok (),
        { receiver := { s.receiver with
            openTransfers :=
              Function.update s.receiver.openTransfers header.transfer (some ⟨header, path, 0⟩) }
          files := Function.update s.files path (some []) })

def chunk (c : Crates) (s : Spool) (chunk : FileChunk) (fault : Option String) :
    Except TransferError Unit × Spool :=
  match s.receiver.openTransfers chunk.transfer with
  | none => (.error (.unknown chunk.transfer), s)
  | some o =>
    match c.decode chunk.data with
    -- a transfer that fails is closed, and what there is of its file removed
    | .error err => (.error (.base64 chunk.transfer err), s.discard chunk.transfer)
    | .ok bytes =>
      let received := o.received + bytes.length
      -- the chunk that goes over the declared size is not written
      if o.header.size < received then
        (.error (.sizeMismatch chunk.transfer received o.header.size), s.discard chunk.transfer)
      else
        match fault with
        | some err => (.error (.io err), s.discard chunk.transfer)
        | none =>
          (.ok (),
            { receiver := { s.receiver with
                openTransfers := Function.update s.receiver.openTransfers chunk.transfer
                  (some { o with received := received }) }
              files := Function.update s.files o.path ((s.files o.path).map (· ++ bytes)) })

def «end» (s : Spool) («end» : FileEnd) (fault : Option String) :
    Except TransferError Received × Spool :=
  match s.receiver.openTransfers «end».transfer with
  | none => (.error (.unknown «end».transfer), s)
  | some o =>
    match fault with
    | some err => (.error (.io err), (s.close «end».transfer).removeFile o.path)
    | none =>
      if o.received ≠ o.header.size then
        (.error (.sizeMismatch «end».transfer o.received o.header.size),
          (s.close «end».transfer).removeFile o.path)
      else
        (.ok ⟨o.header, o.path⟩, s.close «end».transfer)

/-- The connection is gone; the keys of the table come in any order. -/
def abortAll (s : Spool) (transfers : List String) : Spool := transfers.foldl discard s

end Spool

/-! ## Feeding a receiver -/

/-- A line of a transfer, with the error of the file operation that fails at it, if one does. -/
structure Message where
  piece : Piece
  fault : Option String
  deriving DecidableEq, Repr

def Spool.receive (c : Crates) (s : Spool) (m : Message) : Spool :=
  match m.piece with
  | .header file => (s.begin c file m.fault).2
  | .chunk data => (s.chunk c data m.fault).2
  | .end last => (s.end last m.fault).2

def Spool.feed (c : Crates) (s : Spool) (ms : List Message) : Spool := ms.foldl (Spool.receive c) s

theorem Spool.feed_append (c : Crates) (s : Spool) (ms ns : List Message) :
    s.feed c (ms ++ ns) = (s.feed c ms).feed c ns :=
  List.foldl_append ..

theorem Spool.feed_cons (c : Crates) (s : Spool) (m : Message) (ms : List Message) :
    s.feed c (m :: ms) = (s.receive c m).feed c ms :=
  rfl

/-- A message of another transfer, which writes elsewhere. -/
def Other (c : Crates) (r : Receiver) (header : FileHeader) (m : Message) : Prop :=
  m.piece.transfer ≠ header.transfer ∧
    ∀ file, m.piece = .header file → r.pathFor c file ≠ r.pathFor c header

/-- How far a transfer is, and what its path holds, while the others write elsewhere. -/
structure Holding (c : Crates) (r : Receiver) (header : FileHeader) (mine : Option Open)
    (file : Option Bytes) (s : Spool) : Prop where
  pathFor : s.receiver.pathFor c = r.pathFor c
  maxBytes : s.receiver.maxBytes = r.maxBytes
  mine : s.receiver.openTransfers header.transfer = mine
  file : s.files (r.pathFor c header) = file
  elsewhere : ∀ transfer o, transfer ≠ header.transfer →
    s.receiver.openTransfers transfer = some o → o.path ≠ r.pathFor c header

namespace Holding

variable {c : Crates} {r : Receiver} {header : FileHeader} {mine : Option Open}
  {file : Option Bytes} {s : Spool} {transfer : String}

theorem close (h : Holding c r header mine file s) (hne : transfer ≠ header.transfer) :
    Holding c r header mine file (s.close transfer) where
  pathFor := h.pathFor
  maxBytes := h.maxBytes
  mine := (Function.update_of_ne (Ne.symm hne) ..).trans h.mine
  file := h.file
  elsewhere := by
    intro transfer' o hne' ho
    -- the closed transfer is open no more, and the others are as before
    by_cases heq : transfer' = transfer
    · have hnone : (s.close transfer).receiver.openTransfers transfer' = none := by
        rw [heq]
        exact Function.update_self ..
      rw [hnone] at ho
      cases ho
    · rw [show (s.close transfer).receiver.openTransfers transfer' = _ from
        Function.update_of_ne heq ..] at ho
      exact h.elsewhere transfer' o hne' ho

theorem removeFile (h : Holding c r header mine file s) {path : String}
    (hne : path ≠ r.pathFor c header) : Holding c r header mine file (s.removeFile path) where
  pathFor := h.pathFor
  maxBytes := h.maxBytes
  mine := h.mine
  file := (Function.update_of_ne (Ne.symm hne) ..).trans h.file
  elsewhere := h.elsewhere

theorem discard (h : Holding c r header mine file s) (hne : transfer ≠ header.transfer) :
    Holding c r header mine file (s.discard transfer) := by
  unfold Spool.discard
  split
  · next o ho => exact (h.close hne).removeFile (h.elsewhere transfer o hne ho)
  · exact h

theorem write (h : Holding c r header mine file s) (hne : transfer ≠ header.transfer) {o : Open}
    (ho : o.path ≠ r.pathFor c header) (bytes : Option Bytes) :
    Holding c r header mine file
      { receiver := { s.receiver with
          openTransfers := Function.update s.receiver.openTransfers transfer (some o) }
        files := Function.update s.files o.path bytes } where
  pathFor := h.pathFor
  maxBytes := h.maxBytes
  mine := (Function.update_of_ne (Ne.symm hne) ..).trans h.mine
  file := (Function.update_of_ne (Ne.symm ho) ..).trans h.file
  elsewhere := by
    intro transfer' o' hne' ho'
    by_cases heq : transfer' = transfer
    · subst heq
      have hself : Function.update s.receiver.openTransfers transfer' (some o) transfer' = some o :=
        Function.update_self ..
      obtain rfl : o = o' := Option.some.inj (hself.symm.trans ho')
      exact ho
    · exact h.elsewhere transfer' o' hne' ((Function.update_of_ne heq ..).symm.trans ho')

theorem begin_other (h : Holding c r header mine file s) {other : FileHeader}
    (hne : other.transfer ≠ header.transfer) (hpath : r.pathFor c other ≠ r.pathFor c header)
    (fault : Option String) : Holding c r header mine file (s.begin c other fault).2 := by
  unfold Spool.begin
  split
  · exact h
  · split
    · exact h
    · split
      · exact h
      -- its file is created, on a path that is not ours
      · rw [h.pathFor]
        exact h.write hne (o := ⟨other, r.pathFor c other, 0⟩) hpath (some [])

theorem chunk_other (h : Holding c r header mine file s) {chunk : FileChunk}
    (hne : chunk.transfer ≠ header.transfer) (fault : Option String) :
    Holding c r header mine file (s.chunk c chunk fault).2 := by
  unfold Spool.chunk
  split
  · exact h
  · next o ho =>
    have hpath := h.elsewhere chunk.transfer o hne ho
    split
    · exact h.discard hne
    · next bytes hbytes =>
      dsimp only
      split
      · exact h.discard hne
      · split
        · exact h.discard hne
        · exact h.write hne (o := { o with received := o.received + bytes.length }) hpath _

theorem end_other (h : Holding c r header mine file s) {last : FileEnd}
    (hne : last.transfer ≠ header.transfer) (fault : Option String) :
    Holding c r header mine file (s.end last fault).2 := by
  unfold Spool.end
  split
  · exact h
  · next o ho =>
    have hpath := h.elsewhere last.transfer o hne ho
    split
    · exact (h.close hne).removeFile hpath
    · split
      · exact (h.close hne).removeFile hpath
      · exact h.close hne

/-- The messages of other transfers leave a transfer and its file alone. -/
theorem receive_other (h : Holding c r header mine file s) {m : Message}
    (hm : Other c r header m) : Holding c r header mine file (s.receive c m) := by
  obtain ⟨hne, hpath⟩ := hm
  unfold Spool.receive
  cases hpiece : m.piece with
  | header other =>
    rw [hpiece] at hne
    exact h.begin_other hne (hpath other hpiece) m.fault
  | chunk data =>
    rw [hpiece] at hne
    exact h.chunk_other hne m.fault
  | «end» last =>
    rw [hpiece] at hne
    exact h.end_other hne m.fault

theorem feed_others (h : Holding c r header mine file s) (ms : List Message)
    (hms : ∀ m ∈ ms, Other c r header m) : Holding c r header mine file (s.feed c ms) := by
  induction ms generalizing s with
  | nil => exact h
  | cons m ms ih =>
    have hfirst := h.receive_other (hms m List.mem_cons_self)
    exact ih hfirst fun m' hm' ↦ hms m' (List.mem_cons_of_mem _ hm')

theorem writeOwn (h : Holding c r header mine file s) (o : Open) (bytes : Option Bytes) :
    Holding c r header (some o) bytes
      { receiver := { s.receiver with
          openTransfers := Function.update s.receiver.openTransfers header.transfer (some o) }
        files := Function.update s.files (r.pathFor c header) bytes } where
  pathFor := h.pathFor
  maxBytes := h.maxBytes
  mine := Function.update_self ..
  file := Function.update_self ..
  elsewhere transfer o hne ho :=
    h.elsewhere transfer o hne ((Function.update_of_ne hne ..).symm.trans ho)

theorem begin_own (h : Holding c r header none file s) (hlimit : header.size ≤ r.maxBytes) :
    Holding c r header (some ⟨header, r.pathFor c header, 0⟩) (some [])
      (s.begin c header none).2 := by
  unfold Spool.begin
  rw [h.mine, h.maxBytes, h.pathFor, if_neg (by simp), if_neg (by omega)]
  exact h.writeOwn _ _

theorem chunk_own {done bytes : Bytes} {data : String}
    (h : Holding c r header (some ⟨header, r.pathFor c header, done.length⟩) (some done) s)
    (hdata : c.decode data = .ok bytes) (hsize : done.length + bytes.length ≤ header.size) :
    Holding c r header (some ⟨header, r.pathFor c header, (done ++ bytes).length⟩)
      (some (done ++ bytes)) (s.chunk c ⟨header.transfer, data⟩ none).2 := by
  unfold Spool.chunk
  rw [h.mine]
  dsimp only
  rw [hdata]
  dsimp only
  rw [if_neg (by omega), h.file, List.length_append]
  exact h.writeOwn _ _

theorem end_own
    (h : Holding c r header (some ⟨header, r.pathFor c header, header.size⟩) file s) :
    (s.end ⟨header.transfer⟩ none).1 = .ok ⟨header, r.pathFor c header⟩ ∧
      Holding c r header none file (s.end ⟨header.transfer⟩ none).2 := by
  unfold Spool.end
  rw [h.mine]
  dsimp only
  rw [if_neg (by simp)]
  refine ⟨rfl, ?_⟩
  exact {
    pathFor := h.pathFor
    maxBytes := h.maxBytes
    mine := Function.update_self ..
    file := h.file
    elsewhere := fun transfer o hne ho ↦
      h.elsewhere transfer o hne ((Function.update_of_ne hne ..).symm.trans ho) }

end Holding

/-! ## A file arrives as it was sent -/

theorem chunks_nil (c : Crates) (reads : Nat → Nat) (transfer : String) :
    chunks c reads transfer [] = [] := by
  rw [chunks, readChunk_eq, dif_pos (by simp)]

theorem chunks_of_ne_nil (c : Crates) (reads : Nat → Nat) (transfer : String) {file : Bytes}
    (h : file ≠ []) :
    chunks c reads transfer file = ⟨transfer, c.encode (file.take chunkBytes)⟩ ::
      chunks c reads transfer (file.drop chunkBytes) := by
  have hlen : 0 < file.length := List.length_pos_iff.mpr h
  have hbytes : 0 < chunkBytes := by decide
  rw [chunks, readChunk_eq, dif_neg (by simp only [List.length_take]; omega)]

/-- The lines of one transfer. -/
def own (header : FileHeader) (m : Message) : Bool := m.piece.transfer = header.transfer

/-- The chunks of what is left of a file, among the messages of others, fill the file. -/
theorem feed_chunks {c : Crates} (hcodec : ∀ bytes, c.decode (c.encode bytes) = .ok bytes)
    {reads : Nat → Nat} {r : Receiver} {header : FileHeader} {ms : List Message}
    (hothers : ∀ m ∈ ms, own header m = false → Other c r header m) {s : Spool}
    {done left : Bytes} (hsize : done.length + left.length = header.size)
    (hown : ms.filter (own header) =
      (chunks c reads header.transfer left).map fun data ↦ ⟨.chunk data, none⟩)
    (h : Holding c r header (some ⟨header, r.pathFor c header, done.length⟩) (some done) s) :
    Holding c r header (some ⟨header, r.pathFor c header, header.size⟩) (some (done ++ left))
      (s.feed c ms) := by
  -- over the messages; one of our own takes the next chunk from what is left
  induction ms generalizing s done left with
  | nil =>
    obtain rfl : left = [] := by
      by_contra hleft
      rw [chunks_of_ne_nil c reads header.transfer hleft] at hown
      cases hown
    rw [List.append_nil, ← hsize]
    exact h
  | cons m ms ih =>
    have hrest : ∀ m' ∈ ms, own header m' = false → Other c r header m' := fun m' hm' ↦
      hothers m' (List.mem_cons_of_mem _ hm')
    cases hm : own header m with
    | false =>
      -- a message of others leaves the transfer where it is
      rw [List.filter_cons_of_neg (by simp [hm])] at hown
      exact ih hrest hsize hown (h.receive_other (hothers m List.mem_cons_self hm))
    | true =>
      rw [List.filter_cons_of_pos hm] at hown
      have hleft : left ≠ [] := by
        rintro rfl
        rw [chunks_nil] at hown
        cases hown
      rw [chunks_of_ne_nil c reads header.transfer hleft] at hown
      obtain ⟨rfl, hchunks⟩ := List.cons.inj hown
      have hsplit :
          (left.take chunkBytes).length + (left.drop chunkBytes).length = left.length := by
        rw [← List.length_append, List.take_append_drop]
      have hgrown := h.chunk_own (hcodec (left.take chunkBytes)) (by omega)
      have hlast := ih hrest (by rw [List.length_append]; omega) hchunks hgrown
      rw [List.append_assoc, List.take_append_drop] at hlast
      exact hlast

/-- A file is streamed among the messages of other transfers, which write to other paths, and none
of its own file operations fails: the end of the transfer answers with a path that holds exactly
the bytes that were sent. -/
theorem received_as_sent {c : Crates} (hcodec : ∀ bytes, c.decode (c.encode bytes) = .ok bytes)
    (reads : Nat → Nat) (s : Spool) (header : FileHeader) (file : Bytes)
    (hsize : header.size = file.length) (hlimit : file.length ≤ s.receiver.maxBytes)
    (hfree : s.receiver.openTransfers header.transfer = none)
    (hopen : ∀ transfer o, s.receiver.openTransfers transfer = some o →
      o.path ≠ s.receiver.pathFor c header)
    (ms : List Message)
    (hown : ms.filter (own header) = (send c reads header file).map fun piece ↦ ⟨piece, none⟩)
    (hothers : ∀ m ∈ ms, own header m = false → ∀ other, m.piece = .header other →
      s.receiver.pathFor c other ≠ s.receiver.pathFor c header) :
    ∃ pre post, ms = pre ++ ⟨.end ⟨header.transfer⟩, none⟩ :: post ∧
      ((s.feed c pre).end ⟨header.transfer⟩ none).1 =
        .ok ⟨header, s.receiver.pathFor c header⟩ ∧
      ((s.feed c pre).end ⟨header.transfer⟩ none).2.files (s.receiver.pathFor c header) =
        some file ∧
      (s.feed c ms).files (s.receiver.pathFor c header) = some file := by
  have helse : ∀ m ∈ ms, own header m = false → Other c s.receiver header m := fun m hm hno ↦
    ⟨of_decide_eq_false hno, hothers m hm hno⟩
  -- the messages fall into those before the header, with the chunks, up to the end, and after it
  rw [send, List.map_append, List.map_cons, List.map_map] at hown
  obtain ⟨before, rest, rfl, hbefore, -, hrest⟩ := List.filter_eq_cons_iff.mp hown
  obtain ⟨within, rest, rfl, hwithin, hrest⟩ := List.filter_eq_append_iff.mp hrest
  obtain ⟨upTo, post, rfl, hupTo, -, hpost⟩ := List.filter_eq_cons_iff.mp hrest
  have hstart : Holding c s.receiver header none (s.files (s.receiver.pathFor c header)) s :=
    ⟨rfl, rfl, hfree, rfl, fun transfer o _ ho ↦ hopen transfer o ho⟩
  have hready := hstart.feed_others before fun m hm ↦
    helse m (by simp [hm]) (by simpa using hbefore m hm)
  have hbegun := hready.begin_own (by omega)
  have hfilled : Holding c s.receiver header (some ⟨header, _, header.size⟩)
      (some ([] ++ file)) _ :=
    feed_chunks hcodec (fun m hm ↦ helse m (by simp [hm]))
      (by rw [List.length_nil, Nat.zero_add, hsize]) hwithin hbegun
  have hwhole := hfilled.feed_others upTo fun m hm ↦
    helse m (by simp [hm]) (by simpa using hupTo m hm)
  obtain ⟨hanswer, hended⟩ := hwhole.end_own
  have hafter := hended.feed_others post fun m hm ↦
    helse m (by simp [hm]) (by simpa using List.filter_eq_nil_iff.mp hpost m hm)
  have hpre : s.feed c (before ++ ⟨.header header, none⟩ :: (within ++ upTo)) =
      ((((s.feed c before).begin c header none).2.feed c within).feed c upTo) := by
    rw [Spool.feed_append, Spool.feed_cons, Spool.feed_append]
    rfl
  refine ⟨before ++ ⟨.header header, none⟩ :: (within ++ upTo), post, by simp, ?_, ?_, ?_⟩
  · rw [hpre]
    exact hanswer
  · rw [hpre]
    exact hended.file
  · rw [Spool.feed_append, Spool.feed_cons, Spool.feed_append, Spool.feed_append, Spool.feed_cons]
    exact hafter.file

/-- With the real base64, for files whose names need no extension. -/
def base64Crates : Crates where
  encode := Base64.encode
  decode text := (Base64.decode text).elim (.error "invalid base64") .ok
  mimeExtension _ := none

theorem decode_encode (bytes : Bytes) :
    base64Crates.decode (base64Crates.encode bytes) = .ok bytes := by
  show (Base64.decode (Base64.encode bytes)).elim _ _ = _
  rw [Base64.decode_encode]
  rfl

theorem send_threeBytes : send base64Crates (fun _ ↦ 1) ⟨"t1", "a.txt", "text/plain", 3⟩ [1, 2, 3] =
    [.header ⟨"t1", "a.txt", "text/plain", 3⟩, .chunk ⟨"t1", "AQID"⟩, .end ⟨"t1"⟩] := by
  have htake : List.take chunkBytes [1, 2, 3] = ([1, 2, 3] : Bytes) := rfl
  have hdrop : List.drop chunkBytes [1, 2, 3] = ([] : Bytes) := rfl
  have hdata : base64Crates.encode [1, 2, 3] = "AQID" := by decide +kernel
  rw [send, chunks_of_ne_nil _ _ _ (by simp), htake, hdrop, chunks_nil, hdata]
  rfl

/-- A file of three bytes, read one by one, while another one is transferred in vain. -/
theorem received_as_sent_threeBytes :
    (Spool.feed base64Crates ⟨.new "/inbox" "" 100, fun _ ↦ none⟩
      [⟨.header ⟨"t1", "a.txt", "text/plain", 3⟩, none⟩,
        ⟨.header ⟨"t2", "a.txt", "text/plain", 7⟩, none⟩, ⟨.chunk ⟨"t1", "AQID"⟩, none⟩,
        ⟨.chunk ⟨"t2", "?"⟩, none⟩, ⟨.end ⟨"t1"⟩, none⟩]).files "/inbox/t1-a.txt" =
      some [1, 2, 3] := by
  have hpath : (Receiver.new "/inbox" "" 100).pathFor base64Crates
      ⟨"t1", "a.txt", "text/plain", 3⟩ = "/inbox/t1-a.txt" := by decide +kernel
  have hother : (Receiver.new "/inbox" "" 100).pathFor base64Crates
      ⟨"t2", "a.txt", "text/plain", 7⟩ ≠ "/inbox/t1-a.txt" := by decide +kernel
  obtain ⟨pre, post, -, -, -, hfile⟩ := received_as_sent decode_encode (fun _ ↦ 1)
    ⟨.new "/inbox" "" 100, fun _ ↦ none⟩ ⟨"t1", "a.txt", "text/plain", 3⟩ [1, 2, 3] rfl
    (by decide) rfl (fun _ _ ↦ nofun)
    [⟨.header ⟨"t1", "a.txt", "text/plain", 3⟩, none⟩,
      ⟨.header ⟨"t2", "a.txt", "text/plain", 7⟩, none⟩, ⟨.chunk ⟨"t1", "AQID"⟩, none⟩,
      ⟨.chunk ⟨"t2", "?"⟩, none⟩, ⟨.end ⟨"t1"⟩, none⟩]
    (by rw [send_threeBytes]; decide) (by
      intro m hm hno other hother'
      rw [hpath]
      simp only [List.mem_cons, List.not_mem_nil, or_false] at hm
      rcases hm with rfl | rfl | rfl | rfl | rfl
      · cases hno
      · cases hother'
        exact hother
      · cases hno
      · cases hother'
      · cases hno)
  rw [hpath] at hfile
  exact hfile

end Transfer

end Silta
