import Silta.Lib.Replace
import Silta.Lifetimes
import Silta.LineReader

/-!
# The files of the state directory

The bytes that the supervisor writes for its next start, for the id of the session and for the two
flags beside them, what it reads of them again, and what is left of them by calls that fail or are
killed at any point.
-/

namespace Silta

namespace StateFiles

open LineReader (utf8)
open Replace (Op Outcome CallStep Cut Done Begun Follows Last)
open State (Next Paths RotationFile)
open Supervisor (Effect)
open Transfer (Bytes)

/-- The state directory, by the names in it. -/
abbrev Dir := String → Option Bytes

def idFile : String := "session-id"

def marker : String := "rotate-requested"

def rotation : String := "rotation.json"

def channelReady : String := "channel-ready"

def tmp (name : String) : String := name ++ ".tmp"

/-! ## What is read -/

def readToString (content : Option Bytes) : Option String :=
  content.bind fun bytes ↦ String.fromUTF8? bytes.toByteArray

/-- The text without the blanks around it, where that leaves something. -/
def trimmed (content : Option Bytes) : Option String := do
  let text ← readToString content
  let id := String.ofList (Transfer.trim text.toList)
  if id = "" then none else some id

def readId (d : Dir) : Option String := trimmed (d idFile)

def markerExists (d : Dir) : Bool := (d marker).isSome

def required : Option Json → Option Bool
  | some (.bool b) => some b
  | _ => none

/-- The variant under its tag.  A unit variant takes no more values, but any more fields. -/
def nextAs (tag : String) (value : Json) : Option Next :=
  match tag with
  | "normal" =>
    match value with
    | .arr (_ :: _) => none
    | _ => some .normal
  | "retry" => do
    let f ← value.fields ["snapshot", "attempts", "handoff"]
    some (.retry (← required (f "snapshot")) (← Json.u32 (f "attempts"))
      (← required (f "handoff")))
  | "postponed" => do
    let f ← value.fields ["attempts", "handoff"]
    some (.postponed (← Json.u32 (f "attempts")) (← required (f "handoff")))
  | "fresh" => do
    let f ← value.fields ["handoff"]
    some (.fresh (← required (f "handoff")))
  | _ => none

/-- A tagged enumeration: an object with the tag among its fields, or an array that begins with
it. -/
def nextOf : Json → Option Next
  | .obj entries =>
    match entries.lookup "next" with
    | some (.str tag) => nextAs tag (.obj entries)
    | _ => none
  | .arr (.str tag :: values) => nextAs tag (.arr values)
  | _ => none

section

variable (format : Format)

def parseNext (content : Option Bytes) : Option Next :=
  ((readToString content).bind format.tree).bind nextOf

def readNext (d : Dir) : Next := (parseNext format (d rotation)).getD .normal

/-! ## What is written -/

def nextJson : Next → Json
  | .normal => .obj [("next", .str "normal")]
  | .retry snapshot attempts handoff =>
    .obj [("next", .str "retry"), ("snapshot", .bool snapshot), ("attempts", Json.number attempts),
      ("handoff", .bool handoff)]
  | .postponed attempts handoff =>
    .obj [("next", .str "postponed"), ("attempts", Json.number attempts),
      ("handoff", .bool handoff)]
  | .fresh handoff => .obj [("next", .str "fresh"), ("handoff", .bool handoff)]

def line (text : String) : Bytes := utf8 (text ++ "\n")

inductive Call
  | writeId (id : String)
  | dropId
  | clearChannelReady
  | writeChannelReady (id : String)
  | writeMarker (why : String)
  | writeNext (next : Next)
  | clearRotation

/-- The file operations of a call, in their order. -/
def ops : Call → List (Op String Bytes)
  | .writeId id => [.write idFile (line id)]
  | .dropId => [.remove idFile]
  | .clearChannelReady => [.remove channelReady]
  | .writeChannelReady id => [.write channelReady (line id)]
  | .writeMarker why => [.write marker (line why)]
  | .writeNext .normal => [.remove rotation]
  | .writeNext next => [.write rotation (line (format.text (nextJson next)))]
  | .clearRotation => [.remove marker, .remove rotation]

/-! ## The store of the supervisor -/

def rotationFile (content : Option Bytes) : RotationFile :=
  if content.isSome then
    match parseNext format content with
    | some next => .holds next
    | none => .unreadable
  else
    .absent

/-- What the supervisor sees of the directory, with the transcripts that Claude Code has beside
it. -/
def view (transcripts : List String) (d : Dir) : Paths where
  savedId := readId d
  marker := markerExists d
  rotation := rotationFile format (d rotation)
  channelReady := trimmed (d channelReady)
  transcripts := transcripts

end

def Call.apply : Call → Paths → Paths
  | .writeId id, p => p.writeId id
  | .dropId, p => p.dropId
  | .clearChannelReady, p => p.clearChannelReady
  | .writeChannelReady id, p => p.writeChannelReady id
  | .writeMarker _, p => p.writeMarker
  | .writeNext next, p => p.writeNext next
  | .clearRotation, p => p.clearRotation

/-! ## The effects of the supervisor -/

/-- The file operations of an effect, at most one.  A marker of its own says `why`. -/
def effectOps (format : Format) (why : String) : Effect → List (Op String Bytes)
  | .writeId id => ops format (.writeId id)
  | .dropId => ops format .dropId
  | .writeNext next => ops format (.writeNext next)
  | .removeMarker => [.remove marker]
  | .removeRotation => [.remove rotation]
  | .clearChannelReady => ops format .clearChannelReady
  | .writeChannelReady id => ops format (.writeChannelReady id)
  | .action .markPending => ops format (.writeMarker why)
  | .action (.retry step attempts handoff) =>
    ops format (.writeNext (.retry (step == .wait) attempts handoff))
  | .action (.postpone _ attempts handoff) => ops format (.writeNext (.postponed attempts handoff))
  | .action (.giveUp _ _ handoff) => ops format (.writeNext (.fresh handoff))
  | .action _ | .spawn _ | .snapshot _ | .control _ | .send _ | .kill => []

theorem effectOps_clearRotation (format : Format) (why : String) :
    Effect.clearRotation.flatMap (effectOps format why) = ops format .clearRotation :=
  rfl

/-! ## The ids -/

def hexByte (b : UInt8) : List Char := [Nat.digitChar (b.toNat / 16), Nat.digitChar (b.toNat % 16)]

/-- A version-4 UUID of sixteen random bytes. -/
def newId (bytes : List UInt8) : String :=
  let bytes := (bytes.modify 6 fun b ↦ b &&& 0x0f ||| 0x40).modify 8 fun b ↦ b &&& 0x3f ||| 0x80
  let hex := bytes.flatMap hexByte
  String.ofList (hex.take 8 ++ '-' :: (hex.drop 8).take 4 ++ '-' :: (hex.drop 12).take 4 ++
    '-' :: (hex.drop 16).take 4 ++ '-' :: (hex.drop 20).take 12)

/-- Without blanks, and not empty. -/
def Solid (id : String) : Prop := id ≠ "" ∧ ∀ c ∈ id.toList, Transfer.isWhitespace c = false

theorem isWhitespace_of_mem_hexByte {b : UInt8} {c : Char} (h : c ∈ hexByte b) :
    Transfer.isWhitespace c = false := by
  have hdigit : ∀ d < 16, Transfer.isWhitespace (Nat.digitChar d) = false := by decide
  have hlt := b.toNat_lt
  rcases List.mem_cons.mp h with rfl | h
  · exact hdigit _ (by omega)
  · obtain rfl := List.mem_singleton.mp h
    exact hdigit _ (by omega)

theorem solid_newId (bytes : List UInt8) : Solid (newId bytes) := by
  have hdash : Transfer.isWhitespace '-' = false := by decide
  unfold newId
  dsimp only
  generalize (bytes.modify 6 _).modify 8 _ = bytes'
  have hhex : ∀ c ∈ bytes'.flatMap hexByte, Transfer.isWhitespace c = false := by
    intro c hc
    obtain ⟨b, -, hb⟩ := List.mem_flatMap.mp hc
    exact isWhitespace_of_mem_hexByte hb
  have hpart (n k : Nat) : ∀ c ∈ ((bytes'.flatMap hexByte).drop n).take k,
      Transfer.isWhitespace c = false :=
    fun c hc ↦ hhex c (List.mem_of_mem_drop (List.mem_of_mem_take hc))
  constructor
  · intro hnil
    have hlist := congrArg String.toList hnil
    simp at hlist
  · intro c hc
    rw [String.toList_ofList] at hc
    simp only [List.mem_append, List.mem_cons, or_assoc] at hc
    rcases hc with hc | rfl | hc | rfl | hc | rfl | hc | rfl | hc
    · exact hhex c (List.mem_of_mem_take hc)
    · exact hdash
    · exact hpart 8 4 c hc
    · exact hdash
    · exact hpart 12 4 c hc
    · exact hdash
    · exact hpart 16 4 c hc
    · exact hdash
    · exact hpart 20 12 c hc

/-! ## What is written is read -/

theorem readToString_utf8 (s : String) : readToString (some (utf8 s)) = some s :=
  LineReader.fromUTF8_utf8 s

theorem trim_line {cs : List Char} (hne : cs ≠ [])
    (h : ∀ c ∈ cs, Transfer.isWhitespace c = false) : Transfer.trim (cs ++ ['\n']) = cs := by
  have hdrop {ds : List Char} (hds : ds ≠ []) (hall : ∀ c ∈ ds, Transfer.isWhitespace c = false)
      (rest : List Char) : (ds ++ rest).dropWhile Transfer.isWhitespace = ds ++ rest := by
    cases ds with
    | nil => exact absurd rfl hds
    | cons d ds =>
      rw [List.cons_append, List.dropWhile_cons_of_neg]
      rw [hall d List.mem_cons_self]
      decide
  have hback := hdrop (List.reverse_ne_nil_iff.mpr hne) (fun c hc ↦ h c (List.mem_reverse.mp hc)) []
  rw [List.append_nil] at hback
  rw [Transfer.trim, hdrop hne h, List.reverse_append, List.reverse_singleton,
    List.singleton_append, List.dropWhile_cons_of_pos (by decide), hback, List.reverse_reverse]

theorem trimmed_line {id : String} (h : Solid id) : trimmed (some (line id)) = some id := by
  obtain ⟨hne, hall⟩ := h
  have hchars : id.toList ≠ [] := fun hnil ↦ hne (String.toList_eq_nil_iff.mp hnil)
  have htrim : String.ofList (Transfer.trim (id ++ "\n").toList) = id := by
    rw [String.toList_append, show "\n".toList = ['\n'] from rfl, trim_line hchars hall,
      String.ofList_toList]
  unfold trimmed line
  rw [readToString_utf8]
  show (if String.ofList (Transfer.trim (id ++ "\n").toList) = "" then none else _) = _
  rw [htrim, if_neg hne]

def InRange : Next → Prop
  | .retry _ attempts _ | .postponed attempts _ => attempts < 2 ^ 32
  | _ => True

theorem nextOf_nextJson {next : Next} (h : InRange next) : nextOf (nextJson next) = some next := by
  cases next with
  | normal => rfl
  | fresh handoff => rfl
  | retry snapshot attempts handoff =>
    show (Json.u32 (some (Json.number attempts))).bind _ = _
    rw [Json.u32_number h]
    rfl
  | postponed attempts handoff =>
    show (Json.u32 (some (Json.number attempts))).bind _ = _
    rw [Json.u32_number h]
    rfl

theorem within_nextJson (next : Next) (depth : Nat) : (nextJson next).Within (depth + 1) := by
  have hflat {entries : List (String × Json)} (h : ∀ p ∈ entries, p.2.isLeaf = true) :
      (Json.obj entries).Within (depth + 1) :=
    fun p hp ↦ Json.within_of_isLeaf (h p hp) depth
  cases next <;> exact hflat (by simp)

/-- What `serde_json` promises: a text stands for what was serialized, also with a line break after
it. -/
def ReadsLines (format : Format) : Prop :=
  ∀ value : Json, value.Within recursionLimit → format.tree (format.text value ++ "\n") = some value

theorem parseNext_line {format : Format} (hformat : ReadsLines format) {next : Next}
    (h : InRange next) :
    parseNext format (some (line (format.text (nextJson next)))) = some next := by
  unfold parseNext line
  rw [readToString_utf8, Option.bind_some, hformat _ (within_nextJson next 126), Option.bind_some,
    nextOf_nextJson h]

/-! ## Whole runs -/

namespace Call

/-- The ids are solid, and the numbers fit their types. -/
def Proper : Call → Prop
  | writeId id | writeChannelReady id => Solid id
  | writeNext next => InRange next
  | _ => True

/-- What a call makes of the next step. -/
def next? : Call → Option Next
  | writeNext next => some next
  | clearRotation => some .normal
  | _ => none

/-- What it makes of the saved id. -/
def id? : Call → Option (Option String)
  | writeId id => some (some id)
  | dropId => some none
  | _ => none

/-- What it makes of the marker. -/
def marker? : Call → Option Bool
  | writeMarker _ => some true
  | clearRotation => some false
  | _ => none

/-- What it makes of the channel's ready file. -/
def ready? : Call → Option (Option String)
  | writeChannelReady id => some (some id)
  | clearChannelReady => some none
  | _ => none

end Call

/-- What is read of a file after the calls: what was read of it before, or what one of them left
after which no other was done. -/
def Reads {α : Type} (format : Format) (name : String) (value? : Call → Option α)
    (labels : List (Call × List Outcome)) (first last : α) : Prop :=
  Last (fun label a ↦ Begun (ops format) name label ∧ value? label.1 = some a)
    (Done (ops format) name) labels first last

theorem ne_tmp {name : String} (h : ¬(".tmp".toList <:+ name.toList)) (other : String) :
    tmp other ≠ name := by
  rintro rfl
  apply h
  rw [tmp, String.toList_append]
  exact List.suffix_append ..

section

variable {format : Format} {d d' : Dir} {labels : List (Call × List Outcome)}

theorem names_ne : idFile ≠ marker ∧ idFile ≠ rotation ∧ idFile ≠ channelReady ∧
    marker ≠ rotation ∧ marker ≠ channelReady ∧ rotation ≠ channelReady := by
  decide

theorem tmp_ne : (∀ other, tmp other ≠ idFile) ∧ (∀ other, tmp other ≠ marker) ∧
    (∀ other, tmp other ≠ rotation) ∧ ∀ other, tmp other ≠ channelReady :=
  ⟨ne_tmp (by decide), ne_tmp (by decide), ne_tmp (by decide), ne_tmp (by decide)⟩

/-- An operation writes what its call says, to the file that is for it. -/
theorem op_cases (hformat : ReadsLines format) {call : Call} (hproper : call.Proper)
    {op : Op String Bytes} (hop : op ∈ ops format call) :
    op.name = rotation ∧ call.next? = some ((parseNext format op.content).getD .normal) ∨
      op.name = idFile ∧ call.id? = some (trimmed op.content) ∨
      op.name = marker ∧ call.marker? = some op.content.isSome ∨
      op.name = channelReady ∧ call.ready? = some (trimmed op.content) := by
  cases call with
  | writeId id =>
    obtain rfl := List.mem_singleton.mp hop
    exact .inr (.inl ⟨rfl, congrArg some (trimmed_line hproper).symm⟩)
  | dropId =>
    obtain rfl := List.mem_singleton.mp hop
    exact .inr (.inl ⟨rfl, rfl⟩)
  | clearChannelReady =>
    obtain rfl := List.mem_singleton.mp hop
    exact .inr (.inr (.inr ⟨rfl, rfl⟩))
  | writeChannelReady id =>
    obtain rfl := List.mem_singleton.mp hop
    exact .inr (.inr (.inr ⟨rfl, congrArg some (trimmed_line hproper).symm⟩))
  | writeMarker why =>
    obtain rfl := List.mem_singleton.mp hop
    exact .inr (.inr (.inl ⟨rfl, rfl⟩))
  | clearRotation =>
    rcases List.mem_cons.mp hop with rfl | hop
    · exact .inr (.inr (.inl ⟨rfl, rfl⟩))
    · obtain rfl := List.mem_singleton.mp hop
      exact .inl ⟨rfl, rfl⟩
  | writeNext next =>
    have hread : (parseNext format (some (line (format.text (nextJson next))))).getD .normal =
        next := by
      rw [parseNext_line hformat hproper, Option.getD_some]
    cases next with
    | normal =>
      obtain rfl := List.mem_singleton.mp hop
      exact .inl ⟨rfl, rfl⟩
    | _ =>
      obtain rfl := List.mem_singleton.mp hop
      exact .inl ⟨rfl, congrArg some hread.symm⟩

/-- A call that is done is one step of the store. -/
theorem view_call (hformat : ReadsLines format) (transcripts : List String) {call : Call}
    (hproper : call.Proper)
    (h : CallStep tmp (ops format) d (call, (ops format call).map fun _ ↦ .done) d') :
    view format transcripts d' = call.apply (view format transcripts d) := by
  obtain ⟨him, hir, hic, hmr, hmc, hrc⟩ := names_ne
  obtain ⟨hid, hmarker, hrotation, hready⟩ := tmp_ne
  have hnodup : ((ops format call).map Op.name).Nodup := by
    cases call with
    | clearRotation => simpa [ops, Op.name] using hmr
    | writeNext next => cases next <;> exact List.nodup_singleton _
    | _ => exact List.nodup_singleton _
  have hfile (name : String) (htmp : ∀ other, tmp other ≠ name) : d' name = _ :=
    Replace.callStep_done htmp hnodup h
  have hids := hfile idFile hid
  have hmarkers := hfile marker hmarker
  have hrotations := hfile rotation hrotation
  have hreadys := hfile channelReady hready
  unfold view readId markerExists
  rw [hids, hmarkers, hrotations, hreadys]
  cases call with
  | writeId id =>
    simp [ops, Call.apply, Paths.writeId, trimmed_line hproper, him, hir, hic]
  | dropId => simp [ops, Call.apply, Paths.dropId, trimmed, readToString, him, hir, hic]
  | clearChannelReady =>
    simp [ops, Call.apply, Paths.clearChannelReady, trimmed, readToString, hic.symm, hmc.symm,
      hrc.symm]
  | writeChannelReady id =>
    simp [ops, Call.apply, Paths.writeChannelReady, trimmed_line hproper, hic.symm, hmc.symm,
      hrc.symm]
  | writeMarker why => simp [ops, Call.apply, Paths.writeMarker, him.symm, hmr, hmc]
  | clearRotation =>
    simp [ops, Call.apply, Paths.clearRotation, Paths.removeMarker, Paths.removeRotation,
      rotationFile, him.symm, hmr, hmc, hir.symm, hrc]
  | writeNext next =>
    have hread := parseNext_line hformat hproper
    cases next <;>
      simp [ops, Call.apply, Paths.writeNext, rotationFile, hread, hir.symm, hmr.symm, hrc]

/-- A stop loses no next step.  Whatever calls the supervisor makes, each of which can fail or be
killed in any of its file operations: the next step, the saved id, the marker and the ready file
that are read afterwards are those that were there before, or those of a call that no finished one
came after.  Where every call is done, the directory is the store that the supervisor works with. -/
theorem files_kept (hformat : ReadsLines format)
    (h : Lts.Run (CallStep tmp (ops format)) d labels d')
    (hproper : ∀ label ∈ labels, label.1.Proper) :
    Reads format rotation Call.next? labels (readNext format d) (readNext format d') ∧
      Reads format idFile Call.id? labels (readId d) (readId d') ∧
      Reads format marker Call.marker? labels (markerExists d) (markerExists d') ∧
      Reads format channelReady Call.ready? labels (trimmed (d channelReady))
        (trimmed (d' channelReady)) ∧
      ∀ transcripts, (∀ label ∈ labels, label.2 = (ops format label.1).map fun _ ↦ .done) →
        view format transcripts d' =
          labels.foldl (fun p label ↦ label.1.apply p) (view format transcripts d) := by
  obtain ⟨him, hir, hic, hmr, hmc, hrc⟩ := names_ne
  obtain ⟨hid, hmarker, hrotation, hready⟩ := tmp_ne
  refine ⟨?_, ?_, ?_, ?_, fun transcripts hdone ↦ ?_⟩
  · apply Replace.last_calls hrotation (fun content ↦ (parseNext format content).getD .normal) _
      hproper h
    intro call hcall op hop hname
    rcases op_cases hformat hcall hop with ⟨-, hvalue⟩ | ⟨hother, -⟩ | ⟨hother, -⟩ | ⟨hother, -⟩
    · exact hvalue
    · exact absurd (hother.symm.trans hname) hir
    · exact absurd (hother.symm.trans hname) hmr
    · exact absurd (hname.symm.trans hother) hrc
  · apply Replace.last_calls hid trimmed _ hproper h
    intro call hcall op hop hname
    rcases op_cases hformat hcall hop with ⟨hother, -⟩ | ⟨-, hvalue⟩ | ⟨hother, -⟩ | ⟨hother, -⟩
    · exact absurd (hname.symm.trans hother) hir
    · exact hvalue
    · exact absurd (hname.symm.trans hother) him
    · exact absurd (hname.symm.trans hother) hic
  · apply Replace.last_calls hmarker Option.isSome _ hproper h
    intro call hcall op hop hname
    rcases op_cases hformat hcall hop with ⟨hother, -⟩ | ⟨hother, -⟩ | ⟨-, hvalue⟩ | ⟨hother, -⟩
    · exact absurd (hname.symm.trans hother) hmr
    · exact absurd (hother.symm.trans hname) him
    · exact hvalue
    · exact absurd (hname.symm.trans hother) hmc
  · apply Replace.last_calls hready trimmed _ hproper h
    intro call hcall op hop hname
    rcases op_cases hformat hcall hop with ⟨hother, -⟩ | ⟨hother, -⟩ | ⟨hother, -⟩ | ⟨-, hvalue⟩
    · exact absurd (hother.symm.trans hname) hrc
    · exact absurd (hother.symm.trans hname) hic
    · exact absurd (hother.symm.trans hname) hmc
    · exact hvalue
  · induction h with
    | nil => rfl
    | @snoc t u labels label _ hcall ih =>
      have hlast := hdone label (by simp)
      have hview := ih (fun l hl ↦ hproper l (List.mem_append_left _ hl))
        fun l hl ↦ hdone l (List.mem_append_left _ hl)
      rw [List.foldl_append, ← hview]
      obtain ⟨call, outs⟩ := label
      change outs = (ops format call).map fun _ ↦ .done at hlast
      subst hlast
      exact view_call hformat transcripts (hproper _ (by simp)) hcall

end

/-! ## The files under the supervisor -/

section

open Supervisor (Deed Does Process)

/-- The ids are solid, and the numbers fit their types. -/
def Sound : Effect → Prop
  | .writeId id | .writeChannelReady id => Solid id
  | .writeNext next => InRange next
  | .action (.retry _ attempts _) | .action (.postpone _ attempts _) => attempts < 2 ^ 32
  | _ => True

variable {format : Format} {d d' : Dir}

theorem view_congr (transcripts : List String)
    (h : ∀ name, (∀ other, tmp other ≠ name) → d' name = d name) :
    view format transcripts d' = view format transcripts d := by
  obtain ⟨hid, hmarker, hrotation, hready⟩ := tmp_ne
  unfold view readId markerExists
  rw [h idFile hid, h marker hmarker, h rotation hrotation, h channelReady hready]

/-- A call of one operation, which is done. -/
theorem view_op (hformat : ReadsLines format) (transcripts : List String) {call : Call}
    (hproper : call.Proper) {op : Op String Bytes} (hop : ops format call = [op])
    (h : Replace.Step tmp d (op, .done) d') :
    view format transcripts d' = call.apply (view format transcripts d) := by
  apply view_call hformat transcripts hproper
  unfold CallStep
  rw [hop]
  exact .single h

/-- A file that is removed is not there, and the others are as they were. -/
theorem view_remove (transcripts : List String) {name : String}
    (h : Replace.Step tmp d (.remove name, .done) d') :
    view format transcripts d' = view format transcripts (Function.update d name none) := by
  cases h with
  | kept _ _ hnot => exact absurd rfl hnot
  | removed => rfl

/-- The store of the supervisor follows the files, one effect after the other. -/
theorem follows_effects (hformat : ReadsLines format) (why : String) (transcripts : List String) :
    Follows tmp (effectOps format why) (view format transcripts) Effect.apply Sound where
  files _ _ := view_congr transcripts
  one e he := by
    have hcall (call : Call) (hproper : call.Proper)
        (hops : effectOps format why e = ops format call)
        (happly : ∀ p, e.apply p = call.apply p) (hone : ∃ op, ops format call = [op]) :
        ∃ op, effectOps format why e = [op] ∧ ∀ d d', Replace.Step tmp d (op, .done) d' →
          view format transcripts d' = Effect.apply (view format transcripts d) e := by
      obtain ⟨op, hop⟩ := hone
      exact ⟨op, hops.trans hop, fun d d' h ↦
        (view_op hformat transcripts hproper hop h).trans (happly _).symm⟩
    have hnext (next : Next) : ∃ op, ops format (.writeNext next) = [op] := by
      cases next <;> exact ⟨_, rfl⟩
    cases e with
    | writeId id => exact .inr (hcall (.writeId id) he rfl (fun _ ↦ rfl) ⟨_, rfl⟩)
    | dropId => exact .inr (hcall .dropId trivial rfl (fun _ ↦ rfl) ⟨_, rfl⟩)
    | writeNext next => exact .inr (hcall (.writeNext next) he rfl (fun _ ↦ rfl) (hnext next))
    | removeMarker =>
      refine .inr ⟨_, rfl, fun d d' h ↦ (view_remove transcripts h).trans ?_⟩
      obtain ⟨him, -, -, hmr, hmc, -⟩ := names_ne
      simp [view, readId, markerExists, Effect.apply, Paths.removeMarker, him, hmr.symm, hmc.symm]
    | removeRotation =>
      refine .inr ⟨_, rfl, fun d d' h ↦ (view_remove transcripts h).trans ?_⟩
      obtain ⟨-, hir, -, hmr, -, hrc⟩ := names_ne
      simp [view, readId, markerExists, Effect.apply, Paths.removeRotation, rotationFile, hir, hmr,
        hrc.symm]
    | clearChannelReady => exact .inr (hcall .clearChannelReady trivial rfl (fun _ ↦ rfl) ⟨_, rfl⟩)
    | writeChannelReady id =>
      exact .inr (hcall (.writeChannelReady id) he rfl (fun _ ↦ rfl) ⟨_, rfl⟩)
    | action a =>
      cases a with
      | markPending => exact .inr (hcall (.writeMarker why) trivial rfl (fun _ ↦ rfl) ⟨_, rfl⟩)
      | retry step attempts handoff =>
        exact .inr (hcall (.writeNext (.retry (step == .wait) attempts handoff)) he rfl
          (fun _ ↦ rfl) ⟨_, rfl⟩)
      | postpone step attempts handoff =>
        exact .inr (hcall (.writeNext (.postponed attempts handoff)) he rfl (fun _ ↦ rfl) ⟨_, rfl⟩)
      | giveUp step cut handoff =>
        exact .inr (hcall (.writeNext (.fresh handoff)) trivial rfl (fun _ ↦ rfl) ⟨_, rfl⟩)
      | _ => exact .inl ⟨rfl, fun _ ↦ rfl⟩
    | _ => exact .inl ⟨rfl, fun _ ↦ rfl⟩

variable {why : String} {transcripts : List String} {process process' : Process} {deed : Deed}
  {es : List Effect}

/-- A deed of the supervisor on the files is its deed on the store. -/
theorem step_did (hformat : ReadsLines format) (hes : ∀ e ∈ es, Sound e)
    (hdoes : Does (view format transcripts d) process deed es process')
    (h : Lts.Run (Replace.Step tmp) d ((es.flatMap (effectOps format why)).map (·, .done)) d') :
    Supervisor.Step ⟨view format transcripts d, process⟩ (.did deed es)
      ⟨view format transcripts d', process'⟩ := by
  rw [(follows_effects hformat why transcripts).done hes h]
  exact .did hdoes

/-- A deed that is cut anywhere in its operations, also between the two of `clear_rotation` or in
the middle of a file, is one that is cut between two effects. -/
theorem step_lost (hformat : ReadsLines format) (hes : ∀ e ∈ es, Sound e)
    (hdoes : Does (view format transcripts d) process deed es process')
    (h : Cut tmp d (es.flatMap (effectOps format why)) d') :
    ∃ k, Supervisor.Step ⟨view format transcripts d, process⟩ (.lost deed (es.take k))
      ⟨view format transcripts d', .down⟩ := by
  obtain ⟨k, hk⟩ := (follows_effects hformat why transcripts).cut hes h
  refine ⟨k, ?_⟩
  rw [hk]
  exact .lost hdoes k

end

/-- The compact texts, with or without a line break after them. -/
def lenient : Format where
  text := compact.text
  tree line := Json.ofText
    (if line.toList.getLast? = some '\n' then line.toList.dropLast else line.toList)

theorem readsLines_lenient : ReadsLines lenient := by
  intro value hwithin
  have hchars : (compact.text value ++ "\n").toList = value.text ++ ['\n'] := by
    rw [String.toList_append]
    exact congrArg (· ++ ['\n']) String.toList_ofList
  show Json.ofText _ = _
  rw [show lenient.text value = compact.text value from rfl, hchars, List.getLast?_concat,
    if_pos rfl, List.dropLast_concat, Json.ofText_text hwithin]

/-- A stop while the next step is written, with a part of it in the temporary file. -/
theorem files_kept_stopped : ∃ d', Lts.Run (CallStep tmp (ops lenient)) (fun _ ↦ none)
      [(.writeNext (.fresh true), [.done]), (.writeNext (.retry true 1 false), [.killed])] d' ∧
    d' (tmp rotation) = some [0x7b] ∧
    (readNext lenient d' = .fresh true ∨ readNext lenient d' = .retry true 1 false) := by
  obtain ⟨d, hfirst⟩ : ∃ d, CallStep tmp (ops lenient) (fun _ ↦ none)
      (.writeNext (.fresh true), [.done]) d :=
    ⟨_, .single (.renamed rotation _ .done nofun)⟩
  have hlast : CallStep tmp (ops lenient) d (.writeNext (.retry true 1 false), [.killed])
      (Function.update d (tmp rotation) (some [0x7b])) :=
    .single (.unfinished rotation _ [0x7b] .killed nofun)
  have hrun := (Lts.Run.single hfirst).snoc hlast
  refine ⟨_, hrun, Function.update_self .., ?_⟩
  obtain ⟨hnext, -⟩ := files_kept readsLines_lenient hrun (by simp [Call.Proper, InRange])
  rcases hnext with ⟨-, hnone⟩ | ⟨before, ⟨call, outs⟩, after, heq, ⟨-, hvalue⟩, -⟩
  · exact absurd ⟨_, List.mem_singleton_self _, rfl⟩
      (hnone (.writeNext (.fresh true), [.done]) (by simp))
  · have hmem : (call, outs) ∈ [(Call.writeNext (.fresh true), [Outcome.done])] ++
        [(.writeNext (.retry true 1 false), [.killed])] := by
      rw [heq]
      exact List.mem_append_right before List.mem_cons_self
    simp only [List.singleton_append, List.mem_cons, List.not_mem_nil, or_false] at hmem
    rcases hmem with hcall | hcall
    · obtain rfl : call = _ := congrArg Prod.fst hcall
      exact .inl (Option.some.inj hvalue).symm
    · obtain rfl : call = _ := congrArg Prod.fst hcall
      exact .inr (Option.some.inj hvalue).symm

end StateFiles

end Silta
