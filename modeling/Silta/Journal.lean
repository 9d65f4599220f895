import Mathlib.Data.Option.Basic
import Silta.Stream
import Silta.Transfer
import Silta.Wire

/-!
# The journal

One line of Claude Code's output, reduced to a line of the journal and parsed for what the
supervisor needs to know, and what of a conversation the journal's line depends on.
-/

namespace Silta

namespace Stream

/-! ## Fields -/

def strOf (map : Json) (key : String) : String := (Json.string (map.get key)).getD "?"

def numOf (map : Json) (key : String) : Nat := (Json.u64 (map.get key)).getD 0

def lenOf (map : Json) (key : String) : Nat :=
  match map.get key with
  | some (.arr values) => values.length
  | _ => 0

def splitWhitespace (text : String) : List String :=
  ((text.toList.splitOnP Transfer.isWhitespace).filter (· ≠ [])).map String.ofList

def shorten (text : String) (max : Nat) : String :=
  let flat := " ".intercalate (splitWhitespace text)
  if flat.length ≤ max then flat else String.ofList (flat.toList.take max) ++ "…"

/-- The text of a JSON string in bytes, zero for anything else. -/
def textSize (value : Option Json) : Nat := (Json.string value).elim 0 String.utf8ByteSize

/-- The line's `origin` names the channel. -/
def channelOrigin (map : Json) : Bool :=
  Json.string ((map.get "origin").bind (Json.get "kind")) = some "channel"

def firstText : Option Json → Option String
  | some (.str s) => some s
  | some (.arr blocks) => blocks.findSome? fun block ↦ Json.string (block.get "text")
  | _ => none

/-- The text starts with the tag that a channel notification is wrapped in. -/
def tagged (text : String) : Bool :=
  "<channel".toList.isPrefixOf (text.toList.dropWhile Transfer.isWhitespace)

def content (map : Json) : Option Json := (map.get "message").bind (Json.get "content")

def personOf (map : Json) : Bool := channelOrigin map || (firstText (content map)).any tagged

/-- A line of a subagent's conversation rather than the main one. -/
def subagent (map : Json) : Bool :=
  match map.get "parent_tool_use_id" with
  | none | some .null => false
  | some _ => true

/-- The sum wraps. -/
def contextOf (map : Json) : Option Nat :=
  ((map.get "message").bind (Json.get "usage")).map fun usage ↦
    (numOf usage "input_tokens" + numOf usage "cache_read_input_tokens" +
      numOf usage "cache_creation_input_tokens") % 2 ^ 64

/-! ## Amounts of money -/

/-- The quotient to the nearest integer, to the even one from halfway. -/
def halfEven (n d : Nat) : Nat :=
  if 2 * (n % d) < d ∨ 2 * (n % d) = d ∧ n / d % 2 = 0 then n / d else n / d + 1

/-- An integer as a double. -/
def asF64 (n : Nat) : Nat := halfEven n (2 ^ (n.log2 - 52)) * 2 ^ (n.log2 - 52)

def fixed (tenThousandths : Nat) : String :=
  toString (tenThousandths / 10000) ++ "." ++
    String.ofList ((Nat.toDigits 10 (tenThousandths % 10000)).leftpad 4 '0')

/-- A double with four decimals. -/
def float4 (bits : UInt64) : String :=
  let sign := if bits.toNat < 2 ^ 63 then "" else "-"
  let exponent := bits.toNat / 2 ^ 52 % 2 ^ 11
  let fraction := bits.toNat % 2 ^ 52
  if exponent = 2047 then
    if fraction = 0 then sign ++ "inf" else "NaN"
  else if exponent = 0 then
    sign ++ fixed (halfEven (fraction * 10000) (2 ^ 1074))
  else
    sign ++ fixed (halfEven ((2 ^ 52 + fraction) * 10000 * 2 ^ exponent) (2 ^ 1075))

def cost : Option Json → String
  | some (.posInt n) => fixed (asF64 n.toNat * 10000)
  | some (.negInt n) => "-" ++ fixed (asF64 n.toInt.natAbs * 10000)
  | some (.float bits) => float4 bits
  | _ => fixed 0

/-! ## Messages -/

/-- What kinds of blocks a message holds and how big they are. -/
structure Tally where
  texts : Nat := 0
  bytes : Nat := 0
  tools : List String := []
  results : Nat := 0
  errors : Nat := 0
  other : Nat := 0

def resultSize : Option Json → Nat
  | some (.str s) => s.utf8ByteSize
  | some (.arr items) => (items.map fun item ↦ textSize (item.get "text")).sum
  | _ => 0

def Tally.block (tally : Tally) (block : Json) : Tally :=
  match Json.string (block.get "type") with
  | some "text" =>
    { tally with
      texts := tally.texts + 1
      bytes := tally.bytes + textSize (block.get "text") }
  | some "tool_use" => { tally with tools := tally.tools ++ [strOf block "name"] }
  | some "tool_result" =>
    { tally with
      results := tally.results + 1
      errors := tally.errors +
        if Json.boolean (block.get "is_error") = some true then 1 else 0
      bytes := tally.bytes + resultSize (block.get "content") }
  | _ => { tally with other := tally.other + 1 }

def tally : Option Json → Tally
  | some (.str s) => { texts := 1, bytes := s.utf8ByteSize }
  | some (.arr blocks) => blocks.foldl Tally.block {}
  | _ => {}

def part (holds : Bool) (text : String) : Option String := if holds = true then some text else none

/-- Never the texts of the blocks. -/
def message (role : String) (map : Json) : String :=
  let t := tally (content map)
  let failed := if 0 < t.errors then s!", {t.errors} failed" else ""
  let parts := [
    part (role = "user" ∧ personOf map) "channel",
    part (0 < t.texts) s!"{t.texts} text ({t.bytes} bytes)",
    part (t.tools ≠ []) ("tool_use " ++ ",".intercalate t.tools),
    part (0 < t.results) s!"{t.results} tool_result ({t.bytes} bytes{failed})",
    part (0 < t.other) s!"{t.other} other",
    (Json.string ((map.get "message").bind (Json.get "model"))).map ("model " ++ ·),
    (Json.string ((map.get "message").bind (Json.get "stop_reason"))).map ("stop " ++ ·),
    (contextOf map).bind fun context ↦
      part (role = "assistant" ∧ subagent map = false) s!"context {context}"]
  role ++ ": " ++ ", ".intercalate parts.reduceOption

def isError (map : Json) : Bool := (Json.boolean (map.get "is_error")).getD false

/-- The end of a turn, with the error's text when it failed. -/
def result (map : Json) : String :=
  let usage := (map.get "usage").getD .null
  let flag := if isError map = true then " ERROR" else ""
  let turns := numOf map "num_turns"
  let total := numOf map "duration_ms"
  let api := numOf map "duration_api_ms"
  let input := numOf usage "input_tokens"
  let output := numOf usage "output_tokens"
  let reads := numOf usage "cache_read_input_tokens"
  let writes := numOf usage "cache_creation_input_tokens"
  let line := "result " ++ strOf map "subtype" ++ flag ++
    s!": {turns} turns, {total} ms (api {api} ms), tokens in {input} out {output} " ++
    s!"cache read {reads} write {writes}, cost $" ++ cost (map.get "total_cost_usd")
  let origin := if channelOrigin map = true then ", channel turn" else ""
  let denials := lenOf map "permission_denials"
  let denied := if 0 < denials then s!", {denials} permission denials" else ""
  let error :=
    if isError map = true then
      (Json.string (map.get "result")).elim "" fun text ↦ "; " ++ shorten text 500
    else
      ""
  line ++ origin ++ denied ++ error

/-! ## System lines -/

def entries : Option Json → List (String × Json)
  | some (.obj fields) => fields
  | _ => []

/-- A scalar field or the size of a list.  A string stays only when it has no whitespace. -/
def systemPart (format : Format) (p : String × Json) : Option String :=
  if p.1 ∈ ["type", "subtype", "session_id", "uuid", "compact_metadata"] then
    none
  else
    match p.2 with
    | .str s =>
      part (s.toList.all fun c ↦ !Transfer.isWhitespace c) (p.1 ++ "=" ++ shorten s 200)
    | .posInt _ | .negInt _ | .float _ => some (p.1 ++ "=" ++ format.text p.2)
    | .bool b => some (p.1 ++ "=" ++ toString b)
    | .arr items => some (p.1 ++ "=" ++ toString items.length)
    | _ => none

def system (format : Format) (map : Json) : String :=
  let subtype := strOf map "subtype"
  let tools := lenOf map "tools"
  let servers := lenOf map "mcp_servers"
  let plugins := lenOf map "plugins"
  if subtype = "init" then
    "system init: session " ++ strOf map "session_id" ++ ", model " ++ strOf map "model" ++
      ", Claude Code " ++ strOf map "claude_code_version" ++ ", permission mode " ++
      strOf map "permissionMode" ++
      s!", {tools} tools, {servers} mcp servers, {plugins} plugins"
  else if subtype ∈ ["informational", "model_refusal_fallback", "model_refusal_no_fallback"] then
    -- every field as it came
    let parts := (entries (some map)).filterMap fun p ↦
      part (p.1 ∉ ["type", "subtype"]) (p.1 ++ "=" ++ format.text p.2)
    "system " ++ subtype ++ ": " ++ " ".intercalate parts
  else
    let nested := entries (map.get "compact_metadata")
    let parts := (entries (some map) ++ nested).filterMap (systemPart format)
    "system " ++ subtype ++ ": " ++ " ".intercalate parts

def systemEvent (map : Json) : Event :=
  match Json.string (map.get "subtype") with
  | some "init" => .init (strOf map "session_id") (strOf map "claude_code_version")
  | some "compact_boundary" =>
    .compacted
      (Json.string ((map.get "compact_metadata").bind (Json.get "trigger")) = some "auto")
  | some "status" =>
    match Json.string (map.get "compact_result") with
    | some result => if result ≠ "success" then .compactionFailed else .other
    | none => .other
  | some "background_tasks_changed" =>
    match map.get "tasks" with
    | some (.arr tasks) =>
      .backgroundTasks ((tasks.filter fun t ↦
        Json.boolean (t.get "ambient") ≠ some true).filterMap fun t ↦
          Json.string (t.get "task_id"))
    | _ => .backgroundTasks []
  | some "model_fallback" => .modelFallback (strOf map "trigger")
  | _ => .other

/-- An answer to a control request of the supervisor. -/
def controlResponse (map : Json) : String × Event :=
  let field := fun key ↦ (map.get "response").bind (Json.get key)
  let subtype := (Json.string (field "subtype")).getD "?"
  let requestId := (Json.string (field "request_id")).getD "?"
  let maxTokens :=
    if subtype = "success" then Json.u64 ((field "response").bind (Json.get "maxTokens")) else none
  let line := "control_response " ++ subtype ++ ": request_id=" ++ requestId ++
    maxTokens.elim "" (fun n ↦ s!" maxTokens={n}") ++
    (Json.string (field "error")).elim "" fun err ↦ "; " ++ shorten err 300
  (line, if requestId = "?" then .other else .contextUsage requestId maxTokens)

/-! ## Lines -/

def kind (map : Json) : String := strOf map "type"

def synthetic (map : Json) : Bool :=
  Json.string ((map.get "message").bind (Json.get "model")) = some "<synthetic>"

def readMap (format : Format) (map : Json) : String × Event :=
  match kind map with
  | "system" => (system format map, systemEvent map)
  | "assistant" =>
    (message "assistant" map, .assistant (subagent map) (contextOf map) (synthetic map))
  | "user" => (message "user" map, .user (personOf map))
  | "result" => (result map, .result (isError map) (channelOrigin map))
  | "stream_event" =>
    ("stream_event " ++ (Json.string ((map.get "event").bind (Json.get "type"))).getD "?", .other)
  | other =>
    if other = "control_response" ∧ (map.get "response").isSome = true then
      controlResponse map
    else
      (other ++ (Json.string (map.get "subtype")).elim "" (" " ++ ·), .other)

/-- `serde_json::from_str::<Value>`, whose objects are sorted maps. -/
def parse (format : Format) (line : String) : Option Json := (format.tree line).map Json.sorted

/-- The journal line and the event of one line of output.  A line that is no object passes
unchanged. -/
def read (format : Format) (line : String) : String × Event :=
  match parse format line with
  | some (.obj fields) => readMap format (.obj fields)
  | _ => (line, .other)

/-! ## What is left out -/

/-- Equal outside one field. -/
def AgreeBut (key : String) (v w : Json) : Prop := ∀ name, name ≠ key → v.get name = w.get name

/-- A text is replaced by one of the same size. -/
inductive SameText : Json → Json → Prop
  | same (v : Json) : SameText v v
  | text {s t : String} (h : s.utf8ByteSize = t.utf8ByteSize) : SameText (.str s) (.str t)

/-- A text or a list of items. -/
inductive SameContent (Item : Json → Json → Prop) : Json → Json → Prop
  | same (v : Json) : SameContent Item v v
  | text {s t : String} (h : s.utf8ByteSize = t.utf8ByteSize) :
    SameContent Item (.str s) (.str t)
  | items {vs ws : List Json} (h : List.Forall₂ Item vs ws) : SameContent Item (.arr vs) (.arr ws)

/-- An item of a tool's result, whose other fields may differ. -/
def SameItem (v w : Json) : Prop := Option.Rel SameText (v.get "text") (w.get "text")

inductive SameBlock : Json → Json → Prop
  | text {v w : Json} (hv : Json.string (v.get "type") = some "text")
    (hagree : AgreeBut "text" v w) (htext : Option.Rel SameText (v.get "text") (w.get "text")) :
    SameBlock v w
  | toolUse {v w : Json} (hv : Json.string (v.get "type") = some "tool_use")
    (hagree : AgreeBut "input" v w) : SameBlock v w
  | toolResult {v w : Json} (hv : Json.string (v.get "type") = some "tool_result")
    (hagree : AgreeBut "content" v w)
    (hcontent : Option.Rel (SameContent SameItem) (v.get "content") (w.get "content")) :
    SameBlock v w
  /-- Such as thinking. -/
  | other {v w : Json}
    (hv : ∀ name ∈ ["text", "tool_use", "tool_result"], Json.string (v.get "type") ≠ some name)
    (htype : v.get "type" = w.get "type") : SameBlock v w

structure SameMessage (v w : Json) : Prop where
  agree : AgreeBut "message" v w
  body : Option.Rel
    (fun m n ↦ AgreeBut "content" m n ∧
      Option.Rel (SameContent SameBlock) (m.get "content") (n.get "content"))
    (v.get "message") (w.get "message")

/-- Equal but for what the conversation holds. -/
inductive SameLine : Json → Json → Prop
  | assistant {v w : Json} (hv : kind v = "assistant") (h : SameMessage v w) : SameLine v w
  /-- The first texts give the same answer to whether they begin with the tag. -/
  | user {v w : Json} (hv : kind v = "user") (h : SameMessage v w)
    (htagged : (firstText (content v)).any tagged = (firstText (content w)).any tagged) :
    SameLine v w
  | result {v w : Json} (hv : kind v = "result") (hok : isError v = false)
    (hagree : AgreeBut "result" v w) : SameLine v w
  | streamEvent {v w : Json} (hv : kind v = "stream_event") (hagree : AgreeBut "event" v w)
    (hevent : Option.Rel (AgreeBut "delta") (v.get "event") (w.get "event")) : SameLine v w

theorem textSize_eq {o p : Option Json} (h : Option.Rel SameText o p) :
    textSize o = textSize p := by
  cases h with
  | none => rfl
  | some h =>
    cases h with
    | same v => rfl
    | text h => exact h

theorem resultSize_eq {o p : Option Json} (h : Option.Rel (SameContent SameItem) o p) :
    resultSize o = resultSize p := by
  cases h with
  | none => rfl
  | some h =>
    cases h with
    | same v => rfl
    | text h => exact h
    | items h =>
      show (List.map _ _).sum = (List.map _ _).sum
      congr 1
      induction h with
      | nil => rfl
      | cons hitem _ ih => rw [List.map_cons, List.map_cons, textSize_eq hitem, ih]

theorem Tally.block_eq (tally : Tally) {v w : Json} (h : SameBlock v w) :
    tally.block v = tally.block w := by
  cases h with
  | text hv hagree htext =>
    have hw : Json.string (w.get "type") = some "text" := by rw [← hagree "type" (by decide), hv]
    simp only [Tally.block, hv, hw, textSize_eq htext]
  | toolUse hv hagree =>
    have hw : Json.string (w.get "type") = some "tool_use" := by
      rw [← hagree "type" (by decide), hv]
    simp only [Tally.block, hv, hw, strOf, hagree "name" (by decide)]
  | toolResult hv hagree hcontent =>
    have hw : Json.string (w.get "type") = some "tool_result" := by
      rw [← hagree "type" (by decide), hv]
    simp only [Tally.block, hv, hw, hagree "is_error" (by decide), resultSize_eq hcontent]
  | other hv htype =>
    -- only the kind of the block is read
    simp only [List.forall_mem_cons] at hv
    obtain ⟨htext, huse, hresult, -⟩ := hv
    have hcounted : ∀ block, Json.string (block.get "type") ≠ some "text" →
        Json.string (block.get "type") ≠ some "tool_use" →
        Json.string (block.get "type") ≠ some "tool_result" →
        tally.block block = { tally with other := tally.other + 1 } := by
      intro block htext huse hresult
      rw [Tally.block]
      split
      · next heq => exact absurd heq htext
      · next heq => exact absurd heq huse
      · next heq => exact absurd heq hresult
      · rfl
    rw [hcounted v htext huse hresult]
    rw [htype] at htext huse hresult
    rw [hcounted w htext huse hresult]

theorem tally_eq {o p : Option Json} (h : Option.Rel (SameContent SameBlock) o p) :
    tally o = tally p := by
  cases h with
  | none => rfl
  | some h =>
    cases h with
    | same v => rfl
    | text h => simp only [tally, h]
    | items h =>
      show List.foldl _ _ _ = List.foldl _ _ _
      generalize ({} : Tally) = t
      induction h generalizing t with
      | nil => rfl
      | cons hblock _ ih => rw [List.foldl_cons, List.foldl_cons, t.block_eq hblock, ih]

theorem rel_bind {α β : Type} {R : α → α → Prop} {S : β → β → Prop} {o p : Option α}
    {f g : α → Option β} (h : Option.Rel R o p) (hfg : ∀ a b, R a b → Option.Rel S (f a) (g b)) :
    Option.Rel S (o.bind f) (p.bind g) := by
  cases h with
  | none => exact .none
  | some h => exact hfg _ _ h

theorem bind_eq {α β : Type} {R : α → α → Prop} {o p : Option α} {f g : α → Option β}
    (h : Option.Rel R o p) (hfg : ∀ a b, R a b → f a = g b) : o.bind f = p.bind g := by
  cases h with
  | none => rfl
  | some h => exact hfg _ _ h

section

variable {v w : Json}

theorem AgreeBut.strOf {key : String} (h : AgreeBut key v w) {name : String} (hne : name ≠ key) :
    strOf v name = strOf w name := by
  rw [Stream.strOf, h name hne, Stream.strOf]

theorem AgreeBut.channelOrigin {key : String} (h : AgreeBut key v w) (hne : "origin" ≠ key) :
    channelOrigin v = channelOrigin w := by
  rw [Stream.channelOrigin, h "origin" hne, Stream.channelOrigin]

theorem SameMessage.content (h : SameMessage v w) :
    Option.Rel (SameContent SameBlock) (content v) (content w) :=
  rel_bind h.body fun _ _ h ↦ h.2

/-- The other fields of the message. -/
theorem SameMessage.field (h : SameMessage v w) {name : String} (hne : name ≠ "content") :
    (v.get "message").bind (Json.get name) = (w.get "message").bind (Json.get name) :=
  bind_eq h.body fun _ _ h ↦ h.1 name hne

theorem SameMessage.subagent (h : SameMessage v w) : subagent v = subagent w := by
  rw [Stream.subagent, h.agree "parent_tool_use_id" (by decide), Stream.subagent]

theorem SameMessage.contextOf (h : SameMessage v w) : contextOf v = contextOf w := by
  rw [Stream.contextOf, h.field (by decide), Stream.contextOf]

theorem SameMessage.synthetic (h : SameMessage v w) : synthetic v = synthetic w := by
  rw [Stream.synthetic, h.field (by decide), Stream.synthetic]

theorem SameMessage.line (h : SameMessage v w) {role : String}
    (hperson : role = "user" → personOf v = personOf w) :
    message role v = message role w := by
  have hchannel : (role = "user" ∧ personOf v = true) ↔ (role = "user" ∧ personOf w = true) :=
    and_congr_right fun hrole ↦ by rw [hperson hrole]
  simp only [message, tally_eq h.content, h.field (show "model" ≠ "content" by decide),
    h.field (show "stop_reason" ≠ "content" by decide), h.contextOf, h.subagent, hchannel]

/-- The error's text is the only field of a result that is read as a text. -/
theorem result_eq (hok : isError v = false) (h : AgreeBut "result" v w) : result v = result w := by
  have herror : isError w = false := by
    rw [← hok, isError, isError, h "is_error" (by decide)]
  have hnum : ∀ name ≠ "result", numOf v name = numOf w name := fun name hne ↦ by
    rw [numOf, h name hne, numOf]
  have hdenials : lenOf v "permission_denials" = lenOf w "permission_denials" := by
    rw [lenOf, h "permission_denials" (by decide), lenOf]
  unfold result
  rw [hok, herror, h.strOf (show "subtype" ≠ "result" by decide), hnum "num_turns" (by decide),
    hnum "duration_ms" (by decide), hnum "duration_api_ms" (by decide), h "usage" (by decide),
    h "total_cost_usd" (by decide), h.channelOrigin (by decide), hdenials]
  rfl

end

theorem readMap_eq (format : Format) {v w : Json} (h : SameLine v w) :
    readMap format v = readMap format w := by
  cases h with
  | assistant hv h =>
    have hw : kind w = "assistant" := by rw [← hv, kind, kind, h.agree.strOf (by decide)]
    have hline : message "assistant" v = message "assistant" w := h.line (absurd · (by decide))
    simp only [readMap, hv, hw, hline, h.subagent, h.contextOf, h.synthetic]
  | user hv h htagged =>
    have hw : kind w = "user" := by rw [← hv, kind, kind, h.agree.strOf (by decide)]
    have hperson : personOf v = personOf w := by
      rw [personOf, htagged, h.agree.channelOrigin (by decide), personOf]
    simp only [readMap, hv, hw, h.line fun _ ↦ hperson, hperson]
  | result hv hok hagree =>
    have hw : kind w = "result" := by rw [← hv, kind, kind, hagree.strOf (by decide)]
    have herror : isError v = isError w := by
      rw [isError, hagree "is_error" (by decide), isError]
    simp only [readMap, hv, hw, result_eq hok hagree, herror, hagree.channelOrigin (by decide)]
  | streamEvent hv hagree hevent =>
    have hw : kind w = "stream_event" := by rw [← hv, kind, kind, hagree.strOf (by decide)]
    have htype : (v.get "event").bind (Json.get "type") =
        (w.get "event").bind (Json.get "type") := by
      exact bind_eq hevent fun _ _ h ↦ h "type" (by decide)
    simp only [readMap, hv, hw, htype]

/-- No value has a kind that only an object can have. -/
theorem read_eq_readMap {format : Format} {line : String} {v : Json}
    (hparse : parse format line = some v) (hkind : kind v ≠ "?") :
    read format line = readMap format v := by
  cases v with
  | obj fields => rw [read, hparse]
  | _ => exact absurd rfl hkind

theorem SameLine.kind_ne {v w : Json} (h : SameLine v w) : kind v ≠ "?" ∧ kind w ≠ "?" := by
  have hsame : kind v = kind w ∧ kind v ≠ "?" := by
    cases h with
    | assistant hv h => exact ⟨h.agree.strOf (by decide), by rw [hv]; decide⟩
    | user hv h => exact ⟨h.agree.strOf (by decide), by rw [hv]; decide⟩
    | result hv _ h => exact ⟨h.strOf (by decide), by rw [hv]; decide⟩
    | streamEvent hv h => exact ⟨h.strOf (by decide), by rw [hv]; decide⟩
  exact ⟨hsame.2, hsame.1 ▸ hsame.2⟩

theorem read_congr {format : Format} {line line' : String} {v w : Json}
    (hline : parse format line = some v) (hline' : parse format line' = some w)
    (h : SameLine v w) : read format line = read format line' := by
  rw [read_eq_readMap hline h.kind_ne.1, read_eq_readMap hline' h.kind_ne.2, readMap_eq format h]

/-- The journal's line depends on no text of the conversation but for its size. -/
theorem read_eq_of_sameLine {format : Format} {line line' : String} {v w : Json}
    (hline : parse format line = some v) (hline' : parse format line' = some w)
    (h : SameLine v w) : (read format line).1 = (read format line').1 := by
  rw [read_congr hline hline' h]

theorem parse_written {format : Format} {serde : ClientLines.Serde} (hlawful : format.Lawful serde)
    {value : Json} (hwithin : value.Within recursionLimit) :
    parse format (format.text value) = some value.sorted := by
  rw [parse, hlawful.tree_text value hwithin, Option.map_some]

/-- A message of the model that names a file. -/
def saying (text file : String) : Json :=
  .obj [("message", .obj [("content", .arr [.obj [("text", .str text), ("type", .str "text")],
    .obj [("input", .str file), ("name", .str "Read"), ("type", .str "tool_use")]])]),
    ("type", .str "assistant")]

theorem parse_saying (text file : String) :
    parse compact (compact.text (saying text file)) = some (saying text file) := by
  have hwithin : (saying text file).Within recursionLimit := by
    simp [saying, recursionLimit, Json.Within]
  have hkeys : ∀ key ∈ ["message", "text", "input", "name"], ¬"type" < key ∧ "type" ≠ key := by
    decide
  simp only [List.forall_mem_cons] at hkeys
  have hsorted : (saying text file).sorted = saying text file := by
    simp [saying, Json.sorted, Json.sortedValues, Json.sortedEntries, Json.ofEntries,
      Json.insertKey, hkeys, show ¬"name" < "input" by decide]
  rw [parse_written compact_lawful hwithin, hsorted]

theorem agreeBut_cons (key : String) (v w : Json) (fields : List (String × Json)) :
    AgreeBut key (.obj ((key, v) :: fields)) (.obj ((key, w) :: fields)) := by
  intro name hne
  show List.lookup name _ = List.lookup name _
  rw [Json.lookup_cons_of_ne hne, Json.lookup_cons_of_ne hne]

/-- Another text of three bytes, and another file. -/
theorem read_eq_of_sameLine_saying :
    (read compact (compact.text (saying "yes" "/a"))).1 =
      (read compact (compact.text (saying "no." "/etc/b"))).1 :=
  read_eq_of_sameLine (parse_saying "yes" "/a") (parse_saying "no." "/etc/b")
    (.assistant rfl
      { agree := agreeBut_cons "message" _ _ _
        body := .some ⟨agreeBut_cons "content" _ _ _, .some (.items (.cons
          (.text rfl (agreeBut_cons "text" _ _ _) (.some (.text rfl)))
          (.cons (.toolUse rfl (agreeBut_cons "input" _ _ _)) .nil)))⟩ })

end Stream

end Silta
