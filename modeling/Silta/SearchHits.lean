import Mathlib.Data.String.Basic
import Silta.History
import Silta.JsonObjects

/-!
# Search hits

The line that the plugin shows of a message of the history: a long text is cut to a window around
its first match.  The search counts the characters before a match, the plugin subtracts from that
count, and the match is still in the window.
-/

namespace Silta

namespace History

open ClientLines

/-! ## The line of a message -/

/-- In characters. -/
def historyTextChars : Nat := 300

/-- A subtraction of `usize`, which fails below zero. -/
def checkedSub (a b : Nat) : Option Nat := if b ≤ a then some (a - b) else none

/-- Where the window begins: at the match with some of the text before it, or at the start. -/
def windowStart (matchStart : Option Nat) (chars max : Nat) : Option Nat :=
  match matchStart with
  | some found => (checkedSub chars max).map fun last ↦ min (found - max / 3) last
  | none => some 0

/-- A window of a text, with the numbers of characters that it leaves out. -/
def bracketed (start : Nat) (window : String) (after : Nat) : String :=
  (if 0 < start then s!"[{start} characters] …" else "") ++ window ++
    (if 0 < after then s!"… [{after} more characters]" else "")

/-- `none` is an underflow. -/
def shownText (m : HistoryMessage) (maxChars : Option Nat) : Option String :=
  let chars := m.text.length
  match maxChars.filter fun max ↦ max < chars with
  | some max => do
    let start ← windowStart m.matchStart chars max
    let window := String.ofList ((m.text.toList.drop start).take max)
    let rest ← checkedSub chars start
    let after ← checkedSub rest max
    some (bracketed start window after)
  | none => some m.text

def lineFields (m : HistoryMessage) (text : String) : List (String × Option Json) := [
  ("event_id", some (.str m.eventId)),
  ("own", Json.ifTrue m.own),
  ("person", if m.own = true then none else m.person.map .str),
  ("ts", some (.str m.ts)),
  ("in_reply_to", m.inReplyTo.map .str),
  ("thread", m.thread.map .str),
  ("text", some (.str text)),
  ("attachments",
    if m.attachments = [] then none
    else some (.arr (m.attachments.map fun a ↦ .str s!"{a.name} ({a.mime}, {a.size} bytes)")))]

/-- One history message for the model, as the sorted object that its line holds; `maxChars` shortens
the text. -/
def historyLine (m : HistoryMessage) (maxChars : Option Nat) : Option Json :=
  (shownText m maxChars).map fun text ↦
    .obj (Json.ofEntries ((lineFields m text).filterMap fun p ↦ p.2.map (p.1, ·)))

/-! ## The window -/

theorem checkedSub_of_le {a b : Nat} (h : b ≤ a) : checkedSub a b = some (a - b) := if_pos h

theorem get_text_historyLine (m : HistoryMessage) (maxChars : Option Nat) :
    (historyLine m maxChars).bind (Json.get "text") = (shownText m maxChars).map .str := by
  unfold historyLine
  cases shownText m maxChars with
  | none => rfl
  | some text =>
    have hkeys : ((lineFields m text).map Prod.fst).Nodup := by
      show ["event_id", "own", "person", "ts", "in_reply_to", "thread", "text",
        "attachments"].Nodup
      decide
    have hsub : (((lineFields m text).filterMap fun p ↦ p.2.map (p.1, ·)).map Prod.fst).Nodup :=
      hkeys.sublist (Json.keys_sublist _)
    rw [Option.map_some, Option.bind_some, Option.map_some]
    show (Json.ofEntries _).lookup "text" = _
    rw [Json.lookup_ofEntries hsub, Json.lookup_filterMap hkeys]
    rfl

/-- How a window of `max` characters lies in a text. -/
structure Window (text : String) (max skipped after : Nat) (window : List Char) : Prop where
  eq : window = (text.toList.drop skipped).take max
  length : window.length = max
  total : skipped + max + after = text.length

theorem window_of_le {text : String} {max skipped : Nat} (h : skipped + max ≤ text.length) :
    Window text max skipped (text.length - skipped - max)
      ((text.toList.drop skipped).take max) where
  eq := rfl
  length := by
    rw [List.length_take, List.length_drop, String.length_toList]
    omega
  total := by omega

/-- A character at most `max` after the skipped ones is in the window. -/
theorem Window.getElem? {text : String} {max skipped after : Nat} {window : List Char}
    (h : Window text max skipped after window) {i : Nat} (hle : skipped ≤ i)
    (hlt : i < skipped + max) : window[i - skipped]? = text.toList[i]? := by
  rw [h.eq, List.getElem?_take_of_lt (by omega), List.getElem?_drop]
  congr 1
  omega

theorem windowStart_some {found chars max : Nat} (h : max ≤ chars) :
    windowStart (some found) chars max = some (min (found - max / 3) (chars - max)) := by
  rw [windowStart, checkedSub_of_le h]
  rfl

/-- Wherever the match is said to be, the window fits into the text. -/
theorem exists_windowStart (matchStart : Option Nat) {chars max : Nat} (h : max ≤ chars) :
    ∃ start, windowStart matchStart chars max = some start ∧ start + max ≤ chars := by
  cases matchStart with
  | none => exact ⟨0, rfl, by omega⟩
  | some found => exact ⟨_, windowStart_some h, by omega⟩

theorem shownText_of_le {m : HistoryMessage} {max : Nat} (h : m.text.length ≤ max) :
    shownText m (some max) = some m.text := by
  unfold shownText
  dsimp only
  rw [Option.filter_some, if_neg (by simpa using h)]

theorem shownText_of_lt {m : HistoryMessage} {max start : Nat} (h : max < m.text.length)
    (hstart : windowStart m.matchStart m.text.length max = some start)
    (hle : start + max ≤ m.text.length) :
    shownText m (some max) = some (bracketed start
      (String.ofList ((m.text.toList.drop start).take max)) (m.text.length - start - max)) := by
  unfold shownText
  dsimp only
  rw [Option.filter_some, if_pos (by simpa using h)]
  dsimp only
  rw [hstart]
  show (checkedSub m.text.length start).bind _ = _
  rw [checkedSub_of_le (by omega)]
  show (checkedSub (m.text.length - start) max).bind _ = _
  rw [checkedSub_of_le (by omega)]
  rfl

theorem isSome_shownText (m : HistoryMessage) (maxChars : Option Nat) :
    (shownText m maxChars).isSome = true := by
  cases maxChars with
  | none => rfl
  | some max =>
    by_cases hlt : max < m.text.length
    · obtain ⟨start, hstart, hle⟩ := exists_windowStart m.matchStart hlt.le
      rw [shownText_of_lt hlt hstart hle]
      rfl
    · rw [shownText_of_le (Nat.not_lt.mp hlt)]
      rfl

theorem isSome_historyLine (m : HistoryMessage) (maxChars : Option Nat) :
    (historyLine m maxChars).isSome = true := by
  rw [historyLine, Option.isSome_map]
  exact isSome_shownText m maxChars

/-! ## The match -/

/-- What `regex` promises of a match: it starts between two characters of the text. -/
def OnBoundaries (regex : Regex) : Prop :=
  ∀ text start, regex text = some start → start.IsValid text

/-- A place between two characters, and what is before it. -/
theorem extract_of_isValid {text : String} {start : String.Pos.Raw} (h : start.IsValid text) :
    ∃ rest, text.toList = (String.Pos.Raw.extract text 0 start).toList ++ rest ∧
      start.get text = rest.headD default := by
  obtain ⟨before, after, rfl, rfl⟩ := String.Pos.Raw.isValid_iff_exists_append.mp h
  have hend : before.rawEndPos = ⟨String.utf8Len before.toList⟩ := by
    ext
    rw [String.byteIdx_rawEndPos, String.utf8Len_toList]
  have htext : before ++ after = String.ofList (before.toList ++ after.toList) := by
    rw [String.ofList_append, String.ofList_toList, String.ofList_toList]
  have hextract := String.extract_of_valid [] before.toList after.toList
  rw [List.nil_append, ← htext, String.utf8Len_nil, Nat.zero_add, String.ofList_toList] at hextract
  refine ⟨after.toList, ?_, ?_⟩
  · rw [hend, String.toList_append]
    congr 2
    exact hextract.symm
  · rw [hend, htext]
    exact String.get_of_valid before.toList after.toList

/-- The character at which a match begins is the one that its count points to. -/
theorem getElem?_of_isValid {text : String} {start : String.Pos.Raw} (h : start.IsValid text)
    (hlt : (String.Pos.Raw.extract text 0 start).length < text.length) :
    text.toList[(String.Pos.Raw.extract text 0 start).length]? = some (start.get text) := by
  obtain ⟨rest, htext, hget⟩ := extract_of_isValid h
  cases rest with
  | nil =>
    rw [List.append_nil, String.toList_inj] at htext
    rw [← htext] at hlt
    exact absurd hlt (Nat.lt_irrefl _)
  | cons c cs =>
    rw [htext, ← String.length_toList, List.getElem?_append_right (le_refl _), Nat.sub_self,
      List.getElem?_cons_zero, hget]
    rfl

/-- How a message is shown in which a search found a match that begins at `start`: whole, or with a
window that holds the place. -/
structure ShowsHit (start : String.Pos.Raw) (max : Nat) (hit : HistoryMessage) : Prop where
  matchStart : hit.matchStart = some (String.Pos.Raw.extract hit.text 0 start).length
  whole : hit.text.length ≤ max →
    (historyLine hit (some max)).bind (Json.get "text") = some (.str hit.text)
  window : max < hit.text.length → ∃ skipped after window,
    (historyLine hit (some max)).bind (Json.get "text") =
      some (.str (bracketed skipped (String.ofList window) after)) ∧
    Window hit.text max skipped after window ∧
    ∃ i < max, skipped + i = (String.Pos.Raw.extract hit.text 0 start).length ∧
      window[i]? = some (start.get hit.text)

theorem showsHit {hit : HistoryMessage} {start : String.Pos.Raw} {max : Nat}
    (hvalid : start.IsValid hit.text)
    (hmatch : hit.matchStart = some (String.Pos.Raw.extract hit.text 0 start).length)
    (hfound : (String.Pos.Raw.extract hit.text 0 start).length < hit.text.length)
    (hmax : 1 ≤ max) : ShowsHit start max hit where
  matchStart := hmatch
  whole hle := by
    rw [get_text_historyLine, shownText_of_le hle]
    rfl
  window hlt := by
    have hplace := getElem?_of_isValid hvalid hfound
    generalize (String.Pos.Raw.extract hit.text 0 start).length = found at *
    let skipped := min (found - max / 3) (hit.text.length - max)
    have hbegin : windowStart hit.matchStart hit.text.length max = some skipped := by
      rw [hmatch, windowStart_some hlt.le]
    have hfits : skipped + max ≤ hit.text.length := by omega
    have hwindow := window_of_le hfits
    -- a third of the limit stands before the match, unless the text ends too soon after it
    have hfrom : skipped ≤ found := by omega
    have hto : found < skipped + max := by omega
    refine ⟨skipped, hit.text.length - skipped - max, (hit.text.toList.drop skipped).take max, ?_,
      hwindow, found - skipped, by omega, by omega, ?_⟩
    · rw [get_text_historyLine, shownText_of_lt hlt hbegin hfits]
      rfl
    · rw [hwindow.getElem? hfrom hto]
      exact hplace

theorem searchKeep_of_some {regex : Regex} {m : HistoryMessage} {start : String.Pos.Raw}
    (h : regex m.text = some start) :
    searchKeep regex m = ({ m with
      matchStart := some (String.Pos.Raw.extract m.text 0 start).length }, true) := by
  simp only [searchKeep, h]

/-- A hit of a search is always shown, and no message of the history underflows. -/
theorem shows_hit {regex : Regex} (hregex : OnBoundaries regex) :
    (∀ m maxChars, (historyLine m maxChars).isSome = true) ∧
    ∀ (m : HistoryMessage) (start : String.Pos.Raw) (max : Nat), regex m.text = some start →
      (String.Pos.Raw.extract m.text 0 start).length < m.text.length → 1 ≤ max →
        ShowsHit start max (searchKeep regex m).1 := by
  refine ⟨isSome_historyLine, fun m start max hstart hfound hmax ↦ ?_⟩
  have hhit := searchKeep_of_some hstart
  rw [hhit]
  exact showsHit (hregex m.text start hstart) rfl hfound hmax

/-- A search for one character. -/
def charRegex (c : Char) : Regex := fun text ↦
  if c ∈ text.toList then some ⟨String.utf8Len (text.toList.takeWhile (· ≠ c))⟩ else none

theorem onBoundaries_charRegex (c : Char) : OnBoundaries (charRegex c) := by
  intro text start h
  unfold charRegex at h
  split at h
  · cases h
    apply String.Pos.Raw.isValid_iff_exists_append.mpr
    refine ⟨String.ofList (text.toList.takeWhile (· ≠ c)),
      String.ofList (text.toList.dropWhile (· ≠ c)), ?_, ?_⟩
    · rw [← String.ofList_append, List.takeWhile_append_dropWhile, String.ofList_toList]
    · ext
      rw [String.byteIdx_rawEndPos, String.utf8ByteSize_ofList]
  · cases h

/-- Six bytes stand before the match, which are three characters. -/
def needle : HistoryMessage :=
  { eventId := "$1", sender := "@bob:silta.test", person := some "Bob", role := none, own := false,
    ts := "t", inReplyTo := none, thread := none, text := "жжжnж", matchStart := none,
    attachments := [] }

theorem shows_hit_needle : ShowsHit ⟨6⟩ 2 (searchKeep (charRegex 'n') needle).1 :=
  (shows_hit (onBoundaries_charRegex 'n')).2 needle ⟨6⟩ 2 (by decide +kernel) (by decide +kernel)
    (by decide)

example : shownText (searchKeep (charRegex 'n') needle).1 (some 2) =
    some "[3 characters] …nж" := by
  decide +kernel

/-! ## A whole search -/

namespace Room

variable {C : Type} {room : Room C} {keep : HistoryMessage → HistoryMessage × Bool}
  {P : HistoryMessage → Prop}

theorem forall_mem_readEvent (hkeep : ∀ m, (keep m).2 = true → P (keep m).1) {scan : Scan}
    (hscan : ∀ m ∈ scan.messages, P m) (event : TimelineEvent C) :
    ∀ m ∈ (room.readEvent keep scan event).messages, P m := by
  intro m hm
  rcases List.mem_append.mp hm with hm | hm
  · exact hscan m hm
  · obtain ⟨message, -, hkept⟩ := Option.bind_eq_some_iff.mp (Option.mem_toList.mp hm)
    split at hkept
    · next hyes =>
      cases hkept
      exact hkeep message hyes
    · cases hkept

theorem forall_mem_chunk (hkeep : ∀ m, (keep m).2 = true → P (keep m).1)
    (chunk : List (TimelineEvent C)) {scan : Scan} (hscan : ∀ m ∈ scan.messages, P m) :
    ∀ m ∈ (chunk.foldl (room.readEvent keep) scan).messages, P m := by
  induction chunk generalizing scan with
  | nil => exact hscan
  | cons event chunk ih => exact ih (forall_mem_readEvent hkeep hscan event)

/-- What `keep` makes of a message holds of all that a scan collects. -/
theorem forall_mem_scanPages (hkeep : ∀ m, (keep m).2 = true → P (keep m).1)
    {pageSize wanted left : Nat} {«from» : Option String} {scan after : Scan}
    (h : room.scanPages pageSize wanted keep left «from» scan = .ok after)
    (hscan : ∀ m ∈ scan.messages, P m) : ∀ m ∈ after.messages, P m := by
  fun_induction scanPages room pageSize wanted keep left «from» scan with
  | case1 => cases h
  | case2 left «from» scan page =>
    cases h
    exact forall_mem_chunk hkeep page.chunk hscan
  | case3 left «from» scan page =>
    cases h
    exact forall_mem_chunk hkeep page.chunk hscan
  | case4 left «from» scan page =>
    cases h
    exact forall_mem_chunk hkeep page.chunk hscan
  | case5 «from» scan page =>
    cases h
    exact forall_mem_chunk hkeep page.chunk hscan
  | case6 «from» scan page hpage _ token hend hchunk hwanted left ih =>
    -- the scan goes on with what this page has added
    exact ih h (forall_mem_chunk hkeep page.chunk hscan)

end Room

/-- The message says how many characters stand before the first match in its text. -/
def Counted (regex : Regex) (m : HistoryMessage) : Prop :=
  ∀ start, regex m.text = some start →
    m.matchStart = some (String.Pos.Raw.extract m.text 0 start).length

theorem counted_searchKeep (regex : Regex) (m : HistoryMessage) :
    Counted regex (searchKeep regex m).1 := by
  intro start hstart
  cases hm : regex m.text with
  | some first =>
    rw [searchKeep_of_some hm] at hstart ⊢
    obtain rfl : first = start := Option.some.inj (hm.symm.trans hstart)
    rfl
  | none =>
    -- at most an attachment matched, and the text is as it was
    simp only [searchKeep, hm] at hstart
    cases hstart

/-- Whatever a search answers with is shown at its match, if its text holds one. -/
theorem shows_search {C : Type} {readableRoom : String → Except Fail (Room C)}
    {build : String → Except String Regex} {regex : Regex} {cmd : SearchMessages} {scan : Scan}
    (hbuild : build cmd.pattern = .ok regex) (hregex : OnBoundaries regex)
    (h : doSearchMessages readableRoom build cmd = .ok scan) {hit : HistoryMessage}
    (hhit : hit ∈ scan.messages) {start : String.Pos.Raw} (hstart : regex hit.text = some start)
    (hfound : (String.Pos.Raw.extract hit.text 0 start).length < hit.text.length) {max : Nat}
    (hmax : 1 ≤ max) : ShowsHit start max hit := by
  unfold doSearchMessages at h
  rw [hbuild] at h
  cases hroom : readableRoom cmd.roomId with
  | error e =>
    rw [hroom] at h
    cases h
  | ok room =>
    rw [hroom] at h
    have hscan : room.scanHistory cmd.from searchPage (clampLimit cmd.limit) searchMaxPages
      (searchKeep regex) = .ok scan := h
    have hall : ∀ m ∈ scan.messages, Counted regex m :=
      Room.forall_mem_scanPages (fun m _ ↦ counted_searchKeep regex m) hscan nofun
    exact showsHit (hregex hit.text start hstart) (hall hit hhit start hstart) hfound hmax

end History

end Silta
