import Silta.Lib.Lines
import Silta.Wire

/-!
# The line reader

Both sides read lines off a socket in whatever pieces it gives them, and a call that waits may be
dropped and made again.  The results are those of splitting the whole stream at once.
-/

namespace Silta

namespace LineReader

open ClientLines (LineError)

open Lines (lines)

abbrev Bytes := List UInt8

def lf : UInt8 := 10

def cr : UInt8 := 13

/-- One carriage return goes. -/
def finish (bytes : Bytes) : Except LineError String :=
  let bytes := if bytes.getLast? = some cr then bytes.dropLast else bytes
  match String.fromUTF8? bytes.toByteArray with
  | some line => .ok line
  | none => .error .utf8

structure Reader (max : Nat) where
  /-- What was read and is not consumed. -/
  available : Bytes
  /-- The partial line. -/
  buf : Bytes
  fits : buf.length ≤ max
  noBreak : lf ∉ buf

/-- How far a call comes with what is there. -/
inductive Poll (max : Nat)
  | ready (result : Except LineError String) (reader : Reader max)
  | pending (reader : Reader max)

/-- What a call that waits comes to. -/
inductive Wake
  | read (bytes : Bytes) (some : bytes ≠ [])
  | dropped

namespace Reader

variable {max : Nat}

def withMax (max : Nat) : Reader max := ⟨[], [], Nat.zero_le max, by simp⟩

/-- The loop of a call, up to where it waits for more. -/
def poll (r : Reader max) : Poll max :=
  if hmem : lf ∈ r.available then
    let line := r.available.takeWhile (· ≠ lf)
    if max < r.buf.length + line.length then
      .ready (.error .tooLong) r
    else
      .ready (finish (r.buf ++ line))
        ⟨r.available.drop (line.length + 1), [], Nat.zero_le max, List.not_mem_nil⟩
  else if hfits : max < r.buf.length + r.available.length then
    .ready (.error .tooLong) r
  else
    .pending ⟨[], r.buf ++ r.available, by simpa using hfits, by simpa using ⟨r.noBreak, hmem⟩⟩

/-- At the end of the stream. -/
def atEnd (r : Reader max) : Except LineError (Option String) × Reader max :=
  if r.buf = [] then
    (.ok none, r)
  else
    ((finish r.buf).map some, ⟨r.available, [], Nat.zero_le max, List.not_mem_nil⟩)

/-- One call: its result, or none if it is dropped, and what is still to come of the stream. -/
def nextLine (r : Reader max) :
    List Wake → Option (Except LineError (Option String)) × Reader max × List Wake
  | [] =>
    match r.poll with
    | .ready result r => (some (result.map some), r, [])
    | .pending r => (some r.atEnd.1, r.atEnd.2, [])
  | .dropped :: wakes =>
    match r.poll with
    | .ready result r => (some (result.map some), r, .dropped :: wakes)
    | .pending r => (none, r, wakes)
  | .read bytes hsome :: wakes =>
    match r.poll with
    | .ready result r => (some (result.map some), r, .read bytes hsome :: wakes)
    | .pending r => nextLine { r with available := bytes } wakes

end Reader

/-- The bytes of a stream that is yet to come. -/
def Wake.bytes : Wake → Bytes
  | .read bytes _ => bytes
  | .dropped => []

def streamOf (wakes : List Wake) : Bytes := wakes.flatMap Wake.bytes

/-- The one-shot result of a line. -/
def outcome (max : Nat) (line : Bytes) : Except LineError String :=
  if max < line.length then .error .tooLong else finish line

/-- The results of reading one after another, up to the first error or the end. -/
def upToError : List (Except LineError String) → List (Except LineError (Option String))
  | [] => [.ok none]
  | .error err :: _ => [.error err]
  | .ok line :: rest => .ok (some line) :: upToError rest

/-- The plain split of a stream. -/
def plainSplit (max : Nat) (bytes : Bytes) : List (Except LineError (Option String)) :=
  upToError ((lines lf bytes).map (outcome max))

/-! ## One call -/

namespace Reader

variable {max : Nat}

/-- The bytes that a reader has, and that come after. -/
def ahead (r : Reader max) (wakes : List Wake) : Bytes := r.buf ++ r.available ++ streamOf wakes

/-- What a call does to the stream. -/
inductive Takes (r : Reader max) (wakes : List Wake) :
    Option (Except LineError (Option String)) × Reader max × List Wake → Prop
  | dropped (r' : Reader max) (wakes' : List Wake) (hahead : r'.ahead wakes' = r.ahead wakes)
      (hfewer : wakes'.length < wakes.length) : Takes r wakes (none, r', wakes')
  | tooLong (r' : Reader max) (wakes' : List Wake) (line : Bytes) (rest : List Bytes)
      (hlines : lines lf (r.ahead wakes) = line :: rest) (hlong : max < line.length) :
      Takes r wakes (some (.error .tooLong), r', wakes')
  | line (r' : Reader max) (wakes' : List Wake) (line : Bytes)
      (hlines : lines lf (r.ahead wakes) = line :: lines lf (r'.ahead wakes'))
      (hfits : line.length ≤ max)
      (hfewer : (r'.ahead wakes').length + wakes'.length < (r.ahead wakes).length + wakes.length) :
      Takes r wakes (some ((finish line).map some), r', wakes')
  | «end» (r' : Reader max) (wakes' : List Wake) (hahead : r.ahead wakes = []) :
      Takes r wakes (some (.ok none), r', wakes')

/-- A read in between changes nothing. -/
theorem Takes.after {r r' : Reader max} {wake : Wake} {wakes : List Wake}
    {out : Option (Except LineError (Option String)) × Reader max × List Wake}
    (h : Takes r' wakes out) (hahead : r'.ahead wakes = r.ahead (wake :: wakes)) :
    Takes r (wake :: wakes) out := by
  cases h with
  | dropped s ws hsame hfewer =>
    exact .dropped s ws (hsame.trans hahead) (Nat.lt_succ_of_lt hfewer)
  | tooLong s ws line rest hlines hlong => exact .tooLong s ws line rest (hahead ▸ hlines) hlong
  | line s ws line hlines hfits hfewer =>
    refine .line s ws line (hahead ▸ hlines) hfits ?_
    rw [← hahead, List.length_cons]
    omega
  | «end» s ws hempty => exact .end s ws (hahead ▸ hempty)

theorem takeWhile_append_drop {bytes : Bytes} (h : lf ∈ bytes) :
    bytes = bytes.takeWhile (· ≠ lf) ++
      lf :: bytes.drop ((bytes.takeWhile (· ≠ lf)).length + 1) := by
  induction bytes with
  | nil => cases h
  | cons b bytes ih =>
    by_cases hb : b = lf
    · simp [hb]
    · have hmem : lf ∈ bytes := (List.mem_cons.mp h).resolve_left (Ne.symm hb)
      simpa [hb] using ih hmem

/-- What there is may make a line, or too much of one. -/
theorem poll_cases (r : Reader max) (wakes : List Wake) :
    (∃ result r', r.poll = .ready result r' ∧
        Takes r wakes (some (result.map some), r', wakes)) ∨
      ∃ r', r.poll = .pending r' ∧ r'.available = [] ∧ r'.ahead wakes = r.ahead wakes := by
  unfold poll
  split
  next hmem =>
    left
    have hno : lf ∉ r.buf ++ r.available.takeWhile (· ≠ lf) := by
      intro h
      rcases List.mem_append.mp h with h | h
      · exact r.noBreak h
      · exact absurd rfl (of_decide_eq_true (List.all_eq_true.mp List.all_takeWhile lf h))
    have hsplit : r.ahead wakes = (r.buf ++ r.available.takeWhile (· ≠ lf)) ++
        lf :: (r.available.drop ((r.available.takeWhile (· ≠ lf)).length + 1) ++
          streamOf wakes) := by
      rw [ahead]
      conv => lhs; rw [takeWhile_append_drop hmem]
      simp only [List.append_assoc, List.cons_append]
    have hlines := Lines.lines_append_cons hno
      (r.available.drop ((r.available.takeWhile (· ≠ lf)).length + 1) ++ streamOf wakes)
    rw [← hsplit] at hlines
    dsimp only
    split
    next hlong =>
      exact ⟨_, _, rfl, .tooLong r wakes _ _ hlines (by rwa [List.length_append])⟩
    next hfits =>
      refine ⟨_, _, rfl, .line _ wakes _ hlines ?_ ?_⟩
      · rw [List.length_append]
        omega
      · rw [hsplit]
        simp only [ahead, List.nil_append, List.length_append, List.length_cons]
        omega
  next hmem =>
    split
    next hlong =>
      left
      have hno : lf ∉ r.buf ++ r.available := by simp [r.noBreak, hmem]
      have hne : r.buf ++ r.available ≠ [] := by
        intro h
        have hlen := congrArg List.length h
        simp only [List.length_append, List.length_nil] at hlen
        omega
      obtain ⟨line, rest, hlines, hprefix⟩ := Lines.exists_lines_append hno hne (streamOf wakes)
      have hlen := hprefix.length_le
      rw [List.length_append] at hlen
      exact ⟨_, _, rfl, .tooLong r wakes line rest hlines (by omega)⟩
    next hfits =>
      right
      exact ⟨_, rfl, rfl, by simp [ahead]⟩

theorem nextLine_takes (r : Reader max) (wakes : List Wake) : Takes r wakes (r.nextLine wakes) := by
  induction wakes generalizing r with
  | nil =>
    rw [nextLine]
    rcases r.poll_cases [] with ⟨result, r', hpoll, htakes⟩ | ⟨r', hpoll, hnone, hahead⟩
    · rw [hpoll]
      exact htakes
    · rw [hpoll]
      have hbuf : r.ahead [] = r'.buf := by
        rw [← hahead]
        simp [ahead, hnone, streamOf]
      show Takes r [] (some r'.atEnd.1, r'.atEnd.2, [])
      unfold atEnd
      split
      next hempty => exact .end _ _ (hbuf.trans hempty)
      next hsome =>
        refine .line _ [] r'.buf ?_ r'.fits ?_
        · rw [hbuf, Lines.lines_of_notMem r'.noBreak hsome]
          simp [ahead, hnone, streamOf]
        · have hpos := List.length_pos_iff.mpr hsome
          rw [hbuf]
          simp [ahead, hnone, streamOf, hpos]
  | cons wake wakes ih =>
    cases wake with
    | dropped =>
      rw [nextLine]
      rcases r.poll_cases (.dropped :: wakes) with
        ⟨result, r', hpoll, htakes⟩ | ⟨r', hpoll, -, hahead⟩
      · rw [hpoll]
        exact htakes
      · rw [hpoll]
        exact .dropped r' wakes hahead (Nat.lt_succ_self _)
    | read bytes hsome =>
      rw [nextLine]
      rcases r.poll_cases (.read bytes hsome :: wakes) with
        ⟨result, r', hpoll, htakes⟩ | ⟨r', hpoll, hnone, hahead⟩
      · rw [hpoll]
        exact htakes
      · rw [hpoll]
        -- the call goes on with what it was given
        have hsame : ({ r' with available := bytes } : Reader max).ahead wakes =
            r.ahead (.read bytes hsome :: wakes) := by
          rw [← hahead]
          simp [ahead, hnone, streamOf, Wake.bytes]
        exact (ih { r' with available := bytes }).after hsame

theorem Takes.fewer {r : Reader max} {wakes : List Wake}
    {out : Option (Except LineError (Option String)) × Reader max × List Wake}
    (h : Takes r wakes out) (hgo : out.1 = none ∨ ∃ line, out.1 = some (.ok (some line))) :
    (out.2.1.ahead out.2.2).length + out.2.2.length < (r.ahead wakes).length + wakes.length := by
  cases h with
  | dropped r' wakes' hahead hfewer =>
    rw [hahead]
    exact Nat.add_lt_add_left hfewer _
  | tooLong => simp at hgo
  | line r' wakes' line hlines hfits hfewer => exact hfewer
  | «end» => simp at hgo

/-- The results of the calls, each made when the one before has its result or is dropped, up to the
first error or the end. -/
def results (r : Reader max) (wakes : List Wake) : List (Except LineError (Option String)) :=
  match _h : r.nextLine wakes with
  | (none, r', wakes') => results r' wakes'
  | (some (.ok (some line)), r', wakes') => .ok (some line) :: results r' wakes'
  | (some (.ok none), _, _) => [.ok none]
  | (some (.error err), _, _) => [.error err]
termination_by (r.ahead wakes).length + wakes.length
decreasing_by
  · have htakes := r.nextLine_takes wakes
    rw [_h] at htakes
    exact htakes.fewer (.inl rfl)
  · have htakes := r.nextLine_takes wakes
    rw [_h] at htakes
    exact htakes.fewer (.inr ⟨line, rfl⟩)

/-- The plain split from a call on, whose result is given. -/
def splitAfter : Option (Except LineError (Option String)) × Reader max × List Wake →
    List (Except LineError (Option String))
  | (none, r, wakes) => plainSplit max (r.ahead wakes)
  | (some (.ok (some line)), r, wakes) => .ok (some line) :: plainSplit max (r.ahead wakes)
  | (some (.ok none), _, _) => [.ok none]
  | (some (.error err), _, _) => [.error err]

theorem plainSplit_of_takes {r : Reader max} {wakes : List Wake}
    {out : Option (Except LineError (Option String)) × Reader max × List Wake}
    (h : Takes r wakes out) : plainSplit max (r.ahead wakes) = splitAfter out := by
  cases h with
  | dropped r' wakes' hahead hfewer => rw [splitAfter, hahead]
  | tooLong r' wakes' line rest hlines hlong =>
    rw [plainSplit, hlines, List.map_cons, outcome, if_pos hlong]
    rfl
  | line r' wakes' line hlines hfits hfewer =>
    rw [plainSplit, hlines, List.map_cons, outcome, if_neg (by omega)]
    cases finish line <;> rfl
  | «end» r' wakes' hahead =>
    rw [plainSplit, hahead, Lines.lines_nil]
    rfl

/-- However the stream is cut into reads, and whichever calls are dropped. -/
theorem results_eq (r : Reader max) (wakes : List Wake) :
    r.results wakes = plainSplit max (r.ahead wakes) := by
  fun_induction results r wakes with
  | case1 r wakes r' wakes' h ih =>
    have htakes := r.nextLine_takes wakes
    rw [h] at htakes
    rw [ih, plainSplit_of_takes htakes, splitAfter]
  | case2 r wakes line r' wakes' h ih =>
    have htakes := r.nextLine_takes wakes
    rw [h] at htakes
    rw [ih, plainSplit_of_takes htakes, splitAfter]
  | case3 r wakes r' wakes' h =>
    have htakes := r.nextLine_takes wakes
    rw [h] at htakes
    rw [plainSplit_of_takes htakes, splitAfter]
  | case4 r wakes err r' wakes' h =>
    have htakes := r.nextLine_takes wakes
    rw [h] at htakes
    rw [plainSplit_of_takes htakes, splitAfter]

end Reader

/-! ## Lines that were written -/

def utf8 (s : String) : Bytes := s.toList.flatMap String.utf8EncodeChar

/-- What `write_line` writes of a serialized message. -/
def writeLine (text : String) : Bytes := utf8 text ++ [lf]

theorem toByteArray_utf8 (s : String) : (utf8 s).toByteArray = s.toByteArray := by
  conv => rhs; rw [← String.ofList_toList (s := s), String.toByteArray_ofList]
  rfl

theorem fromUTF8_utf8 (s : String) : String.fromUTF8? (utf8 s).toByteArray = some s := by
  rw [toByteArray_utf8, String.fromUTF8?, dif_pos s.isValidUTF8]
  rfl

/-- An ASCII byte is that character alone. -/
theorem toNat_of_mem_utf8EncodeChar {c : Char} {b : UInt8} (h : b ∈ String.utf8EncodeChar c)
    (hb : b.toNat < 128) : c.toNat = b.toNat := by
  unfold String.utf8EncodeChar at h
  dsimp only at h
  split at h
  next hone =>
    rw [List.mem_singleton.mp h, UInt8.toNat_ofNat']
    show c.val.toNat = _
    omega
  next hmore =>
    -- the bytes of the others are all above
    exfalso
    split at h
    next =>
      simp only [List.mem_cons, List.not_mem_nil, or_false] at h
      rcases h with rfl | rfl
      all_goals
        rw [UInt8.toNat_ofNat'] at hb
        omega
    next =>
      split at h
      next =>
        simp only [List.mem_cons, List.not_mem_nil, or_false] at h
        rcases h with rfl | rfl | rfl
        all_goals
          rw [UInt8.toNat_ofNat'] at hb
          omega
      next =>
        simp only [List.mem_cons, List.not_mem_nil, or_false] at h
        rcases h with rfl | rfl | rfl | rfl
        all_goals
          rw [UInt8.toNat_ofNat'] at hb
          omega

theorem notMem_utf8 {s : String} {b : UInt8} {c : Char} (hb : b.toNat < 128)
    (hc : c.toNat = b.toNat) (h : c ∉ s.toList) : b ∉ utf8 s := by
  intro hmem
  obtain ⟨d, hd, hbd⟩ := List.mem_flatMap.mp hmem
  have hdc : d = c := Char.toNat_inj.mp ((toNat_of_mem_utf8EncodeChar hbd hb).trans hc.symm)
  exact h (hdc ▸ hd)

theorem finish_utf8 {s : String} (h : '\r' ∉ s.toList) : finish (utf8 s) = .ok s := by
  have hcr : (utf8 s).getLast? ≠ some cr := fun hlast ↦
    notMem_utf8 (by decide) (by decide) h (List.mem_of_getLast? hlast)
  rw [finish, if_neg hcr, fromUTF8_utf8]

/-- What `serde_json` promises of a compact text: line breaks in strings are escaped, and there are
no others. -/
def OneLine (format : Format) : Prop :=
  ∀ value, '\n' ∉ (format.text value).toList ∧ '\r' ∉ (format.text value).toList

theorem lines_written {texts : List String} (h : ∀ text ∈ texts, '\n' ∉ text.toList) :
    lines lf (texts.flatMap writeLine) = texts.map utf8 := by
  have hflat : texts.flatMap writeLine = (texts.map utf8).flatMap (· ++ [lf]) := by
    rw [List.flatMap_map]
    rfl
  rw [hflat]
  apply Lines.lines_flatMap
  intro bytes hbytes
  obtain ⟨text, htext, rfl⟩ := List.mem_map.mp hbytes
  exact notMem_utf8 (by decide) (by decide) (h text htext)

theorem plainSplit_written (max : Nat) (texts : List String)
    (hbreak : ∀ text ∈ texts, '\n' ∉ text.toList ∧ '\r' ∉ text.toList)
    (hfits : ∀ text ∈ texts, (utf8 text).length ≤ max) :
    plainSplit max (texts.flatMap writeLine) = texts.map (.ok ∘ some) ++ [.ok none] := by
  rw [plainSplit, lines_written fun text htext ↦ (hbreak text htext).1, List.map_map]
  induction texts with
  | nil => rfl
  | cons text texts ih =>
    have houtcome : outcome max (utf8 text) = .ok text := by
      have hlen := hfits text (List.mem_cons_self ..)
      rw [outcome, if_neg (by omega), finish_utf8 (hbreak text (List.mem_cons_self ..)).2]
    have hrest := ih (fun s hs ↦ hbreak s (List.mem_cons_of_mem text hs))
      fun s hs ↦ hfits s (List.mem_cons_of_mem text hs)
    rw [List.map_cons, Function.comp_apply, houtcome, upToError, hrest]
    rfl

/-- For every stream, every way it is cut into reads and every pattern of dropped calls, the results
are those of the plain split, and the partial line is within the cap; so the messages that were
written as lines within the cap are read back one by one. -/
theorem results_plainSplit (max : Nat) :
    (∀ wakes, (Reader.withMax max).results wakes = plainSplit max (streamOf wakes)) ∧
    (∀ (r : Reader max) (wakes : List Wake), (r.nextLine wakes).2.1.buf.length ≤ max) ∧
    ∀ format, OneLine format → ∀ messages : List Json,
      (∀ message ∈ messages, (utf8 (format.text message)).length ≤ max) →
      ∀ wakes, streamOf wakes = messages.flatMap (writeLine ∘ format.text) →
        (Reader.withMax max).results wakes =
          messages.map (.ok ∘ some ∘ format.text) ++ [.ok none] := by
  have hsplit : ∀ wakes, (Reader.withMax max).results wakes = plainSplit max (streamOf wakes) :=
    fun wakes ↦ (Reader.withMax max).results_eq wakes
  refine ⟨hsplit, fun r wakes ↦ (r.nextLine wakes).2.1.fits, ?_⟩
  intro format hone messages hfits wakes hstream
  have hwritten := plainSplit_written max (messages.map format.text)
    (by
      intro text htext
      obtain ⟨message, -, rfl⟩ := List.mem_map.mp htext
      exact hone message)
    (by
      intro text htext
      obtain ⟨message, hmessage, rfl⟩ := List.mem_map.mp htext
      exact hfits message hmessage)
  rw [List.flatMap_map, List.map_map] at hwritten
  rw [hsplit, hstream]
  exact hwritten

theorem oneLine_compact : OneLine compact := by
  intro value
  show '\n' ∉ (String.ofList value.text).toList ∧ '\r' ∉ (String.ofList value.text).toList
  rw [String.toList_ofList]
  have hprintable := Json.printable_text value
  exact ⟨fun h ↦ absurd (hprintable _ h) (by decide), fun h ↦ absurd (hprintable _ h) (by decide)⟩

/-- A text with a line break in it, read in two pieces with a call dropped in between. -/
theorem results_plainSplit_compact :
    (Reader.withMax 16).results [.read (utf8 "\"a") (by decide), .dropped,
      .read (utf8 "\\n\"" ++ [lf]) (by decide)] = [.ok (some "\"a\\n\""), .ok none] :=
  (results_plainSplit 16).2.2 compact oneLine_compact [.str "a\n"] (by decide +kernel) _
    (by decide +kernel)

end LineReader

end Silta
