import Mathlib.Data.List.DropRight
import Silta.Journal
import Silta.JsonEnds
import Silta.LineReader

/-!
# The journal of a cut stream

The pump that takes the lines of claude's output, and what the journal shows of a conversation when
the stream ends within a line.
-/

namespace Silta

/-- What `serde_json` promises of an object's text: it ends with the brace, and nothing comes after
it, but for blanks. -/
structure Format.Ends (format : Format) : Prop where
  last : ∀ {s : String} {fields : List (String × Json)}, format.tree s = some (.obj fields) →
    ∀ c ∈ s.toList.getLast?, c = '}' ∨ c.toNat ≤ 0x20
  trailing : ∀ {s : String} {fields : List (String × Json)} (t : String),
    format.tree s = some (.obj fields) → '}' ∈ t.toList → format.tree (s ++ t) = none

namespace Stream

open LineReader (Bytes lf cr utf8 writeLine)

/-! ## The pump -/

/-- Whether the byte may come second after this one, where two more or three more follow. -/
def follows (lead b : UInt8) : Bool :=
  if lead = 0xe0 then 0xa0 ≤ b ∧ b ≤ 0xbf
  else if lead = 0xed then 0x80 ≤ b ∧ b ≤ 0x9f
  else if lead = 0xf0 then 0x90 ≤ b ∧ b ≤ 0xbf
  else if lead = 0xf4 then 0x80 ≤ b ∧ b ≤ 0x8f
  else 0xe1 ≤ lead ∧ lead ≤ 0xf3 ∧ 0x80 ≤ b ∧ b ≤ 0xbf

/-- How many bytes are replaced at once, where no character begins. -/
def invalidLength : Bytes → Nat
  | a :: b :: rest =>
    if follows a b = true then
      if 0xf0 ≤ a ∧ rest.head?.any (fun c ↦ 0x80 ≤ c ∧ c ≤ 0xbf) then 3 else 2
    else
      1
  | _ => 1

theorem invalidLength_pos (bytes : Bytes) : 0 < invalidLength bytes := by
  unfold invalidLength
  split
  · split
    · split <;> decide
    · decide
  · decide

/-- `String::from_utf8_lossy`. -/
def fromUtf8Lossy : Bytes → List Char
  | [] => []
  | b :: bytes =>
    match (b :: bytes).toByteArray.utf8DecodeChar? 0 with
    | some c => c :: fromUtf8Lossy ((b :: bytes).drop c.utf8Size)
    | none => '\uFFFD' :: fromUtf8Lossy ((b :: bytes).drop (invalidLength (b :: bytes)))
termination_by bytes => bytes.length
decreasing_by
  · have hpos := c.utf8Size_pos
    rw [List.length_drop, List.length_cons]
    omega
  · have hpos := invalidLength_pos (b :: bytes)
    rw [List.length_drop, List.length_cons]
    omega

/-- The lines of a pipe up to its end, which may come within one. -/
def pump (out : Bytes) : List String :=
  (Lines.lines lf out).map fun line ↦
    String.ofList (fromUtf8Lossy (line.rdropWhile fun b ↦ b = lf ∨ b = cr))

/-- The first lines of the output as they are printed.  Those that come before claude's exit and
those that the readers still hold after it are printed alike, and a reader may be given up then. -/
def journal (format : Format) (out : Bytes) (kept : Nat) : List String :=
  ((pump out).take kept).map fun line ↦ (read format line).1

/-! ## Lines with their texts -/

/-- A part of a line, as it is written. -/
inductive Piece
  | fixed (s : String)
  /-- Of the conversation, within a string. -/
  | text (t : String)

def Piece.chars : Piece → List Char
  | fixed s => s.toList
  | text t => t.toList.flatMap Json.escape

def chars (line : List Piece) : List Char := line.flatMap Piece.chars

def raw (line : List Piece) : String := String.ofList (chars line)

/-- A text is replaced by one of the same size. -/
inductive SamePiece : Piece → Piece → Prop
  | fixed (s : String) : SamePiece (.fixed s) (.fixed s)
  | text {s t : String} (h : s.utf8ByteSize = t.utf8ByteSize) : SamePiece (.text s) (.text t)

/-- The same message with other texts. -/
def Variant (format : Format) (line line' : List Piece) : Prop :=
  List.Forall₂ SamePiece line line' ∧
    ∃ v w, parse format (raw line) = some v ∧ parse format (raw line') = some w ∧ SameLine v w

/-- One letter instead of every byte of a text. -/
def fill (c : Char) : Piece → Piece
  | .fixed s => .fixed s
  | .text t => .text (String.ofList (List.replicate t.utf8ByteSize c))

/-- A line of a message, with its texts set apart: with letters instead of them it is the same
message. -/
structure IsMessage (format : Format) (line : List Piece) : Prop where
  printable : ∀ s, .fixed s ∈ line → Json.Printable s.toList
  opened : ∃ s rest, line = .fixed s :: rest ∧ s.toList.head? = some '{'
  closed : ∃ s before, line = before ++ [.fixed s] ∧ s.toList.getLast? = some '}'
  filled : ∀ c ∈ ['a', 'b'], Variant format line (line.map (fill c))

/-- Where the first text begins. -/
def textStart : List Piece → Option Nat
  | [] => none
  | .fixed s :: line => (textStart line).map (s.utf8ByteSize + ·)
  | .text t :: line => if t = "" then textStart line else some 0

/-! ## Cuts -/

/-- So many lines, and so many bytes of the next one. -/
def cut (lines : List (List Piece)) (n m : Nat) : Bytes :=
  (lines.take n).flatMap (fun line ↦ writeLine (raw line)) ++
    lines[n]?.elim [] fun line ↦ (utf8 (raw line)).take m

/-- The journal depends on no text but for its size.  A line that only lacks its line break is
compared with such lines. -/
def Hidden (format : Format) (lines : List (List Piece)) (n m : Nat) : Prop :=
  ∀ lines', List.Forall₂ (Variant format) lines lines' →
    (∀ line ∈ lines[n]?, ∀ line' ∈ lines'[n]?,
      (utf8 (raw line)).length ≤ m → (utf8 (raw line')).length ≤ m) →
    ∀ kept, journal format (cut lines n m) kept = journal format (cut lines' n m) kept

/-! ## Decoding -/

/-- The bytes of characters. -/
def encode (cs : List Char) : Bytes := cs.flatMap String.utf8EncodeChar

theorem encode_cons (c : Char) (cs : List Char) :
    encode (c :: cs) = String.utf8EncodeChar c ++ encode cs := rfl

theorem encode_append (cs ds : List Char) : encode (cs ++ ds) = encode cs ++ encode ds :=
  List.flatMap_append

theorem encode_of_lt {c : Char} (h : c.toNat < 128) :
    String.utf8EncodeChar c = [UInt8.ofNat c.toNat] := by
  have hle : c.val.toNat ≤ 127 := Nat.le_of_lt_succ h
  unfold String.utf8EncodeChar
  dsimp only
  rw [if_pos hle]
  rfl

theorem fromUtf8Lossy_of_some {bytes : Bytes} {c : Char}
    (h : bytes.toByteArray.utf8DecodeChar? 0 = some c) :
    fromUtf8Lossy bytes = c :: fromUtf8Lossy (bytes.drop c.utf8Size) := by
  cases bytes with
  | nil => cases h
  | cons b bytes => rw [fromUtf8Lossy, h]

theorem fromUtf8Lossy_encode (cs : List Char) (rest : Bytes) :
    fromUtf8Lossy (encode cs ++ rest) = cs ++ fromUtf8Lossy rest := by
  induction cs with
  | nil => rfl
  | cons c cs ih =>
    have hdecode : (String.utf8EncodeChar c ++ (encode cs ++ rest)).toByteArray.utf8DecodeChar? 0 =
        some c := by
      rw [List.toByteArray_append]
      exact ByteArray.utf8DecodeChar?_utf8EncodeChar_append
    rw [encode_cons, List.append_assoc, fromUtf8Lossy_of_some hdecode,
      List.drop_left' (String.length_utf8EncodeChar c), ih, List.cons_append]

theorem fromUtf8Lossy_self (cs : List Char) : fromUtf8Lossy (encode cs) = cs := by
  have happend := fromUtf8Lossy_encode cs []
  rwa [List.append_nil, fromUtf8Lossy, List.append_nil] at happend

theorem exists_eq_append {bytes : Bytes} {c : Char}
    (h : bytes.toByteArray.utf8DecodeChar? 0 = some c) :
    ∃ rest, bytes = String.utf8EncodeChar c ++ rest := by
  obtain ⟨rest, hrest⟩ := ByteArray.exists_of_utf8DecodeChar?_eq_some h
  refine ⟨rest.data.toList, List.toByteArray_inj.mp ?_⟩
  rw [hrest, List.toByteArray_append]
  congr 1
  ext1
  rw [List.data_toByteArray, Array.toArray_toList]

/-- No ASCII character comes of other bytes. -/
theorem le_of_mem_fromUtf8Lossy {bytes : Bytes} (h : ∀ b ∈ bytes, 128 ≤ b.toNat) :
    ∀ c ∈ fromUtf8Lossy bytes, 128 ≤ c.toNat := by
  induction bytes using fromUtf8Lossy.induct with
  | case1 => rw [fromUtf8Lossy]; simp
  | case2 b bytes c hc ih =>
    have hle : 128 ≤ c.toNat := by
      by_contra hlt
      rw [Nat.not_le] at hlt
      obtain ⟨rest, hrest⟩ := exists_eq_append hc
      rw [hrest, encode_of_lt hlt] at h
      have hbyte := h _ (List.mem_cons_self ..)
      rw [UInt8.toNat_ofNat'] at hbyte
      omega
    rw [fromUtf8Lossy_of_some hc]
    exact List.forall_mem_cons.mpr ⟨hle, ih fun d hd ↦ h d (List.mem_of_mem_drop hd)⟩
  | case3 b bytes hnone ih =>
    rw [fromUtf8Lossy, hnone]
    exact List.forall_mem_cons.mpr ⟨by decide, ih fun d hd ↦ h d (List.mem_of_mem_drop hd)⟩

/-- A cut falls between two characters, or within one of several bytes. -/
theorem exists_cut (cs : List Char) (m : Nat) :
    ∃ before after bytes, cs = before ++ after ∧ (encode cs).take m = encode before ++ bytes ∧
      (∀ b ∈ bytes, 128 ≤ b.toNat) ∧ (m < (encode cs).length → after ≠ []) := by
  induction cs generalizing m with
  | nil => exact ⟨[], [], [], rfl, List.take_nil, nofun, nofun⟩
  | cons c cs ih =>
    have hlen := String.length_utf8EncodeChar c
    by_cases hm : m < c.utf8Size
    · refine ⟨[], c :: cs, (String.utf8EncodeChar c).take m, rfl, ?_, ?_, fun _ ↦ nofun⟩
      · rw [encode_cons, List.take_append_of_le_length (by omega)]
        rfl
      · intro b hb
        by_contra hlt
        rw [Nat.not_le] at hlt
        have hc := LineReader.toNat_of_mem_utf8EncodeChar (List.mem_of_mem_take hb) hlt
        -- a character of one byte is not cut
        have hone : (String.utf8EncodeChar c).length = 1 := by
          rw [encode_of_lt (hc ▸ hlt)]
          rfl
        obtain rfl : m = 0 := by omega
        cases hb
    · obtain ⟨before, after, bytes, rfl, htake, hbytes, hafter⟩ := ih (m - c.utf8Size)
      refine ⟨c :: before, after, bytes, rfl, ?_, hbytes, fun hlt ↦ hafter ?_⟩
      · rw [encode_cons, encode_cons, List.take_append, hlen, htake,
          List.take_of_length_le (by omega), List.append_assoc]
      · rw [encode_cons, List.length_append] at hlt
        omega

theorem utf8_ofList (cs : List Char) : utf8 (String.ofList cs) = encode cs := by
  rw [utf8, String.toList_ofList, encode]

theorem length_encode_toList (s : String) : (encode s.toList).length = s.utf8ByteSize := by
  have hbytes := congrArg ByteArray.size (LineReader.toByteArray_utf8 s)
  rwa [List.size_toByteArray] at hbytes

/-! ## What the pump sends -/

theorem ne_break_of_mem_encode {cs : List Char} (h : Json.Printable cs) :
    ∀ b ∈ encode cs, b ≠ lf ∧ b ≠ cr := by
  have hne : ∀ b ∈ encode cs, ¬b.toNat < 0x20 := by
    intro b hb hlt
    obtain ⟨c, hc, hbc⟩ := List.mem_flatMap.mp hb
    have heq := LineReader.toNat_of_mem_utf8EncodeChar hbc (by omega)
    have hle := h c hc
    omega
  exact fun b hb ↦ ⟨fun heq ↦ hne b hb (heq ▸ by decide), fun heq ↦ hne b hb (heq ▸ by decide)⟩

theorem printable_chars {line : List Piece}
    (h : ∀ s, .fixed s ∈ line → Json.Printable s.toList) : Json.Printable (chars line) := by
  intro c hc
  obtain ⟨piece, hpiece, hc⟩ := List.mem_flatMap.mp hc
  cases piece with
  | fixed s => exact h s hpiece c hc
  | text t =>
    obtain ⟨d, -, hc⟩ := List.mem_flatMap.mp hc
    exact Json.printable_escape d c hc

theorem mem_fixed {line line' : List Piece} (h : List.Forall₂ SamePiece line line') {s : String}
    (hs : .fixed s ∈ line') : .fixed s ∈ line := by
  induction h with
  | nil => exact hs
  | cons hpiece _ ih =>
    rcases List.mem_cons.mp hs with heq | hs
    · cases hpiece with
      | fixed => exact heq ▸ List.mem_cons_self ..
      | text => cases heq
    · exact List.mem_cons_of_mem _ (ih hs)

/-- What the pump makes of the bytes that come last. -/
def lastLine (bytes : Bytes) : List String :=
  if bytes = [] then [] else [String.ofList (fromUtf8Lossy bytes)]

theorem pump_cut {lines : List (List Piece)} (h : ∀ line ∈ lines, Json.Printable (chars line))
    (n m : Nat) :
    pump (cut lines n m) = (lines.take n).map raw ++
      lines[n]?.elim [] fun line ↦ lastLine ((encode (chars line)).take m) := by
  have hwhole : ∀ bytes : Bytes, (∀ b ∈ bytes, b ≠ lf ∧ b ≠ cr) →
      (bytes.rdropWhile fun b ↦ b = lf ∨ b = cr) = bytes := by
    intro bytes hbytes
    rw [List.rdropWhile_eq_self_iff]
    intro hne
    have hlast := hbytes _ (List.getLast_mem hne)
    simpa using hlast
  have hflat : (lines.take n).flatMap (fun line ↦ writeLine (raw line)) =
      ((lines.take n).map fun line ↦ encode (chars line)).flatMap (· ++ [lf]) := by
    rw [List.flatMap_map]
    simp only [writeLine, raw, utf8_ofList]
  have hlines : ∀ bytes ∈ (lines.take n).map fun line ↦ encode (chars line),
      ∀ b ∈ bytes, b ≠ lf ∧ b ≠ cr := by
    intro bytes hbytes
    obtain ⟨line, hline, rfl⟩ := List.mem_map.mp hbytes
    exact ne_break_of_mem_encode (h line (List.mem_of_mem_take hline))
  rw [pump, cut, hflat, Lines.lines_flatMap_append fun bytes hbytes hmem ↦
    (hlines bytes hbytes lf hmem).1 rfl, List.map_append, List.map_map]
  congr 1
  · apply List.map_congr_left
    intro line hline
    have hbytes := hlines _ (List.mem_map_of_mem hline)
    rw [Function.comp_apply, hwhole _ hbytes, fromUtf8Lossy_self, raw]
  · cases hget : lines[n]? with
    | none =>
      rw [Option.elim_none, Option.elim_none, Lines.lines_nil]
      rfl
    | some line =>
      have hbytes : ∀ b ∈ (encode (chars line)).take m, b ≠ lf ∧ b ≠ cr := fun b hb ↦
        ne_break_of_mem_encode (h line (List.mem_of_getElem? hget)) b (List.mem_of_mem_take hb)
      rw [Option.elim_some, Option.elim_some, raw, utf8_ofList, lastLine]
      split
      · next hnil => rw [hnil, Lines.lines_nil]; rfl
      · next hne =>
        rw [Lines.lines_of_notMem (fun hmem ↦ (hbytes lf hmem).1 rfl) hne, List.map_singleton,
          hwhole _ hbytes]

/-- The printed lines are those of what is read. -/
theorem journal_eq (format : Format) (out : Bytes) (kept : Nat) :
    journal format out kept = (((pump out).map (read format)).take kept).map Prod.fst := by
  rw [journal, ← List.map_take, List.map_map]
  rfl

/-! ## Before the texts -/

theorem take_eq_of_samePiece {line line' : List Piece} (h : List.Forall₂ SamePiece line line')
    {m : Nat} (hm : ∀ start ∈ textStart line, m ≤ start) :
    (encode (chars line)).take m = (encode (chars line')).take m := by
  induction h generalizing m with
  | nil => rfl
  | cons hpiece hrest ih =>
    cases hpiece with
    | fixed s =>
      show (encode (s.toList ++ chars _)).take m = (encode (s.toList ++ chars _)).take m
      rw [encode_append, encode_append, List.take_append, List.take_append, ih]
      intro start hstart
      have hle := hm (s.utf8ByteSize + start) (Option.mem_map_of_mem _ hstart)
      rw [length_encode_toList]
      omega
    | @text s t hsize =>
      by_cases hs : s = ""
      · have ht : t = "" := by
          rw [← String.utf8ByteSize_eq_zero_iff, ← hsize, hs]
          rfl
        rw [textStart, if_pos hs] at hm
        rw [hs, ht]
        exact ih hm
      · rw [textStart, if_neg hs] at hm
        obtain rfl := Nat.le_zero.mp (hm 0 rfl)
        rfl

theorem IsMessage.variant_refl {format : Format} {line : List Piece} (h : IsMessage format line) :
    ∃ v, parse format (raw line) = some v ∧ kind v ≠ "?" := by
  obtain ⟨-, v, w, hv, -, hsame⟩ := h.filled 'a' (by decide)
  exact ⟨v, hv, hsame.kind_ne.1⟩

theorem Variant.read_eq {format : Format} {line line' : List Piece}
    (h : Variant format line line') : read format (raw line) = read format (raw line') := by
  obtain ⟨-, v, w, hv, hw, hsame⟩ := h
  exact read_congr hv hw hsame

theorem printable_of_variant {format : Format} {lines lines' : List (List Piece)}
    (hlines : ∀ line ∈ lines, IsMessage format line)
    (h : List.Forall₂ (Variant format) lines lines') :
    ∀ line' ∈ lines', Json.Printable (chars line') := by
  induction h with
  | nil => exact nofun
  | cons hvariant _ ih =>
    rw [List.forall_mem_cons] at hlines ⊢
    exact ⟨printable_chars fun s hs ↦ hlines.1.printable s (mem_fixed hvariant.1 hs),
      ih hlines.2⟩

theorem chars_ne_nil {format : Format} {line line' : List Piece} (h : IsMessage format line)
    (hvariant : List.Forall₂ SamePiece line line') : chars line ≠ [] ∧ chars line' ≠ [] := by
  obtain ⟨s, rest, rfl, hs⟩ := h.opened
  have hne : s.toList ≠ [] := by
    rintro hnil
    rw [hnil] at hs
    cases hs
  cases hvariant with
  | cons hpiece _ =>
    cases hpiece
    exact ⟨List.append_ne_nil_of_left_ne_nil hne _, List.append_ne_nil_of_left_ne_nil hne _⟩

theorem rel_getElem? {α β : Type} {R : α → β → Prop} {as : List α} {bs : List β}
    (h : List.Forall₂ R as bs) (n : Nat) : Option.Rel R as[n]? bs[n]? := by
  induction h generalizing n with
  | nil => exact .none
  | cons hab _ ih =>
    cases n with
    | zero => exact .some hab
    | succ n => exact ih n

section

variable {format : Format} {lines lines' : List (List Piece)} {n m : Nat}

theorem map_read_pump (hlines : ∀ line ∈ lines, Json.Printable (chars line)) :
    (pump (cut lines n m)).map (read format) =
      (lines.take n).map (read format ∘ raw) ++
        (lines[n]?.elim [] fun line ↦ lastLine ((encode (chars line)).take m)).map
          (read format) := by
  rw [pump_cut hlines, List.map_append, List.map_map]

theorem map_raw_eq (h : List.Forall₂ (Variant format) lines lines') :
    (lines.take n).map (read format ∘ raw) = (lines'.take n).map (read format ∘ raw) := by
  have htake := List.forall₂_take n h
  rw [← List.forall₂_eq_eq_eq, List.forall₂_map_left_iff, List.forall₂_map_right_iff]
  exact htake.imp fun _ _ h ↦ h.read_eq

/-- All of a line but its line break. -/
theorem lastLine_whole {line : List Piece} (hne : chars line ≠ [])
    (hm : (encode (chars line)).length ≤ m) :
    lastLine ((encode (chars line)).take m) = [raw line] := by
  have hbytes : encode (chars line) ≠ [] := by
    intro hnil
    have hself := fromUtf8Lossy_self (chars line)
    rw [hnil, fromUtf8Lossy] at hself
    exact hne hself.symm
  rw [List.take_of_length_le hm, lastLine, if_neg hbytes, fromUtf8Lossy_self, raw]

theorem hidden_of_before (hlines : ∀ line ∈ lines, IsMessage format line)
    (hcut : ∀ line ∈ lines[n]?,
      (utf8 (raw line)).length ≤ m ∨ ∀ start ∈ textStart line, m ≤ start) :
    Hidden format lines n m := by
  intro lines' hvariants hside kept
  have hlast : (lines[n]?.elim [] fun line ↦ lastLine ((encode (chars line)).take m)).map
        (read format) =
      (lines'[n]?.elim [] fun line ↦ lastLine ((encode (chars line)).take m)).map
        (read format) := by
    have hmem : ∀ line ∈ lines[n]?, line ∈ lines := fun line ↦ List.mem_of_getElem?
    have hrel := rel_getElem? hvariants n
    generalize lines[n]? = o at hcut hside hrel hmem ⊢
    generalize lines'[n]? = o' at hside hrel ⊢
    cases hrel with
    | none => rfl
    | @some line line' h =>
      rw [Option.elim_some, Option.elim_some]
      have hne := chars_ne_nil (hlines line (hmem line rfl)) h.1
      have hsize := hside line rfl line' rfl
      rw [raw, raw, utf8_ofList, utf8_ofList] at hsize
      rcases hcut line rfl with hwhole | hbefore
      · rw [raw, utf8_ofList] at hwhole
        rw [lastLine_whole hne.1 hwhole, lastLine_whole hne.2 (hsize hwhole), List.map_singleton,
          List.map_singleton, h.read_eq]
      · rw [take_eq_of_samePiece h.1 hbefore]
  rw [journal_eq, journal_eq, map_read_pump fun line hline ↦
    printable_chars (hlines line hline).printable, map_read_pump
    (printable_of_variant hlines hvariants), map_raw_eq hvariants, hlast]

end

/-! ## Within a text -/

theorem chars_append (before after : List Piece) :
    chars (before ++ after) = chars before ++ chars after := List.flatMap_append

theorem exists_text {line : List Piece} {start : Nat} (h : textStart line = some start) :
    ∃ before after, ∃ t : String, line = before ++ .text t :: after ∧ t ≠ "" ∧
      (encode (chars before)).length = start ∧
      ∀ c, chars (before.map (fill c)) = chars before := by
  induction line generalizing start with
  | nil => cases h
  | cons piece line ih =>
    cases piece with
    | fixed s =>
      obtain ⟨rest, hrest, rfl⟩ := Option.map_eq_some_iff.mp h
      obtain ⟨before, after, t, rfl, ht, hlen, hfill⟩ := ih hrest
      refine ⟨.fixed s :: before, after, t, rfl, ht, ?_, fun c ↦ ?_⟩
      · show (encode (s.toList ++ chars before)).length = _
        rw [encode_append, List.length_append, length_encode_toList, hlen]
      · show s.toList ++ chars (before.map (fill c)) = s.toList ++ chars before
        rw [hfill c]
    | text t =>
      rw [textStart] at h
      split at h
      · next hnil =>
        obtain ⟨before, after, u, rfl, hu, hlen, hfill⟩ := ih h
        exact ⟨.text t :: before, after, u, rfl, hu, hnil ▸ hlen, fun c ↦ hnil ▸ hfill c⟩
      · next hne => exact ⟨[], line, t, rfl, hne, Option.some.inj h, fun _ ↦ rfl⟩

/-- The letter stands where the first text begins. -/
theorem exists_chars_fill {line : List Piece} {start : Nat} (h : textStart line = some start) :
    ∃ before, (encode before).length = start ∧
      ∀ c ∈ ['a', 'b'], ∃ after, chars (line.map (fill c)) = before ++ c :: after := by
  obtain ⟨before, after, t, rfl, ht, hlen, hfill⟩ := exists_text h
  refine ⟨chars before, hlen, fun c hc ↦ ?_⟩
  have hpos : t.utf8ByteSize ≠ 0 := fun hzero ↦ ht (String.utf8ByteSize_eq_zero_iff.mp hzero)
  obtain ⟨k, hk⟩ := Nat.exists_eq_succ_of_ne_zero hpos
  have hescape : ∀ c ∈ ['a', 'b'], Json.escape c = [c] := by
    rw [List.forall_mem_cons, List.forall_mem_singleton]
    exact ⟨rfl, rfl⟩
  have htext : ∃ more, (fill c (.text t)).chars = c :: more := by
    refine ⟨(List.replicate k c).flatMap Json.escape, ?_⟩
    show (String.ofList (List.replicate t.utf8ByteSize c)).toList.flatMap Json.escape = _
    rw [String.toList_ofList, hk, List.replicate_succ, List.flatMap_cons, hescape c hc]
    rfl
  obtain ⟨more, hmore⟩ := htext
  refine ⟨more ++ chars (after.map (fill c)), ?_⟩
  rw [List.map_append, List.map_cons, chars_append, hfill c]
  show chars before ++ ((fill c (.text t)).chars ++ chars (after.map (fill c))) = _
  rw [hmore]
  rfl

theorem read_of_not_obj {format : Format} {s : String}
    (h : ∀ fields, format.tree s ≠ some (.obj fields)) : read format s = (s, .other) := by
  rw [read]
  split
  · next fields hparse =>
    obtain ⟨value, hvalue, hsorted⟩ := Option.map_eq_some_iff.mp hparse
    cases value with
    | obj entries => exact absurd hvalue (h entries)
    | _ => cases hsorted
  · rfl

/-- A part of an object's text is no object. -/
theorem read_take {format : Format} (hends : format.Ends) {cs : List Char} {v : Json} {m : Nat}
    (hv : parse format (String.ofList cs) = some v) (hclosed : cs.getLast? = some '}')
    (hm : m < (encode cs).length) :
    read format (String.ofList (fromUtf8Lossy ((encode cs).take m))) =
      (String.ofList (fromUtf8Lossy ((encode cs).take m)), .other) := by
  apply read_of_not_obj
  obtain ⟨before, after, bytes, rfl, htake, hbytes, hafter⟩ := exists_cut cs m
  rw [htake, fromUtf8Lossy_encode]
  intro fields hobj
  by_cases hnil : fromUtf8Lossy bytes = []
  · rw [hnil, List.append_nil] at hobj
    have hbrace : '}' ∈ (String.ofList after).toList := by
      rw [String.toList_ofList]
      rw [List.getLast?_append_of_ne_nil _ (hafter hm)] at hclosed
      exact List.mem_of_getLast? hclosed
    rw [parse, String.ofList_append, hends.trailing (String.ofList after) hobj hbrace] at hv
    cases hv
  · -- a replaced character comes last
    have hlast := hends.last hobj ((fromUtf8Lossy bytes).getLast hnil) (by
      rw [String.toList_ofList, List.getLast?_append_of_ne_nil _ hnil,
        List.getLast?_eq_some_getLast hnil]
      rfl)
    have hle := le_of_mem_fromUtf8Lossy hbytes _ (List.getLast_mem hnil)
    rcases hlast with heq | hblank
    · rw [heq] at hle
      exact absurd hle (by decide)
    · omega

theorem head?_append {s : String} {c : Char} (h : s.toList.head? = some c) (t : String) :
    (s ++ t).toList.head? = some c := by
  rw [String.toList_append, List.head?_append, h]
  rfl

/-- What is printed of a message does not begin as its text does. -/
theorem head?_readMap {format : Format} {v w : Json} (h : SameLine v w) :
    (readMap format v).1.toList.head? ≠ some '{' := by
  have hhead : ∃ c, (readMap format v).1.toList.head? = some c ∧ c ≠ '{' := by
    cases h with
    | assistant hv h =>
      simp only [readMap, hv]
      exact ⟨'a', head?_append rfl _, by decide⟩
    | user hv h htagged =>
      simp only [readMap, hv]
      exact ⟨'u', head?_append rfl _, by decide⟩
    | result hv hok hagree =>
      simp only [readMap, hv]
      refine ⟨'r', ?_, by decide⟩
      unfold result
      dsimp only
      repeat apply head?_append
      rfl
    | streamEvent hv hagree hevent =>
      simp only [readMap, hv]
      exact ⟨'s', head?_append rfl _, by decide⟩
  obtain ⟨c, hc, hne⟩ := hhead
  rw [hc]
  exact fun heq ↦ hne (Option.some.inj heq)

theorem getLast?_chars {s : String} {c : Char} (h : s.toList.getLast? = some c)
    (before : List Piece) : (chars (before ++ [.fixed s])).getLast? = some c := by
  have hne : s.toList ≠ [] := by
    rintro hnil
    rw [hnil] at h
    cases h
  have hchars : chars [.fixed s] = s.toList := List.append_nil _
  rw [chars_append, hchars, List.getLast?_append_of_ne_nil _ hne, h]

theorem IsMessage.getLast?_chars {format : Format} {line : List Piece}
    (h : IsMessage format line) : (chars line).getLast? = some '}' := by
  obtain ⟨s, before, rfl, hs⟩ := h.closed
  exact Stream.getLast?_chars hs before

theorem IsMessage.getLast?_fill {format : Format} {line : List Piece} (h : IsMessage format line)
    (c : Char) : (chars (line.map (fill c))).getLast? = some '}' := by
  obtain ⟨s, before, rfl, hs⟩ := h.closed
  rw [List.map_append]
  exact Stream.getLast?_chars hs (before.map (fill c))

/-- Whole characters before a cut are shown as they are. -/
theorem exists_fromUtf8Lossy_take (before after : List Char) {m : Nat}
    (hm : (encode before).length ≤ m) :
    ∃ more, fromUtf8Lossy ((encode (before ++ after)).take m) = before ++ more := by
  rw [encode_append, List.take_append, List.take_of_length_le hm, fromUtf8Lossy_encode]
  exact ⟨_, rfl⟩

section

variable {format : Format} {lines : List (List Piece)} {line : List Piece} {n m start : Nat}

theorem lastLine_take (hm : 0 < m) (hne : chars line ≠ []) :
    lastLine ((encode (chars line)).take m) =
      [String.ofList (fromUtf8Lossy ((encode (chars line)).take m))] := by
  rw [lastLine, if_neg]
  intro hnil
  obtain ⟨c, cs, hcs⟩ := List.exists_cons_of_ne_nil hne
  have hbyte := c.utf8Size_pos
  have hlen := congrArg List.length hnil
  rw [hcs, encode_cons, List.length_take, List.length_append, String.length_utf8EncodeChar,
    List.length_nil] at hlen
  omega

/-- A part of a line is shown as it is. -/
theorem read_lastLine (hends : format.Ends) (h : IsMessage format line) (hpos : 0 < m)
    (hm : m < (encode (chars line)).length) :
    ∃ x, lastLine ((encode (chars line)).take m) = [x] ∧
      (read format x).1.toList.head? = some '{' := by
  obtain ⟨v, hv, -⟩ := h.variant_refl
  have hlast := h.getLast?_chars
  obtain ⟨s, rest, rfl, hs⟩ := h.opened
  obtain ⟨cs, hcs⟩ := List.head?_eq_some_iff.mp hs
  have hchars : chars (.fixed s :: rest) = ['{'] ++ (cs ++ chars rest) := by
    show s.toList ++ chars rest = _
    rw [hcs]
    rfl
  obtain ⟨more, hmore⟩ := exists_fromUtf8Lossy_take ['{'] (cs ++ chars rest)
    (show (encode ['{']).length ≤ m from hpos)
  refine ⟨_, lastLine_take hpos (by rw [hchars]; exact nofun), ?_⟩
  rw [read_take hends hv hlast hm, String.toList_ofList, hchars, hmore]
  rfl

/-- With letters for the texts, the part of the line goes on with the letter, where it is not the
whole. -/
theorem read_lastLine_fill (hends : format.Ends) (h : IsMessage format line)
    (hstart : textStart line = some start) (hm : start < m) :
    ∃ before, ∀ c ∈ ['a', 'b'], ∃ x,
      lastLine ((encode (chars (line.map (fill c)))).take m) = [x] ∧
      ((read format x).1.toList.head? ≠ some '{' ∨
        ∃ after, (read format x).1.toList = before ++ c :: after) := by
  obtain ⟨before, hlen, hfill⟩ := exists_chars_fill hstart
  refine ⟨before, fun c hc ↦ ?_⟩
  obtain ⟨after, hchars⟩ := hfill c hc
  obtain ⟨-, v, w, -, hw, hsame⟩ := h.filled c hc
  have hne : chars (line.map (fill c)) ≠ [] := by
    rw [hchars]
    exact List.append_ne_nil_of_right_ne_nil before nofun
  by_cases hwhole : (encode (chars (line.map (fill c)))).length ≤ m
  · refine ⟨_, lastLine_whole hne hwhole, .inl ?_⟩
    rw [read_eq_readMap hw hsame.kind_ne.2, ← readMap_eq format hsame]
    exact head?_readMap hsame
  · have hletter : (encode [c]).length = 1 := by
      have hsize : ∀ c ∈ ['a', 'b'], c.utf8Size = 1 := by
        rw [List.forall_mem_cons, List.forall_mem_singleton]
        exact ⟨rfl, rfl⟩
      rw [encode_cons, List.length_append, String.length_utf8EncodeChar, hsize c hc]
      rfl
    obtain ⟨more, hmore⟩ := exists_fromUtf8Lossy_take (m := m) (before ++ [c]) after (by
      rw [encode_append, List.length_append, hletter]
      omega)
    refine ⟨_, lastLine_take (by omega) hne, .inr ⟨more, ?_⟩⟩
    rw [read_take hends hw (h.getLast?_fill c) (by omega), String.toList_ofList, hchars,
      List.append_cons, hmore, List.append_assoc]
    rfl

theorem getLast?_journal (hlines : ∀ line ∈ lines, Json.Printable (chars line))
    (hline : lines[n]? = some line) {x : String}
    (hx : lastLine ((encode (chars line)).take m) = [x]) :
    (journal format (cut lines n m) (n + 1)).getLast? = some (read format x).1 := by
  rw [journal_eq, map_read_pump hlines, hline, Option.elim_some, hx, List.map_singleton,
    List.take_of_length_le, List.map_append, List.map_singleton, List.getLast?_concat]
  rw [List.length_append, List.length_map, List.length_take]
  exact Nat.succ_le_succ (Nat.min_le_left ..)

theorem before_of_hidden (hends : format.Ends) (hlines : ∀ line ∈ lines, IsMessage format line)
    (h : Hidden format lines n m) :
    ∀ line ∈ lines[n]?, (utf8 (raw line)).length ≤ m ∨ ∀ start ∈ textStart line, m ≤ start := by
  intro line hline
  by_contra hcut
  rw [not_or, Nat.not_le, raw, utf8_ofList] at hcut
  obtain ⟨hm, hstart⟩ := hcut
  push Not at hstart
  obtain ⟨start, hstart, hlt⟩ := hstart
  have hmessage := hlines line (List.mem_of_getElem? hline)
  obtain ⟨x, hx, hopen⟩ := read_lastLine hends hmessage (by omega) hm
  obtain ⟨before, hletters⟩ := read_lastLine_fill hends hmessage hstart hlt
  have hprintable : ∀ line ∈ lines, Json.Printable (chars line) := fun line hline ↦
    printable_chars (hlines line hline).printable
  -- the journal shows the letter
  have hshown : ∀ c ∈ ['a', 'b'], ∃ after, (read format x).1.toList = before ++ c :: after := by
    intro c hc
    obtain ⟨y, hy, hletter⟩ := hletters c hc
    have hvariants : List.Forall₂ (Variant format) lines (lines.map (List.map (fill c))) := by
      rw [List.forall₂_map_right_iff, List.forall₂_same]
      exact fun line hline ↦ (hlines line hline).filled c hc
    have hget : (lines.map (List.map (fill c)))[n]? = some (line.map (fill c)) := by
      rw [List.getElem?_map, hline]
      rfl
    have hsame := congrArg List.getLast? (h _ hvariants (by
      intro other hother _ _ hwhole
      rw [hline] at hother
      obtain rfl := Option.some.inj hother
      rw [raw, utf8_ofList] at hwhole
      omega) (n + 1))
    rw [getLast?_journal hprintable hline hx, getLast?_journal
      (printable_of_variant hlines hvariants) hget hy] at hsame
    rw [Option.some.inj hsame] at hopen ⊢
    exact hletter.resolve_left (· hopen)
  obtain ⟨after, ha⟩ := hshown 'a' (by decide)
  obtain ⟨after', hb⟩ := hshown 'b' (by decide)
  rw [ha] at hb
  have htail := List.append_cancel_left hb
  cases htail

end

/-- A cut stream hides its texts just when no text has begun in the line that is cut. -/
theorem hidden_iff {format : Format} (hends : format.Ends) {lines : List (List Piece)}
    (hlines : ∀ line ∈ lines, IsMessage format line) (n m : Nat) :
    Hidden format lines n m ↔
      ∀ line ∈ lines[n]?, (utf8 (raw line)).length ≤ m ∨ ∀ start ∈ textStart line, m ≤ start :=
  ⟨before_of_hidden hends hlines, hidden_of_before hlines⟩

theorem compact_ends : compact.Ends where
  last h := by
    rw [Json.getLast?_of_ofText h]
    rintro _ ⟨⟩
    exact .inl rfl
  trailing := by
    intro s fields t h hbrace
    show Json.ofText (s ++ t).toList = none
    rw [String.toList_append]
    exact Json.ofText_append h (List.ne_nil_of_mem hbrace)

/-- A message of the model in one piece. -/
def said (t : String) : List Piece :=
  [.fixed "\x7b\"type\":\"assistant\",\"message\":\x7b\"content\":\"", .text t,
    .fixed "\"\x7d\x7d"]

def saidValue (t : String) : Json :=
  .obj [("message", .obj [("content", .str t)]), ("type", .str "assistant")]

theorem raw_said (t : String) : raw (said t) =
    compact.text (.obj [("type", .str "assistant"), ("message", .obj [("content", .str t)])]) := by
  have hopen : "\x7b\"type\":\"assistant\",\"message\":\x7b\"content\":\"".toList =
      '{' :: (Json.quoted "type" ++ ':' :: (Json.quoted "assistant" ++ ',' ::
        (Json.quoted "message" ++ ':' :: '{' :: (Json.quoted "content" ++ [':', '"'])))) := by
    decide
  have htext : Json.quoted t = '"' :: t.toList.flatMap Json.escape ++ ['"'] := rfl
  show String.ofList _ = String.ofList _
  congr 1
  simp [chars, said, Piece.chars, Json.text, Json.textEntries, hopen, htext]

theorem parse_said (t : String) : parse compact (raw (said t)) = some (saidValue t) := by
  have hwithin : (Json.obj [("type", .str "assistant"),
      ("message", .obj [("content", .str t)])]).Within recursionLimit := by
    simp [recursionLimit, Json.Within]
  have hsorted : (Json.obj [("type", .str "assistant"),
      ("message", .obj [("content", .str t)])]).sorted = saidValue t := by
    simp [saidValue, Json.sorted, Json.sortedEntries, Json.ofEntries, Json.insertKey,
      show "message" < "type" by decide]
  rw [raw_said, parse_written compact_lawful hwithin, hsorted]

theorem samePiece_fill {c : Char} (hc : c.utf8Size = 1) (piece : Piece) :
    SamePiece piece (fill c piece) := by
  cases piece with
  | fixed s => exact .fixed s
  | text t =>
    apply SamePiece.text
    have hsize : ∀ n, (encode (List.replicate n c)).length = n := by
      intro n
      induction n with
      | zero => rfl
      | succ n ih =>
        rw [List.replicate_succ, encode_cons, List.length_append, String.length_utf8EncodeChar, hc,
          ih, Nat.add_comm]
    rw [← length_encode_toList (String.ofList _), String.toList_ofList, hsize]

theorem isMessage_said (t : String) : IsMessage compact (said t) where
  printable := by
    intro s hs
    simp only [said, List.mem_cons, List.not_mem_nil, or_false, Piece.fixed.injEq,
      reduceCtorEq, false_or] at hs
    rcases hs with rfl | rfl
    · simp [Json.Printable]
    · simp [Json.Printable]
  opened := ⟨_, _, rfl, by decide⟩
  closed := ⟨"\"\x7d\x7d", (said t).dropLast, rfl, by decide⟩
  filled := by
    intro c hc
    have hsize : ∀ c ∈ ['a', 'b'], c.utf8Size = 1 := by
      rw [List.forall_mem_cons, List.forall_mem_singleton]
      exact ⟨rfl, rfl⟩
    have hpieces : List.Forall₂ SamePiece (said t) ((said t).map (fill c)) := by
      rw [List.forall₂_map_right_iff, List.forall₂_same]
      exact fun piece _ ↦ samePiece_fill (hsize c hc) piece
    cases samePiece_fill (hsize c hc) (.text t) with
    | text heq =>
      exact ⟨hpieces, saidValue t, _, parse_said t, parse_said _, .assistant rfl
        { agree := agreeBut_cons "message" _ _ _
          body := .some ⟨agreeBut_cons "content" _ _ _, .some (.text heq)⟩ }⟩

/-- Before the text begins. -/
theorem hidden_iff_said :
    Hidden compact [said "secret"] 0 42 :=
  (hidden_iff compact_ends (List.forall_mem_singleton.mpr (isMessage_said "secret")) 0 42).mpr (by
    decide)

/-- Two bytes of the text. -/
theorem not_hidden_said : IsMessage compact (said "secret") ∧
    ¬Hidden compact [said "secret"] 0 44 := by
  refine ⟨isMessage_said "secret", fun h ↦ ?_⟩
  have hbefore := before_of_hidden compact_ends
    (List.forall_mem_singleton.mpr (isMessage_said "secret")) h _ rfl
  revert hbefore
  decide

end Stream

end Silta
