import Mathlib.Data.List.DropRight
import Silta.Lib.Packing
import Silta.Transfer

/-!
# Text helpers for outbound messages

`chunk_text`, which splits a Markdown text into chunks of at most so many bytes: at paragraphs where
it can, then at lines, then at characters.  The source cuts strings at byte offsets, and here a cut
inside a character is `none`, as is a failed assertion.
-/

namespace Silta.Text

open Packing (Chunks)

/-- The symbols of a text.  All that the functions below read of one is its character, so that they
can be run on characters that are marked with their places; a line break that they write is
`newline`. -/
class Lettered (α : Type) where
  char : α → Char
  newline : α
  char_newline : char newline = '\n'

instance : Lettered Char := ⟨id, '\n', rfl⟩

open Lettered (char newline)

variable {α : Type} [Lettered α]

/-! ## Strings -/

/-- `char::len_utf8`. -/
def lenUtf8 (c : α) : Nat := (char c).utf8Size

/-- `str::len`, in bytes. -/
def len (text : List α) : Nat := Slices.size lenUtf8 text

/-- `&text[start..stop]`. -/
def slice (text : List α) (start stop : Nat) : Option (List α) :=
  Slices.slice lenUtf8 text start stop

def isWhitespace (c : α) : Bool := Transfer.isWhitespace (char c)

def isNewline (c : α) : Bool := char c == '\n'

/-- `str::trim_end`. -/
def trimEnd (text : List α) : List α := text.rdropWhile isWhitespace

/-- `str::trim`. -/
def trim (text : List α) : List α := trimEnd (text.dropWhile isWhitespace)

/-- `str::trim_end_matches`, with an array of characters. -/
def trimEndMatches (cs : List Char) (text : List α) : List α :=
  text.rdropWhile fun c ↦ cs.contains (char c)

/-- `str::starts_with`. -/
def startsWith (mark : String) (text : List α) : Bool := mark.toList.isPrefixOf (text.map char)

/-- `str::split_inclusive('\n')`. -/
def splitInclusive : List α → List (List α)
  | [] => []
  | c :: cs =>
    if isNewline c then [c] :: splitInclusive cs
    else match splitInclusive cs with
      | [] => [[c]]
      | line :: lines => (c :: line) :: lines

/-- `str::char_indices`, from an offset on. -/
def charIndices : Nat → List α → List (Nat × α)
  | _, [] => []
  | i, c :: cs => (i, c) :: charIndices (i + lenUtf8 c) cs

/-! ## Paragraphs -/

/-- The state of the loop over the lines. -/
structure ParagraphScan (α : Type) where
  out : List (List α) := []
  start : Nat := 0
  inFence : Bool := false
  pos : Nat := 0
  lastBlank : Bool := false

/-- A line without its end. -/
def trimmed (line : List α) : List α := trimEndMatches ['\r', '\n'] line

/-- Whether a line opens or closes a fence. -/
def isFence (line : List α) : Bool :=
  startsWith "```" (trimmed line) || startsWith "~~~" (trimmed line)

/-- `in_fence` after a line. -/
def fenceAfter (inFence : Bool) (line : List α) : Bool :=
  if isFence line then !inFence else inFence

def isBlank (line : List α) : Bool := (trim (trimmed line)).isEmpty

def scanLine (text : List α) (s : ParagraphScan α) (line : List α) : Option (ParagraphScan α) :=
  let inFence := fenceAfter s.inFence line
  if isBlank line && !inFence then do
    let out ←
      if !s.lastBlank && s.pos > s.start then
        (slice text s.start s.pos).map fun p ↦ s.out ++ [trimEnd p]
      else some s.out
    some {
      out := out
      start := s.pos + len line
      inFence := inFence
      pos := s.pos + len line
      lastBlank := true }
  else some { s with inFence := inFence, pos := s.pos + len line, lastBlank := false }

/-- Paragraphs separated by blank lines, with fenced code blocks kept whole. -/
def paragraphs (text : List α) : Option (List (List α)) := do
  let s ← (splitInclusive text).foldlM (scanLine text) {}
  if s.pos > s.start then
    let tail := trimEnd (← slice text s.start s.pos)
    if tail.isEmpty then some s.out else some (s.out ++ [tail])
  else some s.out

/-! ## Lines and characters -/

/-- The state of the loop over the characters of a line. -/
structure CharScan (α : Type) where
  out : List (List α) := []
  start : Nat := 0
  last : Nat := 0

def scanChar (line : List α) (maxBytes : Nat) (s : CharScan α) (ic : Nat × α) :
    Option (CharScan α) := do
  let (i, c) := ic
  let s ←
    if i + lenUtf8 c - s.start > maxBytes then
      (slice line s.start i).map fun p ↦ { s with out := s.out ++ [p], start := i }
    else some s
  some { s with last := i + lenUtf8 c }

def splitChars (line : List α) (maxBytes : Nat) : Option (List (List α)) := do
  let s ← (charIndices 0 line).foldlM (scanChar line maxBytes) {}
  if s.last > s.start then (slice line s.start s.last).map fun p ↦ s.out ++ [p]
  else some s.out

def splitLines (paragraph : List α) (maxBytes : Nat) : Option (List (List α)) :=
  (paragraph.splitOnP isNewline).foldlM (fun out line ↦
    if len line ≤ maxBytes then some (out ++ [line])
    else (splitChars line maxBytes).map (out ++ ·)) []

/-! ## Chunks -/

def append (maxBytes : Nat) (s : Chunks α) (piece sep : List α) : Chunks α :=
  s.append lenUtf8 maxBytes piece sep

def flush (s : Chunks α) : Chunks α := s.flush

def addParagraph (maxBytes : Nat) (s : Chunks α) (paragraph : List α) : Option (Chunks α) :=
  if len paragraph > maxBytes then do
    let pieces ← splitLines paragraph maxBytes
    some (pieces.foldl (fun s piece ↦ append maxBytes s piece [newline]) (flush s))
  else some (append maxBytes s paragraph [newline, newline])

def chunkText (text : List α) (maxBytes : Nat) : Option (List (List α)) :=
  -- the cap must fit a character
  if maxBytes < 4 then none
  else
    let text := trimEnd text
    if text.isEmpty then some []
    else if len text ≤ maxBytes then some [text]
    else do
      let s ← (← paragraphs text).foldlM (addParagraph maxBytes) {}
      some (flush s).chunks

/-! ## The same without offsets -/

/-- The paragraphs of some lines, with what the paragraph so far has collected. -/
def gather (inFence : Bool) (cur : List α) : List (List α) → List (List α)
  | [] => if (trimEnd cur).isEmpty then [] else [trimEnd cur]
  | line :: lines =>
    let inFence := fenceAfter inFence line
    if isBlank line && !inFence then
      if cur.isEmpty then gather inFence [] lines else trimEnd cur :: gather inFence [] lines
    else gather inFence (cur ++ line) lines

section Gather

variable {inFence : Bool} {cur line : List α} {lines : List (List α)}

theorem gather_blank (hends : (isBlank line && !fenceAfter inFence line) = true)
    (hcur : cur ≠ []) :
    gather inFence cur (line :: lines) =
      trimEnd cur :: gather (fenceAfter inFence line) [] lines := by
  rw [gather, if_pos hends, if_neg (by simpa using hcur)]

theorem gather_blank_nil (hends : (isBlank line && !fenceAfter inFence line) = true) :
    gather inFence [] (line :: lines) = gather (fenceAfter inFence line) [] lines := by
  rw [gather, if_pos hends]
  rfl

theorem gather_line (hends : (isBlank line && !fenceAfter inFence line) = false) :
    gather inFence cur (line :: lines) = gather (fenceAfter inFence line) (cur ++ line) lines := by
  rw [gather, if_neg (by rw [hends]; exact Bool.false_ne_true)]

end Gather

/-- The pieces of a line that is too long, with what the piece so far has collected. -/
def charPieces (maxBytes : Nat) (cur : List α) : List α → List (List α)
  | [] => if cur.isEmpty then [] else [cur]
  | c :: cs =>
    if len cur + lenUtf8 c > maxBytes then cur :: charPieces maxBytes [c] cs
    else charPieces maxBytes (cur ++ [c]) cs

def linePieces (maxBytes : Nat) (line : List α) : List (List α) :=
  if len line ≤ maxBytes then [line] else charPieces maxBytes [] line

/-- The pieces of a paragraph that is too long. -/
def pieces (maxBytes : Nat) (paragraph : List α) : List (List α) :=
  (paragraph.splitOnP isNewline).flatMap (linePieces maxBytes)

def appendLines (maxBytes : Nat) (s : Chunks α) (pieces : List (List α)) : Chunks α :=
  s.fill lenUtf8 maxBytes [newline] pieces

def pack (maxBytes : Nat) (s : Chunks α) (paragraph : List α) : Chunks α :=
  if len paragraph > maxBytes then appendLines maxBytes (flush s) (pieces maxBytes paragraph)
  else append maxBytes s paragraph [newline, newline]

@[simp] theorem appendLines_nil (maxBytes : Nat) (s : Chunks α) :
    appendLines maxBytes s [] = s := rfl

@[simp] theorem appendLines_cons (maxBytes : Nat) (s : Chunks α) (p : List α)
    (ps : List (List α)) :
    appendLines maxBytes s (p :: ps) = appendLines maxBytes (append maxBytes s p [newline]) ps :=
  rfl

theorem appendLines_append (maxBytes : Nat) (s : Chunks α) (ps qs : List (List α)) :
    appendLines maxBytes s (ps ++ qs) = appendLines maxBytes (appendLines maxBytes s ps) qs :=
  Packing.Chunks.fill_append qs

theorem lenUtf8_pos (c : α) : 0 < lenUtf8 c := (char c).utf8Size_pos

theorem lenUtf8_le_four (c : α) : lenUtf8 c ≤ 4 := (char c).utf8Size_le_four

@[simp] theorem len_nil : len ([] : List α) = 0 := rfl

@[simp] theorem len_append (xs ys : List α) : len (xs ++ ys) = len xs + len ys :=
  Slices.size_append lenUtf8 xs ys

@[simp] theorem len_cons (c : α) (cs : List α) : len (c :: cs) = lenUtf8 c + len cs := rfl

theorem len_pos {xs : List α} : 0 < len xs ↔ xs ≠ [] := by
  refine ⟨?_, Slices.size_pos lenUtf8_pos⟩
  rintro h rfl
  exact absurd h (lt_irrefl 0)

theorem slice_append (xs ys zs : List α) :
    slice (xs ++ (ys ++ zs)) (len xs) (len xs + len ys) = some ys :=
  Slices.slice_append lenUtf8_pos xs ys zs

@[simp] theorem flatten_splitInclusive (text : List α) : (splitInclusive text).flatten = text := by
  induction text with
  | nil => rfl
  | cons c cs ih =>
    unfold splitInclusive
    split_ifs
    · rw [List.flatten_cons, ih, List.singleton_append]
    · cases h : splitInclusive cs with
      | nil =>
        rw [h] at ih
        rw [← ih]
        rfl
      | cons line lines =>
        rw [h] at ih
        rw [List.flatten_cons, List.cons_append, ← List.flatten_cons, ih]

/-- What the loop over the lines has seen: everything before the paragraph, and the paragraph. -/
structure ParagraphScan.At (s : ParagraphScan α) (before cur : List α) : Prop where
  start : s.start = len before
  pos : s.pos = len before + len cur
  lastBlank : s.lastBlank = true → cur = []

theorem scanLine_eq {s : ParagraphScan α} {text before cur line rest : List α}
    (htext : text = before ++ (cur ++ (line ++ rest))) (h : s.At before cur) :
    ∃ s' before' cur', scanLine text s line = some s' ∧ s'.At before' cur' ∧
      text = before' ++ (cur' ++ rest) ∧
      ∀ lines, s'.out ++ gather s'.inFence cur' lines =
        s.out ++ gather s.inFence cur (line :: lines) := by
  unfold scanLine
  simp only [gather]
  generalize fenceAfter s.inFence line = inFence
  by_cases hends : (isBlank line && !inFence) = true
  · simp only [if_pos hends]
    by_cases hcur : cur = []
    · -- nothing stands between two blank lines
      subst hcur
      have hpos : ¬ s.pos > s.start := by
        rw [h.pos, h.start, len_nil]
        omega
      have hpushed : (!s.lastBlank && decide (s.pos > s.start)) = false := by simp [hpos]
      rw [hpushed, if_neg Bool.false_ne_true]
      refine ⟨_, before ++ line, [], rfl, ⟨?_, ?_, fun _ ↦ rfl⟩, by simp [htext], ?_⟩
      · simp only [h.pos, len_append, len_nil]
        omega
      · simp only [h.pos, len_append, len_nil]
        omega
      · simp
    · have hlast : s.lastBlank = false := by
        cases hb : s.lastBlank
        · rfl
        · exact absurd (h.lastBlank hb) hcur
      have hpos : s.pos > s.start := by
        have := len_pos.mpr hcur
        rw [h.pos, h.start]
        omega
      have hslice : slice text s.start s.pos = some cur := by
        rw [htext, h.start, h.pos]
        exact slice_append _ _ _
      have hpushed : (!s.lastBlank && decide (s.pos > s.start)) = true := by simp [hpos, hlast]
      rw [hpushed, if_pos rfl, hslice]
      refine ⟨_, before ++ cur ++ line, [], rfl, ⟨?_, ?_, fun _ ↦ rfl⟩, by simp [htext], ?_⟩
      · simp only [h.pos, len_append]
      · simp only [h.pos, len_append, len_nil]
        omega
      · simp [hcur]
  · simp only [if_neg hends]
    refine ⟨_, before, cur ++ line, rfl, ⟨h.start, ?_, nofun⟩, by simp [htext], fun lines ↦ rfl⟩
    simp only [h.pos, len_append]
    omega

theorem foldlM_scanLine {text : List α} (lines : List (List α)) {s : ParagraphScan α}
    {before cur : List α} (htext : text = before ++ (cur ++ lines.flatten)) (h : s.At before cur) :
    ∃ s' before' cur', lines.foldlM (scanLine text) s = some s' ∧ s'.At before' cur' ∧
      text = before' ++ cur' ∧
      s'.out ++ gather s'.inFence cur' [] = s.out ++ gather s.inFence cur lines := by
  induction lines generalizing s before cur with
  | nil => exact ⟨s, before, cur, rfl, h, by simpa using htext, rfl⟩
  | cons line lines ih =>
    obtain ⟨s₁, before₁, cur₁, hstep, h₁, htext₁, hout⟩ := scanLine_eq htext h
    obtain ⟨s₂, before₂, cur₂, hrun, h₂, htext₂, hout₂⟩ := ih htext₁ h₁
    refine ⟨s₂, before₂, cur₂, ?_, h₂, htext₂, hout₂.trans (hout lines)⟩
    rw [List.foldlM_cons, hstep]
    exact hrun

/-- The offsets of the paragraphs are offsets of characters. -/
theorem paragraphs_eq (text : List α) :
    paragraphs text = some (gather false [] (splitInclusive text)) := by
  have hstart : ({} : ParagraphScan α).At [] [] := ⟨rfl, rfl, fun _ ↦ rfl⟩
  have hlines : text = [] ++ ([] ++ (splitInclusive text).flatten) := by simp
  obtain ⟨s, before, cur, hrun, h, htext, hout⟩ :=
    foldlM_scanLine (splitInclusive text) hlines hstart
  rw [List.nil_append] at hout
  rw [paragraphs, hrun, ← hout, gather]
  have hslice : slice text s.start s.pos = some cur := by
    rw [h.start, h.pos, htext]
    simpa using slice_append before cur []
  by_cases hcur : cur = []
  · have hpos : ¬ s.pos > s.start := by
      rw [h.pos, h.start, hcur, len_nil]
      omega
    simp [hpos, hcur, trimEnd]
  · have hpos : s.pos > s.start := by
      have := len_pos.mpr hcur
      rw [h.pos, h.start]
      omega
    simp only [Option.bind_eq_bind, Option.bind_some, if_pos hpos, hslice]
    split_ifs <;> simp

/-- What the loop over the characters has seen: everything before the piece, and the piece. -/
structure CharScan.At (s : CharScan α) (before cur : List α) : Prop where
  start : s.start = len before
  last : s.last = len before + len cur

theorem scanChar_eq {maxBytes : Nat} {s : CharScan α} {line before cur rest : List α} {c : α}
    (hline : line = before ++ (cur ++ c :: rest)) (h : s.At before cur) :
    ∃ s' before' cur', scanChar line maxBytes s (len before + len cur, c) = some s' ∧
      s'.At before' cur' ∧ line = before' ++ (cur' ++ rest) ∧
      len before' + len cur' = len before + len cur + lenUtf8 c ∧
      ∀ cs, s'.out ++ charPieces maxBytes cur' cs = s.out ++ charPieces maxBytes cur (c :: cs) := by
  have hwidth : len before + len cur + lenUtf8 c - s.start = len cur + lenUtf8 c := by
    rw [h.start]
    omega
  unfold scanChar
  simp only [charPieces, hwidth]
  by_cases hfull : len cur + lenUtf8 c > maxBytes
  · have hslice : slice line s.start (len before + len cur) = some cur := by
      rw [hline, h.start]
      exact slice_append _ _ _
    simp only [if_pos hfull]
    rw [hslice]
    refine ⟨_, before ++ cur, [c], rfl, ⟨?_, ?_⟩, by simp [hline], ?_, by simp⟩
    · simp only [len_append]
    · simp only [len_append, len_cons, len_nil]
      omega
    · simp only [len_append, len_cons, len_nil]
      omega
  · simp only [if_neg hfull]
    refine ⟨_, before, cur ++ [c], rfl, ⟨h.start, ?_⟩, by simp [hline], ?_, fun _ ↦ rfl⟩
    · simp only [len_append, len_cons, len_nil]
      omega
    · simp only [len_append, len_cons, len_nil]
      omega

theorem foldlM_scanChar {maxBytes : Nat} {line : List α} (cs : List α) {s : CharScan α}
    {before cur : List α} (hline : line = before ++ (cur ++ cs)) (h : s.At before cur) :
    ∃ s' before' cur',
      (charIndices (len before + len cur) cs).foldlM (scanChar line maxBytes) s = some s' ∧
      s'.At before' cur' ∧ line = before' ++ cur' ∧
      s'.out ++ charPieces maxBytes cur' [] = s.out ++ charPieces maxBytes cur cs := by
  induction cs generalizing s before cur with
  | nil => exact ⟨s, before, cur, rfl, h, by simpa using hline, rfl⟩
  | cons c cs ih =>
    obtain ⟨s₁, before₁, cur₁, hstep, h₁, hline₁, hoffset, hout⟩ :=
      @scanChar_eq _ _ maxBytes _ _ _ _ _ _ hline h
    obtain ⟨s₂, before₂, cur₂, hrun, h₂, hline₂, hout₂⟩ := ih hline₁ h₁
    refine ⟨s₂, before₂, cur₂, ?_, h₂, hline₂, hout₂.trans (hout cs)⟩
    rw [hoffset] at hrun
    rw [charIndices, List.foldlM_cons, hstep]
    exact hrun

theorem splitChars_eq (maxBytes : Nat) (line : List α) :
    splitChars line maxBytes = some (charPieces maxBytes [] line) := by
  have hstart : ({} : CharScan α).At [] [] := ⟨rfl, rfl⟩
  obtain ⟨s, before, cur, hrun, h, hline, hout⟩ :=
    @foldlM_scanChar _ _ maxBytes line line _ [] [] rfl hstart
  rw [List.nil_append] at hout
  have hrun' : (charIndices 0 line).foldlM (scanChar line maxBytes) {} = some s := hrun
  rw [splitChars, hrun', ← hout, charPieces]
  have hslice : slice line s.start s.last = some cur := by
    rw [h.start, h.last, hline]
    simpa using slice_append before cur []
  by_cases hcur : cur = []
  · have hlast : ¬ s.last > s.start := by
      rw [h.last, h.start, hcur, len_nil]
      omega
    simp [hlast, hcur]
  · have hlast : s.last > s.start := by
      have := len_pos.mpr hcur
      rw [h.last, h.start]
      omega
    simp [hlast, hcur, hslice]

theorem splitLines_eq (maxBytes : Nat) (paragraph : List α) :
    splitLines paragraph maxBytes = some (pieces maxBytes paragraph) := by
  have hrun : ∀ (lines out : List (List α)), lines.foldlM (fun out line ↦
      if len line ≤ maxBytes then some (out ++ [line])
      else (splitChars line maxBytes).map (out ++ ·)) out =
        some (out ++ lines.flatMap (linePieces maxBytes)) := by
    intro lines
    induction lines with
    | nil => simp
    | cons line lines ih =>
      intro out
      have hline : (if len line ≤ maxBytes then some (out ++ [line])
          else (splitChars line maxBytes).map (out ++ ·)) =
            some (out ++ linePieces maxBytes line) := by
        rw [splitChars_eq, linePieces]
        split_ifs <;> rfl
      rw [List.foldlM_cons, hline]
      exact (ih _).trans (by rw [List.flatMap_cons, List.append_assoc])
  exact (hrun _ []).trans (by rw [List.nil_append]; rfl)

theorem addParagraph_eq (maxBytes : Nat) (s : Chunks α) (paragraph : List α) :
    addParagraph maxBytes s paragraph = some (pack maxBytes s paragraph) := by
  rw [addParagraph, splitLines_eq, pack]
  split_ifs <;> rfl

/-- A text that is too long for one chunk. -/
theorem chunkText_of_long {text : List α} {maxBytes : Nat} (hcap : 4 ≤ maxBytes)
    (hlong : maxBytes < len (trimEnd text)) :
    chunkText text maxBytes = some (flush ((gather false [] (splitInclusive (trimEnd text))).foldl
      (pack maxBytes) {})).chunks := by
  have hne : ¬ (trimEnd text).isEmpty = true := by
    rw [List.isEmpty_iff, ← ne_eq, ← len_pos]
    omega
  have hrun : ∀ (ps : List (List α)) (s : Chunks α),
      ps.foldlM (addParagraph maxBytes) s = some (ps.foldl (pack maxBytes) s) := by
    intro ps
    induction ps with
    | nil => exact fun _ ↦ rfl
    | cons p ps ih =>
      intro s
      rw [List.foldlM_cons, addParagraph_eq]
      exact ih _
  rw [chunkText, if_neg (by omega)]
  dsimp only
  rw [if_neg hne, if_neg (by omega), paragraphs_eq, Option.bind_eq_bind, Option.bind_some, hrun]
  rfl

theorem chunkText_of_short {text : List α} {maxBytes : Nat} (hcap : 4 ≤ maxBytes)
    (hne : trimEnd text ≠ []) (hshort : len (trimEnd text) ≤ maxBytes) :
    chunkText text maxBytes = some [trimEnd text] := by
  rw [chunkText, if_neg (by omega)]
  dsimp only
  rw [if_neg (by simpa using hne), if_pos hshort]

theorem chunkText_of_blank {text : List α} {maxBytes : Nat} (hcap : 4 ≤ maxBytes)
    (h : trimEnd text = []) : chunkText text maxBytes = some [] := by
  rw [chunkText, if_neg (by omega)]
  dsimp only
  rw [if_pos (by rw [h]; rfl)]

end Silta.Text
