import Silta.FencedBlocks

/-!
# Whole and torn fences

A paragraph that is too long is cut at lines, a fence in it too: it is torn when its first line
still fits behind the lines before it and the whole fence does not.  A fence that a blank line cuts
into paragraphs is whole only if they come into one chunk and the text between them is an empty
line.
-/

namespace Silta.Text

open Packing (Chunks)
open Lettered (char newline)

section

variable {α : Type} [Lettered α] {maxBytes : Nat} {s : Chunks α}

/-! ## The condition -/

def firstLine (text : List α) : List α := text.takeWhile fun c ↦ !isNewline c

/-- The pieces of a paragraph before a block. -/
def piecesBefore (maxBytes : Nat) (before : List (List α)) : List (List α) :=
  if (opening before).isEmpty then [] else pieces maxBytes (opening before).dropLast

/-- A part of a block and its paragraph: the paragraph is within the cap, or the part begins a
chunk, or it fits behind the pieces that are in the open chunk. -/
def StaysWhole (maxBytes : Nat) (before : List (List α)) (part paragraph : List α) : Prop :=
  len paragraph ≤ maxBytes ∨ Begins maxBytes (piecesBefore maxBytes before) (firstLine part) ∨
    openBefore maxBytes (piecesBefore maxBytes before) + 1 + len part ≤ maxBytes

/-- How full the open chunk is after a paragraph. -/
def sizeAfter (maxBytes size : Nat) (paragraph : List α) : Nat :=
  if len paragraph > maxBytes then openBefore maxBytes (pieces maxBytes paragraph)
  else if size = 0 ∨ maxBytes < size + 2 + len paragraph then len paragraph
  else size + 2 + len paragraph

/-- Paragraphs behind another, each after an empty line. -/
def spaced (ps : List (List α)) : List α := ps.flatMap ([newline, newline] ++ ·)

/-- The text is within the cap; or the block is in one paragraph and stays whole in it; or the part
of it in its first paragraph does, empty lines are all it has between its paragraphs, and these fit
into one chunk. -/
def FenceFits (maxBytes : Nat) (before block after : List (List α)) : Prop :=
  len (before ++ (block ++ after)).flatten ≤ maxBytes ∨
    match endedIn before block with
    | [] =>
      StaysWhole maxBytes before (blockText before block after) (lastParagraph before block after)
    | p :: mids =>
      StaysWhole maxBytes before (trimEnd (head before block)) p ∧
        blockText before block after =
          trimEnd (head before block) ++ spaced (mids ++ [lastText before block after]) ∧
        (closedBy false [] before ++ [p]).foldl (sizeAfter maxBytes) 0 +
          len (spaced (mids ++ [lastParagraph before block after])) ≤ maxBytes

/-! ## A part of a paragraph -/

theorem pieces_break {x y : List α} {c : α} (hc : isNewline c = true) :
    pieces maxBytes (x ++ c :: y) = pieces maxBytes x ++ pieces maxBytes y := by
  rw [pieces, List.splitOnP_append_cons x y hc, List.flatMap_append]
  rfl

/-- The lines of a text within the cap are its pieces. -/
theorem pieces_of_fits {text : List α} (h : len text ≤ maxBytes) :
    pieces maxBytes text = text.splitOnP isNewline := by
  induction text using lines_induction with
  | last l hl => rw [pieces_last hl, List.splitOnP_eq_singleton hl, linePieces, if_pos h]
  | line l c rest hl hc ih =>
    rw [len_append, len_cons] at h
    rw [pieces_line hl hc, List.splitOnP_append_cons_of_forall_mem hl c hc, linePieces,
      if_pos (by omega), ih (by omega)]
    rfl

theorem firstLine_of_not_newline {l : List α} (hl : ∀ c ∈ l, isNewline c = false) :
    firstLine l = l :=
  List.takeWhile_eq_self_iff.mpr fun c hc ↦ by rw [hl c hc, Bool.not_false]

/-- A text is its lines, put together again. -/
theorem exists_lined (text : List α) (hplain : ∀ c ∈ text, isNewline c = true → c = newline) :
    ∃ more, text.splitOnP isNewline = firstLine text :: more ∧
      lined (firstLine text) more = text := by
  induction text using lines_induction with
  | last l hl =>
    rw [firstLine_of_not_newline hl, List.splitOnP_eq_singleton hl]
    exact ⟨[], rfl, by simp [lined]⟩
  | line l c rest hl hc ih =>
    obtain ⟨more, hlines, htext⟩ := ih fun d hd ↦ hplain d (by simp [hd])
    have hfirst : firstLine (l ++ c :: rest) = l := by
      rw [firstLine, List.takeWhile_append_of_pos fun d hd ↦ by rw [hl d hd, Bool.not_false],
        List.takeWhile_cons_of_neg (by rw [hc]; exact Bool.false_ne_true), List.append_nil]
    refine ⟨firstLine rest :: more, ?_, ?_⟩
    · rw [List.splitOnP_append_cons_of_forall_mem hl c hc, hlines, hfirst]
    · rw [hfirst, hplain c (by simp) hc]
      conv_rhs => rw [← htext]
      simp [lined]

theorem len_lined (p : List α) (more : List (List α)) :
    len (lined p more) = len p + len (more.flatMap ([newline] ++ ·)) :=
  len_append p _

section Packed

variable {before : List (List α)} {p : List α} {more : List (List α)} (hnil : s.current = [])
include hnil

/-- Lines that are within the cap together are at the end of the open chunk if the first begins a
chunk, or if all of them fit behind the open one. -/
theorem suffix_lined (hp : p ≠ []) (hlen : len (lined p more) ≤ maxBytes)
    (h : Begins maxBytes before p ∨
      openBefore maxBytes before + 1 + len (lined p more) ≤ maxBytes) :
    lined p more <:+ (appendLines maxBytes s (before ++ p :: more)).current := by
  have hlined := len_lined p more
  rw [appendLines_append, appendLines_cons]
  by_cases hbegins : Begins maxBytes before p
  · rw [append_of_begins hnil hbegins]
    generalize (appendLines maxBytes s before).flush.chunks = closed
    have hfill := @Packing.Chunks.fill_of_fits _ lenUtf8 maxBytes [newline] ⟨closed, p⟩ more hp
      (hlined.symm.trans_le hlen)
    rw [appendLines, hfill]
    exact List.suffix_refl _
  · have hfits := h.resolve_left hbegins
    rw [← len_current_appendLines hnil, hlined] at hfits
    obtain ⟨-, happend⟩ := append_of_not_begins hnil hbegins
    rw [happend]
    generalize (appendLines maxBytes s before) = s' at hfits
    have hsize : len (s'.current ++ [newline] ++ p) + len (more.flatMap ([newline] ++ ·)) ≤
        maxBytes := by
      rw [len_append, len_append, len_newline]
      omega
    have hfill := @Packing.Chunks.fill_of_fits _ lenUtf8 maxBytes [newline]
      ⟨s'.chunks, s'.current ++ [newline] ++ p⟩ more (by simp) hsize
    rw [appendLines, hfill]
    exact ⟨s'.current ++ [newline], by simp [lined]⟩

/-- Otherwise a chunk is closed within them. -/
theorem exists_torn (hbegins : ¬Begins maxBytes before p)
    (h : maxBytes < openBefore maxBytes before + 1 + len (lined p more)) :
    ∃ pre front q back, more = front ++ q :: back ∧
      pre ++ lined p front ∈ (appendLines maxBytes s (before ++ p :: more)).chunks := by
  have hfits : len (appendLines maxBytes s before).current + 1 + len p ≤ maxBytes := by
    rw [len_current_appendLines hnil]
    exact Nat.not_lt.mp (not_or.mp hbegins).2
  rw [← len_current_appendLines hnil, len_lined] at h
  obtain ⟨-, happend⟩ := append_of_not_begins hnil hbegins
  rw [appendLines_append, appendLines_cons, happend]
  generalize appendLines maxBytes s before = s' at h hfits
  have hsize : len (s'.current ++ [newline] ++ p) = len s'.current + 1 + len p := by
    rw [len_append, len_append, len_newline]
  obtain ⟨front, q, back, hmore, hclosed⟩ :=
    @Packing.Chunks.exists_closed _ lenUtf8 maxBytes [newline]
      ⟨s'.chunks, s'.current ++ [newline] ++ p⟩ more (by simp)
      (by change maxBytes < len _ + len _; rw [hsize]; omega) (hsize.trans_le hfits)
  refine ⟨s'.current ++ [newline], front, q, back, hmore, ?_⟩
  rw [lined, ← List.append_assoc]
  exact hclosed

end Packed

/-- A part of a block in its paragraph: behind the lines before the block, and before the end or a
line break. -/
structure InParagraph (maxBytes : Nat) (before : List (List α)) (part tail paragraph : List α) :
    Prop where
  paragraph_eq : paragraph = opening before ++ (part ++ tail)
  opening_ends : opening before = [] ∨ Ended (opening before)
  tail_begins : tail = [] ∨ ∃ c more, tail = c :: more ∧ isNewline c = true
  plain : ∀ c ∈ part, isNewline c = true → c = newline
  begins : ∃ x more, part = x :: more ∧ isWhitespace x = false
  fits : len part ≤ maxBytes

namespace InParagraph

variable {before : List (List α)} {part tail paragraph : List α}

theorem infix_paragraph (h : InParagraph maxBytes before part tail paragraph) :
    part <:+: paragraph := by
  rw [h.paragraph_eq, ← List.append_assoc]
  exact List.infix_append _ _ _

theorem ne_nil (h : InParagraph maxBytes before part tail paragraph) : part ≠ [] := by
  obtain ⟨x, more, rfl, -⟩ := h.begins
  exact List.cons_ne_nil _ _

theorem firstLine_ne_nil (h : InParagraph maxBytes before part tail paragraph) :
    firstLine part ≠ [] := by
  obtain ⟨x, more, rfl, hink⟩ := h.begins
  have hnl : isNewline x = false := by
    by_contra hnl
    rw [isWhitespace_of_isNewline (Bool.of_not_eq_false hnl)] at hink
    exact Bool.noConfusion hink
  rw [firstLine, List.takeWhile_cons_of_pos (by rw [hnl]; rfl)]
  exact List.cons_ne_nil _ _

/-- The lines of the part among the pieces of its paragraph. -/
theorem exists_lines (h : InParagraph maxBytes before part tail paragraph) :
    ∃ more back, lined (firstLine part) more = part ∧ (tail = [] → back = []) ∧
      pieces maxBytes paragraph =
        piecesBefore maxBytes before ++ firstLine part :: (more ++ back) := by
  obtain ⟨more, hlines, hlined⟩ := exists_lined part h.plain
  obtain ⟨back, hback, hnil⟩ : ∃ back, pieces maxBytes (part ++ tail) =
      pieces maxBytes part ++ back ∧ (tail = [] → back = []) := by
    rcases h.tail_begins with rfl | ⟨c, after, rfl, hc⟩
    · exact ⟨[], by rw [List.append_nil, List.append_nil], fun _ ↦ rfl⟩
    · exact ⟨_, pieces_break hc, fun hnil ↦ absurd hnil (List.cons_ne_nil _ _)⟩
  rw [pieces_of_fits h.fits, hlines, List.cons_append] at hback
  refine ⟨more, back, hlined, hnil, ?_⟩
  rw [h.paragraph_eq, piecesBefore]
  rcases h.opening_ends with hopening | ⟨body, c, hbody, hc⟩
  · rw [hopening, List.nil_append, hback]
    rfl
  · rw [if_neg (by simp [hbody]), hbody, List.dropLast_concat, List.append_assoc,
      List.singleton_append, pieces_break hc, hback]

/-- At the end of its paragraph, a part that stays whole is at the end of the open chunk. -/
theorem suffix_pack (h : InParagraph maxBytes before part [] paragraph)
    (hwhole : StaysWhole maxBytes before part paragraph) (s : Chunks α) :
    part <:+ (pack maxBytes s paragraph).current := by
  by_cases hlong : len paragraph > maxBytes
  · obtain ⟨more, back, hlined, hback, hpieces⟩ := h.exists_lines
    have hnil : (flush s).current = [] := s.flush_current
    have hfits := hwhole.resolve_left (by omega)
    have hsuffix := suffix_lined hnil h.firstLine_ne_nil (hlined.symm ▸ h.fits)
      (by rwa [hlined])
    rw [hlined] at hsuffix
    rwa [pack, if_pos hlong, hpieces, hback rfl, List.append_nil]
  · rw [pack, if_neg hlong]
    have hend : part <:+ paragraph := by
      rw [h.paragraph_eq, List.append_nil]
      exact List.suffix_append _ _
    exact hend.trans Packing.Chunks.suffix_append

/-- A part that stays whole is held by a chunk. -/
theorem holds_pack (h : InParagraph maxBytes before part tail paragraph)
    (hwhole : StaysWhole maxBytes before part paragraph) (s : Chunks α) :
    (pack maxBytes s paragraph).Holds part := by
  by_cases hlong : len paragraph > maxBytes
  · obtain ⟨more, back, hlined, -, hpieces⟩ := h.exists_lines
    have hnil : (flush s).current = [] := s.flush_current
    have hfits := hwhole.resolve_left (by omega)
    have hsuffix := suffix_lined hnil h.firstLine_ne_nil (hlined.symm ▸ h.fits)
      (by rwa [hlined])
    rw [hlined] at hsuffix
    rw [pack, if_pos hlong, hpieces, ← List.cons_append, ← List.append_assoc, appendLines_append]
    refine Holds.appendLines ⟨_, Packing.Chunks.mem_flush.mpr (Or.inr ⟨rfl, ?_⟩), hsuffix.isInfix⟩ _
    exact fun hcur ↦ h.ne_nil (List.suffix_nil.mp (hcur ▸ hsuffix))
  · rw [pack, if_neg hlong]
    refine Packing.Chunks.holds_append (fun hpara ↦ ?_) h.infix_paragraph
    exact h.ne_nil (List.infix_nil.mp (hpara ▸ h.infix_paragraph))

/-- Any other is torn: a chunk is closed behind a part of it. -/
theorem exists_torn (h : InParagraph maxBytes before part tail paragraph)
    (htorn : ¬StaysWhole maxBytes before part paragraph) (s : Chunks α) :
    ∃ pre front back, part = front ++ back ∧ front ≠ [] ∧ back ≠ [] ∧
      pre ++ front ∈ (pack maxBytes s paragraph).chunks := by
  obtain ⟨hlong, hbegins, hfull⟩ := by simpa only [StaysWhole, not_or, Nat.not_le] using htorn
  obtain ⟨more, back, hlined, -, hpieces⟩ := h.exists_lines
  have hnil : (flush s).current = [] := s.flush_current
  obtain ⟨pre, front, q, back', hmore, hclosed⟩ :=
    Text.exists_torn hnil hbegins (hlined.symm ▸ hfull)
  refine ⟨pre, lined (firstLine part) front, (q :: back').flatMap ([newline] ++ ·), ?_, ?_, ?_, ?_⟩
  · conv_lhs => rw [← hlined, hmore]
    simp [lined]
  · simp [lined, h.firstLine_ne_nil]
  · simp
  · rw [pack, if_pos hlong, hpieces, ← List.cons_append, ← List.append_assoc, appendLines_append]
    exact Packing.Chunks.chunks_subset_fill _ hclosed

end InParagraph

/-! ## Paragraphs that follow -/

theorem len_newlines : len [(newline : α), newline] = 2 := by
  rw [len_cons, len_newline, lenUtf8, Lettered.char_newline]
  rfl

theorem pack_of_begins {p : List α} (hshort : len p ≤ maxBytes)
    (h : len s.current = 0 ∨ maxBytes < len s.current + 2 + len p) :
    pack maxBytes s p = ⟨s.flush.chunks, p⟩ := by
  rw [← len_newlines (α := α)] at h
  rw [pack, if_neg (by omega)]
  exact Packing.Chunks.append_of_begins lenUtf8_pos h

theorem pack_of_fits {p : List α} (hne : s.current ≠ [])
    (h : len s.current + 2 + len p ≤ maxBytes) :
    pack maxBytes s p = ⟨s.chunks, s.current ++ [newline, newline] ++ p⟩ := by
  rw [pack, if_neg (by omega)]
  rw [← len_newlines (α := α)] at h
  exact Packing.Chunks.append_of_fits hne h

/-- A paragraph that does not fit closes the open chunk. -/
theorem mem_chunks_pack {p : List α} (hne : s.current ≠ [])
    (h : maxBytes < len s.current + 2 + len p) : s.current ∈ (pack maxBytes s p).chunks := by
  have hflush : s.current ∈ s.flush.chunks := Packing.Chunks.mem_flush.mpr (Or.inr ⟨rfl, hne⟩)
  by_cases hlong : len p > maxBytes
  · rw [pack, if_pos hlong]
    exact Packing.Chunks.chunks_subset_fill _ hflush
  · rw [pack_of_begins (Nat.not_lt.mp hlong) (Or.inr h)]
    exact hflush

theorem len_current_pack (s : Chunks α) (p : List α) :
    len (pack maxBytes s p).current = sizeAfter maxBytes (len s.current) p := by
  unfold sizeAfter
  split_ifs with hlong hbegins
  · rw [pack, if_pos hlong]
    exact len_current_appendLines s.flush_current _
  · rw [pack_of_begins (Nat.not_lt.mp hlong) hbegins]
  · rw [not_or, Nat.not_lt] at hbegins
    have hne : s.current ≠ [] := fun hnil ↦ hbegins.1 (by rw [hnil, len_nil])
    rw [pack_of_fits hne hbegins.2, len_append, len_append, len_newlines]

theorem len_current_foldl_pack (ps : List (List α)) :
    len (ps.foldl (pack maxBytes) s).current =
      ps.foldl (sizeAfter maxBytes) (len s.current) := by
  induction ps generalizing s with
  | nil => rfl
  | cons p ps ih => rw [List.foldl_cons, List.foldl_cons, ih, len_current_pack]

theorem spaced_cons (p : List α) (ps : List (List α)) :
    spaced (p :: ps) = [newline, newline] ++ p ++ spaced ps := rfl

theorem spaced_concat (ps : List (List α)) (p : List α) :
    spaced (ps ++ [p]) = spaced ps ++ ([newline, newline] ++ p) := by
  simp [spaced]

theorem len_spaced_cons (p : List α) (ps : List (List α)) :
    len (spaced (p :: ps)) = 2 + len p + len (spaced ps) := by
  rw [spaced_cons, len_append, len_append, len_newlines]

/-- Paragraphs that fit together are put behind the open chunk. -/
theorem foldl_pack_of_fits {ps : List (List α)} (hne : s.current ≠ [])
    (hfits : len s.current + len (spaced ps) ≤ maxBytes) :
    ps.foldl (pack maxBytes) s = ⟨s.chunks, s.current ++ spaced ps⟩ := by
  induction ps generalizing s with
  | nil => simp [spaced]
  | cons p ps ih =>
    rw [len_spaced_cons] at hfits
    have hlen : len (s.current ++ [newline, newline] ++ p) + len (spaced ps) ≤ maxBytes := by
      rw [len_append, len_append, len_newlines]
      omega
    rw [List.foldl_cons, pack_of_fits hne (by omega), ih (by simp) hlen, spaced_cons]
    simp

/-- Of paragraphs that do not fit together, some first ones are closed with the open chunk. -/
theorem exists_closed_foldl_pack {ps : List (List α)} (hne : s.current ≠ [])
    (hcur : len s.current ≤ maxBytes) (hfull : maxBytes < len s.current + len (spaced ps)) :
    ∃ front p back, ps = front ++ p :: back ∧
      s.current ++ spaced front ∈ (ps.foldl (pack maxBytes) s).chunks := by
  induction ps generalizing s with
  | nil =>
    rw [spaced, List.flatMap_nil, len_nil] at hfull
    omega
  | cons p ps ih =>
    rw [List.foldl_cons]
    by_cases hfits : len s.current + 2 + len p ≤ maxBytes
    · have hsize : len (s.current ++ [newline, newline] ++ p) = len s.current + 2 + len p := by
        rw [len_append, len_append, len_newlines]
      rw [len_spaced_cons] at hfull
      obtain ⟨front, q, back, rfl, hclosed⟩ :=
        @ih ⟨s.chunks, s.current ++ [newline, newline] ++ p⟩ (by simp) (hsize.trans_le hfits)
          (by rw [hsize]; omega)
      refine ⟨p :: front, q, back, rfl, ?_⟩
      rw [pack_of_fits hne hfits, spaced_cons]
      simpa using hclosed
    · refine ⟨[], p, ps, rfl, chunks_subset_foldl_pack _ ps ?_⟩
      rw [spaced, List.flatMap_nil, List.append_nil]
      exact mem_chunks_pack hne (by omega)

theorem ink_spaced (ps : List (List α)) : ink (spaced ps) = ink ps.flatten := by
  induction ps with
  | nil => rfl
  | cons p ps ih =>
    rw [spaced_cons, ink_append, ink_append, ink_eq_nil_iff.mpr blank_newlines, List.nil_append, ih,
      List.flatten_cons, ink_append]

/-! ## What is whole -/

/-- A block is whole in a chunk, which has its first character in one place. -/
structure WholeIn (text : List α) (maxBytes : Nat) (x : α) (more u v : List α) : Prop where
  nodup : (ink (flush (packed text maxBytes)).chunks.flatten).Nodup
  ink : isWhitespace x = false
  mem : u ++ x :: (more ++ v) ∈ (flush (packed text maxBytes)).chunks

section WholeIn

variable {text more u v : List α} {x : α}

theorem WholeIn.place (hw : WholeIn text maxBytes x more u v) {pre w : List α}
    (hmem : pre ++ x :: w ∈ (flush (packed text maxBytes)).chunks) : pre = u ∧ w = more ++ v :=
  place_unique hw.nodup hw.ink hmem hw.mem

/-- A part that begins a whole block stays whole in its paragraph. -/
theorem WholeIn.staysWhole (hw : WholeIn text maxBytes x more u v) {before : List (List α)}
    {part tail paragraph back : List α} (hin : InParagraph maxBytes before part tail paragraph)
    (hblock : x :: more = part ++ back)
    (hmem : paragraph ∈ gather false [] (splitInclusive (trimEnd text))) :
    StaysWhole maxBytes before part paragraph := by
  by_contra htorn
  -- a chunk is closed behind some of the part, its first character included
  obtain ⟨c, hc, pre, front, rest, rfl, hpart, hfront, hrest⟩ := @exists_foldl_pack _ _ maxBytes {}
    (fun c ↦ ∃ pre front rest, c = pre ++ front ∧ part = front ++ rest ∧ front ≠ [] ∧ rest ≠ [])
    _ _ hmem fun s ↦ by
      obtain ⟨pre, front, rest, hpart, hfront, hrest, hclosed⟩ := hin.exists_torn htorn s
      exact ⟨_, hclosed, pre, front, rest, rfl, hpart, hfront, hrest⟩
  cases front with
  | nil => exact hfront rfl
  | cons y w =>
    rw [hpart, List.cons_append, List.cons_append] at hblock
    obtain ⟨rfl, hmore⟩ := List.cons.inj hblock
    obtain ⟨-, hplace⟩ := hw.place (Packing.Chunks.chunks_subset_flush _ hc)
    have hlength := congrArg len (hplace.trans (congrArg (· ++ v) hmore))
    have hpos := len_pos.mpr hrest
    simp only [len_append] at hlength
    omega

end WholeIn

/-! ## Blocks in their paragraphs -/

/-- The open chunk after the first paragraph of a block that is cut, and the paragraphs that
follow. -/
structure OpenAfter (text : List α) (maxBytes : Nat) (before block after : List (List α))
    (p : List α) (mids : List (List α)) (s : Chunks α) (pre : List α) (qs : List (List α)) :
    Prop where
  ended : endedIn before block = p :: mids
  packed : Text.packed text maxBytes = qs.foldl (pack maxBytes)
    ((mids ++ [lastParagraph before block after]).foldl (pack maxBytes) s)
  current : s.current = pre ++ trimEnd (head before block)
  ne_nil : s.current ≠ []
  within : len s.current ≤ maxBytes
  size : len s.current = (closedBy false [] before ++ [p]).foldl (sizeAfter maxBytes) 0

/-- Where they fit, a chunk holds them behind the first part of the block. -/
theorem OpenAfter.holds {text p pre : List α} {before block after mids qs : List (List α)}
    (h : OpenAfter text maxBytes before block after p mids s pre qs)
    (hroom : len s.current + len (spaced (mids ++ [lastParagraph before block after])) ≤
      maxBytes) :
    (Text.packed text maxBytes).Holds
      (trimEnd (head before block) ++ spaced (mids ++ [lastParagraph before block after])) := by
  rw [h.packed, foldl_pack_of_fits h.ne_nil hroom]
  refine Holds.foldl_pack
    ⟨_, Packing.Chunks.mem_flush.mpr (Or.inr ⟨rfl, by simp [h.ne_nil]⟩), ?_⟩ qs
  rw [h.current]
  exact ⟨pre, [], by simp⟩

section Block

variable {closes : List α → List α → Bool} {text : List α} {before block after : List (List α)}
  (h : IsFencedBlock closes (splitInclusive (trimEnd text)) before block after)
include h

theorem IsFencedBlock.blockText_infix : blockText before block after <:+: trimEnd text := by
  have hblock : block.flatten <:+: trimEnd text := by
    rw [← flatten_splitInclusive (trimEnd text), h.lines, List.flatten_append, List.flatten_append,
      ← List.append_assoc]
    exact List.infix_append _ _ _
  exact ending_prefix.isInfix.trans hblock

variable (hplain : ∀ c ∈ text, isNewline c = true → c = newline)
  (hfits : len (blockText before block after) ≤ maxBytes)
include hplain hfits

theorem IsFencedBlock.inParagraph (hended : endedIn before block = []) :
    ∃ tail, InParagraph maxBytes before (blockText before block after) tail
      (lastParagraph before block after) := by
  obtain ⟨tail, hlast, htail⟩ := h.lastParagraph_eq
  have hpart : blockText before block after <:+: text :=
    h.blockText_infix.trans (List.rdropWhile_prefix _ _).isInfix
  rcases h.endedIn_cases with ⟨-, htext⟩ | ⟨mids, gap, hmids, -⟩
  · refine ⟨tail, ?_, h.opening_ended, htail, fun c hc ↦ hplain c (hpart.subset hc),
      h.exists_head.1, hfits⟩
    rw [hlast, htext, List.append_assoc]
  · rw [hended] at hmids
    exact absurd hmids.symm (List.cons_ne_nil _ _)

/-- The first part of a block that is cut. -/
theorem IsFencedBlock.inFirst {p : List α} {mids : List (List α)}
    (hended : endedIn before block = p :: mids) :
    InParagraph maxBytes before (trimEnd (head before block)) [] p ∧
      ∃ gap, blockText before block after =
        trimEnd (head before block) ++ (gap ++ lastText before block after) := by
  rcases h.endedIn_cases with ⟨hnil, -⟩ | ⟨mids', gap, hmids, htext⟩
  · rw [hended] at hnil
    exact absurd hnil (List.cons_ne_nil _ _)
  have hpart : trimEnd (head before block) <:+: text := by
    have hpre : trimEnd (head before block) <+: blockText before block after := by
      rw [htext]
      exact List.prefix_append _ _
    exact hpre.isInfix.trans (h.blockText_infix.trans (List.rdropWhile_prefix _ _).isInfix)
  refine ⟨⟨?_, h.opening_ended, Or.inl rfl, fun c hc ↦ hplain c (hpart.subset hc),
    h.exists_head.2, ?_⟩, gap, htext⟩
  · rw [List.append_nil]
    exact (List.cons.inj (hended.symm.trans hmids)).1
  · rw [htext, len_append] at hfits
    omega

theorem IsFencedBlock.exists_openAfter (hcap : 4 ≤ maxBytes) {p : List α} {mids : List (List α)}
    (hended : endedIn before block = p :: mids)
    (hwhole : StaysWhole maxBytes before (trimEnd (head before block)) p) :
    ∃ s pre qs, OpenAfter text maxBytes before block after p mids s pre qs := by
  obtain ⟨hfirst, -⟩ := h.inFirst hplain hfits hended
  obtain ⟨qs, hgather⟩ := h.exists_paragraphs
  have hlen := @len_current_foldl_pack _ _ maxBytes {} (closedBy false [] before ++ [p])
  obtain ⟨pre, hpre⟩ :=
    hfirst.suffix_pack hwhole ((closedBy false [] before).foldl (pack maxBytes) {})
  have hwithin := (@within_foldl_pack _ _ _ {} hcap (closedBy false [] before ++ [p])
    ⟨nofun, Nat.zero_le _⟩).current
  rw [List.foldl_append, List.foldl_cons, List.foldl_nil] at hlen hwithin
  refine ⟨_, pre, qs, hended, ?_, hpre.symm, ?_, hwithin, hlen⟩
  · rw [packed, hgather, hended, List.foldl_append, List.foldl_append, List.foldl_cons,
      List.foldl_cons, List.foldl_append, List.foldl_cons, List.foldl_nil]
  · rw [← hpre]
    exact List.append_ne_nil_of_right_ne_nil _ hfirst.ne_nil

/-- A block that fits is a part of a chunk. -/
theorem IsFencedBlock.exists_chunk (hcap : 4 ≤ maxBytes)
    (hfence : FenceFits maxBytes before block after) {chunks : List (List α)}
    (hchunks : chunkText text maxBytes = some chunks) :
    ∃ c ∈ chunks, blockText before block after <:+: c := by
  rcases chunkText_cases hcap text with ⟨hblank, -⟩ | ⟨-, -, h'⟩ | ⟨-, hlong, h'⟩
  · obtain ⟨x, more, hx, hink⟩ := h.exists_head.1
    have hmem := h.blockText_infix.subset (hx ▸ List.mem_cons_self)
    rw [trimEnd_eq_nil.mpr hblank] at hmem
    exact absurd hmem List.not_mem_nil
  · obtain rfl := Option.some.inj (h'.symm.trans hchunks)
    exact ⟨_, List.mem_singleton_self _, h.blockText_infix⟩
  obtain rfl := Option.some.inj (h'.symm.trans hchunks)
  change (packed text maxBytes).Holds (blockText before block after)
  rcases hfence with hshort | hfence
  · rw [← h.lines, flatten_splitInclusive] at hshort
    omega
  cases hended : endedIn before block with
  | nil =>
    rw [hended] at hfence
    obtain ⟨tail, hin⟩ := h.inParagraph hplain hfits hended
    obtain ⟨qs, hgather⟩ := h.exists_paragraphs
    refine holds_foldl_pack ?_ (hin.holds_pack hfence)
    rw [hgather]
    simp
  | cons p mids =>
    rw [hended] at hfence
    obtain ⟨hwhole, hseams, hroom⟩ := hfence
    obtain ⟨s, pre, qs, hopen⟩ := h.exists_openAfter hplain hfits hcap hended hwhole
    obtain ⟨c, hc, hpart⟩ := hopen.holds (hopen.size.symm ▸ hroom)
    obtain ⟨tail, hlast, -⟩ := h.lastParagraph_eq
    refine ⟨c, hc, List.IsInfix.trans ?_ hpart⟩
    rw [hseams, spaced_concat, spaced_concat, hlast]
    exact ⟨[], tail, by simp⟩

/-- The paragraphs of a whole block fit into one chunk. -/
theorem IsFencedBlock.room {x : α} {more u v : List α} (hw : WholeIn text maxBytes x more u v)
    (hblock : blockText before block after = x :: more) {p pre : List α}
    {mids qs : List (List α)} (hopen : OpenAfter text maxBytes before block after p mids s pre qs) :
    len s.current + len (spaced (mids ++ [lastParagraph before block after])) ≤ maxBytes := by
  by_contra hfull
  obtain ⟨front, q, back, hsplit, hclosed⟩ :=
    exists_closed_foldl_pack hopen.ne_nil hopen.within (Nat.not_le.mp hfull)
  have hmem : s.current ++ spaced front ∈ (flush (packed text maxBytes)).chunks := by
    rw [hopen.packed]
    exact Packing.Chunks.chunks_subset_flush _ (chunks_subset_foldl_pack _ qs hclosed)
  -- the closed chunk has the first part of the block, and paragraphs that end in it
  have hmids : front <+: mids := by
    have hlength := congrArg List.length hsplit
    simp only [List.length_append, List.length_cons, List.length_nil] at hlength
    have hpre : front <+: mids ++ [lastParagraph before block after] := by
      rw [hsplit]
      exact List.prefix_append _ _
    exact List.prefix_of_prefix_length_le hpre (List.prefix_append _ _) (by omega)
  obtain ⟨hin, gap, htext⟩ := h.inFirst hplain hfits hopen.ended
  have hended := hopen.ended
  rw [hin.paragraph_eq, List.append_nil] at hended
  have hink := h.ink_blockText hended
  have hlast : 0 < (ink (lastText before block after)).length := by
    have hends := h.lastPart_ends
    rw [List.length_pos_iff, Ne, ink_eq_nil_iff]
    exact (not_blank_ending hends.1 hends.2).1
  obtain ⟨y, w, hw', -⟩ := hin.begins
  rw [hw', hblock, List.cons_append] at htext
  obtain ⟨rfl, -⟩ := List.cons.inj htext
  have hmem' : pre ++ x :: (w ++ spaced front) ∈ (flush (packed text maxBytes)).chunks := by
    rw [hopen.current, hw'] at hmem
    simpa using hmem
  obtain ⟨-, hplace⟩ := hw.place hmem'
  -- but all of the block is in it
  have hall : trimEnd (head before block) ++ spaced front = blockText before block after ++ v := by
    rw [hw', hblock, List.cons_append, List.cons_append, hplace]
  have hcount := congrArg (fun t ↦ (ink t).length) hall
  have hfront := (hmids.flatten.filter fun c ↦ !isWhitespace c).length_le
  simp only [ink_append, ink_spaced, hink, List.length_append] at hcount
  change (ink front.flatten).length ≤ (ink mids.flatten).length at hfront
  omega

/-- Between the paragraphs of a whole block there is an empty line. -/
theorem IsFencedBlock.seams {x : α} {more u v : List α} (hw : WholeIn text maxBytes x more u v)
    (hblock : blockText before block after = x :: more) {p pre : List α}
    {mids qs : List (List α)} (hopen : OpenAfter text maxBytes before block after p mids s pre qs)
    (hroom : len s.current + len (spaced (mids ++ [lastParagraph before block after])) ≤
      maxBytes) :
    blockText before block after =
      trimEnd (head before block) ++ spaced (mids ++ [lastText before block after]) := by
  obtain ⟨hin, gap, htext⟩ := h.inFirst hplain hfits hopen.ended
  obtain ⟨tail, hlast, -⟩ := h.lastParagraph_eq
  obtain ⟨y, w, hw', -⟩ := hin.begins
  -- the last character that is no white space is in the last part of the block
  obtain ⟨e, z, e', hends, hz⟩ : ∃ e z e', lastText before block after = e ++ z :: e' ∧
      isWhitespace z = false := by
    have hink := (not_blank_ending h.lastPart_ends.1 h.lastPart_ends.2).1
    unfold Blank at hink
    push Not at hink
    obtain ⟨z, hz, hwhite⟩ := hink
    obtain ⟨e, e', hsplit⟩ := List.append_of_mem hz
    exact ⟨e, z, e', hsplit, Bool.eq_false_iff.mpr hwhite⟩
  -- it is in the chunk of the paragraphs too
  obtain ⟨d, hd, a, b, hab⟩ := hopen.holds hroom
  rw [hw', spaced_concat, hlast, hends] at hab
  rw [hw', hends, hblock, List.cons_append] at htext
  obtain ⟨rfl, hmore⟩ := List.cons.inj htext
  have hfirst : a ++ x :: (w ++ (spaced mids ++ ([newline, newline] ++ (e ++ z :: e' ++ tail))) ++
      b) ∈ (packed text maxBytes).flush.chunks := by
    rw [← hab] at hd
    simpa using hd
  obtain ⟨rfl, -⟩ := hw.place hfirst
  have hz₁ : (a ++ x :: (w ++ (spaced mids ++ ([newline, newline] ++ e)))) ++ z ::
      (e' ++ (tail ++ b)) ∈ (packed text maxBytes).flush.chunks := by
    simpa using hfirst
  have hz₂ : (a ++ x :: (w ++ (gap ++ e))) ++ z :: (e' ++ v) ∈
      (flush (packed text maxBytes)).chunks := by
    have hmem := hw.mem
    rw [hmore] at hmem
    simpa using hmem
  have hgap : gap ++ e = (spaced mids ++ [newline, newline]) ++ e := by
    simpa using (place_unique hw.nodup hz hz₂ hz₁).1
  rw [hblock, hmore, hw', spaced_concat, hends, List.append_cancel_right hgap]
  simp

/-- A block that is whole in a chunk fits. -/
theorem IsFencedBlock.fenceFits (hcap : 4 ≤ maxBytes) (hdistinct : Distinct text)
    {chunks : List (List α)} (hchunks : chunkText text maxBytes = some chunks)
    (hwhole : ∃ c ∈ chunks, blockText before block after <:+: c) :
    FenceFits maxBytes before block after := by
  by_cases hshort : len (before ++ (block ++ after)).flatten ≤ maxBytes
  · exact Or.inl hshort
  refine Or.inr ?_
  rw [← h.lines, flatten_splitInclusive] at hshort
  rcases chunkText_cases hcap text with ⟨hblank, -⟩ | ⟨-, hlen, -⟩ | ⟨-, -, h'⟩
  · rw [trimEnd_eq_nil.mpr hblank, len_nil] at hshort
    omega
  · exact absurd hlen hshort
  obtain rfl := Option.some.inj (h'.symm.trans hchunks)
  obtain ⟨c, hc, u, v, rfl⟩ := hwhole
  obtain ⟨x, more, hblock, hx⟩ := h.exists_head.1
  have hw : WholeIn text maxBytes x more u v := by
    refine ⟨?_, hx, ?_⟩
    · rw [ink_packed]
      exact hdistinct.nodup_ink
    · rw [hblock] at hc
      simpa using hc
  obtain ⟨qs, hgather⟩ := h.exists_paragraphs
  cases hended : endedIn before block with
  | nil =>
    obtain ⟨tail, hin⟩ := h.inParagraph hplain hfits hended
    have hself : x :: more = blockText before block after ++ [] := by
      rw [List.append_nil, hblock]
    refine hw.staysWhole hin hself ?_
    rw [hgather]
    simp
  | cons p mids =>
    obtain ⟨hin, gap, htext⟩ := h.inFirst hplain hfits hended
    have hwhole := hw.staysWhole hin (hblock.symm.trans htext) (by rw [hgather, hended]; simp)
    obtain ⟨s, pre, qs, hopen⟩ := h.exists_openAfter hplain hfits hcap hended hwhole
    have hroom := h.room hplain hfits hw hblock hopen
    exact ⟨hwhole, h.seams hplain hfits hw hblock hopen hroom, hopen.size ▸ hroom⟩

end Block

end

/-- The text is cut into chunks, and one of them has the block in its place. -/
def BlockWhole (text : List Char) (maxBytes : Nat) (block : List Placed) : Prop :=
  ∃ chunks, chunkText (placed text) maxBytes = some chunks ∧
    chunkText text maxBytes = some (chunks.map (·.map char)) ∧ ∃ c ∈ chunks, block <:+: c

/-- A fenced code block within the cap is whole in one chunk, whichever lines close a fence, just
when it fits. -/
theorem fence_whole_iff {maxBytes : Nat} (hcap : 4 ≤ maxBytes) (text : List Char)
    {closes : List Placed → List Placed → Bool} {before block after : List (List Placed)}
    (h : IsFencedBlock closes (splitInclusive (trimEnd (placed text))) before block after)
    (hfits : len (blockText before block after) ≤ maxBytes) :
    BlockWhole text maxBytes (blockText before block after) ↔
      FenceFits maxBytes before block after := by
  have hplain : ∀ c ∈ placed text, isNewline c = true → c = newline := fun c hc hnl ↦
    eq_newline_of_mem_placed hc hnl
  constructor
  · rintro ⟨chunks, hchunks, -, hwhole⟩
    exact h.fenceFits hplain hfits hcap (distinct_placed text) hchunks hwhole
  · intro hfence
    obtain ⟨chunks, hchunks, -⟩ := exists_chunkText hcap (placed text)
    exact ⟨chunks, hchunks, chunkText_placed hcap hchunks,
      h.exists_chunk hplain hfits hcap hfence hchunks⟩

/-! ## A block between two lines -/

def between : List Char := "ab\n~~~\nb\n~~~\ncc dd".toList

def betweenBefore : List (List Placed) := [[.letter 'a' 0, .letter 'b' 1, .newline]]

def betweenBlock : List (List Placed) := [
  [.letter '~' 3, .letter '~' 4, .letter '~' 5, .newline],
  [.letter 'b' 7, .newline],
  [.letter '~' 9, .letter '~' 10, .letter '~' 11, .newline]]

def betweenAfter : List (List Placed) := [
  [.letter 'c' 13, .letter 'c' 14, .letter ' ' 15, .letter 'd' 16, .letter 'd' 17]]

theorem between_block :
    IsFencedBlock sameMark (splitInclusive (trimEnd (placed between))) betweenBefore betweenBlock
      betweenAfter where
  lines := by decide +kernel
  outside := by decide +kernel
  block := ⟨[.letter '~' 3, .letter '~' 4, .letter '~' 5, .newline], [[.letter 'b' 7, .newline]],
    by decide +kernel, by decide +kernel, Or.inr
      ⟨[.letter '~' 9, .letter '~' 10, .letter '~' 11, .newline], by decide +kernel,
        by decide +kernel, rfl⟩⟩

theorem fence_whole_iff_between :
    BlockWhole between 11 (blockText betweenBefore betweenBlock betweenAfter) ↔
      FenceFits 11 betweenBefore betweenBlock betweenAfter :=
  fence_whole_iff (by decide) between between_block (by decide +kernel)

/-- The block has nine bytes, and its last line is in another chunk than its first. -/
theorem exists_torn_fence :
    ¬ ∀ (text : List Char) (maxBytes : Nat) (before block after : List (List Placed)),
      4 ≤ maxBytes →
        IsFencedBlock sameMark (splitInclusive (trimEnd (placed text))) before block after →
          len (blockText before block after) ≤ maxBytes →
            BlockWhole text maxBytes (blockText before block after) := by
  intro h
  obtain ⟨chunks, hchunks, -, c, hc, hpart⟩ :=
    h between 11 _ _ _ (by decide) between_block (by decide +kernel)
  have hrun : chunkText (placed between) 11 = some [
      [.letter 'a' 0, .letter 'b' 1, .newline, .letter '~' 3, .letter '~' 4, .letter '~' 5,
        .newline, .letter 'b' 7],
      [.letter '~' 9, .letter '~' 10, .letter '~' 11, .newline, .letter 'c' 13, .letter 'c' 14,
        .letter ' ' 15, .letter 'd' 16, .letter 'd' 17]] := by
    decide +kernel
  obtain rfl := Option.some.inj (hrun.symm.trans hchunks)
  have hmem : Placed.letter '~' 3 ∈ blockText betweenBefore betweenBlock betweenAfter ∧
      Placed.letter '~' 9 ∈ blockText betweenBefore betweenBlock betweenAfter := by
    decide +kernel
  have hfirst := hpart.subset hmem.1
  have hlast := hpart.subset hmem.2
  rcases List.mem_cons.mp hc with rfl | hc
  · exact absurd hlast (by decide)
  · rw [List.mem_singleton.mp hc] at hfirst
    exact absurd hfirst (by decide)

end Silta.Text
