import Mathlib.Data.List.Nodup
import Silta.Chunks

/-!
# Characters and their places

The same chunks come out when every character of a text is marked with its place: then a chunk says
which character it holds, and not only which letter.
-/

namespace Silta.Text

open Packing (Chunks)
open Lettered (char newline)

/-- A line break, or another character with its place in the text. -/
inductive Placed
  | newline
  | letter (c : Char) (place : Nat)
  deriving DecidableEq, Repr

instance : Lettered Placed where
  char
    | .newline => '\n'
    | .letter c _ => c
  newline := .newline
  char_newline := rfl

/-- The characters of a text in their places. -/
def placed (text : List Char) : List Placed :=
  text.zipIdx.map fun ci ↦ if ci.1 = '\n' then .newline else .letter ci.1 ci.2

@[simp] theorem map_char_placed (text : List Char) : (placed text).map char = text := by
  have hchar : ∀ ci ∈ text.zipIdx,
      char (if ci.1 = '\n' then Placed.newline else .letter ci.1 ci.2) = ci.1 := by
    rintro ⟨c, i⟩ -
    split_ifs with h
    · exact h.symm
    · rfl
  rw [placed, List.map_map]
  exact (List.map_congr_left hchar).trans (List.zipIdx_map_fst ..)

/-! ## Forgetting the places -/

section Char

variable {α : Type} [Lettered α]

@[simp] theorem lenUtf8_char (c : α) : lenUtf8 (char c) = lenUtf8 c := rfl

@[simp] theorem isWhitespace_char (c : α) : isWhitespace (char c) = isWhitespace c := rfl

@[simp] theorem isNewline_char (c : α) : isNewline (char c) = isNewline c := rfl

@[simp] theorem len_map_char (text : List α) : len (text.map char) = len text := by
  simp [len, Slices.size, Function.comp_def]

theorem rdropWhile_map_char (q : Char → Bool) (text : List α) :
    (text.map char).rdropWhile q = (text.rdropWhile fun c ↦ q (char c)).map char := by
  rw [List.rdropWhile, ← List.map_reverse, List.dropWhile_map, ← List.map_reverse]
  rfl

theorem trimEnd_map_char (text : List α) : trimEnd (text.map char) = (trimEnd text).map char :=
  rdropWhile_map_char _ text

theorem splitInclusive_map_char (text : List α) :
    splitInclusive (text.map char) = (splitInclusive text).map (·.map char) := by
  induction text with
  | nil => rfl
  | cons c cs ih =>
    rw [List.map_cons, splitInclusive, splitInclusive, isNewline_char, ih]
    split_ifs
    · rfl
    · cases splitInclusive cs <;> rfl

theorem isFence_map_char (line : List α) : isFence (line.map char) = isFence line := by
  have hstart : ∀ mark, startsWith mark (trimmed (line.map char)) =
      startsWith mark (trimmed line) := by
    intro mark
    rw [trimmed, trimEndMatches, rdropWhile_map_char, startsWith, List.map_map]
    rfl
  rw [isFence, hstart, hstart, isFence]

theorem isBlank_map_char (line : List α) : isBlank (line.map char) = isBlank line := by
  rw [Bool.eq_iff_iff, isBlank_iff, isBlank_iff]
  simp [Blank]

theorem gather_map_char (inFence : Bool) (cur : List α) (lines : List (List α)) :
    gather inFence (cur.map char) (lines.map (·.map char)) =
      (gather inFence cur lines).map (·.map char) := by
  induction lines generalizing inFence cur with
  | nil =>
    rw [List.map_nil, gather, gather, trimEnd_map_char, List.isEmpty_map]
    split_ifs <;> rfl
  | cons line lines ih =>
    have hfence : fenceAfter inFence (line.map char) = fenceAfter inFence line := by
      rw [fenceAfter, isFence_map_char, fenceAfter]
    have hnil := ih (fenceAfter inFence line) []
    rw [List.map_nil] at hnil
    rw [List.map_cons, gather, gather, hfence, isBlank_map_char, trimEnd_map_char,
      List.isEmpty_map, ← List.map_append, ih, hnil]
    split_ifs <;> rfl

theorem paragraphs_map_char (text : List α) :
    paragraphs (text.map char) = (paragraphs text).map (List.map (List.map char)) := by
  have hgather := gather_map_char false [] (splitInclusive text)
  rw [List.map_nil] at hgather
  rw [paragraphs_eq, paragraphs_eq, splitInclusive_map_char, hgather]
  rfl

theorem charPieces_map_char (maxBytes : Nat) (cur cs : List α) :
    charPieces maxBytes (cur.map char) (cs.map char) =
      (charPieces maxBytes cur cs).map (·.map char) := by
  induction cs generalizing cur with
  | nil =>
    rw [List.map_nil, charPieces, charPieces, List.isEmpty_map]
    split_ifs <;> rfl
  | cons c cs ih =>
    have hone := ih [c]
    have hmore := ih (cur ++ [c])
    rw [List.map_append] at hmore
    rw [List.map_singleton] at hone hmore
    rw [List.map_cons, charPieces, charPieces, len_map_char, lenUtf8_char, hone, hmore]
    split_ifs <;> rfl

theorem linePieces_map_char (maxBytes : Nat) (line : List α) :
    linePieces maxBytes (line.map char) = (linePieces maxBytes line).map (·.map char) := by
  have hchars := charPieces_map_char maxBytes [] line
  rw [List.map_nil] at hchars
  rw [linePieces, linePieces, len_map_char, hchars]
  split_ifs <;> rfl

theorem pieces_map_char (maxBytes : Nat) (p : List α) :
    pieces maxBytes (p.map char) = (pieces maxBytes p).map (·.map char) := by
  have hno : ∀ l : List α, (∀ c ∈ l, isNewline c = false) →
      ∀ c ∈ l.map char, isNewline c = false := fun l hl c hc ↦ by
    obtain ⟨d, hd, rfl⟩ := List.mem_map.mp hc
    exact hl d hd
  induction p using lines_induction with
  | last l hl => rw [pieces_last hl, pieces_last (hno l hl), linePieces_map_char]
  | line l c rest hl hc ih =>
    have hbreak : isNewline (char c) = true := hc
    rw [List.map_append, List.map_cons, pieces_line hl hc, pieces_line (hno l hl) hbreak, ih,
      linePieces_map_char, List.map_append]

theorem append_map_char (maxBytes : Nat) (s : Chunks α) (piece : List α) (n : Nat) :
    append maxBytes (s.map char) (piece.map char) (List.replicate n newline) =
      (append maxBytes s piece (List.replicate n newline)).map char := by
  have h := @Packing.Chunks.append_map _ lenUtf8 maxBytes s piece (List.replicate n newline) _
    (char : α → Char) lenUtf8 fun _ ↦ rfl
  rw [List.map_replicate, Lettered.char_newline] at h
  exact h

theorem appendLines_map_char (maxBytes : Nat) (s : Chunks α) (ps : List (List α)) :
    appendLines maxBytes (s.map char) (ps.map (·.map char)) =
      (appendLines maxBytes s ps).map char := by
  induction ps generalizing s with
  | nil => rfl
  | cons p ps ih =>
    rw [List.map_cons, appendLines_cons, appendLines_cons, ← ih]
    exact congrArg (appendLines maxBytes · _) (append_map_char maxBytes s p 1)

theorem pack_map_char (maxBytes : Nat) (s : Chunks α) (p : List α) :
    pack maxBytes (s.map char) (p.map char) = (pack maxBytes s p).map char := by
  have hflush : flush (s.map char) = (flush s).map char := s.flush_map char
  have happend := append_map_char maxBytes s p 2
  rw [pack, pack, len_map_char, pieces_map_char, hflush, appendLines_map_char]
  split_ifs
  · rfl
  · exact happend

theorem packed_map_char (text : List α) (maxBytes : Nat) :
    packed (text.map char) maxBytes = (packed text maxBytes).map char := by
  have hfold : ∀ (ps : List (List α)) (s : Chunks α),
      (ps.map (·.map char)).foldl (pack maxBytes) (s.map char) =
        (ps.foldl (pack maxBytes) s).map char := by
    intro ps
    induction ps with
    | nil => exact fun _ ↦ rfl
    | cons p ps ih =>
      intro s
      rw [List.map_cons, List.foldl_cons, List.foldl_cons, pack_map_char, ih]
  have hgather := gather_map_char false [] (splitInclusive (trimEnd text))
  rw [List.map_nil] at hgather
  rw [packed, trimEnd_map_char, splitInclusive_map_char, hgather]
  exact hfold _ {}

/-- The chunks of the characters are those of whatever carries them. -/
theorem chunkText_map_char {maxBytes : Nat} (hcap : 4 ≤ maxBytes) (text : List α) :
    chunkText (text.map char) maxBytes =
      (chunkText text maxBytes).map (List.map (List.map char)) := by
  have htrim := trimEnd_map_char text
  rcases chunkText_cases hcap text with ⟨hblank, h⟩ | ⟨hblank, hshort, h⟩ | ⟨-, hlong, h⟩
  · rw [h, chunkText_of_blank hcap (by rw [htrim, trimEnd_eq_nil.mpr hblank, List.map_nil])]
    rfl
  · have hne : trimEnd (text.map char) ≠ [] := by
      rw [htrim, Ne, List.map_eq_nil_iff, trimEnd_eq_nil]
      exact hblank
    rw [h, chunkText_of_short hcap hne (by rw [htrim, len_map_char]; exact hshort), htrim]
    rfl
  · rw [h, chunkText_of_long hcap (by rw [htrim, len_map_char]; exact hlong), ← packed,
      packed_map_char, flush, Packing.Chunks.flush_map]
    rfl

/-! ## One place for each character -/

/-- No character of the text, apart from the line breaks, is in it twice. -/
def Distinct (text : List α) : Prop := (text.filter fun c ↦ !isNewline c).Nodup

omit [Lettered α] in
theorem notMem_of_filter_nodup {q : α → Bool} {a b : List α} {x : α}
    (h : ((a ++ x :: b).filter q).Nodup) (hx : q x = true) : x ∉ a ∧ x ∉ b := by
  rw [List.filter_append, List.filter_cons_of_pos hx, List.nodup_middle, List.nodup_cons] at h
  have hnot : ∀ l : List α, l.filter q ⊆ a.filter q ++ b.filter q → x ∉ l := fun l hl hmem ↦
    h.1 (hl (List.mem_filter.mpr ⟨hmem, hx⟩))
  exact ⟨hnot a (List.subset_append_left _ _), hnot b (List.subset_append_right _ _)⟩

theorem Distinct.notMem {a b : List α} {x : α} (h : Distinct (a ++ x :: b))
    (hx : isNewline x = false) : x ∉ a ∧ x ∉ b :=
  notMem_of_filter_nodup h (by rw [hx, Bool.not_false])

/-- Where a character is in such a text. -/
theorem Distinct.split_inj {a b a' b' : List α} {x : α} (h : Distinct (a ++ x :: b))
    (hx : isNewline x = false) (heq : a ++ x :: b = a' ++ x :: b') : a = a' ∧ b = b' := by
  have hnot := h.notMem hx
  obtain ⟨ha, -, hb⟩ := (List.append_cons_inj_of_notMem hnot.1 hnot.2).mp heq
  exact ⟨ha, hb⟩

theorem Distinct.nodup_ink {text : List α} (h : Distinct text) : (ink text).Nodup := by
  have hink : ink text = (text.filter fun c ↦ !isNewline c).filter fun c ↦ !isWhitespace c := by
    rw [List.filter_filter]
    refine List.filter_congr fun c _ ↦ ?_
    cases hc : isNewline c
    · simp
    · simp [isWhitespace_of_isNewline hc]
  rw [hink]
  exact h.filter _

/-- In texts that have each character once, two that hold one character are the same, and hold it in
the same place. -/
theorem place_unique {texts : List (List α)} (h : (ink texts.flatten).Nodup) {x : α}
    (hx : isWhitespace x = false) {u v u' v' : List α} (hc : u ++ x :: v ∈ texts)
    (hc' : u' ++ x :: v' ∈ texts) : u = u' ∧ v = v' := by
  have hkeep : (!isWhitespace x) = true := by rw [hx, Bool.not_false]
  obtain ⟨front, back, rfl⟩ := List.append_of_mem hc
  have hflatten : (front ++ (u ++ x :: v) :: back).flatten =
      (front.flatten ++ u) ++ x :: (v ++ back.flatten) := by
    simp
  rw [hflatten] at h
  obtain ⟨hbefore, hafter⟩ := notMem_of_filter_nodup h hkeep
  have hmem : x ∈ u' ++ x :: v' := List.mem_append_right _ List.mem_cons_self
  rcases List.mem_append.mp hc' with hfront | hrest
  · exact absurd (List.mem_append_left _ (List.mem_flatten.mpr ⟨_, hfront, hmem⟩)) hbefore
  · rcases List.mem_cons.mp hrest with heq | hback
    · obtain ⟨hu, -, hv⟩ := (List.append_cons_inj_of_notMem
        (fun hu ↦ hbefore (List.mem_append_right _ hu))
        (fun hv ↦ hafter (List.mem_append_left _ hv))).mp heq.symm
      exact ⟨hu, hv⟩
    · exact absurd (List.mem_append_right _ (List.mem_flatten.mpr ⟨_, hback, hmem⟩)) hafter

end Char

theorem chunkText_placed {maxBytes : Nat} (hcap : 4 ≤ maxBytes) {text : List Char}
    {chunks : List (List Placed)} (h : chunkText (placed text) maxBytes = some chunks) :
    chunkText text maxBytes = some (chunks.map (·.map char)) := by
  have hchars := chunkText_map_char hcap (placed text)
  rwa [map_char_placed, h, Option.map_some] at hchars

theorem eq_newline_of_mem_placed {text : List Char} {c : Placed} (h : c ∈ placed text)
    (hc : isNewline c = true) : c = .newline := by
  obtain ⟨ci, -, rfl⟩ := List.mem_map.mp h
  split_ifs with hnl
  · rfl
  · rw [if_neg hnl] at hc
    exact absurd (beq_iff_eq.mp hc) hnl

theorem distinct_placed (text : List Char) : Distinct (placed text) := by
  have hzip : text.zipIdx.Nodup := by
    refine List.Nodup.of_map Prod.snd ?_
    rw [List.zipIdx_map_snd]
    exact List.nodup_range'
  have hletters : (placed text).filter (fun c ↦ !isNewline c) =
      (text.zipIdx.filter fun ci ↦ ci.1 ≠ '\n').map fun ci ↦ .letter ci.1 ci.2 := by
    rw [placed, List.filter_map, Function.comp_def]
    have hsame : ∀ ci ∈ text.zipIdx,
        (!isNewline (if ci.1 = '\n' then Placed.newline else .letter ci.1 ci.2)) =
          decide (ci.1 ≠ '\n') := by
      rintro ⟨c, i⟩ -
      by_cases h : c = '\n'
      · simp [h, isNewline, char]
      · simp [h, isNewline, char]
    rw [List.filter_congr hsame]
    refine List.map_congr_left fun ci hci ↦ ?_
    rw [if_neg (by simpa using (List.mem_filter.mp hci).2)]
  rw [Distinct, hletters]
  refine (hzip.filter _).map fun ci ci' h ↦ ?_
  obtain ⟨hc, hi⟩ := Placed.letter.inj h
  exact Prod.ext hc hi

end Silta.Text
