import Silta.ChunkContent

/-!
# Chunks of white space

`do_reply` refuses a text of white space and `paragraphs` leaves out blank paragraphs, but the
pieces of a paragraph that is too long are packed as they are: a chunk is blank when blank pieces
begin it and the piece after them does not fit.
-/

namespace Silta.Text

open Packing (Chunks openSize)
open Lettered (char newline)

section

variable {α : Type} [Lettered α] {maxBytes : Nat} {s : Chunks α}

/-! ## The condition -/

/-- How full the open chunk is after some pieces of a paragraph. -/
def openBefore (maxBytes : Nat) (before : List (List α)) : Nat :=
  openSize maxBytes 1 (before.map len)

/-- A piece begins a chunk, because there is nothing in the open one or because it does not fit. -/
def Begins (maxBytes : Nat) (before : List (List α)) (piece : List α) : Prop :=
  openBefore maxBytes before = 0 ∨ maxBytes < openBefore maxBytes before + 1 + len piece

/-- A piece with some more behind it, on lines of their own. -/
def lined (piece : List α) (more : List (List α)) : List α :=
  piece ++ more.flatMap ([newline] ++ ·)

/-- Wherever blank pieces begin a chunk, the piece after them fits behind them. -/
def BlanksFit (maxBytes : Nat) (paragraph : List α) : Prop :=
  ∀ before w blanks q after, pieces maxBytes paragraph = before ++ w :: (blanks ++ q :: after) →
    w ≠ [] → Blank w → (∀ b ∈ blanks, Blank b) → Begins maxBytes before w →
      len (lined w blanks) + 1 + len q ≤ maxBytes

theorem len_newline : len [(newline : α)] = 1 := by
  rw [len_cons, len_nil, lenUtf8, Lettered.char_newline]
  rfl

theorem blank_lined {w : List α} {more : List (List α)} (hw : Blank w)
    (hmore : ∀ b ∈ more, Blank b) : Blank (lined w more) := by
  refine blank_append.mpr ⟨hw, fun c hc ↦ ?_⟩
  obtain ⟨b, hb, hcb⟩ := List.mem_flatMap.mp hc
  exact blank_append.mpr ⟨blank_newline, hmore b hb⟩ c hcb

theorem lined_append_singleton (w : List α) (more : List (List α)) (q : List α) :
    lined w (more ++ [q]) = lined w more ++ [newline] ++ q := by
  simp [lined]

theorem len_current_appendLines (hs : s.current = []) (ps : List (List α)) :
    len (appendLines maxBytes s ps).current = openBefore maxBytes ps := by
  have h := @Packing.size_current_fill _ lenUtf8 lenUtf8_pos maxBytes [newline] _ hs ps
  rw [show Slices.size lenUtf8 [(newline : α)] = 1 from len_newline] at h
  exact h

theorem append_of_begins (hs : s.current = []) {before : List (List α)} {p : List α}
    (h : Begins maxBytes before p) :
    append maxBytes (appendLines maxBytes s before) p [newline] =
      ⟨(appendLines maxBytes s before).flush.chunks, p⟩ := by
  refine Packing.Chunks.append_of_begins lenUtf8_pos ?_
  rw [show Slices.size lenUtf8 [(newline : α)] = 1 from len_newline]
  change len _ = 0 ∨ maxBytes < len _ + 1 + len p
  rw [len_current_appendLines hs]
  exact h

theorem append_of_not_begins (hs : s.current = []) {before : List (List α)} {p : List α}
    (h : ¬Begins maxBytes before p) :
    (appendLines maxBytes s before).current ≠ [] ∧
      append maxBytes (appendLines maxBytes s before) p [newline] =
        ⟨(appendLines maxBytes s before).chunks,
          (appendLines maxBytes s before).current ++ [newline] ++ p⟩ := by
  rw [Begins, not_or, Nat.not_lt, ← len_current_appendLines hs] at h
  have hne : (appendLines maxBytes s before).current ≠ [] := len_pos.mp (by omega)
  refine ⟨hne, Packing.Chunks.append_of_fits hne ?_⟩
  rw [show Slices.size lenUtf8 [(newline : α)] = 1 from len_newline]
  exact h.2

/-! ## Where a blank chunk comes from -/

theorem exists_blank_of_not_blanksFit (hcap : 4 ≤ maxBytes) {p : List α} (hlong : maxBytes < len p)
    (h : ¬BlanksFit maxBytes p) (s : Chunks α) : ∃ c ∈ (pack maxBytes s p).chunks, Blank c := by
  unfold BlanksFit at h
  push Not at h
  obtain ⟨before, w, blanks, q, after, hpieces, hne, hw, hblanks, hbegins, hfull⟩ := h
  have hlen : len w ≤ maxBytes := len_pieces_le hcap p w (by rw [hpieces]; simp)
  have hsize : maxBytes < len w + len ((blanks ++ [q]).flatMap ([newline] ++ ·)) := by
    have hlined := congrArg len (lined_append_singleton w blanks q)
    rw [lined, len_append, len_append, len_append, len_newline] at hlined
    omega
  have hnil : (flush s).current = [] := s.flush_current
  rw [pack, if_pos hlong, hpieces, appendLines_append, appendLines_cons,
    append_of_begins hnil hbegins]
  generalize (appendLines maxBytes (flush s) before).flush.chunks = closed
  obtain ⟨front, r, back, hsplit, hclosed⟩ :=
    @Packing.Chunks.exists_closed _ lenUtf8 maxBytes [newline] ⟨closed, w⟩ _ hne hsize hlen
  -- what is closed is blank, and stays
  have hpre : front <+: blanks := by
    have hlength := congrArg List.length hsplit
    simp only [List.length_append, List.length_cons, List.length_nil] at hlength
    exact List.prefix_of_prefix_length_le (hsplit ▸ List.prefix_append _ _)
      (List.prefix_append blanks [q]) (by omega)
  have hfront : ∀ b ∈ front, Blank b := fun b hb ↦ hblanks b (hpre.subset hb)
  refine ⟨lined w front, ?_, blank_lined hw hfront⟩
  have happ : blanks ++ q :: after = (blanks ++ [q]) ++ after := by simp
  rw [happ, appendLines_append]
  exact Packing.Chunks.chunks_subset_fill after hclosed

/-! ## Where there is none -/

/-- The open chunk is the blank pieces that begin it. -/
def OpenBlanks (maxBytes : Nat) (before : List (List α)) (current : List α) : Prop :=
  ∃ front w blanks, before = front ++ w :: blanks ∧ w ≠ [] ∧ Blank w ∧ (∀ b ∈ blanks, Blank b) ∧
    Begins maxBytes front w ∧ current = lined w blanks

/-- After some pieces: no chunk that is done is blank, and it is known what the open one is if it
is. -/
structure Unblank (maxBytes : Nat) (before : List (List α)) (s : Chunks α) : Prop where
  chunks : ∀ c ∈ s.chunks, ¬Blank c
  current : s.current = [] ∨ ¬Blank s.current ∨ OpenBlanks maxBytes before s.current

/-- A piece that begins a chunk behind one that is not blank. -/
theorem Unblank.begin {before : List (List α)} {q : List α} {chunks : List (List α)}
    (h : ∀ c ∈ chunks, ¬Blank c) (hbegins : Begins maxBytes before q) :
    Unblank maxBytes (before ++ [q]) ⟨chunks, q⟩ := by
  refine ⟨h, ?_⟩
  by_cases hnil : q = []
  · exact Or.inl hnil
  by_cases hq : Blank q
  · exact Or.inr (Or.inr ⟨before, q, [], rfl, hnil, hq, nofun, hbegins, by simp [lined]⟩)
  · exact Or.inr (Or.inl hq)

theorem Unblank.append {p : List α} (hfit : BlanksFit maxBytes p) (hnil : s.current = [])
    {before after : List (List α)} {q : List α} (hp : pieces maxBytes p = before ++ q :: after)
    (h : Unblank maxBytes before (appendLines maxBytes s before)) :
    Unblank maxBytes (before ++ [q]) (appendLines maxBytes s (before ++ [q])) := by
  have hlen := @len_current_appendLines _ _ maxBytes _ hnil before
  rw [appendLines_append, appendLines_cons, appendLines_nil]
  by_cases hbegins : Begins maxBytes before q
  · rw [append_of_begins hnil hbegins]
    refine Unblank.begin (fun c hc ↦ ?_) hbegins
    rcases Packing.Chunks.mem_flush.mp hc with hold | ⟨rfl, hne⟩
    · exact h.chunks c hold
    rcases h.current with hcur | hcur | ⟨front, w, blanks, rfl, hw, hblank, hblanks, hfront, hcur⟩
    · exact absurd hcur hne
    · exact hcur
    · -- the piece would have fitted behind the blank ones
      have hfits := hfit front w blanks q after (by rw [hp]; simp) hw hblank hblanks hfront
      rw [← hcur, hlen] at hfits
      rcases hbegins with hzero | hfull
      · rw [hzero, ← len_nil (α := α)] at hlen
        exact absurd (len_pos.mpr hne) (by rw [hlen]; simp)
      · omega
  · obtain ⟨hne, happend⟩ := append_of_not_begins hnil hbegins
    rw [happend]
    refine ⟨h.chunks, Or.inr ?_⟩
    rcases h.current with hcur | hcur | ⟨front, w, blanks, rfl, hw, hblank, hblanks, hfront, hcur⟩
    · exact absurd hcur hne
    · exact Or.inl fun hall ↦ hcur (blank_append.mp (blank_append.mp hall).1).1
    · by_cases hq : Blank q
      · refine Or.inr ⟨front, w, blanks ++ [q], by simp, hw, hblank, ?_, hfront, ?_⟩
        · exact List.forall_mem_append.mpr ⟨hblanks, List.forall_mem_singleton.mpr hq⟩
        · rw [lined_append_singleton, ← hcur]
      · exact Or.inl fun hall ↦ hq (blank_append.mp hall).2

theorem unblank_appendLines {p : List α} (hfit : BlanksFit maxBytes p) (hnil : s.current = [])
    (hs : ∀ c ∈ s.chunks, ¬Blank c) {before after : List (List α)}
    (hp : pieces maxBytes p = before ++ after) :
    Unblank maxBytes before (appendLines maxBytes s before) := by
  induction before using List.reverseRecOn generalizing after with
  | nil => exact ⟨hs, Or.inl hnil⟩
  | append_singleton before q ih =>
    have hp' : pieces maxBytes p = before ++ q :: after := by
      rw [hp]
      simp
    exact Unblank.append hfit hnil hp' (ih hp')

/-- Nothing blank is at the end of a paragraph. -/
def EndsInk (p : List α) : Prop := ∀ pre tail, p = pre ++ tail → tail ≠ [] → ¬Blank tail

theorem EndsInk.of_suffix {p tail : List α} (h : EndsInk p) (htail : tail <:+ p) :
    EndsInk tail := by
  obtain ⟨pre, rfl⟩ := htail
  rintro a b rfl hne
  exact h (pre ++ a) b (by simp) hne

theorem endsInk_trimEnd (text : List α) : EndsInk (trimEnd text) := fun _ _ h hne ↦
  not_blank_of_trimEnd h hne

theorem endsInk_of_mem_gather {inFence : Bool} {cur : List α} {lines : List (List α)} :
    ∀ p ∈ gather inFence cur lines, EndsInk p := by
  induction lines generalizing inFence cur with
  | nil =>
    unfold gather
    split_ifs
    · simp
    · exact List.forall_mem_singleton.mpr (endsInk_trimEnd _)
  | cons line lines ih =>
    cases hends : isBlank line && !fenceAfter inFence line with
    | false =>
      rw [gather_line hends]
      exact ih
    | true =>
      by_cases hcur : cur = []
      · subst hcur
        rw [gather_blank_nil hends]
        exact ih
      · rw [gather_blank hends hcur]
        exact List.forall_mem_cons.mpr ⟨endsInk_trimEnd _, ih⟩

theorem exists_last_charPiece (cur cs : List α) (hne : cur ++ cs ≠ []) :
    ∃ front q, charPieces maxBytes cur cs = front ++ [q] ∧ q <:+ cur ++ cs ∧ q ≠ [] := by
  induction cs generalizing cur with
  | nil =>
    rw [List.append_nil] at hne
    rw [charPieces, if_neg (by simpa using hne), List.append_nil]
    exact ⟨[], cur, rfl, List.suffix_refl _, hne⟩
  | cons c cs ih =>
    unfold charPieces
    split_ifs
    · obtain ⟨front, q, heq, hq, hqne⟩ := ih [c] (by simp)
      exact ⟨cur :: front, q, by rw [heq]; rfl, hq.trans (List.suffix_append _ _), hqne⟩
    · obtain ⟨front, q, heq, hq, hqne⟩ := ih (cur ++ [c]) (by simp)
      exact ⟨front, q, heq, by simpa using hq, hqne⟩

/-- The last piece of a paragraph is its end. -/
theorem exists_last_piece {p : List α} (h : EndsInk p) (hne : p ≠ []) :
    ∃ front q, pieces maxBytes p = front ++ [q] ∧ q <:+ p ∧ q ≠ [] := by
  induction p using lines_induction with
  | last l hl =>
    rw [pieces_last hl, linePieces]
    split_ifs
    · exact ⟨[], l, rfl, List.suffix_refl _, hne⟩
    · exact exists_last_charPiece [] l hne
  | line l c rest hl hc ih =>
    have hsuffix : rest <:+ l ++ c :: rest :=
      (List.suffix_cons c rest).trans (List.suffix_append _ _)
    have hrest : rest ≠ [] := by
      rintro rfl
      exact h l [c] rfl (by simp) (List.forall_mem_singleton.mpr (isWhitespace_of_isNewline hc))
    obtain ⟨front, q, heq, hq, hqne⟩ := ih (h.of_suffix hsuffix) hrest
    exact ⟨linePieces maxBytes l ++ front, q, by rw [pieces_line hl hc, heq, List.append_assoc],
      hq.trans hsuffix, hqne⟩

/-- No chunk is blank, and the open one is not either. -/
structure Inked (s : Chunks α) : Prop where
  chunks : ∀ c ∈ s.chunks, ¬Blank c
  current : s.current = [] ∨ ¬Blank s.current

theorem Inked.flush (h : Inked s) : ∀ c ∈ (flush s).chunks, ¬Blank c := by
  intro c hc
  rcases Packing.Chunks.mem_flush.mp hc with hold | ⟨rfl, hne⟩
  · exact h.chunks c hold
  · exact h.current.resolve_left hne

theorem not_blank_of_suffix {xs ys : List α} (h : xs <:+ ys) (hxs : ¬Blank xs) : ¬Blank ys :=
  fun hys ↦ hxs fun c hc ↦ hys c (h.subset hc)

theorem Inked.pack {p : List α} (h : Inked s) (hends : EndsInk p) (hp : ¬Blank p)
    (hfit : maxBytes < len p → BlanksFit maxBytes p) : Inked (pack maxBytes s p) := by
  unfold Text.pack
  split_ifs with hlong
  · have hnil : (Text.flush s).current = [] := s.flush_current
    obtain ⟨front, q, heq, hq, hqne⟩ :=
      @exists_last_piece _ _ maxBytes _ hends (ne_nil_of_not_blank hp)
    have hun := unblank_appendLines (hfit hlong) hnil h.flush (List.append_nil _).symm
    refine ⟨hun.chunks, Or.inr ?_⟩
    obtain ⟨pre, rfl⟩ := hq
    refine not_blank_of_suffix ?_ (hends pre q rfl hqne)
    rw [heq, appendLines_append]
    exact Packing.Chunks.suffix_append
  · rcases Packing.Chunks.append_cases lenUtf8 maxBytes s p [newline, newline] with
      heq | ⟨-, -, heq⟩
    · rw [append, heq]
      exact ⟨h.flush, Or.inr hp⟩
    · rw [append, heq]
      exact ⟨h.chunks, Or.inr (not_blank_of_suffix (List.suffix_append _ _) hp)⟩

theorem chunks_subset_pack (s : Chunks α) (p : List α) :
    s.chunks ⊆ (pack maxBytes s p).chunks := by
  unfold pack
  split_ifs
  · exact List.Subset.trans s.chunks_subset_flush (Packing.Chunks.chunks_subset_fill _)
  · exact Packing.Chunks.chunks_subset_append p

theorem chunks_subset_foldl_pack (s : Chunks α) (ps : List (List α)) :
    s.chunks ⊆ (ps.foldl (pack maxBytes) s).chunks := by
  induction ps generalizing s with
  | nil => exact List.Subset.refl _
  | cons p ps ih => exact List.Subset.trans (chunks_subset_pack s p) (ih _)

theorem inked_foldl_pack {ps : List (List α)} (h : Inked s)
    (hps : ∀ p ∈ ps, EndsInk p ∧ ¬Blank p ∧ (maxBytes < len p → BlanksFit maxBytes p)) :
    Inked (ps.foldl (pack maxBytes) s) := by
  induction ps generalizing s with
  | nil => exact h
  | cons p ps ih =>
    obtain ⟨⟨hends, hp, hfit⟩, hrest⟩ := List.forall_mem_cons.mp hps
    exact ih (h.pack hends hp hfit) hrest

/-- A chunk that a paragraph closes is one of the text. -/
theorem exists_foldl_pack {q : List α → Prop} {ps : List (List α)} {p : List α} (hp : p ∈ ps)
    (h : ∀ s : Chunks α, ∃ c ∈ (pack maxBytes s p).chunks, q c) :
    ∃ c ∈ (ps.foldl (pack maxBytes) s).chunks, q c := by
  obtain ⟨before, after, rfl⟩ := List.append_of_mem hp
  rw [List.foldl_append, List.foldl_cons]
  obtain ⟨c, hc, hq⟩ := h (before.foldl (pack maxBytes) s)
  exact ⟨c, chunks_subset_foldl_pack _ after hc, hq⟩

end

theorem not_blank_iff {c : List Char} :
    ¬Blank c ↔ ∃ d ∈ c, Transfer.isWhitespace d = false := by
  unfold Blank
  push Not
  simp [isWhitespace, Lettered.char]

/-- Every chunk has something in it, just when blank pieces that begin a chunk leave room for the
piece after them. -/
theorem chunks_inked_iff {maxBytes : Nat} (hcap : 4 ≤ maxBytes) (text : List Char) :
    (∃ chunks, chunkText text maxBytes = some chunks ∧
        ∀ c ∈ chunks, ∃ d ∈ c, Transfer.isWhitespace d = false) ↔
      ∃ ps, paragraphs (trimEnd text) = some ps ∧
        ∀ p ∈ ps, maxBytes < len p → BlanksFit maxBytes p := by
  simp only [paragraphs_trimEnd, Option.some.injEq, ← not_blank_iff, exists_eq_left']
  rcases chunkText_cases hcap text with ⟨hblank, h⟩ | ⟨hblank, hshort, h⟩ | ⟨-, -, h⟩
  · rw [h, trimEnd_eq_nil.mpr hblank]
    exact ⟨fun _ ↦ nofun, fun _ ↦ ⟨[], rfl, nofun⟩⟩
  · have htrim : ¬Blank (trimEnd text) := by
      rwa [← ink_eq_nil_iff, ink_trimEnd, ink_eq_nil_iff]
    refine ⟨fun _ p hp hlong ↦ ?_, fun _ ↦ ⟨_, h, List.forall_mem_singleton.mpr htrim⟩⟩
    obtain ⟨a, b, hab⟩ := (parted_paragraphs text).part hp
    rw [← hab, len_append, len_append] at hshort
    omega
  · rw [h]
    simp only [Option.some.injEq, exists_eq_left']
    constructor
    · intro hinked p hp hlong
      by_contra hfit
      obtain ⟨c, hc, hblank⟩ := exists_foldl_pack (s := {}) hp
        (exists_blank_of_not_blanksFit hcap hlong hfit)
      exact hinked c (Packing.Chunks.chunks_subset_flush _ hc) hblank
    · intro hfit
      have hstart : Inked ({} : Chunks Char) := ⟨nofun, Or.inl rfl⟩
      refine (inked_foldl_pack hstart fun p hp ↦ ?_).flush
      exact ⟨endsInk_of_mem_gather p hp, not_blank_of_mem_gather (Or.inl ⟨rfl, rfl⟩) p hp,
        hfit p hp⟩

theorem chunks_inked_iff_spaces :
    (∃ chunks, chunkText "a          b".toList 4 = some chunks ∧
        ∀ c ∈ chunks, ∃ d ∈ c, Transfer.isWhitespace d = false) ↔
      ∃ ps, paragraphs (trimEnd "a          b".toList) = some ps ∧
        ∀ p ∈ ps, 4 < len p → BlanksFit 4 p :=
  chunks_inked_iff (by decide) _

/-- A run of white space in a long line makes a chunk of its own. -/
theorem exists_blank_chunk :
    ¬ ∀ (text : List Char) (maxBytes : Nat), ¬Blank text → 4 ≤ maxBytes →
      ∃ chunks, chunkText text maxBytes = some chunks ∧
        ∀ c ∈ chunks, ∃ d ∈ c, Transfer.isWhitespace d = false := by
  intro h
  have htext : ¬Blank "a          b".toList := not_blank_iff.mpr ⟨'a', by decide, by decide⟩
  obtain ⟨chunks, hchunks, hinked⟩ := h "a          b".toList 4 htext (by decide)
  have hrun : chunkText "a          b".toList 4 =
      some ["a   ".toList, "    ".toList, "   b".toList] := by
    decide +kernel
  obtain rfl := Option.some.inj (hrun.symm.trans hchunks)
  obtain ⟨d, hd, hink⟩ := hinked "    ".toList (by decide +kernel)
  have hspace : ∀ d ∈ "    ".toList, Transfer.isWhitespace d = true :=
    List.all_eq_true.mp (by decide)
  rw [hspace d hd] at hink
  exact Bool.noConfusion hink

end Silta.Text
