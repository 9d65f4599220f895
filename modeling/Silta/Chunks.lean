import Silta.Text

/-!
# What the chunks are made of

The paragraphs are the text without some white space between them, the pieces of a long paragraph
are its lines and pieces of its long lines, and packing them keeps every chunk within the cap.
-/

namespace Silta.Text

open Packing (Chunks Rejoined)
open Lettered (char newline)

variable {α : Type} [Lettered α] {maxBytes : Nat}

/-! ## White space -/

def Blank (text : List α) : Prop := ∀ c ∈ text, isWhitespace c = true

/-- The characters that are not white space. -/
def ink (text : List α) : List α := text.filter fun c ↦ !isWhitespace c

theorem ink_append (xs ys : List α) : ink (xs ++ ys) = ink xs ++ ink ys := List.filter_append ..

theorem ink_eq_nil_iff {text : List α} : ink text = [] ↔ Blank text := by
  simp [ink, Blank]

theorem blank_append {xs ys : List α} : Blank (xs ++ ys) ↔ Blank xs ∧ Blank ys :=
  List.forall_mem_append

theorem isWhitespace_of_char {c : α} {d : Char} (h : char c = d)
    (hd : Transfer.isWhitespace d = true) : isWhitespace c = true := by
  rw [isWhitespace, h, hd]

theorem isNewline_newline : isNewline (newline : α) = true := by
  rw [isNewline, Lettered.char_newline]
  rfl

theorem isWhitespace_of_isNewline {c : α} (h : isNewline c = true) : isWhitespace c = true :=
  isWhitespace_of_char (beq_iff_eq.mp h) (by decide)

theorem isWhitespace_newline : isWhitespace (newline : α) = true :=
  isWhitespace_of_isNewline isNewline_newline

/-- What `trim_end` leaves and what it takes. -/
theorem exists_trimEnd (text : List α) : ∃ tail, text = trimEnd text ++ tail ∧ Blank tail := by
  refine ⟨text.rtakeWhile isWhitespace, (List.rdropWhile_append_rtakeWhile ..).symm, ?_⟩
  exact fun c hc ↦ List.mem_rtakeWhile_imp hc

theorem trimEnd_eq_nil {text : List α} : trimEnd text = [] ↔ Blank text :=
  List.rdropWhile_eq_nil_iff

theorem ink_trimEnd (text : List α) : ink (trimEnd text) = ink text := by
  obtain ⟨tail, htext, htail⟩ := exists_trimEnd text
  conv_rhs => rw [htext, ink_append, ink_eq_nil_iff.mpr htail, List.append_nil]

/-- A text that was trimmed does not end with white space. -/
theorem not_blank_of_trimEnd {text pre tail : List α} (h : trimEnd text = pre ++ tail)
    (hne : tail ≠ []) : ¬Blank tail := by
  intro hblank
  have hlast : ¬isWhitespace ((trimEnd text).getLast (by rw [h]; simp [hne])) = true :=
    List.rdropWhile_last_not _ _ _
  refine hlast (hblank _ ?_)
  simp only [h, List.getLast_append_of_ne_nil _ hne, List.getLast_mem]

theorem blank_trim {text : List α} : trim text = [] ↔ Blank text := by
  rw [trim, trimEnd_eq_nil]
  refine ⟨fun h ↦ ?_, fun h c hc ↦ h c ((List.dropWhile_sublist _).subset hc)⟩
  have hall : text.dropWhile isWhitespace = [] := by
    by_contra hne
    have hhead := List.head_dropWhile_not isWhitespace hne
    rw [h _ (List.head_mem hne)] at hhead
    exact Bool.noConfusion hhead
  exact List.dropWhile_eq_nil_iff.mp hall

theorem isBlank_iff {line : List α} : isBlank line = true ↔ Blank line := by
  have htrimmed : Blank (trimmed line) ↔ Blank line := by
    obtain ⟨tail, hline, htail⟩ : ∃ tail, line = trimmed line ++ tail ∧ Blank tail := by
      refine ⟨line.rtakeWhile _, (List.rdropWhile_append_rtakeWhile ..).symm, fun c hc ↦ ?_⟩
      have hmem := List.mem_rtakeWhile_imp hc
      simp only [List.contains_cons, List.contains_nil, Bool.or_false, Bool.or_eq_true,
        beq_iff_eq] at hmem
      rcases hmem with h | h
      · exact isWhitespace_of_char h (by decide)
      · exact isWhitespace_of_char h (by decide)
    conv_rhs => rw [hline, blank_append]
    exact (and_iff_left htail).symm
  rw [isBlank, List.isEmpty_iff, blank_trim, htrimmed]

/-- The first character of a mark stands in a line that starts with it. -/
theorem not_blank_of_startsWith {mark : String} {line : List α}
    (h : startsWith mark line = true) (hmark : ∃ d ∈ mark.toList, Transfer.isWhitespace d = false) :
    ¬Blank line := by
  intro hblank
  obtain ⟨d, hd, hwhite⟩ := hmark
  obtain ⟨c, hc, rfl⟩ := List.mem_map.mp ((List.isPrefixOf_iff_prefix.mp h).subset hd)
  rw [show Transfer.isWhitespace (char c) = true from hblank c hc] at hwhite
  exact Bool.noConfusion hwhite

theorem not_blank_of_isFence {line : List α} (h : isFence line = true) : ¬Blank line := by
  have hsub : ∀ c ∈ trimmed line, c ∈ line := fun c hc ↦
    (List.rdropWhile_prefix _ line).subset hc
  rw [isFence, Bool.or_eq_true] at h
  intro hblank
  have htrimmed : Blank (trimmed line) := fun c hc ↦ hblank c (hsub c hc)
  rcases h with h | h
  · exact not_blank_of_startsWith h ⟨_, List.mem_cons_self, by decide⟩ htrimmed
  · exact not_blank_of_startsWith h ⟨_, List.mem_cons_self, by decide⟩ htrimmed

/-! ## Lines -/

/-- Over the lines of a text. -/
theorem lines_induction {motive : List α → Prop}
    (last : ∀ l, (∀ c ∈ l, isNewline c = false) → motive l)
    (line : ∀ l c rest, (∀ d ∈ l, isNewline d = false) → isNewline c = true → motive rest →
      motive (l ++ c :: rest)) (text : List α) : motive text := by
  suffices h : ∀ l, (∀ c ∈ l, isNewline c = false) → motive (l ++ text) from h [] nofun
  induction text with
  | nil =>
    intro l hl
    rw [List.append_nil]
    exact last l hl
  | cons c cs ih =>
    intro l hl
    cases hc : isNewline c with
    | true => exact line l c cs hl hc (ih [] nofun)
    | false =>
      have hlc : ∀ d ∈ l ++ [c], isNewline d = false :=
        List.forall_mem_append.mpr ⟨hl, List.forall_mem_singleton.mpr hc⟩
      simpa using ih (l ++ [c]) hlc

theorem splitInclusive_last {l : List α} (hl : ∀ c ∈ l, isNewline c = false) (hne : l ≠ []) :
    splitInclusive l = [l] := by
  induction l with
  | nil => exact absurd rfl hne
  | cons c cs ih =>
    obtain ⟨hc, hcs⟩ := List.forall_mem_cons.mp hl
    rw [splitInclusive, if_neg (by rw [hc]; exact Bool.false_ne_true)]
    by_cases hnil : cs = []
    · subst hnil
      rfl
    · rw [ih hcs hnil]

theorem splitInclusive_line {l rest : List α} {c : α} (hl : ∀ c ∈ l, isNewline c = false)
    (hc : isNewline c = true) :
    splitInclusive (l ++ c :: rest) = (l ++ [c]) :: splitInclusive rest := by
  induction l with
  | nil => rw [List.nil_append, splitInclusive, if_pos hc, List.nil_append]
  | cons d l ih =>
    obtain ⟨hd, hl⟩ := List.forall_mem_cons.mp hl
    rw [List.cons_append, splitInclusive, if_neg (by rw [hd]; exact Bool.false_ne_true), ih hl]
    rfl

/-- A line of a text ends with a line break, unless it is the last one. -/
theorem ends_or_last_of_splitInclusive (text : List α) {front back : List (List α)}
    {line : List α} (h : splitInclusive text = front ++ line :: back) :
    (∃ body c, line = body ++ [c] ∧ isNewline c = true) ∨
      back = [] ∧ line ≠ [] ∧ line <:+ text := by
  induction text using lines_induction generalizing front with
  | last l hl =>
    by_cases hnil : l = []
    · subst hnil
      exact absurd h.symm (by simp [splitInclusive])
    · rw [splitInclusive_last hl hnil] at h
      obtain ⟨rfl, h⟩ := List.append_eq_singleton_iff.mp h.symm |>.resolve_right (by simp)
      obtain ⟨rfl, rfl⟩ := List.cons.inj h
      exact Or.inr ⟨rfl, hnil, List.suffix_refl _⟩
  | line l c rest hl hc ih =>
    rw [splitInclusive_line hl hc] at h
    cases front with
    | nil =>
      obtain ⟨rfl, -⟩ := List.cons.inj h
      exact Or.inl ⟨l, c, rfl, hc⟩
    | cons first front =>
      have hsuffix : rest <:+ l ++ c :: rest :=
        (List.suffix_cons c rest).trans (List.suffix_append _ _)
      exact (ih (List.cons.inj h).2).imp_right fun hlast ↦
        ⟨hlast.1, hlast.2.1, hlast.2.2.trans hsuffix⟩

/-! ## Paragraphs -/

/-- Every blank line of a trimmed text ends with a line break. -/
theorem newline_mem_of_blank {text line : List α} (h : line ∈ splitInclusive (trimEnd text))
    (hblank : Blank line) : ∃ c ∈ line, isNewline c = true := by
  obtain ⟨front, back, hlines⟩ := List.append_of_mem h
  rcases ends_or_last_of_splitInclusive _ hlines with ⟨body, c, rfl, hc⟩ | ⟨-, hne, pre, hpre⟩
  · exact ⟨c, List.mem_append_right _ (List.mem_singleton_self c), hc⟩
  · exact absurd hblank (not_blank_of_trimEnd hpre.symm hne)

/-- A paragraph that has begun is inside a fence or has something in it. -/
def Begun (inFence : Bool) (cur : List α) : Prop :=
  (cur = [] ∧ inFence = false) ∨ ¬Blank cur

theorem Begun.append {inFence : Bool} {cur line : List α} (h : Begun inFence cur)
    (hopen : (isBlank line && !fenceAfter inFence line) = false) : ¬Blank (cur ++ line) := by
  rw [blank_append]
  rintro ⟨hcur, hline⟩
  have hfence : isFence line = false := by
    by_contra hf
    exact not_blank_of_isFence (Bool.of_not_eq_false hf) hline
  rcases h with ⟨-, rfl⟩ | h
  · rw [isBlank_iff.mpr hline, fenceAfter, hfence] at hopen
    exact Bool.noConfusion hopen
  · exact h hcur

/-- No paragraph is blank. -/
theorem not_blank_of_mem_gather {inFence : Bool} {cur : List α} {lines : List (List α)}
    (h : Begun inFence cur) : ∀ p ∈ gather inFence cur lines, ¬Blank p := by
  have htrim : ∀ {x : List α}, ¬Blank x → ¬Blank (trimEnd x) := fun hx ↦ by
    rwa [← ink_eq_nil_iff, ink_trimEnd, ink_eq_nil_iff]
  induction lines generalizing inFence cur with
  | nil =>
    intro p hp
    unfold gather at hp
    split_ifs at hp with hnil
    · cases hp
    · obtain rfl := List.mem_singleton.mp hp
      rw [List.isEmpty_iff, trimEnd_eq_nil] at hnil
      exact htrim hnil
  | cons line lines ih =>
    intro p hp
    cases hends : isBlank line && !fenceAfter inFence line with
    | false =>
      rw [gather_line hends] at hp
      exact ih (Or.inr (h.append hends)) p hp
    | true =>
      have hout : fenceAfter inFence line = false := by
        simpa using (Bool.and_eq_true_iff.mp hends).2
      by_cases hcur : cur = []
      · subst hcur
        rw [gather_blank_nil hends, hout] at hp
        exact ih (Or.inl ⟨rfl, rfl⟩) p hp
      · rw [gather_blank hends hcur, hout] at hp
        rcases List.mem_cons.mp hp with rfl | hp
        · exact htrim (h.resolve_left fun hnil ↦ hcur hnil.1)
        · exact ih (Or.inl ⟨rfl, rfl⟩) p hp

/-- A text in pieces with white space between them, and between two of them a line break. -/
abbrev Parted : Bool → List α → List (List α) → Prop :=
  Packing.Parted (fun c ↦ isWhitespace c = true) (fun c ↦ isNewline c = true)

/-- The paragraphs are the text without the blank lines between them. -/
theorem parted_gather {first inFence : Bool} {g cur : List α} {lines : List (List α)}
    (hg : Blank g) (hbreak : first = false → ∃ c ∈ g, isNewline c = true)
    (hlines : ∀ l ∈ lines, Blank l → ∃ c ∈ l, isNewline c = true) :
    Parted first (g ++ cur ++ lines.flatten) (gather inFence cur lines) := by
  induction lines generalizing first inFence g cur with
  | nil =>
    unfold gather
    obtain ⟨tail, hcur, htail⟩ := exists_trimEnd cur
    split_ifs with hnil
    · rw [List.isEmpty_iff, trimEnd_eq_nil] at hnil
      rw [List.flatten_nil, List.append_nil]
      exact .nil (blank_append.mpr ⟨hg, hnil⟩)
    · have hparted : Parted first (g ++ trimEnd cur ++ tail) [trimEnd cur] :=
        .cons hg hbreak (.nil htail)
      rwa [List.append_assoc, ← hcur, ← List.append_nil (g ++ cur)] at hparted
  | cons line lines ih =>
    have hrest := fun l hl ↦ hlines l (List.mem_cons_of_mem _ hl)
    cases hends : isBlank line && !fenceAfter inFence line with
    | false =>
      rw [gather_line hends, List.flatten_cons, ← List.append_assoc, List.append_assoc g]
      exact ih hg hbreak hrest
    | true =>
      have hline : Blank line := isBlank_iff.mp (Bool.and_eq_true_iff.mp hends).1
      obtain ⟨c, hc, hnl⟩ := hlines line List.mem_cons_self hline
      by_cases hcur : cur = []
      · subst hcur
        rw [gather_blank_nil hends, List.append_nil, List.flatten_cons, ← List.append_assoc,
          ← List.append_nil (g ++ line)]
        exact ih (blank_append.mpr ⟨hg, hline⟩)
          (fun _ ↦ ⟨c, List.mem_append_right _ hc, hnl⟩) hrest
      · obtain ⟨tail, htext, htail⟩ := exists_trimEnd cur
        have hsame : g ++ cur ++ (line :: lines).flatten =
            g ++ trimEnd cur ++ (tail ++ line ++ [] ++ lines.flatten) := by
          conv_lhs => rw [htext]
          simp
        rw [gather_blank hends hcur, hsame]
        exact .cons hg hbreak (ih (blank_append.mpr ⟨htail, hline⟩)
          (fun _ ↦ ⟨c, List.mem_append_right _ hc, hnl⟩) hrest)

/-! ## Pieces of lines -/

theorem pieces_last {l : List α} (hl : ∀ c ∈ l, isNewline c = false) :
    pieces maxBytes l = linePieces maxBytes l := by
  rw [pieces, List.splitOnP_eq_singleton hl, List.flatMap_singleton]

theorem pieces_line {l rest : List α} {c : α} (hl : ∀ c ∈ l, isNewline c = false)
    (hc : isNewline c = true) :
    pieces maxBytes (l ++ c :: rest) = linePieces maxBytes l ++ pieces maxBytes rest := by
  rw [pieces, List.splitOnP_append_cons_of_forall_mem hl c hc, List.flatMap_cons]
  rfl

theorem flatten_charPieces (cur cs : List α) :
    (charPieces maxBytes cur cs).flatten = cur ++ cs := by
  induction cs generalizing cur with
  | nil =>
    unfold charPieces
    split_ifs with h
    · rw [List.isEmpty_iff.mp h]
      rfl
    · simp
  | cons c cs ih =>
    unfold charPieces
    split_ifs
    · rw [List.flatten_cons, ih, List.singleton_append]
    · rw [ih, List.append_assoc, List.singleton_append]

theorem flatten_linePieces (line : List α) : (linePieces maxBytes line).flatten = line := by
  unfold linePieces
  split_ifs
  · simp
  · rw [flatten_charPieces, List.nil_append]

theorem ink_flatten_pieces (p : List α) : ink (pieces maxBytes p).flatten = ink p := by
  induction p using lines_induction with
  | last l hl => rw [pieces_last hl, flatten_linePieces]
  | line l c rest hl hc ih =>
    have hink : ink (c :: rest) = ink rest := by
      simp [ink, isWhitespace_of_isNewline hc]
    rw [pieces_line hl hc, List.flatten_append, ink_append, ih, flatten_linePieces, ink_append,
      hink]

/-! ## Packing -/

section Within

variable {s : Chunks α}

theorem len_charPieces_le {cur cs : List α} (hcap : 4 ≤ maxBytes) (hcur : len cur ≤ maxBytes) :
    ∀ p ∈ charPieces maxBytes cur cs, len p ≤ maxBytes := by
  induction cs generalizing cur with
  | nil =>
    unfold charPieces
    split_ifs
    · simp
    · exact List.forall_mem_singleton.mpr hcur
  | cons c cs ih =>
    have hc := lenUtf8_le_four c
    unfold charPieces
    split_ifs with hfull
    · refine List.forall_mem_cons.mpr ⟨hcur, ih ?_⟩
      rw [len_cons, len_nil]
      omega
    · refine ih ?_
      rw [len_append, len_cons, len_nil]
      omega

theorem len_pieces_le (hcap : 4 ≤ maxBytes) (p : List α) :
    ∀ q ∈ pieces maxBytes p, len q ≤ maxBytes := by
  intro q hq
  obtain ⟨line, -, hline⟩ := List.mem_flatMap.mp hq
  unfold linePieces at hline
  split_ifs at hline with hfits
  · rw [List.mem_singleton.mp hline]
    exact hfits
  · exact len_charPieces_le hcap (Nat.zero_le _) q hline

theorem within_appendLines {ps : List (List α)} (hs : s.Within lenUtf8 maxBytes)
    (hps : ∀ p ∈ ps, len p ≤ maxBytes) : (appendLines maxBytes s ps).Within lenUtf8 maxBytes := by
  induction ps generalizing s with
  | nil => exact hs
  | cons p ps ih =>
    have hp := List.forall_mem_cons.mp hps
    exact ih (hs.append hp.1) hp.2

theorem within_pack (hcap : 4 ≤ maxBytes) (hs : s.Within lenUtf8 maxBytes) (p : List α) :
    (pack maxBytes s p).Within lenUtf8 maxBytes := by
  unfold pack
  split_ifs with hlong
  · exact within_appendLines hs.flush (len_pieces_le hcap p)
  · exact hs.append (Nat.le_of_not_lt hlong)

theorem within_foldl_pack (hcap : 4 ≤ maxBytes) (ps : List (List α))
    (hs : s.Within lenUtf8 maxBytes) : (ps.foldl (pack maxBytes) s).Within lenUtf8 maxBytes := by
  induction ps generalizing s with
  | nil => exact hs
  | cons p ps ih => exact ih (within_pack hcap hs p)

end Within

section Ink

variable {s : Chunks α}

theorem ink_append_contents (p : List α) {sep : List α} (hsep : Blank sep) :
    ink (append maxBytes s p sep).contents = ink s.contents ++ ink p :=
  Packing.Chunks.filter_contents_append (ink_eq_nil_iff.mpr hsep)

theorem blank_newline : Blank [(newline : α)] := List.forall_mem_singleton.mpr isWhitespace_newline

theorem blank_newlines : Blank [(newline : α), newline] :=
  List.forall_mem_cons.mpr ⟨isWhitespace_newline, blank_newline⟩

theorem ink_appendLines (ps : List (List α)) :
    ink (appendLines maxBytes s ps).contents = ink s.contents ++ ink ps.flatten := by
  induction ps generalizing s with
  | nil => simp [ink]
  | cons p ps ih =>
    rw [appendLines_cons, ih, ink_append_contents p blank_newline, List.flatten_cons,
      ink_append, List.append_assoc]

theorem ink_pack (p : List α) : ink (pack maxBytes s p).contents = ink s.contents ++ ink p := by
  unfold pack
  split_ifs
  · rw [ink_appendLines, ink_flatten_pieces, flush, Packing.Chunks.contents_flush]
  · exact ink_append_contents p blank_newlines

theorem ink_foldl_pack (ps : List (List α)) :
    ink (ps.foldl (pack maxBytes) s).contents = ink s.contents ++ ink ps.flatten := by
  induction ps generalizing s with
  | nil => simp [ink]
  | cons p ps ih =>
    rw [List.foldl_cons, ih, ink_pack, List.flatten_cons, ink_append, List.append_assoc]

end Ink

/-- The paragraphs of a text. -/
theorem parted_paragraphs (text : List α) :
    Parted true (trimEnd text) (gather false [] (splitInclusive (trimEnd text))) := by
  have h := @parted_gather _ _ true false [] [] (splitInclusive (trimEnd text)) nofun nofun
    fun l hl ↦ newline_mem_of_blank hl
  rwa [flatten_splitInclusive] at h

/-- The chunks of a text that is too long for one, before the last is closed. -/
def packed (text : List α) (maxBytes : Nat) : Chunks α :=
  (gather false [] (splitInclusive (trimEnd text))).foldl (pack maxBytes) {}

theorem within_packed (hcap : 4 ≤ maxBytes) (text : List α) :
    (packed text maxBytes).Within lenUtf8 maxBytes :=
  within_foldl_pack hcap _ ⟨nofun, Nat.zero_le _⟩

omit [Lettered α] in
theorem flatten_flush_chunks (s : Chunks α) : (flush s).chunks.flatten = s.contents := by
  rw [← Packing.Chunks.contents_flush, Packing.Chunks.contents, Packing.Chunks.flush_current,
    List.append_nil]
  rfl

theorem ink_packed (text : List α) :
    ink (flush (packed text maxBytes)).chunks.flatten = ink text := by
  have hflatten : ink (gather false [] (splitInclusive (trimEnd text))).flatten =
      ink (trimEnd text) :=
    (parted_paragraphs text).filter_flatten fun c hc ↦ by rw [hc, Bool.not_true]
  rw [flatten_flush_chunks, packed, ink_foldl_pack, hflatten, ink_trimEnd]
  rfl

/-- The text of the chunks. -/
theorem chunkText_cases (hcap : 4 ≤ maxBytes) (text : List α) :
    (Blank text ∧ chunkText text maxBytes = some []) ∨
      (¬Blank text ∧ len (trimEnd text) ≤ maxBytes ∧
        chunkText text maxBytes = some [trimEnd text]) ∨
      (¬Blank text ∧ maxBytes < len (trimEnd text) ∧
        chunkText text maxBytes = some (flush (packed text maxBytes)).chunks) := by
  by_cases hblank : Blank text
  · exact Or.inl ⟨hblank, chunkText_of_blank hcap (trimEnd_eq_nil.mpr hblank)⟩
  by_cases hlong : maxBytes < len (trimEnd text)
  · exact Or.inr (Or.inr ⟨hblank, hlong, chunkText_of_long hcap hlong⟩)
  · exact Or.inr (Or.inl ⟨hblank, by omega,
      chunkText_of_short hcap (mt trimEnd_eq_nil.mp hblank) (by omega)⟩)

theorem exists_chunkText (hcap : 4 ≤ maxBytes) (text : List α) :
    ∃ chunks, chunkText text maxBytes = some chunks ∧
      (∀ c ∈ chunks, c ≠ [] ∧ len c ≤ maxBytes) ∧ ink chunks.flatten = ink text := by
  rcases chunkText_cases hcap text with ⟨hblank, h⟩ | ⟨hblank, hshort, h⟩ | ⟨-, -, h⟩
  · exact ⟨_, h, nofun, (ink_eq_nil_iff.mpr hblank).symm⟩
  · refine ⟨_, h, List.forall_mem_singleton.mpr ⟨mt trimEnd_eq_nil.mp hblank, hshort⟩, ?_⟩
    rw [List.flatten_singleton, ink_trimEnd]
  · exact ⟨_, h, (within_packed hcap text).flush.chunks, ink_packed text⟩

end Silta.Text
