import Silta.Places

/-!
# What is in the chunks

Chunking drops white space and nothing else, keeps the paragraphs and the lines that fit whole, and
never puts a line break inside a line.
-/

namespace Silta.Text

open Packing (Chunks Rejoined)
open Lettered (char newline)

section

variable {α : Type} [Lettered α] {maxBytes : Nat} {s : Chunks α}

/-! ## The text behind the chunks -/

/-- Each chunk is a part of the text with some gaps, each with a line break in it, replaced by line
breaks. -/
abbrev Follows (s : Chunks α) (text : List α) : Prop :=
  Packing.Chunks.Follows (fun c ↦ isNewline c = true) s text

theorem follows_append_line {text g piece : List α} (h : Follows s text)
    (hg : (∃ c ∈ g, isNewline c = true) ∨ s.current = [] ∨
      maxBytes < len s.current + len [(newline : α)] + len piece) :
    Follows (append maxBytes s piece [newline]) (text ++ g ++ piece) :=
  Packing.Chunks.Follows.append h (List.forall_mem_singleton.mpr isNewline_newline) hg

theorem len_le_of_part {xs ys : List α} (h : xs <:+: ys) : len xs ≤ len ys := by
  obtain ⟨a, b, rfl⟩ := h
  rw [len_append, len_append]
  omega

/-- The pieces of one line are too large for a chunk together. -/
theorem follows_charPieces {text g cur : List α} (cs : List α) (h : Follows s text)
    (hcur : cur ≠ []) (hg : (∃ c ∈ g, isNewline c = true) ∨ s.current = [] ∨
      maxBytes < len s.current + len [(newline : α)] + len cur) :
    Follows (appendLines maxBytes s (charPieces maxBytes cur cs)) (text ++ g ++ (cur ++ cs)) := by
  induction cs generalizing s text g cur with
  | nil =>
    rw [charPieces, if_neg (by simpa using hcur), List.append_nil]
    exact follows_append_line h hg
  | cons c cs ih =>
    unfold charPieces
    split_ifs with hfull
    · have hfirst := follows_append_line h hg
      have hsuffix : len cur ≤ len (append maxBytes s cur [newline]).current :=
        len_le_of_part Packing.Chunks.suffix_append.isInfix
      have hrest := @ih _ _ [] [c] hfirst (List.cons_ne_nil _ _) (Or.inr (Or.inr (by
        rw [len_cons c, len_nil]
        omega)))
      simpa using hrest
    · have hmore := @ih _ _ g (cur ++ [c]) h (by simp) (hg.imp_right (Or.imp_right fun hbig ↦ by
        rw [len_append]
        omega))
      simpa using hmore

theorem follows_linePieces (hcap : 4 ≤ maxBytes) {text g : List α} (line : List α)
    (h : Follows s text) (hg : (∃ c ∈ g, isNewline c = true) ∨ s.current = []) :
    Follows (appendLines maxBytes s (linePieces maxBytes line)) (text ++ g ++ line) := by
  have hg' := hg.imp_right (Or.inl (b := maxBytes < len s.current + len [(newline : α)] + len line))
  unfold linePieces
  split_ifs with hfits
  · exact follows_append_line h hg'
  · cases line with
    | nil => exact absurd (Nat.zero_le _) hfits
    | cons c cs =>
      have hc := lenUtf8_le_four c
      rw [charPieces, if_neg (by rw [len_nil]; omega)]
      exact follows_charPieces cs h (by simp) (hg.imp_right Or.inl)

theorem follows_pieces (hcap : 4 ≤ maxBytes) {text g : List α} (p : List α)
    (h : Follows s text) (hg : (∃ c ∈ g, isNewline c = true) ∨ s.current = []) :
    Follows (appendLines maxBytes s (pieces maxBytes p)) (text ++ g ++ p) := by
  induction p using lines_induction generalizing s text g with
  | last l hl =>
    rw [pieces_last hl]
    exact follows_linePieces hcap l h hg
  | line l c rest hl hc ih =>
    rw [pieces_line hl hc, appendLines_append]
    have hrest := @ih _ _ [c] (follows_linePieces hcap l h hg)
      (Or.inl ⟨c, List.mem_singleton_self c, hc⟩)
    simpa using hrest

theorem follows_pack (hcap : 4 ≤ maxBytes) {text g : List α} (p : List α)
    (h : Follows s text) (hg : (∃ c ∈ g, isNewline c = true) ∨ s.current = []) :
    Follows (pack maxBytes s p) (text ++ g ++ p) := by
  unfold pack
  split_ifs
  · exact follows_pieces hcap p h.flush (Or.inr s.flush_current)
  · refine Packing.Chunks.Follows.append h ?_ (hg.imp_right Or.inl)
    exact List.forall_mem_cons.mpr
      ⟨isNewline_newline, List.forall_mem_singleton.mpr isNewline_newline⟩

theorem follows_foldl_pack (hcap : 4 ≤ maxBytes) {first : Bool} {text rest : List α}
    {ps : List (List α)} (hps : Parted first rest ps) (h : Follows s text)
    (hfirst : first = true → s.current = []) :
    ∃ done, done <+: text ++ rest ∧ Follows (ps.foldl (pack maxBytes) s) done := by
  induction hps generalizing s text with
  | nil => exact ⟨text, List.prefix_append _ _, h⟩
  | @cons first g p rest ps _ hbreak _ ih =>
    have hg : (∃ c ∈ g, isNewline c = true) ∨ s.current = [] := by
      cases hf : first
      · exact Or.inl (hbreak hf)
      · exact Or.inr (hfirst hf)
    obtain ⟨done, hdone, hfollows⟩ := ih (follows_pack hcap p h hg) nofun
    exact ⟨done, by simpa using hdone, hfollows⟩

/-- The text behind each chunk. -/
theorem exists_rejoined (hcap : 4 ≤ maxBytes) {text : List α} {chunks : List (List α)}
    (h : chunkText text maxBytes = some chunks) :
    ∀ c ∈ chunks, ∃ part, part <:+: text ∧ Rejoined (fun c ↦ isNewline c = true) part c := by
  have htrim : trimEnd text <+: text := List.rdropWhile_prefix _ _
  rcases chunkText_cases hcap text with ⟨-, h'⟩ | ⟨-, -, h'⟩ | ⟨-, -, h'⟩
  · obtain rfl := Option.some.inj (h'.symm.trans h)
    exact nofun
  · obtain rfl := Option.some.inj (h'.symm.trans h)
    exact List.forall_mem_singleton.mpr ⟨_, htrim.isInfix, .piece _⟩
  · obtain rfl := Option.some.inj (h'.symm.trans h)
    intro c hc
    obtain ⟨done, hdone, hfollows⟩ := follows_foldl_pack hcap (parted_paragraphs text)
      (⟨nofun, fun hne ↦ absurd rfl hne⟩ : Follows ({} : Chunks α) []) fun _ ↦ rfl
    obtain ⟨part, hpart, hr⟩ := hfollows.flush.chunks c hc
    exact ⟨part, hpart.trans (hdone.isInfix.trans htrim.isInfix), hr⟩

/-! ## What stays whole -/

theorem Holds.appendLines {x : List α} (h : s.Holds x) (ps : List (List α)) :
    (appendLines maxBytes s ps).Holds x := by
  induction ps generalizing s with
  | nil => exact h
  | cons p ps ih => exact ih h.append

theorem holds_appendLines {q : List α} {ps : List (List α)} (hq : q ∈ ps) (hne : q ≠ []) :
    (appendLines maxBytes s ps).Holds q := by
  obtain ⟨before, after, rfl⟩ := List.append_of_mem hq
  rw [appendLines_append, appendLines_cons]
  exact Holds.appendLines (Packing.Chunks.holds_append hne List.infix_rfl) after

theorem Holds.pack {x : List α} (h : s.Holds x) (p : List α) : (pack maxBytes s p).Holds x := by
  unfold Text.pack
  split_ifs
  · exact Holds.appendLines h.flush _
  · exact h.append

theorem Holds.foldl_pack {x : List α} (h : s.Holds x) (ps : List (List α)) :
    (ps.foldl (Text.pack maxBytes) s).Holds x := by
  induction ps generalizing s with
  | nil => exact h
  | cons p ps ih => exact ih (Holds.pack h p)

theorem holds_foldl_pack {x p : List α} {ps : List (List α)} (hp : p ∈ ps)
    (h : ∀ s : Chunks α, (pack maxBytes s p).Holds x) : (ps.foldl (pack maxBytes) s).Holds x := by
  obtain ⟨before, after, rfl⟩ := List.append_of_mem hp
  rw [List.foldl_append, List.foldl_cons]
  exact Holds.foldl_pack (h _) after

theorem pack_holds {p : List α} (hne : p ≠ []) (hfits : len p ≤ maxBytes) (s : Chunks α) :
    (pack maxBytes s p).Holds p := by
  rw [pack, if_neg (by omega)]
  exact Packing.Chunks.holds_append hne List.infix_rfl

theorem pack_holds_line {p line : List α} (hlong : maxBytes < len p)
    (hline : line ∈ p.splitOnP isNewline) (hne : line ≠ []) (hfits : len line ≤ maxBytes)
    (s : Chunks α) : (pack maxBytes s p).Holds line := by
  rw [pack, if_pos hlong]
  refine holds_appendLines (List.mem_flatMap.mpr ⟨line, hline, ?_⟩) hne
  rw [linePieces, if_pos hfits]
  exact List.mem_singleton_self line

/-- The paragraphs of a text that is cut into chunks. -/
theorem paragraphs_trimEnd (text : List α) :
    paragraphs (trimEnd text) = some (gather false [] (splitInclusive (trimEnd text))) :=
  paragraphs_eq _

theorem ne_nil_of_not_blank {p : List α} (h : ¬Blank p) : p ≠ [] := by
  rintro rfl
  exact h nofun

/-- A paragraph is a part of the text. -/
theorem Parted.part {first : Bool} {text p : List α} {ps : List (List α)}
    (h : Parted first text ps) (hp : p ∈ ps) : p <:+: text := by
  induction h with
  | nil _ => nomatch hp
  | @cons first g q rest ps _ _ _ ih =>
    rcases List.mem_cons.mp hp with rfl | hp
    · exact List.infix_append g p rest
    · exact (ih hp).trans (List.suffix_append _ _).isInfix

theorem exists_chunk_of_paragraph (hcap : 4 ≤ maxBytes) {text : List α} {ps chunks : List (List α)}
    (hps : paragraphs (trimEnd text) = some ps) (h : chunkText text maxBytes = some chunks) :
    ∀ p ∈ ps, (len p ≤ maxBytes → ∃ c ∈ chunks, p <:+: c) ∧
      (maxBytes < len p → ∀ line ∈ p.splitOnP isNewline, len line ≤ maxBytes →
        ∃ c ∈ chunks, line <:+: c) := by
  obtain rfl := Option.some.inj ((paragraphs_trimEnd text).symm.trans hps)
  intro p hp
  have hpart := (parted_paragraphs text).part hp
  have hne := ne_nil_of_not_blank (not_blank_of_mem_gather (Or.inl ⟨rfl, rfl⟩) p hp)
  rcases chunkText_cases hcap text with ⟨hblank, -⟩ | ⟨-, hshort, h'⟩ | ⟨hblank, -, h'⟩
  · rw [trimEnd_eq_nil.mpr hblank] at hpart
    exact absurd (List.infix_nil.mp hpart) hne
  · obtain rfl := Option.some.inj (h'.symm.trans h)
    have hlen : len p ≤ len (trimEnd text) := len_le_of_part hpart
    exact ⟨fun _ ↦ ⟨_, List.mem_singleton_self _, hpart⟩, fun hlong ↦ by omega⟩
  · obtain rfl := Option.some.inj (h'.symm.trans h)
    refine ⟨fun hfits ↦ holds_foldl_pack hp (pack_holds hne hfits), fun hlong line hline hfits ↦ ?_⟩
    by_cases hnil : line = []
    · -- there is a chunk, as there is something in the paragraph
      subst hnil
      obtain ⟨c, hc⟩ := List.exists_mem_of_ne_nil (flush (packed text maxBytes)).chunks fun hno ↦ by
        have hink := @ink_packed _ _ maxBytes text
        rw [hno] at hink
        exact hblank (ink_eq_nil_iff.mp hink.symm)
      exact ⟨c, hc, List.nil_infix⟩
    · exact holds_foldl_pack hp (pack_holds_line hlong hline hnil hfits)

/-! ## Lines -/

theorem isNewline_of_mem_splitOnP (text : List α) :
    ∀ line ∈ text.splitOnP isNewline, line <:+: text ∧ ∀ c ∈ line, isNewline c = false := by
  induction text using lines_induction with
  | last l hl =>
    rw [List.splitOnP_eq_singleton hl]
    exact List.forall_mem_singleton.mpr ⟨List.infix_rfl, hl⟩
  | line l c rest hl hc ih =>
    rw [List.splitOnP_append_cons_of_forall_mem hl c hc]
    refine List.forall_mem_cons.mpr ⟨⟨(List.prefix_append _ _).isInfix, hl⟩, fun line hline ↦ ?_⟩
    obtain ⟨hpart, hno⟩ := ih line hline
    exact ⟨hpart.trans ((List.suffix_cons c rest).trans (List.suffix_append _ _)).isInfix, hno⟩

/-- Between two characters of one line of the text, a chunk has no line break. -/
theorem no_newline_between (hcap : 4 ≤ maxBytes) {text : List α} {chunks : List (List α)}
    (hdistinct : Distinct text) (h : chunkText text maxBytes = some chunks) :
    ∀ c ∈ chunks, ∀ u x v y z, c = u ++ x :: (v ++ y :: z) →
      ∀ line ∈ text.splitOnP isNewline, x ∈ line → y ∈ line → ∀ d ∈ v, isNewline d = false := by
  intro c hc u x v y z hsplit line hline hx hy d hd
  obtain ⟨hwhole, hno⟩ := isNewline_of_mem_splitOnP text line hline
  by_contra hbreak
  obtain ⟨part, hpart, hr⟩ := exists_rejoined hcap h c hc
  obtain ⟨u', v', z', rfl, e, he, hnl⟩ := hr.between hsplit
    (by rw [hno x hx]; exact Bool.false_ne_true) (by rw [hno y hy]; exact Bool.false_ne_true)
    ⟨d, hd, Bool.of_not_eq_false hbreak⟩
  have hnot : ∀ c ∈ line, e ≠ c := by
    rintro c hc rfl
    rw [hno e hc] at hnl
    exact Bool.noConfusion hnl
  -- the text has one place for each of the two, and they are around the line break
  obtain ⟨a, b, htext⟩ := hpart
  obtain ⟨a', b', htext'⟩ := hwhole
  obtain ⟨l₁, l₂, rfl⟩ := List.append_of_mem hx
  have hatx : (a ++ u') ++ x :: (v' ++ y :: (z' ++ b)) = text := by
    rw [← htext]
    simp
  have haty : ((a ++ u') ++ x :: v') ++ y :: (z' ++ b) = text := by
    rw [← htext]
    simp
  have hatx' : (a' ++ l₁) ++ x :: (l₂ ++ b') = text := by
    rw [← htext']
    simp
  obtain ⟨hbefore, hafter⟩ := Distinct.split_inj (hatx ▸ hdistinct) (hno x hx)
    (hatx.trans hatx'.symm)
  have hynot := (Distinct.notMem (haty ▸ hdistinct) (hno y hy)).1
  have hyl₂ : y ∈ l₂ := by
    rcases List.mem_append.mp hy with hy₁ | hy₂
    · refine absurd (List.mem_append_left _ ?_) hynot
      rw [hbefore]
      exact List.mem_append_right _ hy₁
    · rcases List.mem_cons.mp hy₂ with rfl | hy₂
      · exact absurd (List.mem_append_right _ List.mem_cons_self) hynot
      · exact hy₂
  rcases List.append_eq_append_iff.mp hafter with ⟨t, rfl, -⟩ | ⟨t, rfl, -⟩
  · exact hnot e (by simp [he]) rfl
  · exact hynot (by simp [hyl₂])

end

/-- Chunking loses nothing but white space, and tears nothing that fits: the characters, each in its
place, stay in their order; a paragraph within the cap is whole in one chunk, and so is a line
within the cap of a longer paragraph; and in a chunk no line break is between two characters of one
line. -/
theorem chunkText_content {maxBytes : Nat} (hcap : 4 ≤ maxBytes) (text : List Char) :
    ∃ ps chunks, paragraphs (trimEnd (placed text)) = some ps ∧
      paragraphs (trimEnd text) = some (ps.map (·.map char)) ∧
      chunkText (placed text) maxBytes = some chunks ∧
      chunkText text maxBytes = some (chunks.map (·.map char)) ∧
      ink chunks.flatten = ink (placed text) ∧
      (∀ p ∈ ps, len p ≤ maxBytes → ∃ c ∈ chunks, p <:+: c) ∧
      (∀ p ∈ ps, maxBytes < len p → ∀ line ∈ p.splitOnP isNewline, len line ≤ maxBytes →
        ∃ c ∈ chunks, line <:+: c) ∧
      ∀ c ∈ chunks, ∀ u x v y z, c = u ++ x :: (v ++ y :: z) →
        ∀ line ∈ (placed text).splitOnP isNewline, x ∈ line → y ∈ line →
          ∀ d ∈ v, isNewline d = false := by
  obtain ⟨chunks, hchunks, -, hink⟩ := exists_chunkText hcap (placed text)
  have hchars := chunkText_placed hcap hchunks
  have hps := paragraphs_trimEnd (placed text)
  have hpschars := paragraphs_map_char (trimEnd (placed text))
  rw [← trimEnd_map_char, map_char_placed, hps, Option.map_some] at hpschars
  have hwhole := exists_chunk_of_paragraph hcap hps hchunks
  exact ⟨_, chunks, hps, hpschars, hchunks, hchars, hink, fun p hp ↦ (hwhole p hp).1,
    fun p hp ↦ (hwhole p hp).2, no_newline_between hcap (distinct_placed text) hchunks⟩

theorem chunkText_content_seven :
    ∃ ps chunks, paragraphs (trimEnd (placed "жжжжж\n\nжж".toList)) = some ps ∧
      paragraphs (trimEnd "жжжжж\n\nжж".toList) = some (ps.map (·.map char)) ∧
      chunkText (placed "жжжжж\n\nжж".toList) 7 = some chunks ∧
      chunkText "жжжжж\n\nжж".toList 7 = some (chunks.map (·.map char)) ∧
      ink chunks.flatten = ink (placed "жжжжж\n\nжж".toList) ∧
      (∀ p ∈ ps, len p ≤ 7 → ∃ c ∈ chunks, p <:+: c) ∧
      (∀ p ∈ ps, 7 < len p → ∀ line ∈ p.splitOnP isNewline, len line ≤ 7 →
        ∃ c ∈ chunks, line <:+: c) ∧
      ∀ c ∈ chunks, ∀ u x v y z, c = u ++ x :: (v ++ y :: z) →
        ∀ line ∈ (placed "жжжжж\n\nжж".toList).splitOnP isNewline, x ∈ line → y ∈ line →
          ∀ d ∈ v, isNewline d = false :=
  chunkText_content (by decide) _

end Silta.Text
