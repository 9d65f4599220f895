import Silta.BlankChunks

/-!
# Fenced code blocks and paragraphs

A fenced code block goes from a line with a mark to the one that closes it.  `paragraphs` keeps it
together with the lines next to it that no blank line parts from it, but ends a paragraph inside it
where `in_fence` was toggled by another mark: then the block is in several paragraphs, with the rest
of its first one before it and the rest of its last one behind it.
-/

namespace Silta.Text

open Packing (Chunks)
open Lettered (char newline)

section

variable {α : Type} [Lettered α]

/-! ## Blocks -/

/-- The line that opened the fence a line leaves open.  Which lines with a mark close a fence is
left to `closes`. -/
def blockAfter (closes : List α → List α → Bool) :
    Option (List α) → List α → Option (List α)
  | none, line => if isFence line then some line else none
  | some opener, line => if isFence line && closes opener line then none else some opener

/-- Lines of a text from one that opens a fence to the one that closes it, or to the end of the
text. -/
structure IsFencedBlock (closes : List α → List α → Bool)
    (lines before block after : List (List α)) : Prop where
  lines : lines = before ++ (block ++ after)
  outside : before.foldl (blockAfter closes) none = none
  block : ∃ opener inner, isFence opener = true ∧
    (∀ l ∈ inner, (isFence l && closes opener l) = false) ∧
      (block = opener :: inner ∧ after = [] ∨
        ∃ closer, isFence closer = true ∧ closes opener closer = true ∧
          block = opener :: (inner ++ [closer]))

/-- A fence is closed by the mark that opened it. -/
def sameMark (opener line : List α) : Bool :=
  startsWith "```" (trimmed opener) == startsWith "```" (trimmed line)

/-! ## The paragraphs of some lines -/

/-- `in_fence` after some lines. -/
def fenceState (inFence : Bool) (lines : List (List α)) : Bool := lines.foldl fenceAfter inFence

/-- The paragraphs that some lines end. -/
def closedBy : Bool → List α → List (List α) → List (List α)
  | _, _, [] => []
  | inFence, cur, line :: lines =>
    let inFence := fenceAfter inFence line
    if isBlank line && !inFence then
      if cur.isEmpty then closedBy inFence [] lines
      else trimEnd cur :: closedBy inFence [] lines
    else closedBy inFence (cur ++ line) lines

/-- The paragraph that some lines leave open. -/
def leftOpen : Bool → List α → List (List α) → List α
  | _, cur, [] => cur
  | inFence, cur, line :: lines =>
    let inFence := fenceAfter inFence line
    if isBlank line && !inFence then leftOpen inFence [] lines
    else leftOpen inFence (cur ++ line) lines

/-- What some lines add to an open paragraph before they end it. -/
def restOf : Bool → List (List α) → List α
  | _, [] => []
  | inFence, line :: lines =>
    let inFence := fenceAfter inFence line
    if isBlank line && !inFence then [] else line ++ restOf inFence lines

section Lines

variable {inFence : Bool} {cur line : List α} {lines : List (List α)}

theorem not_ends_of_not_blank (h : ¬Blank line) :
    (isBlank line && !fenceAfter inFence line) = false := by
  have hblank : isBlank line = false := by
    rw [Bool.eq_false_iff, Ne, isBlank_iff]
    exact h
  rw [hblank, Bool.false_and]

theorem leftOpen_append (xs ys : List (List α)) :
    leftOpen inFence cur (xs ++ ys) =
      leftOpen (fenceState inFence xs) (leftOpen inFence cur xs) ys := by
  induction xs generalizing inFence cur with
  | nil => rfl
  | cons line lines ih =>
    rw [List.cons_append, leftOpen, leftOpen]
    split_ifs
    · exact ih
    · exact ih

theorem leftOpen_concat (xs : List (List α)) (h : ¬Blank line) :
    leftOpen inFence cur (xs ++ [line]) = leftOpen inFence cur xs ++ line := by
  rw [leftOpen_append, leftOpen, not_ends_of_not_blank h, if_neg Bool.false_ne_true]
  rfl

theorem leftOpen_suffix : leftOpen inFence cur lines <:+ cur ++ lines.flatten := by
  induction lines generalizing inFence cur with
  | nil => simp [leftOpen]
  | cons line lines ih =>
    rw [leftOpen, List.flatten_cons, ← List.append_assoc]
    split_ifs
    · exact List.IsSuffix.trans ih (List.suffix_append_of_suffix (List.suffix_refl _))
    · exact ih

theorem gather_append (xs ys : List (List α)) :
    gather inFence cur (xs ++ ys) = closedBy inFence cur xs ++
      gather (fenceState inFence xs) (leftOpen inFence cur xs) ys := by
  induction xs generalizing inFence cur with
  | nil => rfl
  | cons line lines ih =>
    rw [List.cons_append, closedBy, leftOpen, gather]
    split_ifs
    · exact ih
    · exact congrArg (trimEnd cur :: ·) ih
    · exact ih

theorem gather_restOf (h : ¬Blank cur) :
    ∃ ps, gather inFence cur lines = trimEnd (cur ++ restOf inFence lines) :: ps := by
  induction lines generalizing inFence cur with
  | nil =>
    refine ⟨[], ?_⟩
    rw [restOf, List.append_nil, gather, if_neg]
    rwa [List.isEmpty_iff, trimEnd_eq_nil]
  | cons line lines ih =>
    rw [restOf]
    cases hends : isBlank line && !fenceAfter inFence line with
    | false =>
      obtain ⟨ps, hps⟩ := @ih (fenceAfter inFence line) (cur ++ line)
        (fun hblank ↦ h (blank_append.mp hblank).1)
      exact ⟨ps, by rw [gather_line hends, hps, if_neg Bool.false_ne_true, List.append_assoc]⟩
    | true =>
      refine ⟨gather (fenceAfter inFence line) [] lines, ?_⟩
      rw [gather_blank hends (ne_nil_of_not_blank h), if_pos rfl, List.append_nil]

/-- Lines that go on with a paragraph are all in it, or end it and leave another one open. -/
theorem closedBy_cases (h : ¬Blank cur) :
    (closedBy inFence cur lines = [] ∧ leftOpen inFence cur lines = cur ++ lines.flatten) ∨
      ∃ mids gap, closedBy inFence cur lines = trimEnd (cur ++ restOf inFence lines) :: mids ∧
        lines.flatten = restOf inFence lines ++ (gap ++ leftOpen inFence cur lines) := by
  induction lines generalizing inFence cur with
  | nil => exact Or.inl ⟨rfl, (List.append_nil _).symm⟩
  | cons line lines ih =>
    rw [closedBy, leftOpen, restOf, List.flatten_cons]
    cases hends : isBlank line && !fenceAfter inFence line with
    | false =>
      rw [if_neg Bool.false_ne_true, if_neg Bool.false_ne_true, if_neg Bool.false_ne_true,
        ← List.append_assoc]
      rcases @ih (fenceAfter inFence line) (cur ++ line)
        (fun hblank ↦ h (blank_append.mp hblank).1) with hall | ⟨mids, gap, hmids, hlines⟩
      · exact Or.inl hall
      · refine Or.inr ⟨mids, gap, by rw [hmids, List.append_assoc], ?_⟩
        rw [List.append_assoc, ← hlines]
    | true =>
      obtain ⟨gap, hgap⟩ := @leftOpen_suffix _ _ (fenceAfter inFence line) [] lines
      refine Or.inr ⟨closedBy (fenceAfter inFence line) [] lines, line ++ gap, ?_, ?_⟩
      · rw [if_pos rfl, if_pos rfl, if_neg (by simpa using ne_nil_of_not_blank h), List.append_nil]
      · rw [if_pos rfl, if_pos rfl, List.nil_append, List.append_assoc, hgap, List.nil_append]

theorem ink_closedBy : ink (cur ++ lines.flatten) =
    ink (closedBy inFence cur lines).flatten ++ ink (leftOpen inFence cur lines) := by
  induction lines generalizing inFence cur with
  | nil => simp [closedBy, leftOpen, ink]
  | cons line lines ih =>
    rw [closedBy, leftOpen, List.flatten_cons]
    split_ifs with hends hnil
    · have hline := ink_eq_nil_iff.mpr (isBlank_iff.mp (Bool.and_eq_true_iff.mp hends).1)
      rw [List.isEmpty_iff.mp hnil, ← ih, ink_append, ink_append, hline]
      rfl
    · have hline := ink_eq_nil_iff.mpr (isBlank_iff.mp (Bool.and_eq_true_iff.mp hends).1)
      rw [List.flatten_cons, ink_append, ink_append, ink_append, hline, ink_trimEnd,
        List.append_assoc, ← ih]
      rfl
    · rw [← ih, List.append_assoc]

/-- Every line but the last of a text ends with a line break. -/
def Ended (text : List α) : Prop := ∃ body c, text = body ++ [c] ∧ isNewline c = true

theorem Ended.append {xs ys : List α} (h : Ended ys) : Ended (xs ++ ys) := by
  obtain ⟨body, c, rfl, hc⟩ := h
  exact ⟨xs ++ body, c, (List.append_assoc ..).symm, hc⟩

theorem leftOpen_ended (hlines : ∀ l ∈ lines, Ended l) (hcur : cur = [] ∨ Ended cur) :
    leftOpen inFence cur lines = [] ∨ Ended (leftOpen inFence cur lines) := by
  induction lines generalizing inFence cur with
  | nil => exact hcur
  | cons line lines ih =>
    obtain ⟨hline, hlines⟩ := List.forall_mem_cons.mp hlines
    rw [leftOpen]
    split_ifs
    · exact ih hlines (Or.inl rfl)
    · exact ih hlines (Or.inr hline.append)

theorem trimEnd_append {xs ys : List α} (h : ¬Blank ys) :
    trimEnd (xs ++ ys) = xs ++ trimEnd ys := by
  have hne : ¬(ys.reverse.dropWhile isWhitespace).isEmpty = true := by
    rw [List.isEmpty_iff, List.dropWhile_eq_nil_iff]
    exact fun hall ↦ h fun c hc ↦ hall c (List.mem_reverse.mpr hc)
  rw [trimEnd, List.rdropWhile, List.reverse_append, List.dropWhile_append, if_neg hne,
    List.reverse_append, List.reverse_reverse]
  rfl

/-- Inside a fence the paragraph goes on to a line that is not blank. -/
theorem not_blank_restOf_fence {front : List (List α)} (h : ¬Blank line) :
    ¬Blank (restOf true (front ++ [line])) := by
  induction front with
  | nil =>
    rw [List.nil_append, restOf, not_ends_of_not_blank h, if_neg Bool.false_ne_true]
    exact fun hall ↦ h (blank_append.mp hall).1
  | cons l front ih =>
    rw [List.cons_append, restOf]
    by_cases hl : Blank l
    · have hfence : isFence l = false := by
        by_contra hfence
        exact not_blank_of_isFence (Bool.of_not_eq_false hfence) hl
      have hstate : fenceAfter true l = true := by rw [fenceAfter, hfence]; rfl
      rw [hstate, Bool.not_true, Bool.and_false, if_neg Bool.false_ne_true]
      exact fun hall ↦ ih (blank_append.mp hall).2
    · rw [not_ends_of_not_blank hl, if_neg Bool.false_ne_true]
      exact fun hall ↦ hl (blank_append.mp hall).1

/-- What a paragraph goes on with is not blank, if the last line is not. -/
theorem not_blank_restOf {front : List (List α)} (h : ¬Blank line)
    (hrest : restOf inFence (front ++ [line]) ≠ []) :
    ¬Blank (restOf inFence (front ++ [line])) := by
  cases inFence with
  | true => exact not_blank_restOf_fence h
  | false =>
    cases front with
    | nil =>
      rw [List.nil_append, restOf, not_ends_of_not_blank h, if_neg Bool.false_ne_true]
      exact fun hall ↦ h (blank_append.mp hall).1
    | cons l front =>
      rw [List.cons_append, restOf] at hrest ⊢
      cases hends : isBlank l && !fenceAfter false l with
      | true =>
        rw [hends, if_pos rfl] at hrest
        exact absurd rfl hrest
      | false =>
        have hbegun : ¬Blank ([] ++ l) := Begun.append (Or.inl ⟨rfl, rfl⟩) hends
        exact fun hall ↦ hbegun (blank_append.mp hall).1

end Lines

/-! ## The paragraphs of a block -/

/-- What the first paragraph of a block has before it. -/
def opening (before : List (List α)) : List α := leftOpen false [] before

/-- What a block adds to its first paragraph. -/
def head (before block : List (List α)) : List α := restOf (fenceState false before) block

/-- The paragraphs that end in a block. -/
def endedIn (before block : List (List α)) : List (List α) :=
  closedBy (fenceState false before) (opening before) block

/-- What the last paragraph of a block has up to its end. -/
def lastPart (before block : List (List α)) : List α :=
  leftOpen (fenceState false before) (opening before) block

/-- What the last paragraph of a block has after it. -/
def rest (before block after : List (List α)) : List α :=
  restOf (fenceState (fenceState false before) block) after

/-- Some lines before the rest of a paragraph, without the last line break, or without the white
space that is trimmed if there is no rest. -/
def ending (rest lines : List α) : List α :=
  if rest.isEmpty then trimEnd lines else lines.dropLast

/-- The text of a block. -/
def blockText (before block after : List (List α)) : List α :=
  ending (rest before block after) block.flatten

/-- The end of a block that is in its last paragraph. -/
def lastText (before block after : List (List α)) : List α :=
  ending (rest before block after) (lastPart before block)

def lastParagraph (before block after : List (List α)) : List α :=
  trimEnd (lastPart before block ++ rest before block after)

theorem not_blank_ending {xs : List α} {r : List α} (h : ¬Blank xs)
    (hends : r = [] ∨ Ended xs) : ¬Blank (ending r xs) ∧ ink (ending r xs) = ink xs := by
  have hink : ink (ending r xs) = ink xs := by
    unfold ending
    split_ifs with hr
    · exact ink_trimEnd xs
    · obtain ⟨body, c, rfl, hc⟩ := hends.resolve_left (by simpa using hr)
      rw [List.dropLast_concat, ink_append,
        ink_eq_nil_iff.mpr (List.forall_mem_singleton.mpr (isWhitespace_of_isNewline hc)),
        List.append_nil]
  rw [← ink_eq_nil_iff, hink, ink_eq_nil_iff]
  exact ⟨h, rfl⟩

theorem ending_append {xs ys r : List α} (h : ¬Blank ys) :
    ending r (xs ++ ys) = xs ++ ending r ys := by
  unfold ending
  split_ifs
  · exact trimEnd_append h
  · exact List.dropLast_append_of_ne_nil (ne_nil_of_not_blank h)

theorem ending_prefix {xs r : List α} : ending r xs <+: xs := by
  unfold ending
  split_ifs
  · exact List.rdropWhile_prefix _ _
  · exact List.dropLast_prefix xs

/-- The first character of a mark, and that of the text it begins. -/
theorem exists_head_of_isFence {line : List α} (h : isFence line = true) :
    ∃ x y tail, line = x :: y :: tail ∧ isWhitespace x = false := by
  have hstart : ∀ {mark : String} {d e : Char} {ds : List Char}, mark.toList = d :: e :: ds →
      Transfer.isWhitespace d = false → startsWith mark (trimmed line) = true →
        ∃ x y tail, line = x :: y :: tail ∧ isWhitespace x = false := by
    intro mark d e ds hmark hd hstarts
    obtain ⟨more, hmore⟩ := List.isPrefixOf_iff_prefix.mp hstarts
    obtain ⟨tail, htail⟩ : trimmed line <+: line := List.rdropWhile_prefix _ _
    rw [hmark] at hmore
    obtain ⟨x, xs, hx, hdx, hxs⟩ := List.map_eq_cons_iff.mp hmore.symm
    obtain ⟨y, ys, rfl, -, -⟩ := List.map_eq_cons_iff.mp hxs
    rw [hx] at htail
    refine ⟨x, y, ys ++ tail, htail.symm, ?_⟩
    rw [isWhitespace, hdx, hd]
  rw [isFence, Bool.or_eq_true] at h
  rcases h with h | h
  · exact hstart rfl (by decide) h
  · exact hstart rfl (by decide) h

theorem exists_head_ending {x y : α} {xs r : List α} (hx : isWhitespace x = false) :
    ∃ more, ending r (x :: y :: xs) = x :: more := by
  unfold ending
  split_ifs
  · cases htrim : trimEnd (x :: y :: xs) with
    | nil =>
      have hwhite := trimEnd_eq_nil.mp htrim x List.mem_cons_self
      rw [hx] at hwhite
      exact Bool.noConfusion hwhite
    | cons z zs =>
      have hpre : trimEnd (x :: y :: xs) <+: x :: y :: xs := List.rdropWhile_prefix _ _
      rw [htrim] at hpre
      exact ⟨zs, by rw [(List.cons_prefix_cons.mp hpre).1]⟩
  · exact ⟨_, rfl⟩

/-- The last line of a trimmed text is not blank. -/
theorem not_blank_last {text line : List α} {front : List (List α)}
    (h : splitInclusive (trimEnd text) = front ++ [line]) : ¬Blank line := by
  have htext : trimEnd text = front.flatten ++ line := by
    rw [← flatten_splitInclusive (trimEnd text), h]
    simp
  have hne : line ≠ [] := by
    rcases ends_or_last_of_splitInclusive _ h with ⟨body, c, rfl, -⟩ | ⟨-, hne, -⟩
    · simp
    · exact hne
  exact not_blank_of_trimEnd htext hne

section Block

variable {closes : List α → List α → Bool} {text : List α} {before block after : List (List α)}
  (h : IsFencedBlock closes (splitInclusive (trimEnd text)) before block after)
include h

/-- Every line but the last ends with a line break. -/
theorem IsFencedBlock.ended {front back : List (List α)} {l : List α}
    (hlines : before ++ (block ++ after) = front ++ l :: back) (hback : back ≠ []) : Ended l := by
  rcases ends_or_last_of_splitInclusive _ (h.lines.trans hlines) with hends | ⟨hlast, -⟩
  · exact hends
  · exact absurd hlast hback

theorem IsFencedBlock.exists_opener :
    ∃ opener more, block = opener :: more ∧ isFence opener = true := by
  obtain ⟨opener, inner, hopener, -, ⟨rfl, -⟩ | ⟨closer, -, -, rfl⟩⟩ := h.block
  · exact ⟨opener, inner, rfl, hopener⟩
  · exact ⟨opener, _, rfl, hopener⟩

theorem IsFencedBlock.opening_ended : opening before = [] ∨ Ended (opening before) := by
  refine leftOpen_ended (fun l hl ↦ ?_) (Or.inl rfl)
  obtain ⟨front, back, rfl⟩ := List.append_of_mem hl
  obtain ⟨opener, more, rfl, -⟩ := h.exists_opener
  have hlines : (front ++ l :: back) ++ ((opener :: more) ++ after) =
      front ++ l :: (back ++ opener :: (more ++ after)) := by
    simp
  exact h.ended hlines (by simp)

/-- The last line of a block. -/
theorem IsFencedBlock.exists_last :
    ∃ front l, block = front ++ [l] ∧ ¬Blank l ∧ (after = [] ∨ Ended l) := by
  obtain ⟨opener, inner, hopener, -, ⟨hblock, hafter⟩ | ⟨closer, hcloser, -, hblock⟩⟩ := h.block
  · obtain ⟨front, l, hl⟩ := (List.eq_nil_or_concat' (opener :: inner)).resolve_left (by simp)
    rw [hl] at hblock
    refine ⟨front, l, hblock, ?_, Or.inl hafter⟩
    have hlines := h.lines
    rw [hafter, hblock, List.append_nil, ← List.append_assoc] at hlines
    exact not_blank_last hlines
  · refine ⟨opener :: inner, closer, hblock, not_blank_of_isFence hcloser, ?_⟩
    by_cases hafter : after = []
    · exact Or.inl hafter
    · have hlines :
          before ++ (block ++ after) = (before ++ opener :: inner) ++ closer :: after := by
        rw [hblock]
        simp
      exact Or.inr (h.ended hlines hafter)

theorem IsFencedBlock.not_blank : ¬Blank block.flatten := by
  obtain ⟨front, l, rfl, hl, -⟩ := h.exists_last
  rw [List.flatten_append, List.flatten_singleton]
  exact fun hall ↦ hl (blank_append.mp hall).2

theorem IsFencedBlock.lastPart_ends :
    ¬Blank (lastPart before block) ∧
      (rest before block after = [] ∨ Ended (lastPart before block)) := by
  obtain ⟨front, l, rfl, hl, hends⟩ := h.exists_last
  rw [lastPart, leftOpen_concat front hl]
  refine ⟨fun hall ↦ hl (blank_append.mp hall).2, ?_⟩
  rcases hends with rfl | hends
  · exact Or.inl rfl
  · exact Or.inr hends.append

theorem IsFencedBlock.rest_cases :
    rest before block after = [] ∨ ¬Blank (rest before block after) := by
  rcases List.eq_nil_or_concat' after with rfl | ⟨front, l, rfl⟩
  · exact Or.inl rfl
  have hlast : ¬Blank l := by
    have hlines := h.lines
    rw [← List.append_assoc, ← List.append_assoc] at hlines
    exact not_blank_last hlines
  by_cases hrest : rest before block (front ++ [l]) = []
  · exact Or.inl hrest
  · exact Or.inr (not_blank_restOf hlast hrest)

/-- The end of a block in its last paragraph. -/
theorem IsFencedBlock.lastParagraph_eq :
    ∃ tail, lastParagraph before block after = lastText before block after ++ tail ∧
      (tail = [] ∨ ∃ c more, tail = c :: more ∧ isNewline c = true) := by
  unfold lastParagraph lastText ending
  by_cases hrest : rest before block after = []
  · refine ⟨[], ?_, Or.inl rfl⟩
    rw [hrest, List.append_nil, List.append_nil, List.isEmpty_nil, if_pos rfl]
  · obtain ⟨body, c, hbody, hc⟩ := h.lastPart_ends.2.resolve_left hrest
    refine ⟨c :: trimEnd (rest before block after), ?_, Or.inr ⟨c, _, rfl, hc⟩⟩
    rw [trimEnd_append (h.rest_cases.resolve_left hrest), if_neg (by simpa using hrest), hbody,
      List.dropLast_concat]
    simp

/-- The paragraphs of a text with a block. -/
theorem IsFencedBlock.exists_paragraphs :
    ∃ qs, gather false [] (splitInclusive (trimEnd text)) = closedBy false [] before ++
      (endedIn before block ++ lastParagraph before block after :: qs) := by
  obtain ⟨qs, hqs⟩ := @gather_restOf _ _ (fenceState (fenceState false before) block) _ after
    h.lastPart_ends.1
  refine ⟨qs, ?_⟩
  rw [h.lines, gather_append, gather_append]
  exact congrArg (closedBy false [] before ++ ·) (congrArg (endedIn before block ++ ·) hqs)

theorem IsFencedBlock.exists_head :
    (∃ x more, blockText before block after = x :: more ∧ isWhitespace x = false) ∧
      ∃ x more, trimEnd (head before block) = x :: more ∧ isWhitespace x = false := by
  obtain ⟨opener, lines, rfl, hopener⟩ := h.exists_opener
  obtain ⟨x, y, more, rfl, hx⟩ := exists_head_of_isFence hopener
  have hblank := not_blank_of_isFence hopener
  constructor
  · obtain ⟨tail, htail⟩ := @exists_head_ending _ _ x y (more ++ lines.flatten)
      (rest before ((x :: y :: more) :: lines) after) hx
    exact ⟨x, tail, htail, hx⟩
  · rw [head, restOf, not_ends_of_not_blank hblank, if_neg Bool.false_ne_true]
    obtain ⟨tail, htail⟩ := @exists_head_ending _ _ x y (more ++
      restOf (fenceAfter (fenceState false before) (x :: y :: more)) lines) [] hx
    exact ⟨x, tail, htail, hx⟩

/-- A block is in one paragraph, or the paragraphs that end in it cut it. -/
theorem IsFencedBlock.endedIn_cases :
    (endedIn before block = [] ∧
      lastText before block after = opening before ++ blockText before block after) ∨
    ∃ mids gap,
      endedIn before block = (opening before ++ trimEnd (head before block)) :: mids ∧
        blockText before block after =
          trimEnd (head before block) ++ (gap ++ lastText before block after) := by
  have hlast := h.lastPart_ends.1
  obtain ⟨opener, lines, rfl, hopener⟩ := h.exists_opener
  have hblank := not_blank_of_isFence hopener
  have hcur : ¬Blank (opening before ++ opener) := fun hall ↦ hblank (blank_append.mp hall).2
  have hhead : head before (opener :: lines) =
      opener ++ restOf (fenceAfter (fenceState false before) opener) lines := by
    rw [head, restOf, not_ends_of_not_blank hblank, if_neg Bool.false_ne_true]
  have hended : endedIn before (opener :: lines) =
      closedBy (fenceAfter (fenceState false before) opener) (opening before ++ opener) lines := by
    rw [endedIn, closedBy, not_ends_of_not_blank hblank, if_neg Bool.false_ne_true]
  have hpart : lastPart before (opener :: lines) =
      leftOpen (fenceAfter (fenceState false before) opener) (opening before ++ opener) lines := by
    rw [lastPart, leftOpen, not_ends_of_not_blank hblank, if_neg Bool.false_ne_true]
  rcases @closedBy_cases _ _ (fenceAfter (fenceState false before) opener) _ lines hcur with
    ⟨hnil, hall⟩ | ⟨mids, gap, hmids, hlines⟩
  · refine Or.inl ⟨hended.trans hnil, ?_⟩
    rw [lastText, hpart, hall, List.append_assoc, blockText]
    exact ending_append h.not_blank
  · have hnot : ¬Blank (head before (opener :: lines)) := by
      rw [hhead]
      exact fun hall ↦ hblank (blank_append.mp hall).1
    obtain ⟨space, hspace, -⟩ := exists_trimEnd (head before (opener :: lines))
    refine Or.inr ⟨mids, space ++ gap, ?_, ?_⟩
    · rw [hended, hmids, List.append_assoc, ← hhead, trimEnd_append hnot]
    · have hflatten : (opener :: lines).flatten =
          head before (opener :: lines) ++ (gap ++ lastPart before (opener :: lines)) := by
        rw [hhead, hpart, List.flatten_cons, hlines, List.append_assoc]
      rw [blockText, hflatten, ← List.append_assoc, ending_append hlast, ← lastText]
      conv_lhs => rw [hspace]
      simp

/-- The ink of a block that is cut. -/
theorem IsFencedBlock.ink_blockText {p : List α} {mids : List (List α)}
    (hended : endedIn before block = (opening before ++ p) :: mids) :
    ink (blockText before block after) =
      ink p ++ (ink mids.flatten ++ ink (lastText before block after)) := by
  obtain ⟨hlast, hends⟩ := h.lastPart_ends
  have hblock : rest before block after = [] ∨ Ended block.flatten := by
    obtain ⟨front, l, rfl, -, hl⟩ := h.exists_last
    rcases hl with rfl | hl
    · exact Or.inl rfl
    · rw [List.flatten_append, List.flatten_singleton]
      exact Or.inr hl.append
  have hink := @ink_closedBy _ _ (fenceState false before) (opening before) block
  rw [← endedIn, hended, ← lastPart, List.flatten_cons, ink_append, ink_append, ink_append,
    List.append_assoc, List.append_assoc, List.append_cancel_left_eq] at hink
  rw [blockText, (not_blank_ending h.not_blank hblock).2, lastText,
    (not_blank_ending hlast hends).2, hink]

end Block

end

end Silta.Text
