import Mathlib.Data.List.Infix
import Silta.Lib.Slices

/-!
# Packing pieces into chunks

Pieces of a text are put one after the other into the open chunk, each behind a separator, and a
piece that does not fit closes it.  A chunk is then the text it was taken from with some gaps
replaced by separators.
-/

namespace Packing

open Slices (size)

/-- The chunks that are done and the one that is open. -/
structure Chunks (α : Type*) where
  chunks : List (List α) := []
  current : List α := []

namespace Chunks

variable {α : Type*}

/-- Closes the open chunk, if there is anything in it. -/
def flush (b : Chunks α) : Chunks α :=
  if b.current.isEmpty then b else ⟨b.chunks ++ [b.current], []⟩

/-- Puts a piece into the open chunk if it fits, and else into a new one. -/
def append (width : α → Nat) (cap : Nat) (b : Chunks α) (piece sep : List α) : Chunks α :=
  if b.current.isEmpty then { b with current := b.current ++ piece }
  else if size width b.current + size width sep + size width piece ≤ cap then
    { b with current := b.current ++ sep ++ piece }
  else { b.flush with current := b.flush.current ++ piece }

theorem flush_of_nil {b : Chunks α} (h : b.current = []) : b.flush = b := by
  rw [flush, if_pos (by rw [h]; rfl)]

theorem flush_of_ne_nil {b : Chunks α} (h : b.current ≠ []) :
    b.flush = ⟨b.chunks ++ [b.current], []⟩ := by
  rw [flush, if_neg (by simpa using h)]

@[simp] theorem flush_current (b : Chunks α) : b.flush.current = [] := by
  by_cases h : b.current = []
  · rw [flush_of_nil h, h]
  · rw [flush_of_ne_nil h]

theorem chunks_subset_flush (b : Chunks α) : b.chunks ⊆ b.flush.chunks := by
  by_cases h : b.current = []
  · rw [flush_of_nil h]
    exact List.Subset.refl _
  · rw [flush_of_ne_nil h]
    exact List.subset_append_left _ _

theorem mem_flush {b : Chunks α} {c : List α} :
    c ∈ b.flush.chunks ↔ c ∈ b.chunks ∨ c = b.current ∧ b.current ≠ [] := by
  by_cases h : b.current = []
  · simp [flush_of_nil h, h]
  · simp [flush_of_ne_nil h, h]

section Append

variable {width : α → Nat} {cap : Nat} {b : Chunks α} {piece sep : List α}

theorem append_of_nil (h : b.current = []) :
    b.append width cap piece sep = { b with current := piece } := by
  rw [append, if_pos (by rw [h]; rfl), h, List.nil_append]

theorem append_of_fits (h : b.current ≠ [])
    (hfits : size width b.current + size width sep + size width piece ≤ cap) :
    b.append width cap piece sep = { b with current := b.current ++ sep ++ piece } := by
  rw [append, if_neg (by simpa using h), if_pos hfits]

theorem append_of_not_fits (h : b.current ≠ [])
    (hfull : cap < size width b.current + size width sep + size width piece) :
    b.append width cap piece sep = ⟨b.chunks ++ [b.current], piece⟩ := by
  rw [append, if_neg (by simpa using h), if_neg (by omega), flush_of_ne_nil h, List.nil_append]

/-- Where a piece can go: into a new chunk behind the chunks so far, or into the open one. -/
theorem append_cases (width : α → Nat) (cap : Nat) (b : Chunks α) (piece sep : List α) :
    b.append width cap piece sep = ⟨b.flush.chunks, piece⟩ ∨
      b.current ≠ [] ∧ size width b.current + size width sep + size width piece ≤ cap ∧
        b.append width cap piece sep = ⟨b.chunks, b.current ++ sep ++ piece⟩ := by
  by_cases h : b.current = []
  · rw [append_of_nil h, flush_of_nil h]
    exact Or.inl rfl
  by_cases hfits : size width b.current + size width sep + size width piece ≤ cap
  · exact Or.inr ⟨h, hfits, append_of_fits h hfits⟩
  · rw [append_of_not_fits h (by omega), flush_of_ne_nil h]
    exact Or.inl rfl

/-! ## Other elements -/

/-- Every element replaced. -/
def map {β : Type*} (f : α → β) (b : Chunks α) : Chunks β :=
  ⟨b.chunks.map (·.map f), b.current.map f⟩

theorem flush_map {β : Type*} (f : α → β) (b : Chunks α) : (b.map f).flush = b.flush.map f := by
  by_cases h : b.current = []
  · rw [flush_of_nil h, flush_of_nil (by rw [map, h, List.map_nil])]
  · rw [flush_of_ne_nil h, flush_of_ne_nil (by simpa [map] using h)]
    simp [map]

/-- Packing looks at the widths only. -/
theorem append_map {β : Type*} (f : α → β) {width' : β → Nat} (hf : ∀ x, width' (f x) = width x) :
    (b.map f).append width' cap (piece.map f) (sep.map f) =
      (b.append width cap piece sep).map f := by
  have hsize : ∀ xs : List α, size width' (xs.map f) = size width xs := fun xs ↦ by
    simp [Slices.size, Function.comp_def, hf]
  have hflush := flush_map f b
  unfold append
  rw [hflush]
  simp only [map, hsize, List.isEmpty_map]
  split_ifs <;> simp

/-! ## Sizes -/

/-- No chunk is empty or too large. -/
structure Within (width : α → Nat) (cap : Nat) (b : Chunks α) : Prop where
  chunks : ∀ c ∈ b.chunks, c ≠ [] ∧ size width c ≤ cap
  current : size width b.current ≤ cap

theorem Within.flush (h : b.Within width cap) : b.flush.Within width cap := by
  refine ⟨fun c hc ↦ ?_, by rw [flush_current]; exact Nat.zero_le _⟩
  rcases mem_flush.mp hc with hold | ⟨rfl, hne⟩
  · exact h.chunks c hold
  · exact ⟨hne, h.current⟩

theorem Within.append (h : b.Within width cap) (hp : size width piece ≤ cap) :
    (b.append width cap piece sep).Within width cap := by
  rcases append_cases width cap b piece sep with heq | ⟨hne, hfits, heq⟩
  · rw [heq]
    exact ⟨h.flush.chunks, hp⟩
  · rw [heq]
    refine ⟨h.chunks, ?_⟩
    rw [Slices.size_append, Slices.size_append]
    exact hfits

/-! ## Contents -/

/-- Everything in the chunks. -/
def contents (b : Chunks α) : List α := b.chunks.flatten ++ b.current

theorem contents_flush (b : Chunks α) : b.flush.contents = b.contents := by
  by_cases h : b.current = []
  · rw [flush_of_nil h]
  · rw [flush_of_ne_nil h]
    simp [contents]

/-- Apart from the separators, a piece is what is added. -/
theorem filter_contents_append {q : α → Bool} (hsep : sep.filter q = []) :
    (b.append width cap piece sep).contents.filter q = b.contents.filter q ++ piece.filter q := by
  rcases append_cases width cap b piece sep with heq | ⟨-, -, heq⟩
  · rw [heq, ← contents_flush b]
    simp [contents]
  · rw [heq]
    simp [contents, hsep]

/-- A part of a chunk. -/
def Holds (b : Chunks α) (x : List α) : Prop := ∃ c ∈ b.flush.chunks, x <:+: c

theorem Holds.flush {x : List α} (h : b.Holds x) : b.flush.Holds x := by
  obtain ⟨c, hc, hx⟩ := h
  exact ⟨c, chunks_subset_flush _ hc, hx⟩

/-- What a chunk holds stays there. -/
theorem Holds.append {x : List α} (h : b.Holds x) : (b.append width cap piece sep).Holds x := by
  obtain ⟨c, hc, hx⟩ := h
  rcases append_cases width cap b piece sep with heq | ⟨hne, -, heq⟩
  · refine ⟨c, ?_, hx⟩
    rw [heq]
    exact chunks_subset_flush _ hc
  · rw [heq]
    rcases mem_flush.mp hc with hold | ⟨rfl, -⟩
    · exact ⟨c, chunks_subset_flush _ hold, hx⟩
    · refine ⟨_, mem_flush.mpr (Or.inr ⟨rfl, ?_⟩), hx.trans ?_⟩
      · simp [hne]
      · rw [List.append_assoc]
        exact (List.prefix_append _ _).isInfix

/-- A piece is the end of the open chunk. -/
theorem suffix_append : piece <:+ (b.append width cap piece sep).current := by
  rcases append_cases width cap b piece sep with heq | ⟨-, -, heq⟩
  · rw [heq]
  · rw [heq]
    exact List.suffix_append _ _

theorem append_current_ne_nil (h : piece ≠ []) :
    (b.append width cap piece sep).current ≠ [] :=
  fun hnil ↦ h (List.suffix_nil.mp (hnil ▸ suffix_append))

theorem holds_append {x : List α} (hp : piece ≠ []) (hx : x <:+: piece) :
    (b.append width cap piece sep).Holds x :=
  ⟨_, mem_flush.mpr (Or.inr ⟨rfl, append_current_ne_nil hp⟩), hx.trans suffix_append.isInfix⟩

end Append

/-! ## Several pieces -/

/-- Several pieces with one separator. -/
def fill (width : α → Nat) (cap : Nat) (sep : List α) (b : Chunks α) (ps : List (List α)) :
    Chunks α :=
  ps.foldl (fun b p ↦ b.append width cap p sep) b

section Fill

variable {width : α → Nat} {cap : Nat} {sep : List α} {b : Chunks α} {ps : List (List α)}

theorem fill_cons (p : List α) :
    b.fill width cap sep (p :: ps) = (b.append width cap p sep).fill width cap sep ps :=
  rfl

theorem fill_append (qs : List (List α)) :
    b.fill width cap sep (ps ++ qs) = (b.fill width cap sep ps).fill width cap sep qs :=
  List.foldl_append

theorem chunks_subset_append (p : List α) : b.chunks ⊆ (b.append width cap p sep).chunks := by
  rcases append_cases width cap b p sep with heq | ⟨-, -, heq⟩
  · rw [heq]
    exact b.chunks_subset_flush
  · rw [heq]
    exact List.Subset.refl _

theorem chunks_subset_fill (ps : List (List α)) : b.chunks ⊆ (b.fill width cap sep ps).chunks := by
  induction ps generalizing b with
  | nil => exact List.Subset.refl _
  | cons p ps ih => exact List.Subset.trans (chunks_subset_append p) ih

/-- Pieces that fit together are put behind the open chunk. -/
theorem fill_of_fits (h : b.current ≠ [])
    (hfits : size width b.current + size width (ps.flatMap (sep ++ ·)) ≤ cap) :
    b.fill width cap sep ps = ⟨b.chunks, b.current ++ ps.flatMap (sep ++ ·)⟩ := by
  induction ps generalizing b with
  | nil =>
    rw [List.flatMap_nil, List.append_nil]
    rfl
  | cons p ps ih =>
    rw [List.flatMap_cons, Slices.size_append, Slices.size_append] at hfits
    have hfirst : size width b.current + size width sep + size width p ≤ cap := by omega
    rw [fill_cons, append_of_fits h hfirst, ih (by simp [h])]
    · simp
    · simp only [Slices.size_append]
      omega

/-- Of pieces that do not fit together, some first ones are closed with the open chunk. -/
theorem exists_closed (h : b.current ≠ [])
    (hfull : cap < size width b.current + size width (ps.flatMap (sep ++ ·)))
    (hcur : size width b.current ≤ cap) :
    ∃ front p back, ps = front ++ p :: back ∧
      b.current ++ front.flatMap (sep ++ ·) ∈ (b.fill width cap sep ps).chunks := by
  induction ps generalizing b with
  | nil =>
    rw [List.flatMap_nil, Slices.size_nil] at hfull
    omega
  | cons p ps ih =>
    by_cases hfits : size width b.current + size width sep + size width p ≤ cap
    · have happend := append_of_fits h hfits
      have hsize : size width (b.current ++ sep ++ p) =
          size width b.current + size width sep + size width p := by
        simp only [Slices.size_append]
      rw [List.flatMap_cons, Slices.size_append, Slices.size_append] at hfull
      obtain ⟨front, q, back, rfl, hclosed⟩ := @ih ⟨b.chunks, b.current ++ sep ++ p⟩ (by simp [h])
        (by rw [hsize]; omega) (by rw [hsize]; exact hfits)
      refine ⟨p :: front, q, back, rfl, ?_⟩
      rw [fill_cons, happend]
      simpa using hclosed
    · refine ⟨[], p, ps, rfl, ?_⟩
      rw [fill_cons, append_of_not_fits h (by omega)]
      exact chunks_subset_fill ps (by simp)

/-- A piece that begins a chunk. -/
theorem append_of_begins (hw : ∀ x, 0 < width x) {p : List α}
    (h : size width b.current = 0 ∨
      cap < size width b.current + size width sep + size width p) :
    b.append width cap p sep = ⟨b.flush.chunks, p⟩ := by
  by_cases hnil : b.current = []
  · rw [append_of_nil hnil, flush_of_nil hnil]
  · have hpos := Slices.size_pos hw hnil
    rw [append_of_not_fits hnil (h.resolve_left (by omega)), flush_of_ne_nil hnil]

end Fill

end Chunks

/-- The size of the open chunk after pieces of these sizes, with separators of size `gap`. -/
def openSize (cap gap : Nat) (sizes : List Nat) : Nat :=
  sizes.foldl (fun o n ↦ if o = 0 ∨ cap < o + gap + n then n else o + gap + n) 0

theorem openSize_append_singleton (cap gap : Nat) (sizes : List Nat) (n : Nat) :
    openSize cap gap (sizes ++ [n]) =
      if openSize cap gap sizes = 0 ∨ cap < openSize cap gap sizes + gap + n then n
      else openSize cap gap sizes + gap + n := by
  rw [openSize, List.foldl_append]
  rfl

/-- How much is in the open chunk depends on the sizes of the pieces only. -/
theorem size_current_fill {α : Type*} {width : α → Nat} (hw : ∀ x, 0 < width x) {cap : Nat}
    {sep : List α} {b : Chunks α} (hnil : b.current = []) (ps : List (List α)) :
    size width (b.fill width cap sep ps).current =
      openSize cap (size width sep) (ps.map (size width)) := by
  induction ps using List.reverseRecOn with
  | nil =>
    change size width b.current = 0
    rw [hnil, Slices.size_nil]
  | append_singleton ps p ih =>
    rw [Chunks.fill_append, List.map_append, List.map_singleton, openSize_append_singleton, ← ih]
    change size width (((b.fill width cap sep ps).append width cap p sep)).current = _
    split_ifs with hbegins
    · rw [Chunks.append_of_begins hw hbegins]
    · rw [not_or, Nat.not_lt] at hbegins
      have hne : (b.fill width cap sep ps).current ≠ [] := fun h ↦ hbegins.1 (by
        rw [h, Slices.size_nil])
      rw [Chunks.append_of_fits hne hbegins.2, Slices.size_append, Slices.size_append]

/-! ## The text behind a chunk -/

section Rejoined

variable {α : Type*} {brk : α → Prop}

/-- The second list is the first one with some gaps, each with a break in it, replaced by
separators. -/
inductive Rejoined (brk : α → Prop) : List α → List α → Prop
  | piece (p : List α) : Rejoined brk p p
  | join {s c g sep p : List α} : Rejoined brk s c → (∃ x ∈ g, brk x) → (∀ x ∈ sep, brk x) →
      Rejoined brk (s ++ g ++ p) (c ++ sep ++ p)

/-- Where an element of two lists put together is. -/
theorem append_eq_append_cons {l r u w : List α} {y : α} (h : l ++ r = u ++ y :: w) :
    (∃ l', l = u ++ y :: l' ∧ w = l' ++ r) ∨ ∃ r', r = r' ++ y :: w ∧ u = l ++ r' := by
  rcases List.append_eq_append_iff.mp h with ⟨a, hu, hr⟩ | ⟨a, hl, hw⟩
  · exact Or.inr ⟨a, hr, hu⟩
  · cases a with
    | nil =>
      rw [List.append_nil] at hl
      exact Or.inr ⟨[], hw.symm, by rw [hl, List.append_nil]⟩
    | cons b a =>
      obtain ⟨rfl, hrest⟩ := List.cons.inj hw
      exact Or.inl ⟨a, hl, hrest⟩

/-- What is no break comes from the text. -/
theorem Rejoined.mem {s c : List α} (h : Rejoined brk s c) {x : α} (hx : x ∈ c) (hbrk : ¬brk x) :
    x ∈ s := by
  induction h with
  | piece p => exact hx
  | @join s c g sep p _ _ hsep ih =>
    rcases List.mem_append.mp hx with hx | hx
    · rcases List.mem_append.mp hx with hx | hx
      · exact List.mem_append_left _ (List.mem_append_left _ (ih hx))
      · exact absurd (hsep x hx) hbrk
    · exact List.mem_append_right _ hx

/-- Between two elements that are no breaks, there is a break in the text behind the chunk if there
is one in the chunk. -/
theorem Rejoined.between {s c : List α} (h : Rejoined brk s c) {u v z : List α} {x y : α}
    (hc : c = u ++ x :: (v ++ y :: z)) (hx : ¬brk x) (hy : ¬brk y) (hv : ∃ e ∈ v, brk e) :
    ∃ u' v' z', s = u' ++ x :: (v' ++ y :: z') ∧ ∃ e ∈ v', brk e := by
  induction h generalizing u v z with
  | piece p => exact ⟨u, v, z, hc, hv⟩
  | @join s c g sep p hsc hg hsep ih =>
    have hnot : ∀ {e : α} {r r' : List α}, ¬brk e → sep ≠ r ++ e :: r' := by
      rintro e r r' he rfl
      exact he (hsep e (by simp))
    rw [List.append_assoc] at hc
    rcases append_eq_append_cons hc with ⟨c', rfl, htail⟩ | ⟨r, hr, rfl⟩
    · -- the first of the two is in the chunk before the separator
      rcases append_eq_append_cons htail.symm with ⟨w, rfl, -⟩ | ⟨r, hr, rfl⟩
      · obtain ⟨u', v', z', rfl, hbreak⟩ := ih rfl hv
        exact ⟨u', v', z' ++ g ++ p, by simp, hbreak⟩
      · rcases append_eq_append_cons hr with ⟨w, hw, -⟩ | ⟨p', rfl, rfl⟩
        · exact absurd hw (hnot hy)
        · obtain ⟨u', w', rfl⟩ := List.append_of_mem (hsc.mem (by simp) hx)
          obtain ⟨e, he, hbreak⟩ := hg
          exact ⟨u', w' ++ g ++ p', z, by simp, e, by simp [he], hbreak⟩
    · rcases append_eq_append_cons hr with ⟨w, hw, -⟩ | ⟨p', rfl, rfl⟩
      · exact absurd hw (hnot hx)
      · exact ⟨s ++ g ++ p', v, z, by simp, hv⟩

end Rejoined

/-- Each chunk was taken from the text so far, and the open one from its end. -/
structure Chunks.Follows {α : Type*} (brk : α → Prop) (b : Chunks α) (text : List α) : Prop where
  chunks : ∀ c ∈ b.chunks, ∃ s, s <:+: text ∧ Rejoined brk s c
  current : b.current ≠ [] → ∃ s, s <:+ text ∧ Rejoined brk s b.current

namespace Chunks

variable {α : Type*} {brk : α → Prop} {b : Chunks α} {text : List α}

theorem Follows.flush (h : b.Follows brk text) : b.flush.Follows brk text := by
  refine ⟨fun c hc ↦ ?_, fun hne ↦ absurd b.flush_current hne⟩
  rcases mem_flush.mp hc with hold | ⟨rfl, hne⟩
  · exact h.chunks c hold
  · obtain ⟨s, hs, hr⟩ := h.current hne
    exact ⟨s, hs.isInfix, hr⟩

/-- A piece may only be joined to the chunk across a break. -/
theorem Follows.append {width : α → Nat} {cap : Nat} {g piece sep : List α}
    (h : b.Follows brk text) (hsep : ∀ x ∈ sep, brk x)
    (hg : (∃ x ∈ g, brk x) ∨ b.current = [] ∨
      cap < size width b.current + size width sep + size width piece) :
    (b.append width cap piece sep).Follows brk (text ++ g ++ piece) := by
  have hgrow : ∀ {s : List α}, s <:+: text → s <:+: text ++ g ++ piece := fun hs ↦
    hs.trans (List.append_assoc _ _ _ ▸ (List.prefix_append _ _).isInfix)
  rcases append_cases width cap b piece sep with heq | ⟨hne, hfits, heq⟩
  · rw [heq]
    refine ⟨fun c hc ↦ ?_, fun _ ↦ ⟨piece, List.suffix_append _ _, .piece _⟩⟩
    obtain ⟨s, hs, hr⟩ := h.flush.chunks c hc
    exact ⟨s, hgrow hs, hr⟩
  · rw [heq]
    refine ⟨fun c hc ↦ ?_, fun _ ↦ ?_⟩
    · obtain ⟨s, hs, hr⟩ := h.chunks c hc
      exact ⟨s, hgrow hs, hr⟩
    · obtain ⟨s, ⟨pre, rfl⟩, hr⟩ := h.current hne
      have hbreak : ∃ x ∈ g, brk x := by
        rcases hg with hg | hnil | hfull
        · exact hg
        · exact absurd hnil hne
        · omega
      exact ⟨s ++ g ++ piece, ⟨pre, by simp⟩, .join hr hbreak hsep⟩

end Chunks

/-! ## The pieces of a text -/

/-- A text is some pieces in their order, with blanks between them and, between two of them, a
break. -/
inductive Parted {α : Type*} (blank brk : α → Prop) : Bool → List α → List (List α) → Prop
  | nil {first : Bool} {g : List α} : (∀ x ∈ g, blank x) → Parted blank brk first g []
  | cons {first : Bool} {g p rest : List α} {ps : List (List α)} :
      (∀ x ∈ g, blank x) → (first = false → ∃ x ∈ g, brk x) → Parted blank brk false rest ps →
        Parted blank brk first (g ++ p ++ rest) (p :: ps)

theorem Parted.filter_flatten {α : Type*} {blank brk : α → Prop} {first : Bool} {text : List α}
    {ps : List (List α)} (h : Parted blank brk first text ps) {q : α → Bool}
    (hq : ∀ x, blank x → q x = false) : ps.flatten.filter q = text.filter q := by
  have hgap : ∀ g : List α, (∀ x ∈ g, blank x) → g.filter q = [] := fun g hg ↦
    List.filter_eq_nil_iff.mpr fun x hx ↦ by simp [hq x (hg x hx)]
  induction h with
  | nil hg => exact (hgap _ hg).symm
  | cons hg _ _ ih =>
    rw [List.flatten_cons, List.filter_append, ih, List.filter_append, List.filter_append,
      hgap _ hg, List.nil_append]

end Packing
