import Mathlib.Data.List.Basic

/-!
# Lines

A list as lines that end with a separator; the last one may lack it, unless it is empty.
-/

namespace Lines

variable {α : Type*} [DecidableEq α]

/-- What the separators end, and what comes after the last of them, if anything does. -/
def lines (sep : α) (xs : List α) : List (List α) :=
  if (xs.splitOn sep).getLast? = some [] then (xs.splitOn sep).dropLast else xs.splitOn sep

variable {sep : α} {xs : List α}

@[simp] theorem lines_nil : lines sep [] = [] := by
  unfold lines
  rw [List.splitOn_nil]
  rfl

theorem lines_of_notMem (h : sep ∉ xs) (hne : xs ≠ []) : lines sep xs = [xs] := by
  unfold lines
  rw [List.splitOn_eq_singleton h, if_neg]
  rintro heq
  exact hne (Option.some.inj heq)

theorem lines_append_cons (h : sep ∉ xs) (rest : List α) :
    lines sep (xs ++ sep :: rest) = xs :: lines sep rest := by
  unfold lines
  rw [List.splitOn_append_cons_self_of_not_mem h,
    List.getLast?_cons_of_ne_nil (List.splitOn_ne_nil sep rest),
    List.dropLast_cons_of_ne_nil (List.splitOn_ne_nil sep rest)]
  split <;> rfl

/-- A line that has begun is the first one, however it goes on. -/
theorem exists_lines_append (h : sep ∉ xs) (hne : xs ≠ []) (after : List α) :
    ∃ line rest, lines sep (xs ++ after) = line :: rest ∧ xs <+: line := by
  by_cases hmem : sep ∈ after
  · obtain ⟨before, rest, rfl, hbefore⟩ := List.eq_append_cons_of_mem hmem
    refine ⟨xs ++ before, lines sep rest, ?_, List.prefix_append xs before⟩
    rw [← List.append_assoc, lines_append_cons (by simp [h, hbefore])]
  · exact ⟨xs ++ after, [], lines_of_notMem (by simp [h, hmem]) (by simp [hne]),
      List.prefix_append xs after⟩

theorem lines_flatMap_append {ls : List (List α)} (h : ∀ l ∈ ls, sep ∉ l) (rest : List α) :
    lines sep (ls.flatMap (· ++ [sep]) ++ rest) = ls ++ lines sep rest := by
  induction ls with
  | nil => rfl
  | cons l ls ih =>
    rw [List.flatMap_cons, List.append_assoc, List.append_assoc, List.singleton_append,
      lines_append_cons (h l (List.mem_cons_self ..)),
      ih fun m hm ↦ h m (List.mem_cons_of_mem l hm), List.cons_append]

theorem lines_flatMap {ls : List (List α)} (h : ∀ l ∈ ls, sep ∉ l) :
    lines sep (ls.flatMap (· ++ [sep])) = ls := by
  have hlines := lines_flatMap_append h []
  rwa [List.append_nil, lines_nil, List.append_nil] at hlines

omit [DecidableEq α] in
/-- Parts that follow each other, cut somewhere: after all of them, or in one of them. -/
theorem exists_take_flatMap {β : Type*} (f : α → List β) (xs : List α) (n : Nat) :
    (xs.flatMap f).length ≤ n ∨ ∃ before x after m, xs = before ++ x :: after ∧
      m < (f x).length ∧ (xs.flatMap f).take n = before.flatMap f ++ (f x).take m := by
  induction xs generalizing n with
  | nil => exact .inl (Nat.zero_le n)
  | cons x xs ih =>
    by_cases hx : n < (f x).length
    · refine .inr ⟨[], x, xs, n, rfl, hx, ?_⟩
      rw [List.flatMap_cons, List.take_append_of_le_length (Nat.le_of_lt hx)]
      rfl
    · have hle := Nat.le_of_not_lt hx
      rcases ih (n - (f x).length) with hall | ⟨before, y, after, m, rfl, hm, htake⟩
      · left
        rw [List.flatMap_cons, List.length_append]
        omega
      · refine .inr ⟨x :: before, y, after, m, rfl, hm, ?_⟩
        rw [List.flatMap_cons, List.take_append, List.take_of_length_le hle, htake,
          List.flatMap_cons, List.append_assoc]

end Lines
