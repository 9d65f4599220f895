import Mathlib.Algebra.Ring.Nat
import Mathlib.Data.List.Basic

/-!
# Slices by offset

A list whose elements have widths, such as text and the bytes of its characters, and the part of it
between two offsets.  There is none if an offset is inside an element or past the end.
-/

namespace Slices

variable {α : Type*} (width : α → Nat)

def size (xs : List α) : Nat := (xs.map width).sum

@[simp] theorem size_nil : size width [] = 0 := rfl

@[simp] theorem size_cons (x : α) (xs : List α) : size width (x :: xs) = width x + size width xs :=
  rfl

@[simp] theorem size_append (xs ys : List α) :
    size width (xs ++ ys) = size width xs + size width ys := by
  simp [size]

/-- What comes after an offset. -/
def dropTo : List α → Nat → Option (List α)
  | xs, 0 => some xs
  | [], _ + 1 => none
  | x :: xs, n + 1 => if width x ≤ n + 1 then dropTo xs (n + 1 - width x) else none

/-- What comes before an offset. -/
def takeTo : List α → Nat → Option (List α)
  | _, 0 => some []
  | [], _ + 1 => none
  | x :: xs, n + 1 =>
    if width x ≤ n + 1 then (takeTo xs (n + 1 - width x)).map (x :: ·) else none

def slice (xs : List α) (start stop : Nat) : Option (List α) :=
  if start ≤ stop then (dropTo width xs start).bind (takeTo width · (stop - start)) else none

section Positive

variable {width} (hw : ∀ x, 0 < width x)
include hw

theorem size_pos {xs : List α} (h : xs ≠ []) : 0 < size width xs := by
  cases xs with
  | nil => exact absurd rfl h
  | cons x xs =>
    rw [size_cons]
    have := hw x
    omega

private theorem size_cons_eq_succ (x : α) (xs : List α) :
    ∃ n, size width (x :: xs) = n + 1 ∧ width x ≤ n + 1 ∧ n + 1 - width x = size width xs := by
  have hx := hw x
  refine ⟨width x + size width xs - 1, ?_, ?_, ?_⟩
  · rw [size_cons]
    omega
  · omega
  · omega

theorem dropTo_append (xs ys : List α) : dropTo width (xs ++ ys) (size width xs) = some ys := by
  induction xs with
  | nil => rw [List.nil_append, size_nil, dropTo]
  | cons x xs ih =>
    obtain ⟨n, hn, hfit, hrest⟩ := size_cons_eq_succ hw x xs
    rw [hn, List.cons_append, dropTo, if_pos hfit, hrest, ih]

theorem takeTo_append (xs ys : List α) : takeTo width (xs ++ ys) (size width xs) = some xs := by
  induction xs with
  | nil => rw [size_nil, takeTo]
  | cons x xs ih =>
    obtain ⟨n, hn, hfit, hrest⟩ := size_cons_eq_succ hw x xs
    rw [hn, List.cons_append, takeTo, if_pos hfit, hrest, ih,
      Option.map_some]

/-- The offsets that a list is taken apart at have a slice between them. -/
theorem slice_append (xs ys zs : List α) :
    slice width (xs ++ (ys ++ zs)) (size width xs) (size width xs + size width ys) = some ys := by
  rw [slice, if_pos (Nat.le_add_right _ _), dropTo_append hw, Option.bind_some,
    Nat.add_sub_cancel_left, takeTo_append hw]

end Positive

end Slices
