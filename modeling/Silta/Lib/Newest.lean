import Mathlib.Data.Finset.Sort
import Mathlib.Data.List.Sort
import Mathlib.Order.Defs.LinearOrder

/-!
# Keeping the newest

Of a list in strictly increasing order the last `keep` elements are kept, and the others are removed
from the front.  An element is among the removed ones just when `keep` elements are later.
-/

namespace Newest

variable {α : Type*} [LinearOrder α]

/-- How many elements of a list are later than this one. -/
def later (l : List α) (x : α) : Nat := (l.filter fun y ↦ x < y).length

theorem later_cons (y : α) (l : List α) (x : α) :
    later (y :: l) x = (if x < y then 1 else 0) + later l x := by
  unfold later
  by_cases h : x < y
  · rw [List.filter_cons_of_pos (by simpa using h), List.length_cons, if_pos h]
    omega
  · rw [List.filter_cons_of_neg (by simpa using h), if_neg h]
    omega

theorem later_append (l m : List α) (x : α) : later (l ++ m) x = later l x + later m x := by
  rw [later, List.filter_append, List.length_append]
  rfl

theorem later_eq_length {l : List α} {x : α} (h : ∀ y ∈ l, x < y) : later l x = l.length := by
  rw [later, List.filter_eq_self.mpr fun y hy ↦ decide_eq_true (h y hy)]

theorem later_eq_zero {l : List α} {x : α} (h : ∀ y ∈ l, y ≤ x) : later l x = 0 := by
  have hnone : l.filter (fun y ↦ decide (x < y)) = [] :=
    List.filter_eq_nil_iff.mpr fun y hy hlt ↦ (h y hy).not_gt (of_decide_eq_true hlt)
  rw [later, hnone, List.length_nil]

/-- In a strictly increasing list, those behind an element are the later ones. -/
theorem later_split {pre post : List α} {x : α} (h : (pre ++ x :: post).Pairwise (· < ·)) :
    later (pre ++ x :: post) x = post.length := by
  rw [List.pairwise_append, List.pairwise_cons] at h
  obtain ⟨-, ⟨hpost, -⟩, hpre⟩ := h
  have hbefore : later pre x = 0 := later_eq_zero fun y hy ↦ (hpre y hy x List.mem_cons_self).le
  rw [later_append, later_cons, hbefore, if_neg (lt_irrefl x), later_eq_length hpost]
  omega

/-- The elements in front of the last `keep` are those with `keep` later ones. -/
theorem mem_take_iff {l : List α} (h : l.Pairwise (· < ·)) {x : α} (hx : x ∈ l) (keep : Nat) :
    x ∈ l.take (l.length - keep) ↔ keep ≤ later l x := by
  obtain ⟨pre, post, rfl⟩ := List.append_of_mem hx
  have hnodup : (pre ++ x :: post).Nodup := h.imp fun hlt ↦ hlt.ne
  have hpre : x ∉ pre := fun hmem ↦
    (List.nodup_append.mp hnodup).2.2 x hmem x List.mem_cons_self rfl
  rw [later_split h, List.length_append, List.length_cons]
  -- the element stands at the place where those in front of it end
  have hplace : ∀ n, x ∈ (pre ++ x :: post).take n ↔ pre.length < n := by
    intro n
    rw [List.take_append, List.mem_append]
    refine ⟨fun hmem ↦ ?_, fun hlt ↦ .inr ?_⟩
    · rcases hmem with hmem | hmem
      · exact absurd (List.mem_of_mem_take hmem) hpre
      · by_contra hle
        have hzero : n - pre.length = 0 := by omega
        rw [hzero] at hmem
        exact absurd hmem List.not_mem_nil
    · obtain ⟨k, hk⟩ : ∃ k, n - pre.length = k + 1 := ⟨n - pre.length - 1, by omega⟩
      rw [hk, List.take_succ_cons]
      exact List.mem_cons_self
  rw [hplace]
  omega

/-- Of a set in order, all but the last `keep` elements are those with `keep` later ones. -/
theorem mem_drop_reverse_iff {s : Finset α} {x : α} (keep : Nat) :
    x ∈ s.sort.reverse.drop keep ↔ x ∈ s ∧ keep ≤ (s.filter fun y ↦ x < y).card := by
  have hsorted : s.sort.Pairwise (· < ·) :=
    (s.pairwise_sort _).imp₂ (fun x y hle hne ↦ lt_of_le_of_ne hle hne) (s.sort_nodup _)
  have hlater : later s.sort x = (s.filter fun y ↦ x < y).card := by
    have hset : s.filter (fun y ↦ x < y) = (s.sort.filter fun y ↦ x < y).toFinset := by
      ext y
      simp
    rw [later, hset, List.toFinset_card_of_nodup ((s.sort_nodup _).filter _)]
  rw [List.drop_reverse, List.mem_reverse]
  -- what is dropped from the end of the reverse is a front of the list in order
  by_cases hx : x ∈ s
  · rw [mem_take_iff hsorted ((s.mem_sort _).mpr hx), hlater]
    exact (and_iff_right hx).symm
  · refine iff_of_false (fun hmem ↦ hx ?_) fun h ↦ hx h.1
    exact (s.mem_sort _).mp (List.mem_of_mem_take hmem)

/-- The elements in order, the newest last. -/
def sort (l : List α) : List α := l.mergeSort fun x y ↦ x ≤ y

@[simp] theorem mem_sort {l : List α} {x : α} : x ∈ sort l ↔ x ∈ l := List.mem_mergeSort

theorem sort_perm (l : List α) : (sort l).Perm l := List.mergeSort_perm l _

theorem pairwise_sort {l : List α} (h : l.Nodup) : (sort l).Pairwise (· < ·) := by
  have hsorted : (sort l).Pairwise fun x y ↦ decide (x ≤ y) = true :=
    List.pairwise_mergeSort
      (fun _ _ _ hxy hyz ↦
        decide_eq_true ((of_decide_eq_true hxy).trans (of_decide_eq_true hyz)))
      (fun x y ↦ by simpa using le_total x y) l
  have hnodup : (sort l).Nodup := (sort_perm l).nodup_iff.mpr h
  exact hsorted.imp₂ (fun x y hle hne ↦ lt_of_le_of_ne (of_decide_eq_true hle) hne) hnodup

end Newest
