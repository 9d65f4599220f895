import Mathlib.Data.List.DropRight
import Mathlib.Data.List.MinMax

/-!
# The latest entry of a history

A history is a list, newest first, whose entries carry keys.  Its latest entry is the newest of
those with the greatest key; a register that only moves forward holds it.  Of a history with the
oldest entry first, a register holds what was read last, or last since an entry that cleared it.
-/

namespace Latest

variable {α β : Type*} [LinearOrder β] {key : α → β} {l : List α}

/-- What a register that only moves forward makes of one more entry. -/
theorem argmax_cons_eq_ite (key : α → β) (a : α) (l : List α) :
    (a :: l).argmax key =
      if (l.argmax key).any (fun c ↦ key a < key c) then l.argmax key else some a := by
  rw [List.argmax_cons]
  cases l.argmax key with
  | none => rfl
  | some c => by_cases h : key a < key c <;> simp [h]

/-- The latest entry is beyond a key where any entry is. -/
theorem any_argmax_lt_iff {k : β} :
    (l.argmax key).any (fun c ↦ k < key c) = true ↔ ∃ a ∈ l, k < key a := by
  rw [Option.any_eq_true]
  constructor
  · rintro ⟨c, hc, hlt⟩
    exact ⟨c, List.argmax_mem hc, of_decide_eq_true hlt⟩
  · rintro ⟨a, ha, hlt⟩
    cases hc : l.argmax key with
    | none => simp_all
    | some c => exact ⟨c, rfl, decide_eq_true (hlt.trans_le (List.le_of_mem_argmax ha hc))⟩

/-- Where no entry is beyond a key, the latest entry that has the key is the newest that has it. -/
theorem filter_argmax_eq_find? {k : β} (h : ∀ a ∈ l, key a ≤ k) :
    (l.argmax key).filter (fun c ↦ decide (key c = k)) = l.find? fun a ↦ decide (key a = k) := by
  induction l with
  | nil => rfl
  | cons a l ih =>
    have ih := ih fun b hb ↦ h b (List.mem_cons_of_mem a hb)
    rw [argmax_cons_eq_ite, List.find?_cons]
    by_cases ha : key a = k
    · -- nothing is beyond the new entry, so it is the latest
      have hno : ¬(l.argmax key).any (fun c ↦ key a < key c) = true := by
        rw [any_argmax_lt_iff]
        rintro ⟨b, hb, hlt⟩
        exact absurd (h b (List.mem_cons_of_mem a hb)) (not_le.mpr (ha ▸ hlt))
      rw [if_neg hno]
      simp [ha]
    · have hlt : key a < k := lt_of_le_of_ne (h a List.mem_cons_self) ha
      rw [decide_eq_false ha, ← ih]
      split
      · rfl
      · next hno =>
        -- the new entry displaces one that did not have the key either
        cases hc : l.argmax key with
        | none => exact Option.filter_some_neg (by simpa using ha)
        | some c =>
          have hle : key c ≤ key a := by simpa [hc] using hno
          rw [Option.filter_some_neg (by simpa using ha),
            Option.filter_some_neg (by simpa using (hle.trans_lt hlt).ne)]

variable {γ : Type*}

/-- What a reader made of the last entry that it reads, where the oldest entry comes first. -/
def read (f : α → Option γ) (l : List α) : Option γ := (l.filterMap f).getLast?

/-- The entries after the last one that a test accepts, where the oldest entry comes first. -/
def since (test : α → Bool) (l : List α) : List α := l.rtakeWhile fun a ↦ !test a

@[simp] theorem read_nil (f : α → Option γ) : read f [] = none := rfl

theorem read_concat (f : α → Option γ) (l : List α) (a : α) :
    read f (l ++ [a]) = (f a).or (read f l) := by
  unfold read
  rw [List.filterMap_append]
  cases h : f a <;> simp [h]

@[simp] theorem since_nil (test : α → Bool) : since test [] = [] := rfl

theorem since_concat (test : α → Bool) (l : List α) (a : α) :
    since test (l ++ [a]) = if test a then [] else since test l ++ [a] := by
  unfold since
  rw [List.rtakeWhile_concat]
  cases test a <;> rfl

theorem since_subset (test : α → Bool) (l : List α) : since test l ⊆ l :=
  (List.rtakeWhile_suffix _ _).subset

/-- An entry that the test accepts leaves only what comes after it. -/
theorem mem_of_mem_since {test : α → Bool} {l m : List α} {a b : α} (ha : test a = true)
    (hb : b ∈ since test (l ++ a :: m)) : b ∈ m := by
  induction m using List.reverseRecOn with
  | nil =>
    rw [since_concat, if_pos ha] at hb
    nomatch hb
  | append_singleton m c ih =>
    rw [← List.cons_append, ← List.append_assoc, since_concat] at hb
    split at hb
    · nomatch hb
    · rcases List.mem_append.mp hb with hold | hlast
      · exact List.mem_append_left _ (ih hold)
      · exact List.mem_append_right _ hlast

end Latest
