import Silta.Lib.Lts

/-!
# Fair executions

Endless executions of a step relation, weak fairness towards a kind of labels, and the rule that
derives from it what must happen.
-/

namespace Lts

variable {σ ℓ : Type*} {step : σ → ℓ → σ → Prop}

/-- An execution that goes on forever. -/
structure Execution (step : σ → ℓ → σ → Prop) where
  state : ℕ → σ
  label : ℕ → ℓ
  next : ∀ i, step (state i) (label i) (state (i + 1))

namespace Execution

/-- The first labels of an execution, oldest first. -/
def upTo (x : Execution step) (n : ℕ) : List ℓ := (List.range n).map x.label

theorem upTo_succ (x : Execution step) (n : ℕ) : x.upTo (n + 1) = x.upTo n ++ [x.label n] := by
  simp [upTo, List.range_succ]

theorem mem_upTo {x : Execution step} {n : ℕ} {l : ℓ} : l ∈ x.upTo n ↔ ∃ i < n, x.label i = l := by
  simp [upTo]

theorem getElem?_upTo (x : Execution step) {n i : ℕ} (h : i < n) :
    (x.upTo n)[i]? = some (x.label i) := by
  simp [upTo, h]

theorem run (x : Execution step) (n : ℕ) : Run step (x.state 0) (x.upTo n) (x.state n) := by
  induction n with
  | zero => exact .nil _
  | succ n ih =>
    rw [upTo_succ]
    exact ih.snoc (x.next n)

/-- Weak fairness: a kind of labels that stays possible is taken. -/
def Fair (x : Execution step) (A : ℓ → Prop) : Prop :=
  ∀ i, (∀ j ≥ i, ∃ l t, A l ∧ step (x.state j) l t) → ∃ j ≥ i, A (x.label j)

/-- The rule of progress: where a condition makes a fair kind of labels possible and lasts until one
of that kind or of a second kind is taken, one of the two is taken. -/
theorem Fair.eventually {x : Execution step} {A B : ℓ → Prop} (hfair : x.Fair A) {P : σ → Prop}
    (hpossible : ∀ j, P (x.state j) → ∃ l t, A l ∧ step (x.state j) l t)
    (hlasts : ∀ j, P (x.state j) → A (x.label j) ∨ B (x.label j) ∨ P (x.state (j + 1))) {i : ℕ}
    (hi : P (x.state i)) : ∃ j ≥ i, A (x.label j) ∨ B (x.label j) := by
  by_contra hnever
  push Not at hnever
  have hholds : ∀ d, P (x.state (i + d)) := by
    intro d
    induction d with
    | zero => exact hi
    | succ d ih =>
      have hno := hnever (i + d) (by omega)
      rcases hlasts (i + d) ih with ha | hb | hp
      · exact absurd ha hno.1
      · exact absurd hb hno.2
      · exact hp
  obtain ⟨j, hj, ha⟩ := hfair i fun j hj ↦ by
    obtain ⟨d, rfl⟩ := Nat.exists_eq_add_of_le hj
    exact hpossible (i + d) (hholds d)
  exact (hnever j hj).1 ha

/-- A step before an execution. -/
def cons {s : σ} {l : ℓ} (x : Execution step) (h : step s l (x.state 0)) : Execution step where
  state
    | 0 => s
    | n + 1 => x.state n
  label
    | 0 => l
    | n + 1 => x.label n
  next
    | 0 => h
    | n + 1 => x.next n

/-- The same step over and over. -/
def repeated {s : σ} {l : ℓ} (h : step s l s) : Execution step where
  state := fun _ ↦ s
  label := fun _ ↦ l
  next := fun _ ↦ h

end Execution

/-- A finite run goes on as an execution does that starts where it ends. -/
theorem Run.then {s t : σ} {ls : List ℓ} (h : Run step s ls t) (y : Execution step)
    (hy : y.state 0 = t) :
    ∃ x : Execution step, x.state 0 = s ∧ x.upTo ls.length = ls ∧
      (∀ i, x.state (ls.length + i) = y.state i) ∧ ∀ i, x.label (ls.length + i) = y.label i := by
  induction h generalizing y with
  | nil => exact ⟨y, hy, rfl, fun i ↦ by simp, fun i ↦ by simp⟩
  | @snoc t u ls l hrun hstep ih =>
    subst hy
    obtain ⟨x, hstart, hlabels, hstates, hrest⟩ := ih (y.cons hstep) rfl
    have hlabel : x.label ls.length = l := hrest 0
    refine ⟨x, hstart, ?_, fun i ↦ ?_, fun i ↦ ?_⟩
    · rw [List.length_append, List.length_singleton, Execution.upTo_succ, hlabels, hlabel]
    · rw [List.length_append, List.length_singleton, Nat.add_assoc, Nat.add_comm 1 i]
      exact hstates (i + 1)
    · rw [List.length_append, List.length_singleton, Nat.add_assoc, Nat.add_comm 1 i]
      exact hrest (i + 1)

/-- The labels of such an execution are those of the run and those it goes on with. -/
theorem Execution.label_mem_or {x y : Execution step} {ls : List ℓ}
    (hlabels : x.upTo ls.length = ls) (hrest : ∀ i, x.label (ls.length + i) = y.label i) (j : ℕ) :
    x.label j ∈ ls ∨ ∃ i, x.label j = y.label i := by
  rcases Nat.lt_or_ge j ls.length with hlt | hge
  · left
    rw [← hlabels]
    exact mem_upTo.mpr ⟨j, hlt, rfl⟩
  · right
    obtain ⟨i, rfl⟩ := Nat.exists_eq_add_of_le hge
    exact ⟨i, hrest i⟩

/-- The rule of the budget: where each step pays for its label out of a value that never grows, the
labels of a run cost no more than there was. -/
theorem Run.budget (value : σ → ℕ) (cost : ℓ → ℕ)
    (hstep : ∀ s l t, step s l t → value t + cost l ≤ value s) {s t : σ} {ls : List ℓ}
    (h : Run step s ls t) : value t + (ls.map cost).sum ≤ value s := by
  induction h with
  | nil => simp
  | @snoc t u ls l _ hl ih =>
    have hlast := hstep t l u hl
    rw [List.map_append, List.sum_append, List.map_singleton, List.sum_singleton]
    omega

/-- Where there is a budget for one, two labels of an execution that cost something are the same
one. -/
theorem Execution.unique_of_budget {x : Execution step} (value : σ → ℕ) (cost : ℓ → ℕ)
    (hstep : ∀ s l t, step s l t → value t + cost l ≤ value s) (hone : value (x.state 0) ≤ 1)
    {i j : ℕ} (hi : 0 < cost (x.label i)) (hj : 0 < cost (x.label j)) : i = j := by
  have hlt : ∀ a b, a < b → 0 < cost (x.label a) → 0 < cost (x.label b) → False := by
    intro a b hab ha hb
    have hsum := (x.run (b + 1)).budget value cost hstep
    have hpast : 0 < ((x.upTo b).map cost).sum := by
      apply List.sum_pos_iff_exists_pos_nat.mpr
      exact ⟨_, List.mem_map_of_mem (Execution.mem_upTo.mpr ⟨a, hab, rfl⟩), ha⟩
    rw [Execution.upTo_succ, List.map_append, List.sum_append, List.map_singleton,
      List.sum_singleton] at hsum
    omega
  rcases Nat.lt_trichotomy i j with h | h | h
  · exact (hlt i j h hi hj).elim
  · exact h
  · exact (hlt j i h hj hi).elim

end Lts
