import Mathlib.Algebra.BigOperators.Group.List.Basic
import Mathlib.Tactic.Abel

/-!
# Labelled transition systems

Finite runs of a step relation, the invariant rule, a conservation rule for quantities that only
move between accounts, and safety monitors that read the labels of a run.
-/

namespace Lts

variable {σ ℓ μ : Type*} {step : σ → ℓ → σ → Prop}

/-- A finite run with its labels, oldest first. -/
inductive Run (step : σ → ℓ → σ → Prop) : σ → List ℓ → σ → Prop
  | nil (s : σ) : Run step s [] s
  | snoc {s t u : σ} {ls : List ℓ} {l : ℓ} :
      Run step s ls t → step t l u → Run step s (ls ++ [l]) u

namespace Run

theorem single {s t : σ} {l : ℓ} (h : step s l t) : Run step s [l] t :=
  (Run.nil s).snoc h

theorem append {s t u : σ} {ls ms : List ℓ} (h : Run step s ls t) (k : Run step t ms u) :
    Run step s (ls ++ ms) u := by
  induction k with
  | nil => simpa using h
  | snoc _ hl ih =>
    rw [← List.append_assoc]
    exact ih.snoc hl

theorem cons {s t u : σ} {l : ℓ} {ls : List ℓ} (h : step s l t) (k : Run step t ls u) :
    Run step s (l :: ls) u :=
  (single h).append k

theorem mono {step' : σ → ℓ → σ → Prop} (hstep : ∀ s l t, step s l t → step' s l t) {s t : σ}
    {ls : List ℓ} (h : Run step s ls t) : Run step' s ls t := by
  induction h with
  | nil => exact .nil _
  | snoc _ hl ih => exact ih.snoc (hstep _ _ _ hl)

/-- The invariant rule: what holds at the start and is kept by each step whose label is admitted
holds at the end of every run with admitted labels. -/
theorem invariant {I : σ → Prop} {P : ℓ → Prop}
    (hstep : ∀ s l t, I s → P l → step s l t → I t) {s t : σ} {ls : List ℓ}
    (h : Run step s ls t) (hs : I s) (hls : ∀ l ∈ ls, P l) : I t := by
  induction h with
  | nil => exact hs
  | snoc _ hl ih =>
    have hpre := ih fun l hl' ↦ hls l (List.mem_append_left _ hl')
    exact hstep _ _ _ hpre (hls _ (by simp)) hl

/-- The invariant rule for what ties the state to the labels so far. -/
theorem history {I : List ℓ → σ → Prop} {s t : σ} {ls : List ℓ} (h : Run step s ls t)
    (hnil : I [] s) (hsnoc : ∀ ls t l u, I ls t → step t l u → I (ls ++ [l]) u) : I ls t := by
  induction h with
  | nil => exact hnil
  | snoc _ hl ih => exact hsnoc _ _ _ _ ih hl

/-- A run up to its last step. -/
theorem last {s u : σ} {ls : List ℓ} {l : ℓ} (h : Run step s (ls ++ [l]) u) :
    ∃ t, Run step s ls t ∧ step t l u := by
  generalize hls : ls ++ [l] = ms at h
  cases h with
  | nil => simp at hls
  | snoc hrun hstep =>
    obtain ⟨rfl, hlast⟩ := List.append_inj' hls rfl
    obtain rfl := List.singleton_inj.mp hlast
    exact ⟨_, hrun, hstep⟩

/-- A run up to one of its labels, the step that has it, and the run from there. -/
theorem split {s u : σ} {ls ms ns : List ℓ} {l : ℓ} (h : Run step s ls u)
    (heq : ls = ms ++ l :: ns) : ∃ t t', Run step s ms t ∧ step t l t' ∧ Run step t' ns u := by
  induction h generalizing ns with
  | nil => simp at heq
  | @snoc t u ls k hrun hstep ih =>
    rcases List.eq_nil_or_concat ns with rfl | ⟨ns, k', rfl⟩
    · obtain ⟨rfl, rfl⟩ : ls = ms ∧ k = l := by simpa using heq
      exact ⟨t, u, hrun, hstep, .nil u⟩
    · have heq : ls ++ [k] = (ms ++ l :: ns) ++ [k'] := by simpa using heq
      obtain ⟨hls, hlast⟩ := List.append_inj' heq rfl
      obtain rfl : k = k' := List.singleton_inj.mp hlast
      obtain ⟨v, v', hpast, hlabel, hfuture⟩ := ih hls
      exact ⟨v, v', hpast, hlabel, by simpa using hfuture.snoc hstep⟩

/-- The simulation rule: where every step is matched by the run of one label or of none, the whole
run is matched by the run of the labels that remain. -/
theorem simulated {τ κ : Type*} {step' : τ → κ → τ → Prop} {R : σ → τ → Prop} (f : ℓ → Option κ)
    (hstep : ∀ s l t a, R s a → step s l t → ∃ b, Run step' a (f l).toList b ∧ R t b)
    {s t : σ} {a : τ} {ls : List ℓ} (h : Run step s ls t) (ha : R s a) :
    ∃ b, Run step' a (ls.filterMap f) b ∧ R t b := by
  induction h with
  | nil => exact ⟨a, .nil a, ha⟩
  | snoc _ hl ih =>
    obtain ⟨b, hrun, hb⟩ := ih
    obtain ⟨c, hlast, hc⟩ := hstep _ _ _ b hb hl
    refine ⟨c, ?_, hc⟩
    rw [List.filterMap_append, List.filterMap_cons, List.filterMap_nil]
    cases hf : f _ with
    | none => simpa [hf] using hrun.append hlast
    | some k => simpa [hf] using hrun.append hlast

/-- What each step says of its own label holds of every label of a run. -/
theorem forall_label (P : ℓ → Prop) (hstep : ∀ s l t, step s l t → P l) {s t : σ} {ls : List ℓ}
    (h : Run step s ls t) : ∀ l ∈ ls, P l := by
  induction h with
  | nil => simp
  | snoc _ hl ih =>
    intro l hmem
    rcases List.mem_append.mp hmem with hold | hnew
    · exact ih l hold
    · obtain rfl := List.mem_singleton.mp hnew
      exact hstep _ _ _ hl

/-- The conservation rule.  Each step moves `credit` in and `debit` out of the value and leaks
something of a stated size; over a run the credits are what is left, the debits and the leaks, and
the sizes of the leaks add up. -/
theorem ledger {M : Type*} [AddCommMonoid M] (size : M →+ ℕ) (value : σ → M)
    (credit debit : ℓ → M) (leak : ℓ → ℕ)
    (hstep : ∀ s l t, step s l t →
      ∃ x, size x = leak l ∧ value s + credit l = value t + debit l + x)
    {s t : σ} {ls : List ℓ} (h : Run step s ls t) :
    ∃ x, size x = (ls.map leak).sum ∧
      value s + (ls.map credit).sum = value t + (ls.map debit).sum + x := by
  induction h with
  | nil => exact ⟨0, by simp, by simp⟩
  | @snoc t u ls l _ hl ih =>
    obtain ⟨x, hx, hsum⟩ := ih
    obtain ⟨y, hy, heq⟩ := hstep t l u hl
    refine ⟨x + y, by simp [hx, hy], ?_⟩
    simp only [List.map_append, List.map_cons, List.map_nil, List.sum_append, List.sum_singleton]
    calc value s + ((ls.map credit).sum + credit l)
        = (value s + (ls.map credit).sum) + credit l := by abel
      _ = (value t + credit l) + ((ls.map debit).sum + x) := by rw [hsum]; abel
      _ = value u + ((ls.map debit).sum + debit l) + (x + y) := by rw [heq]; abel

end Run

/-- Some run leads from one state to the other. -/
def Reaches (step : σ → ℓ → σ → Prop) (s t : σ) : Prop := ∃ ls, Run step s ls t

namespace Reaches

theorem refl (s : σ) : Reaches step s s := ⟨[], .nil s⟩

theorem trans {s t u : σ} (h : Reaches step s t) (k : Reaches step t u) : Reaches step s u := by
  obtain ⟨ls, hls⟩ := h
  obtain ⟨ms, hms⟩ := k
  exact ⟨ls ++ ms, hls.append hms⟩

theorem head {s t u : σ} {l : ℓ} (h : step s l t) (k : Reaches step t u) : Reaches step s u :=
  trans ⟨[l], .single h⟩ k

theorem single {s t : σ} {l : ℓ} (h : step s l t) : Reaches step s t := ⟨[l], .single h⟩

end Reaches

/-- A total over a list of parties is one party's part and that of the others, who stay as they are
when that party is replaced. -/
theorem sum_map_eq_add_others {α M : Type*} [AddCommMonoid M] (f : α → M) {l : List α} {i : ℕ}
    {a : α} (h : l[i]? = some a) :
    ∃ others, (l.map f).sum = f a + others ∧ ∀ b, ((l.set i b).map f).sum = f b + others := by
  induction l generalizing i with
  | nil => simp at h
  | cons x l ih =>
    cases i with
    | zero =>
      obtain rfl : x = a := by simpa using h
      exact ⟨(l.map f).sum, by simp, by simp⟩
    | succ i =>
      obtain ⟨others, hsum, hset⟩ := ih (show l[i]? = some a by simpa using h)
      refine ⟨f x + others, ?_, fun b ↦ ?_⟩
      · rw [List.map_cons, List.sum_cons, hsum, add_left_comm]
      · rw [List.set_cons_succ, List.map_cons, List.sum_cons, hset, add_left_comm]

/-- A safety monitor reads labels one by one and rejects by answering `none`. -/
def Monitor (μ ℓ : Type*) := μ → ℓ → Option μ

namespace Monitor

/-- The state of the monitor after a list of labels, `none` once it has rejected one. -/
def after (mon : Monitor μ ℓ) : μ → List ℓ → Option μ
  | m, [] => some m
  | m, l :: ls => (mon m l).bind fun m' ↦ mon.after m' ls

@[simp] theorem after_nil (mon : Monitor μ ℓ) (m : μ) : mon.after m [] = some m := rfl

@[simp] theorem after_cons (mon : Monitor μ ℓ) (m : μ) (l : ℓ) (ls : List ℓ) :
    mon.after m (l :: ls) = (mon m l).bind fun m' ↦ mon.after m' ls := rfl

theorem after_append (mon : Monitor μ ℓ) (m : μ) (ls ms : List ℓ) :
    mon.after m (ls ++ ms) = (mon.after m ls).bind fun m' ↦ mon.after m' ms := by
  induction ls generalizing m with
  | nil => rfl
  | cons l ls ih =>
    simp only [List.cons_append, after_cons, ih]
    cases mon m l <;> rfl

/-- What a monitor that accepts a list has made of it by each label. -/
theorem after_split {mon : Monitor μ ℓ} {m n : μ} {ls ms : List ℓ} {l : ℓ}
    (h : mon.after m (ls ++ l :: ms) = some n) :
    ∃ m₁ m₂, mon.after m ls = some m₁ ∧ mon m₁ l = some m₂ ∧ mon.after m₂ ms = some n := by
  rw [after_append] at h
  cases hls : mon.after m ls with
  | none => simp [hls] at h
  | some m₁ =>
    cases hl : mon m₁ l with
    | none => simp [hls, hl] at h
    | some m₂ => exact ⟨m₁, m₂, rfl, hl, by simpa [hls, hl] using h⟩

/-- A monitor that keeps a running value of the labels beside its own state. -/
def keeping {β : Type*} (mon : Monitor μ ℓ) (f : β → ℓ → β) : Monitor (μ × β) ℓ :=
  fun m l ↦ (mon m.1 l).map fun m' ↦ (m', f m.2 l)

theorem keeping_of {β : Type*} {mon : Monitor μ ℓ} {m m' : μ} {l : ℓ} (h : mon m l = some m')
    (f : β → ℓ → β) (b : β) : mon.keeping f (m, b) l = some (m', f b l) := by
  simp [keeping, h]

theorem after_keeping {β : Type*} {mon : Monitor μ ℓ} {f : β → ℓ → β} {m m' : μ} {b b' : β}
    {ls : List ℓ} (h : (mon.keeping f).after (m, b) ls = some (m', b')) :
    mon.after m ls = some m' ∧ b' = ls.foldl f b := by
  induction ls generalizing m b with
  | nil =>
    obtain ⟨rfl, rfl⟩ := Prod.ext_iff.mp (Option.some.inj h)
    exact ⟨rfl, rfl⟩
  | cons l ls ih =>
    cases hl : mon m l with
    | none => simp [keeping, hl] at h
    | some m₁ =>
      rw [after_cons, keeping_of hl, Option.bind_some] at h
      rw [after_cons, hl, Option.bind_some]
      exact ih h

end Monitor

/-- The simulation rule for monitors: a relation between states and monitor states that every step
keeps, with the monitor accepting what the step shows of itself, makes the monitor accept the
whole run. -/
theorem Run.accepted {mon : Monitor μ ℓ} {R : σ → μ → Prop}
    {P : ℓ → Prop} (hstep : ∀ s l t m, R s m → P l → step s l t → ∃ m', mon m l = some m' ∧ R t m')
    {s t : σ} {ls : List ℓ} {m : μ} (h : Run step s ls t) (hm : R s m) (hls : ∀ l ∈ ls, P l) :
    ∃ m', mon.after m ls = some m' ∧ R t m' := by
  induction h with
  | nil => exact ⟨m, rfl, hm⟩
  | @snoc t u ls l _ hl ih =>
    obtain ⟨m₁, h₁, hr₁⟩ := ih fun l hl' ↦ hls l (List.mem_append_left _ hl')
    obtain ⟨m₂, h₂, hr₂⟩ := hstep t l u m₁ hr₁ (hls _ (by simp)) hl
    exact ⟨m₂, by simp [Monitor.after_append, h₁, h₂], hr₂⟩

/-- An input and its answer. -/
structure Call (ι ω : Type*) where
  input : ι
  answer : ω
  deriving DecidableEq, Repr

variable {ι ω : Type*}

/-- The step relation of a machine, given as a function. -/
def Answers (react : σ → ι → σ × ω) (s : σ) (c : Call ι ω) (t : σ) : Prop :=
  react s c.input = (t, c.answer)

/-- What the machine answers a list of inputs with. -/
def callsOf (react : σ → ι → σ × ω) : σ → List ι → List (Call ι ω)
  | _, [] => []
  | s, i :: is => ⟨i, (react s i).2⟩ :: callsOf react (react s i).1 is

theorem run_callsOf (react : σ → ι → σ × ω) (s : σ) (is : List ι) :
    Run (Answers react) s (callsOf react s is) (is.foldl (fun s i ↦ (react s i).1) s) := by
  induction is generalizing s with
  | nil => exact .nil s
  | cons i is ih =>
    have hfirst : Answers react s ⟨i, (react s i).2⟩ (react s i).1 := rfl
    exact .cons hfirst (ih (react s i).1)

end Lts
