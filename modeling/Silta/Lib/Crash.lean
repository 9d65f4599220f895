import Silta.Lib.Lts

/-!
# Effects that may be cut short

A list of effects on a state, read one by one by a monitor.  A triple for such a list has a crash
condition, which holds wherever the list is cut, and a postcondition, which holds at its end.
-/

namespace Crash

variable {σ ε μ : Type*} {mon : Lts.Monitor μ ε} {apply : σ → ε → σ} {C Q Q' : σ → μ → Prop}

/-- The effects happen from a state and a monitor state: the monitor accepts each, the crash
condition holds before the first and after every one, and at the end the postcondition. -/
def Ensures (mon : Lts.Monitor μ ε) (apply : σ → ε → σ) (C Q : σ → μ → Prop) : σ → μ → List ε → Prop
  | s, m, [] => C s m ∧ Q s m
  | s, m, e :: es => C s m ∧ ∃ m', mon m e = some m' ∧ Ensures mon apply C Q (apply s e) m' es

namespace Ensures

theorem nil {s : σ} {m : μ} (hc : C s m) (hq : Q s m) : Ensures mon apply C Q s m [] := ⟨hc, hq⟩

theorem cons {s : σ} {m n : μ} {e : ε} {es : List ε} (hc : C s m) (he : mon m e = some n)
    (h : Ensures mon apply C Q (apply s e) n es) : Ensures mon apply C Q s m (e :: es) :=
  ⟨hc, n, he, h⟩

theorem mono {s : σ} {m : μ} {es : List ε} (h : Ensures mon apply C Q s m es)
    (hq : ∀ s m, Q s m → Q' s m) : Ensures mon apply C Q' s m es := by
  induction es generalizing s m with
  | nil => exact ⟨h.1, hq s m h.2⟩
  | cons e es ih =>
    obtain ⟨hc, m', he, hrest⟩ := h
    exact ⟨hc, m', he, ih hrest⟩

theorem append {s : σ} {m : μ} {es fs : List ε} (h : Ensures mon apply C Q s m es)
    (hq : ∀ s m, Q s m → Ensures mon apply C Q' s m fs) :
    Ensures mon apply C Q' s m (es ++ fs) := by
  induction es generalizing s m with
  | nil => exact hq s m h.2
  | cons e es ih =>
    obtain ⟨hc, m', he, hrest⟩ := h
    exact ⟨hc, m', he, ih hrest⟩

theorem complete {s : σ} {m : μ} {es : List ε} (h : Ensures mon apply C Q s m es) :
    ∃ m', mon.after m es = some m' ∧ Q (es.foldl apply s) m' := by
  induction es generalizing s m with
  | nil => exact ⟨m, rfl, h.2⟩
  | cons e es ih =>
    obtain ⟨_, m₁, he, hrest⟩ := h
    obtain ⟨m', hafter, hq⟩ := ih hrest
    exact ⟨m', by rw [Lts.Monitor.after_cons, he, Option.bind_some, hafter], hq⟩

theorem cut {s : σ} {m : μ} {es : List ε} (h : Ensures mon apply C Q s m es) (k : ℕ) :
    ∃ m', mon.after m (es.take k) = some m' ∧ C ((es.take k).foldl apply s) m' := by
  induction es generalizing s m k with
  | nil => exact ⟨m, by simp, by simpa using h.1⟩
  | cons e es ih =>
    cases k with
    | zero => exact ⟨m, rfl, h.1⟩
    | succ k =>
      obtain ⟨_, m₁, he, hrest⟩ := h
      obtain ⟨m', hafter, hc⟩ := ih hrest k
      exact ⟨m', by rw [List.take_succ_cons, Lts.Monitor.after_cons, he, Option.bind_some, hafter],
        hc⟩

end Ensures

end Crash
