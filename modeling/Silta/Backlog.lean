import Mathlib.Algebra.Ring.Nat
import Mathlib.Data.List.Basic
import Mathlib.Tactic.TypeStar

/-!
# Backlog

A bounded FIFO of items waiting for a session that is not connected, bounded by count and by age
against the caller's clock.
-/

namespace Silta

/-- Addition of two `u64` that stops at the largest one. -/
def saturatingAdd (a b : Nat) : Nat := min (a + b) (2 ^ 64 - 1)

structure Backlog (α : Type*) where
  items : List (Nat × α)
  maxLen : Nat
  maxAgeMs : Nat

/-- The loop `while test { pop_front(); evicted += 1 }`, whose test holds of no empty queue. -/
def popWhile {β : Type*} (test : List β → Bool) : List β → Nat → List β × Nat
  | [], evicted => ([], evicted)
  | x :: xs, evicted =>
    if test (x :: xs) then popWhile test xs (evicted + 1) else (x :: xs, evicted)

namespace Backlog

variable {α : Type*}

def new (maxLen maxAgeMs : Nat) : Backlog α where
  items := []
  maxLen := maxLen
  maxAgeMs := maxAgeMs

/-- The front item is past the age limit. -/
def frontExpired (b : Backlog α) (nowMs : Nat) : List (Nat × α) → Bool
  | [] => false
  | (ts, _) :: _ => decide (saturatingAdd ts b.maxAgeMs < nowMs)

def evictExpired (b : Backlog α) (nowMs : Nat) : Backlog α × Nat :=
  let (items, evicted) := popWhile (b.frontExpired nowMs) b.items 0
  ({ b with items := items }, evicted)

/-- Queue an item; answers how many older items were evicted. -/
def push (b : Backlog α) (ts : Nat) (item : α) (nowMs : Nat) : Backlog α × Nat :=
  let (b, evicted) := b.evictExpired nowMs
  -- the new item is always kept, however small the limit
  let (items, evicted) := popWhile (fun q ↦ decide (max b.maxLen 1 ≤ q.length)) b.items evicted
  ({ b with items := items ++ [(ts, item)] }, evicted)

/-- Take everything still within the age limit, and how many expired items were dropped. -/
def drain (b : Backlog α) (nowMs : Nat) : Backlog α × List (Nat × α) × Nat :=
  let (b, evicted) := b.evictExpired nowMs
  ({ b with items := [] }, b.items, evicted)

/-- Put items back in front of the queue; answers how many were evicted for age or count. -/
def restore (b : Backlog α) (items : List (Nat × α)) (nowMs : Nat) : Backlog α × Nat :=
  let b := { b with items := items ++ b.items }
  let (b, evicted) := b.evictExpired nowMs
  let (items, evicted) := popWhile (fun q ↦ decide (max b.maxLen 1 < q.length)) b.items evicted
  ({ b with items := items }, evicted)

end Backlog

/-! ## Nothing leaves the queue uncounted -/

/-- The loop drops a prefix and counts it. -/
theorem popWhile_spec {β : Type*} (test : List β → Bool) (xs : List β) (evicted : Nat) :
    ∃ dropped, xs = dropped ++ (popWhile test xs evicted).1 ∧
      (popWhile test xs evicted).2 = evicted + dropped.length := by
  -- the front goes, or the loop is over
  induction xs generalizing evicted with
  | nil => exact ⟨[], rfl, rfl⟩
  | cons x xs ih =>
    unfold popWhile
    split
    · obtain ⟨dropped, hxs, hcount⟩ := ih (evicted + 1)
      refine ⟨x :: dropped, ?_, ?_⟩
      · rw [List.cons_append, ← hxs]
      · rw [hcount, List.length_cons]
        omega
    · exact ⟨[], rfl, rfl⟩

namespace Backlog

variable {α : Type*}

theorem evictExpired_spec (b : Backlog α) (nowMs : Nat) :
    ∃ dropped, b.items = dropped ++ (b.evictExpired nowMs).1.items ∧
      (b.evictExpired nowMs).2 = dropped.length := by
  obtain ⟨dropped, hitems, hcount⟩ := popWhile_spec (b.frontExpired nowMs) b.items 0
  exact ⟨dropped, hitems, by simpa [evictExpired] using hcount⟩

/-- The two loops one after the other drop a prefix and count it. -/
theorem evictExpired_popWhile_spec (b : Backlog α) (nowMs : Nat)
    (test : List (Nat × α) → Bool) :
    ∃ dropped,
      b.items =
        dropped ++ (popWhile test (b.evictExpired nowMs).1.items (b.evictExpired nowMs).2).1 ∧
      (popWhile test (b.evictExpired nowMs).1.items (b.evictExpired nowMs).2).2 =
        dropped.length := by
  obtain ⟨old, hold, hevicted⟩ := b.evictExpired_spec nowMs
  obtain ⟨more, hmore, hcount⟩ :=
    popWhile_spec test (b.evictExpired nowMs).1.items (b.evictExpired nowMs).2
  refine ⟨old ++ more, ?_, ?_⟩
  · rw [List.append_assoc, ← hmore]
    exact hold
  · rw [List.length_append, ← hevicted]
    exact hcount

/-- `push` drops a counted prefix and keeps the new item at the end. -/
theorem push_spec (b : Backlog α) (ts : Nat) (item : α) (nowMs : Nat) :
    ∃ dropped kept, b.items = dropped ++ kept ∧
      (b.push ts item nowMs).1.items = kept ++ [(ts, item)] ∧
      (b.push ts item nowMs).2 = dropped.length := by
  obtain ⟨dropped, hitems, hcount⟩ := b.evictExpired_popWhile_spec nowMs
    (fun q ↦ decide (max b.maxLen 1 ≤ q.length))
  exact ⟨dropped, _, hitems, rfl, hcount⟩

/-- `drain` answers what is left after a counted prefix, and empties the queue. -/
theorem drain_spec (b : Backlog α) (nowMs : Nat) :
    (b.drain nowMs).1.items = [] ∧
      ∃ dropped, b.items = dropped ++ (b.drain nowMs).2.1 ∧
        (b.drain nowMs).2.2 = dropped.length :=
  ⟨rfl, b.evictExpired_spec nowMs⟩

/-- `restore` puts the items in front and then drops a counted prefix. -/
theorem restore_spec (b : Backlog α) (items : List (Nat × α)) (nowMs : Nat) :
    ∃ dropped, items ++ b.items = dropped ++ (b.restore items nowMs).1.items ∧
      (b.restore items nowMs).2 = dropped.length :=
  evictExpired_popWhile_spec { b with items := items ++ b.items } nowMs
    (fun q ↦ decide (max b.maxLen 1 < q.length))

end Backlog

end Silta
