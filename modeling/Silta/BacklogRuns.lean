import Silta.Backlog
import Silta.Lib.Lts
import Mathlib.Data.List.Perm.Basic
import Mathlib.Data.List.TakeWhile

/-!
# Runs of a backlog

Whole sequences of `push`, `restore` and `drain`: what becomes of every item that enters, and when
an item past the age limit comes out.
-/

namespace Silta

namespace Backlog

variable {α : Type*}

/-- A call, with the clock it is made at. -/
inductive Op (α : Type*)
  | push (ts : Nat) (item : α) (nowMs : Nat)
  | restore (items : List (Nat × α)) (nowMs : Nat)
  | drain (nowMs : Nat)

/-- A call answers the items it takes, and how many others it drops. -/
abbrev Call (α : Type*) := Lts.Call (Op α) (List (Nat × α) × Nat)

def Call.taken (c : Call α) : List (Nat × α) := c.answer.1

def Call.evicted (c : Call α) : Nat := c.answer.2

/-- The items that a call adds. -/
def Op.entering : Op α → List (Nat × α)
  | .push ts item _ => [(ts, item)]
  | .restore items _ => items
  | .drain _ => []

/-- The queue once the items of a call are in it, and before anything leaves. -/
def enter (b : Backlog α) : Op α → List (Nat × α)
  | .push ts item _ => b.items ++ [(ts, item)]
  | .restore items _ => items ++ b.items
  | .drain _ => b.items

def apply (b : Backlog α) : Op α → Backlog α × List (Nat × α) × Nat
  | .push ts item nowMs => ((b.push ts item nowMs).1, [], (b.push ts item nowMs).2)
  | .restore items nowMs => ((b.restore items nowMs).1, [], (b.restore items nowMs).2)
  | .drain nowMs => b.drain nowMs

abbrev Step : Backlog α → Call α → Backlog α → Prop := Lts.Answers apply

/-! ## What one call does -/

@[simp] theorem evictExpired_maxAgeMs (b : Backlog α) (nowMs : Nat) :
    (b.evictExpired nowMs).1.maxAgeMs = b.maxAgeMs := rfl

theorem apply_maxLen (b : Backlog α) (op : Op α) : (b.apply op).1.maxLen = b.maxLen := by
  cases op <;> rfl

theorem apply_maxAgeMs (b : Backlog α) (op : Op α) : (b.apply op).1.maxAgeMs = b.maxAgeMs := by
  cases op <;> rfl

/-- Of what is in the queue once a call has added its items, a counted prefix is dropped, the next
items are answered, and the rest stays. -/
theorem apply_spec (b : Backlog α) (op : Op α) :
    ∃ dropped, b.enter op = dropped ++ (b.apply op).2.1 ++ (b.apply op).1.items ∧
      (b.apply op).2.2 = dropped.length := by
  cases op with
  | push ts item nowMs =>
    obtain ⟨dropped, kept, hitems, hqueue, hcount⟩ := b.push_spec ts item nowMs
    refine ⟨dropped, ?_, hcount⟩
    show b.items ++ [(ts, item)] = dropped ++ [] ++ (b.push ts item nowMs).1.items
    rw [hqueue, hitems, List.append_nil, List.append_assoc]
  | restore items nowMs =>
    obtain ⟨dropped, hitems, hcount⟩ := b.restore_spec items nowMs
    refine ⟨dropped, ?_, hcount⟩
    show items ++ b.items = dropped ++ [] ++ (b.restore items nowMs).1.items
    rw [hitems, List.append_nil]
  | drain nowMs =>
    obtain ⟨hempty, dropped, hitems, hcount⟩ := b.drain_spec nowMs
    refine ⟨dropped, ?_, hcount⟩
    show b.items = dropped ++ (b.drain nowMs).2.1 ++ (b.drain nowMs).1.items
    rw [hempty, List.append_nil]
    exact hitems

/-- A loop that stops at a bound leaves no more than that. -/
theorem popWhile_not {β : Type*} (test : List β → Bool) (xs : List β) (evicted : Nat)
    (hnil : test [] = false) : test (popWhile test xs evicted).1 = false := by
  induction xs generalizing evicted with
  | nil => exact hnil
  | cons x xs ih =>
    unfold popWhile
    split
    next => exact ih (evicted + 1)
    next h => simpa using h

theorem push_length_le (b : Backlog α) (ts : Nat) (item : α) (nowMs : Nat) :
    (b.push ts item nowMs).1.items.length ≤ max 1 b.maxLen := by
  have h := popWhile_not (fun q ↦ decide (max b.maxLen 1 ≤ q.length))
    (b.evictExpired nowMs).1.items (b.evictExpired nowMs).2 (by simp)
  have hlt := not_le.mp (of_decide_eq_false h)
  show (_ ++ [(ts, item)]).length ≤ _
  rw [List.length_append, List.length_singleton]
  exact (Nat.succ_le_of_lt hlt).trans (max_comm b.maxLen 1).le

theorem restore_length_le (b : Backlog α) (items : List (Nat × α)) (nowMs : Nat) :
    (b.restore items nowMs).1.items.length ≤ max 1 b.maxLen := by
  have h := popWhile_not (fun q ↦ decide (max b.maxLen 1 < q.length))
    (({ b with items := items ++ b.items } : Backlog α).evictExpired nowMs).1.items
    (({ b with items := items ++ b.items } : Backlog α).evictExpired nowMs).2 (by simp)
  exact (not_lt.mp (of_decide_eq_false h)).trans (max_comm b.maxLen 1).le

/-- However long the queue was, after a call it is within its limit. -/
theorem apply_length_le (b : Backlog α) (op : Op α) :
    (b.apply op).1.items.length ≤ max 1 b.maxLen := by
  cases op with
  | push ts item nowMs => exact b.push_length_le ts item nowMs
  | restore items nowMs => exact b.restore_length_le items nowMs
  | drain nowMs => exact Nat.zero_le _

/-- What a call leaves of the queue, and what it answers. -/
theorem Step.spec {b b' : Backlog α} {c : Call α} (h : Step b c b') :
    ∃ dropped, b.enter c.input = dropped ++ c.taken ++ b'.items ∧ c.evicted = dropped.length := by
  have hspec := b.apply_spec c.input
  rwa [show b.apply c.input = (b', c.answer) from h] at hspec

theorem Step.maxLen {b b' : Backlog α} {c : Call α} (h : Step b c b') : b'.maxLen = b.maxLen := by
  have hsame := b.apply_maxLen c.input
  rwa [show b.apply c.input = (b', c.answer) from h] at hsame

theorem Step.maxAgeMs {b b' : Backlog α} {c : Call α} (h : Step b c b') :
    b'.maxAgeMs = b.maxAgeMs := by
  have hsame := b.apply_maxAgeMs c.input
  rwa [show b.apply c.input = (b', c.answer) from h] at hsame

theorem Step.length_le {b b' : Backlog α} {c : Call α} (h : Step b c b') :
    b'.items.length ≤ max 1 b.maxLen := by
  have hlength := b.apply_length_le c.input
  rwa [show b.apply c.input = (b', c.answer) from h] at hlength

/-! ## What becomes of every item -/

/-- How an item leaves the queue. -/
inductive Fate
  | drained
  | evicted
  deriving DecidableEq, Repr

/-- Every item that has entered, in the order in which a queue hands them out, of which the first
`gone` have left. -/
structure Timeline (α : Type*) where
  order : List (Nat × α)
  gone : Nat

/-- A pushed item goes behind all others and restored ones go in front of those still there; what is
answered or counted as evicted has left. -/
def Timeline.record (t : Timeline α) (c : Call α) : Timeline α where
  order := match c.input with
    | .push ts item _ => t.order ++ [(ts, item)]
    | .restore items _ => t.order.take t.gone ++ items ++ t.order.drop t.gone
    | .drain _ => t.order
  gone := t.gone + c.evicted + c.taken.length

def timeline (calls : List (Call α)) : Timeline α := calls.foldl Timeline.record ⟨[], 0⟩

theorem timeline_concat (calls : List (Call α)) (c : Call α) :
    timeline (calls ++ [c]) = (timeline calls).record c := by
  simp [timeline]

/-- The items that left with the given fate, in order. -/
def withFate (fate : Fate) (fates : List (Fate × Nat × α)) : List (Nat × α) :=
  (fates.filter fun x ↦ x.1 = fate).map Prod.snd

@[simp] theorem withFate_append (fate : Fate) (xs ys : List (Fate × Nat × α)) :
    withFate fate (xs ++ ys) = withFate fate xs ++ withFate fate ys := by
  simp [withFate]

theorem withFate_map (fate given : Fate) (items : List (Nat × α)) :
    withFate fate (items.map fun x ↦ (given, x)) = if given = fate then items else [] := by
  induction items with
  | nil => simp [withFate]
  | cons x items ih =>
    by_cases h : given = fate
    · simpa [withFate, h, List.filter_cons] using ih
    · simpa [withFate, h, List.filter_cons] using ih

/-- The timeline is the items that left, each with its fate, followed by the queue. -/
structure Conserved (calls : List (Call α)) (b : Backlog α) (fates : List (Fate × Nat × α)) :
    Prop where
  order : (timeline calls).order = fates.map Prod.snd ++ b.items
  gone : (timeline calls).gone = fates.length
  drained : withFate .drained fates = calls.flatMap Call.taken
  evicted : (withFate .evicted fates).length = (calls.map Call.evicted).sum
  entered : (timeline calls).order.Perm (calls.flatMap fun c ↦ c.input.entering)

theorem Conserved.nil (maxLen maxAgeMs : Nat) :
    Conserved (α := α) [] (new maxLen maxAgeMs) [] where
  order := rfl
  gone := rfl
  drained := rfl
  evicted := rfl
  entered := .refl _

/-- A call moves what it drops and what it answers from the queue to the items that left. -/
theorem Conserved.step {calls : List (Call α)} {b b' : Backlog α}
    {fates : List (Fate × Nat × α)} {c : Call α} (h : Conserved calls b fates)
    (hstep : Step b c b') : ∃ fates', Conserved (calls ++ [c]) b' fates' := by
  obtain ⟨dropped, henter, hcount⟩ := hstep.spec
  -- the ideal order with the new items in it
  have horder : ((timeline calls).record c).order = fates.map Prod.snd ++ b.enter c.input := by
    have htake : (timeline calls).order.take (timeline calls).gone = fates.map Prod.snd := by
      rw [h.order, h.gone, ← List.length_map (f := Prod.snd), List.take_left]
    have hdrop : (timeline calls).order.drop (timeline calls).gone = b.items := by
      rw [h.order, h.gone, ← List.length_map (f := Prod.snd), List.drop_left]
    unfold Timeline.record enter
    cases c.input with
    | push ts item nowMs => simp [h.order]
    | restore items nowMs => simp [htake, hdrop]
    | drain nowMs => simp [h.order]
  refine ⟨fates ++ dropped.map (fun x ↦ (.evicted, x)) ++ c.taken.map (fun x ↦ (.drained, x)),
    ?_, ?_, ?_, ?_, ?_⟩
  · rw [timeline_concat, horder, henter]
    simp [Function.comp_def]
  · rw [timeline_concat]
    simp [Timeline.record, h.gone, hcount, Nat.add_assoc]
  · simp [withFate_map, h.drained]
  · simp [withFate_map, h.evicted, hcount]
  · rw [timeline_concat, horder, List.flatMap_append]
    have hold := h.order ▸ h.entered
    have hentered : (fates.map Prod.snd ++ b.enter c.input).Perm
        ((fates.map Prod.snd ++ b.items) ++ c.input.entering) := by
      unfold enter Op.entering
      cases c.input with
      | push ts item nowMs => simp
      | restore items nowMs => simpa using List.perm_append_comm.append_left _
      | drain nowMs => simp
    simpa using hentered.trans (hold.append_right _)

theorem conserved_of_run {maxLen maxAgeMs : Nat} {calls : List (Call α)} {b : Backlog α}
    (h : Lts.Run Step (new maxLen maxAgeMs) calls b) : ∃ fates, Conserved calls b fates :=
  h.history (I := fun calls b ↦ ∃ fates, Conserved calls b fates) ⟨[], .nil maxLen maxAgeMs⟩
    fun _ _ _ _ ⟨_, hfates⟩ hstep ↦ hfates.step hstep

theorem limits_of_run {b b' : Backlog α} {calls : List (Call α)} (h : Lts.Run Step b calls b') :
    b'.maxLen = b.maxLen ∧ b'.maxAgeMs = b.maxAgeMs := by
  induction h with
  | nil => exact ⟨rfl, rfl⟩
  | snoc _ hstep ih => exact ⟨hstep.maxLen.trans ih.1, hstep.maxAgeMs.trans ih.2⟩

theorem length_le_of_run {b b' : Backlog α} {calls : List (Call α)} (h : Lts.Run Step b calls b')
    (hb : b.items.length ≤ max 1 b.maxLen) : b'.items.length ≤ max 1 b.maxLen := by
  cases h with
  | nil => exact hb
  | snoc hrun hstep =>
    rw [← (limits_of_run hrun).1]
    exact hstep.length_le

/-- The backlog conserves its items and is first in, first out.  A `push` leaves the old queue less
a counted prefix, and the new item behind it; a `restore` leaves the given items and the old queue
less a counted prefix; a `drain` answers the queue less a counted prefix and empties it.  In every
run the queue is within its limit, and the items that entered are, in order, those that left, each
with one fate, and the queue: the drained ones are the answers one after the other, and the evicted
ones are as many as the calls counted. -/
theorem conserving_fifo :
    (∀ (b : Backlog α) (ts : Nat) (item : α) (nowMs : Nat), ∃ dropped kept,
      b.items = dropped ++ kept ∧ (b.push ts item nowMs).1.items = kept ++ [(ts, item)] ∧
        (b.push ts item nowMs).2 = dropped.length) ∧
    (∀ (b : Backlog α) (items : List (Nat × α)) (nowMs : Nat), ∃ dropped,
      items ++ b.items = dropped ++ (b.restore items nowMs).1.items ∧
        (b.restore items nowMs).2 = dropped.length) ∧
    (∀ (b : Backlog α) (nowMs : Nat), (b.drain nowMs).1.items = [] ∧ ∃ dropped,
      b.items = dropped ++ (b.drain nowMs).2.1 ∧ (b.drain nowMs).2.2 = dropped.length) ∧
    ∀ (maxLen maxAgeMs : Nat) (calls : List (Call α)) (b : Backlog α),
      Lts.Run Step (new maxLen maxAgeMs) calls b →
        b.items.length ≤ max 1 maxLen ∧ ∃ fates, Conserved calls b fates :=
  ⟨push_spec, restore_spec, drain_spec, fun _ _ _ _ hrun ↦
    ⟨length_le_of_run hrun (Nat.zero_le _), conserved_of_run hrun⟩⟩

/-- A queue of two, with an item put back and one item too many. -/
def smallOps : List (Op Char) :=
  [.push 5 'b' 5, .drain 5, .push 6 'c' 6, .restore [(5, 'b')] 7, .push 8 'd' 8, .drain 9]

theorem conserving_fifo_small :
    ∃ fates b, Conserved (Lts.callsOf apply (new 2 100) smallOps) b fates :=
  let ⟨fates, h⟩ := (conserving_fifo.2.2.2 2 100 _ _ (Lts.run_callsOf apply _ smallOps)).2
  ⟨fates, _, h⟩

/-! ## Items past the age limit -/

/-- The code's test of an item. -/
def expired (b : Backlog α) (nowMs : Nat) (x : Nat × α) : Bool :=
  decide (saturatingAdd x.1 b.maxAgeMs < nowMs)

/-- No item past the age limit stands behind one that is within it. -/
def ExpiredFirst (b : Backlog α) (nowMs : Nat) : Prop :=
  b.items.Pairwise fun x y ↦ b.expired nowMs y = true → b.expired nowMs x = true

theorem evictExpired_items (b : Backlog α) (nowMs : Nat) :
    (b.evictExpired nowMs).1.items = b.items.dropWhile (b.expired nowMs) := by
  have hloop : ∀ (items : List (Nat × α)) (evicted : Nat),
      (popWhile (b.frontExpired nowMs) items evicted).1 = items.dropWhile (b.expired nowMs) := by
    intro items
    induction items with
    | nil => exact fun _ ↦ rfl
    | cons x items ih =>
      intro evicted
      unfold popWhile
      rw [List.dropWhile_cons]
      show (if b.expired nowMs x = true then _ else _ : List (Nat × α) × Nat).1 = _
      split
      · exact ih (evicted + 1)
      · rfl
  exact hloop b.items 0

/-- What is left after the prefix that passes a test is free of it when what passes comes first. -/
theorem forall_dropWhile_iff {β : Type*} (test : β → Bool) (xs : List β) :
    (∀ x ∈ xs.dropWhile test, test x = false) ↔
      xs.Pairwise fun x y ↦ test y = true → test x = true := by
  induction xs with
  | nil => simp
  | cons x xs ih =>
    by_cases hx : test x = true
    · rw [List.dropWhile_cons_of_pos hx, ih, List.pairwise_cons]
      simp [hx]
    · rw [List.dropWhile_cons_of_neg hx, List.pairwise_cons]
      constructor
      · intro h
        have htail : ∀ y ∈ xs, test y = false := fun y hy ↦ h y (List.mem_cons_of_mem _ hy)
        refine ⟨fun y hy hpos ↦ ?_, ?_⟩
        · exact absurd hpos (by simp [htail y hy])
        · refine List.Pairwise.imp_of_mem ?_ (List.pairwise_of_forall fun _ _ ↦ trivial)
          exact fun _ hy _ hpos ↦ absurd hpos (by simp [htail _ hy])
      · intro h y hy
        rcases List.mem_cons.mp hy with rfl | hy
        · exact Bool.not_eq_true _ ▸ hx
        · exact Bool.eq_false_iff.mpr fun hpos ↦ hx (h.1 y hy hpos)

/-- A drain answers items within the age limit only, just when those past it stood first. -/
theorem drain_fresh_iff (b : Backlog α) (nowMs : Nat) :
    (∀ x ∈ (b.drain nowMs).2.1, nowMs ≤ x.1 + b.maxAgeMs) ↔ b.ExpiredFirst nowMs := by
  show (∀ x ∈ (b.evictExpired nowMs).1.items, _) ↔ _
  rw [evictExpired_items, ExpiredFirst, ← forall_dropWhile_iff]
  by_cases hnow : nowMs ≤ 2 ^ 64 - 1
  · -- the sum stops at a value that no clock passes
    have htest : ∀ x : Nat × α, nowMs ≤ x.1 + b.maxAgeMs ↔ b.expired nowMs x = false := by
      intro x
      rw [expired, decide_eq_false_iff_not, saturatingAdd]
      omega
    simp only [htest]
  · have hall : b.items.dropWhile (b.expired nowMs) = [] := by
      rw [List.dropWhile_eq_nil_iff]
      intro x _
      rw [expired, decide_eq_true_iff, saturatingAdd]
      omega
    simp [hall]

theorem Step.drained_fresh_iff {b b' : Backlog α} {c : Call α} {nowMs : Nat} (h : Step b c b')
    (hop : c.input = .drain nowMs) :
    (∀ x ∈ c.taken, nowMs ≤ x.1 + b.maxAgeMs) ↔ b.ExpiredFirst nowMs := by
  have hanswer : b.drain nowMs = (b', c.answer) := by
    rw [← show b.apply c.input = (b', c.answer) from h, hop]
    rfl
  rw [← b.drain_fresh_iff nowMs, hanswer]
  rfl

/-- What a run asks of the queue before each of its drains. -/
def DrainsExpiredFirst (start : Backlog α) (calls : List (Call α)) : Prop :=
  ∀ past c future q q' nowMs, calls = past ++ c :: future → c.input = .drain nowMs →
    Lts.Run Step start past q → Step q c q' → q.ExpiredFirst nowMs

/-- In a run, nothing that a drain answers is past the age limit just when, before each drain, no
item past it stood behind one within it. -/
theorem run_drained_fresh_iff {maxLen maxAgeMs : Nat} {calls : List (Call α)} {b : Backlog α}
    (h : Lts.Run Step (new maxLen maxAgeMs) calls b) :
    (∀ c ∈ calls, ∀ nowMs, c.input = .drain nowMs → ∀ x ∈ c.taken, nowMs ≤ x.1 + maxAgeMs) ↔
      DrainsExpiredFirst (new maxLen maxAgeMs) calls := by
  constructor
  · rintro hfresh past c future q q' nowMs rfl hop hpast hstep
    rw [← hstep.drained_fresh_iff hop, (limits_of_run hpast).2]
    exact hfresh c (by simp) nowMs hop
  · intro hfirst c hc nowMs hop
    obtain ⟨past, future, hsplit⟩ := List.append_of_mem hc
    obtain ⟨q, q', hpast, hstep, -⟩ := h.split hsplit
    have hfresh := (hstep.drained_fresh_iff hop).mpr
      (hfirst past c future q q' nowMs hsplit hop hpast hstep)
    rwa [(limits_of_run hpast).2] at hfresh

/-- A message of a server whose clock is behind, queued behind a recent one. -/
def lateOps : List (Op Char) := [.push 1000 'b' 1000, .push 0 'a' 1000, .drain 1500]

/-- The answer of the last call. -/
def lateDrain : Call Char := ⟨.drain 1500, ([(1000, 'b'), (0, 'a')], 0)⟩

theorem lateDrain_mem : lateDrain ∈ Lts.callsOf apply (new 8 1000) lateOps := by
  simp [lateDrain, lateOps, Lts.callsOf, apply, push, drain, evictExpired, popWhile, frontExpired,
    saturatingAdd, new]

theorem run_drained_fresh_iff_late :
    ¬ DrainsExpiredFirst (new 8 1000) (Lts.callsOf apply (new 8 1000) lateOps) := by
  intro hfirst
  have hfresh := (run_drained_fresh_iff (Lts.run_callsOf apply (new 8 1000) lateOps)).mpr hfirst
    lateDrain lateDrain_mem 1500 rfl (0, 'a') (by simp [lateDrain, Call.taken])
  omega

/-- The run drains an item half a second past the limit of one second. -/
theorem exists_drained_expired :
    ∃ (calls : List (Call Char)) (b : Backlog Char), Lts.Run Step (new 8 1000) calls b ∧
      ∃ c ∈ calls, ∃ nowMs, c.input = .drain nowMs ∧ ∃ x ∈ c.taken, ¬ nowMs ≤ x.1 + 1000 :=
  ⟨_, _, Lts.run_callsOf apply (new 8 1000) lateOps, lateDrain, lateDrain_mem, 1500, rfl, (0, 'a'),
    by simp [lateDrain, Call.taken], by decide⟩

/-- A call that leaves the queue in the order of the timestamps as its items enter. -/
def OrderedStep (b : Backlog α) (c : Call α) (b' : Backlog α) : Prop :=
  Step b c b' ∧ (b.enter c.input).Pairwise fun x y ↦ x.1 ≤ y.1

theorem expiredFirst_of_ordered {b : Backlog α} (nowMs : Nat)
    (h : b.items.Pairwise fun x y ↦ x.1 ≤ y.1) : b.ExpiredFirst nowMs := by
  refine h.imp fun {x y} hle hexpired ↦ ?_
  rw [expired, decide_eq_true_iff, saturatingAdd] at hexpired ⊢
  omega

/-- Where items enter in the order of their timestamps, the age limit is kept. -/
theorem drained_fresh_of_ordered {maxLen maxAgeMs : Nat} {calls : List (Call α)} {b : Backlog α}
    (h : Lts.Run OrderedStep (new maxLen maxAgeMs) calls b) :
    ∀ c ∈ calls, ∀ nowMs, c.input = .drain nowMs → ∀ x ∈ c.taken, nowMs ≤ x.1 + maxAgeMs := by
  intro c hc nowMs hop
  obtain ⟨past, future, hsplit⟩ := List.append_of_mem hc
  obtain ⟨q, q', hpast, hstep, -⟩ := h.split hsplit
  have hitems := hstep.2
  rw [hop] at hitems
  have hfresh := (hstep.1.drained_fresh_iff hop).mpr (expiredFirst_of_ordered nowMs hitems)
  rwa [(limits_of_run (hpast.mono fun _ _ _ hordered ↦ hordered.1)).2] at hfresh

end Backlog

end Silta
