import Silta.RunTriples

/-!
# The attempts of a rotation

How often a rotation is tried over the runs of the supervisor: the count is kept in the tracker and
in `rotation.json`, and is never lost between the two.
-/

namespace Silta

namespace Supervisor

open Rotation (Action HANDOFF_ATTEMPTS Protocol Stage Tracker u32Succ)
open State (Next Paths)

namespace Effect

/-- The rotation ends: it is compacted or given up, or its session is gone and its records go, the
marker first. -/
def endsRotation : Effect → Bool
  | .action .compacted | .action (.giveUp _ _ _) | .removeMarker => true
  | _ => false

/-- The attempt is over and another one follows. -/
def another : Effect → Bool
  | .action (.retry _ _ _) | .action (.postpone _ _ _) => true
  | _ => false

end Effect

/-- The attempts spent in the rotation that is under way. -/
def spend (n : Nat) (e : Effect) : Nat :=
  if e.endsRotation then 0
  else if e.another then n + 1
  else n

def spent (es : List Effect) : Nat := es.foldl spend 0

/-- What an effect may say where `n` attempts are spent. -/
def counted (n : Nat) : Effect → Bool
  | .action (.retry _ attempts _) | .action (.postpone _ attempts _) =>
    attempts == n + 1 && decide (n + 1 < HANDOFF_ATTEMPTS)
  | .action (.giveUp _ _ _) => n + 1 == HANDOFF_ATTEMPTS
  | _ => true

/-- The count as `rotation.json` has it; while attempts are spent the marker is there. -/
def Recorded (p : Paths) (n : Nat) : Prop :=
  match p.rotation with
  | .holds (.retry _ attempts _) | .holds (.postponed attempts _) =>
    attempts = n ∧ 0 < n ∧ n < HANDOFF_ATTEMPTS ∧ p.marker = true
  | _ => n = 0

/-- The tracker has the same count, and its rotation has a marker. -/
structure Agrees (q : Protocol) (p : Paths) (n : Nat) : Prop where
  recorded : Recorded p n
  spent : q.stage ≠ .ended → q.spent = n
  marker : q.stage ≠ .idle → q.stage ≠ .ended → p.marker = true

theorem u32Succ_of_lt {n : Nat} (h : n < HANDOFF_ATTEMPTS) : u32Succ n = n + 1 := by
  have htwo : n < 2 := h
  unfold u32Succ
  omega

theorem stage_of_stepOf {q : Protocol} {step : Rotation.Step}
    (h : Protocol.stepOf q.stage = some step) : q.stage ≠ .idle ∧ q.stage ≠ .ended := by
  constructor
  · intro hidle
    rw [hidle] at h
    cases h
  · intro hended
    rw [hended] at h
    cases h

/-- The effects of a step. -/
def Label.shown : Label → List Effect
  | .did _ es | .lost _ es => es
  | _ => []

/-- All that the supervisor does to the world. -/
def shown (ls : List Label) : List Effect := ls.flatMap Label.shown

/-- The supervisor rotates, without the one-turn emergency, and nobody removes the marker or damages
`rotation.json`. -/
def Undisturbed : Label → Prop
  | .boot cfg => cfg.limits.enabled = true ∧ cfg.oneShot = false
  | .unmark | .spoil _ => False
  | _ => True

/-- A run of claude starts with the attempts that are spent. -/
def startsWith (n : Nat) : Label → Bool
  | .did (.start _ tracker) _ => tracker.attempts == n
  | _ => true

/-- A handoff is cut and retried, the conversation is compacted, and the supervisor is killed after
it has removed the marker.  Its next start finds the Retry, and goes on with a rotation that is
over. -/
theorem torn_run : ∃ ls s before,
    Lts.Run Step ⟨{ savedPaths with marker := true }, .down⟩ ls s ∧ (∀ l ∈ ls, Undisturbed l) ∧
      shown ls = before ++ [.action .compacted, .removeMarker, .clearChannelReady,
        .spawn ⟨"51209dfc", true, .retry, 1, false, false⟩, .send (.intro .retry),
        .action (.giveUp .handoff true false)] :=
  ⟨_, _,
    [.writeNext .normal, .clearChannelReady,
      .spawn ⟨"51209dfc", true, .resumed, 0, false, false⟩, .send (.intro .resumed),
      .writeChannelReady "51209dfc", .action (.snapshot .beforeHandoff), .snapshot "before-handoff",
      .action .requestHandoff, .send .handoff, .action (.retry .handoff 1 false),
      .clearChannelReady, .spawn ⟨"51209dfc", true, .retry, 1, false, false⟩,
      .send (.intro .retry), .writeChannelReady "51209dfc", .action (.snapshot .afterHandoff),
      .snapshot "after-handoff", .action .compact, .send .compact],
    ((((((((((((((Lts.Run.single (.boot _ someConfig)).snoc
      (.did (.start someConfig none "new" _ _ 0 rfl))).snoc
      (.did (.turn _ _ _ (.out (.assistant false none false) false) 5))).snoc
      (.did (.turn _ _ _ (.out (.result false false) false) 10))).snoc
      (.did (.turn _ _ _ .tick 910))).snoc
      (.did (.leave _ _ _ [] 0 false))).snoc
      (.did (.start someConfig none "newer" _ _ 911 rfl))).snoc
      (.did (.turn _ _ _ (.out (.assistant false none false) false) 915))).snoc
      (.did (.turn _ _ _ (.out (.result false false) true) 920))).snoc
      (.did (.turn _ _ _ (.out (.compacted false) false) 930))).snoc
      (.lost (.turn _ _ _ (.out (.result false false) false) 940) 2)).snoc
      (.boot _ someConfig)).snoc
      (.did (.start someConfig none "newest" _ _ 950 rfl))).snoc
      (.did (.turn _ _ _ .tick 1850))),
    by simp [Undisturbed]; decide, rfl⟩

end Supervisor

end Silta
