import Silta.Backlog
import Silta.Replay

/-!
# The replay window

The window is configured in seconds and compared in milliseconds, at a start by the verdict and in a
queue by the expiry test of the backlog: the one sum wraps where the other stops at the largest
`u64`.
-/

namespace Silta

/-- Multiplication of two `u64` that stops at the largest one. -/
def saturatingMul (a b : Nat) : Nat := min (a * b) (2 ^ 64 - 1)

namespace Replay

/-- The window of the daemon, in milliseconds. -/
def replayWindowMs (replayWindowSecs : Nat) : Nat := saturatingMul replayWindowSecs 1000

/-- The verdict in a build with overflow checks, `none` where the sum panics. -/
def checkedVerdict (tsMs : Nat) (eventId : String) (mark : Option Watermark) (clock : Clock) :
    Option Verdict :=
  if mark.any fun mark ↦ tsMs < mark.tsMs ∨ tsMs = mark.tsMs ∧ eventId = mark.eventId then
    some .alreadyDelivered
  -- the plain sum of `verdict` panics
  else if 2 ^ 64 ≤ tsMs + clock.replayWindowMs then
    none
  else if tsMs + clock.replayWindowMs < clock.startedAtMs then
    some .tooOld
  else
    some (.deliver (clock.startedAtMs - tsMs))

/-- Where the sum does not overflow, both builds give the same verdict. -/
theorem checkedVerdict_eq {tsMs : Nat} {clock : Clock} (h : tsMs + clock.replayWindowMs < 2 ^ 64)
    (eventId : String) (mark : Option Watermark) :
    checkedVerdict tsMs eventId mark clock = some (verdict tsMs eventId mark clock) := by
  have hold : TooOld clock tsMs ↔ tsMs + clock.replayWindowMs < clock.startedAtMs := by
    rw [TooOld, Nat.mod_eq_of_lt h]
  unfold checkedVerdict verdict
  rw [if_neg (not_le.mpr h)]
  split
  · rfl
  by_cases hwindow : tsMs + clock.replayWindowMs < clock.startedAtMs
  · rw [if_pos hwindow, if_pos (hold.mpr hwindow)]
  · rw [if_neg hwindow, if_neg (mt hold.mp hwindow)]

theorem checkedVerdict_none_eq_none_iff {tsMs : Nat} {clock : Clock} (eventId : String) :
    checkedVerdict tsMs eventId none clock = none ↔ 2 ^ 64 ≤ tsMs + clock.replayWindowMs := by
  unfold checkedVerdict
  rw [Option.any_none, if_neg Bool.false_ne_true]
  split
  · next hover => exact iff_of_true rfl hover
  · next hfits =>
    refine iff_of_false ?_ hfits
    split
    · exact Option.some_ne_none _
    · exact Option.some_ne_none _

/-- Without a mark only the window decides. -/
theorem verdict_none_eq_tooOld_iff {tsMs : Nat} {clock : Clock} (eventId : String) :
    verdict tsMs eventId none clock = .tooOld ↔ TooOld clock tsMs := by
  unfold verdict
  rw [Option.any_none, if_neg Bool.false_ne_true]
  split
  · next hold => simp [hold]
  · next hnew => simp [hnew]

/-- The wrapped sum decides as the sum of the integers does where it does not wrap, and where what
is left of it after wrapping is still no earlier than the start. -/
theorem tooOld_exact_iff {tsMs : Nat} {clock : Clock} (hts : tsMs < 2 ^ 64)
    (hwindow : clock.replayWindowMs < 2 ^ 64) (hstart : clock.startedAtMs < 2 ^ 64) :
    (TooOld clock tsMs ↔ tsMs + clock.replayWindowMs < clock.startedAtMs) ↔
      tsMs + clock.replayWindowMs < 2 ^ 64 ∨
        clock.startedAtMs + 2 ^ 64 ≤ tsMs + clock.replayWindowMs := by
  unfold TooOld
  by_cases hsum : tsMs + clock.replayWindowMs < 2 ^ 64
  · rw [Nat.mod_eq_of_lt hsum]
    exact iff_of_true Iff.rfl (.inl hsum)
  -- two `u64` wrap once at most
  · have hwrapped : (tsMs + clock.replayWindowMs) % 2 ^ 64 =
        tsMs + clock.replayWindowMs - 2 ^ 64 := by
      rw [Nat.mod_eq_sub_mod (by omega), Nat.mod_eq_of_lt (by omega)]
    rw [hwrapped]
    omega

/-- The expiry test of the backlog is that of the integers, whatever the sum is. -/
theorem frontExpired_eq_true_iff {α : Type*} {b : Backlog α} {nowMs ts : Nat} {item : α}
    {items : List (Nat × α)} (hnow : nowMs < 2 ^ 64) :
    b.frontExpired nowMs ((ts, item) :: items) = true ↔ ts + b.maxAgeMs < nowMs := by
  have htest : b.frontExpired nowMs ((ts, item) :: items) =
      decide (saturatingAdd ts b.maxAgeMs < nowMs) := rfl
  -- a sum that stops at the largest `u64` is no earlier than any time
  rw [htest, decide_eq_true_eq, saturatingAdd]
  omega

/-- The verdict on a message of a room without a mark: no sum overflows, the answer is that of the
integers, and an item of the same timestamp expires at the start where the message is too old. -/
structure WindowExact (tsMs : Nat) (clock : Clock) : Prop where
  noOverflow : ∀ eventId, checkedVerdict tsMs eventId none clock ≠ none
  exact : ∀ eventId, verdict tsMs eventId none clock = .tooOld ↔
    tsMs + clock.replayWindowMs < clock.startedAtMs
  expiry : ∀ eventId (items : List (Nat × Unit)) (maxLen : Nat),
    verdict tsMs eventId none clock = .tooOld ↔
      (Backlog.new maxLen clock.replayWindowMs).frontExpired clock.startedAtMs
        ((tsMs, ()) :: items) = true

/-- For every window of the configuration, the verdict is exact just where timestamp and window
together are a `u64`. -/
theorem windowExact_iff {replayWindowSecs tsMs startedAtMs : Nat} (hstart : startedAtMs < 2 ^ 64) :
    WindowExact tsMs ⟨startedAtMs, replayWindowMs replayWindowSecs⟩ ↔
      tsMs + replayWindowMs replayWindowSecs < 2 ^ 64 := by
  constructor
  · intro h
    have hnone := mt (checkedVerdict_none_eq_none_iff "").mpr (h.noOverflow "")
    exact not_le.mp hnone
  -- below the bound the three tests are the one on the integers
  · intro hsum
    have hexact : ∀ eventId, verdict tsMs eventId none
        ⟨startedAtMs, replayWindowMs replayWindowSecs⟩ = .tooOld ↔
          tsMs + replayWindowMs replayWindowSecs < startedAtMs := by
      intro eventId
      rw [verdict_none_eq_tooOld_iff, TooOld, Nat.mod_eq_of_lt hsum]
    refine ⟨fun eventId ↦ ?_, hexact, fun eventId items maxLen ↦ ?_⟩
    · rw [checkedVerdict_eq hsum]
      exact Option.some_ne_none _
    · rw [hexact, frontExpired_eq_true_iff hstart]
      rfl

theorem windowExact_iff_default :
    WindowExact 1788631331999 ⟨1788631332000, replayWindowMs 300⟩ ↔
      1788631331999 + replayWindowMs 300 < 2 ^ 64 :=
  windowExact_iff (by decide)

/-- A window of more seconds than a `u64` has milliseconds: a message of the very start is too
old. -/
theorem not_windowExact_forever :
    ¬∀ replayWindowSecs tsMs startedAtMs, replayWindowSecs < 2 ^ 64 → tsMs < 2 ^ 64 →
      startedAtMs < 2 ^ 64 → WindowExact tsMs ⟨startedAtMs, replayWindowMs replayWindowSecs⟩ := by
  intro h
  have hexact := h 18446744073709552 1788631332000 1788631332000 (by decide) (by decide) (by decide)
  have hold : verdict 1788631332000 "$a" none
      ⟨1788631332000, replayWindowMs 18446744073709552⟩ = .tooOld := by
    decide
  exact absurd ((hexact.exact "$a").mp hold) (by decide)

end Replay

end Silta
