import Mathlib.Logic.Function.Iterate
import Mathlib.Order.Monotone.Basic
import Mathlib.Tactic.IntervalCases

/-!
# The Gregorian calendar

Dates with the leap-year rule in both directions of time, the day after a date, and the dates that
are counted from 1970-01-01.  The number of a date is a closed form of that count.
-/

namespace Calendar

/-! ## Dates -/

def IsLeap (year : ℤ) : Prop := year % 4 = 0 ∧ (year % 100 ≠ 0 ∨ year % 400 = 0)

instance (year : ℤ) : Decidable (IsLeap year) :=
  inferInstanceAs (Decidable (_ ∧ _))

def daysIn (year : ℤ) (month : ℕ) : ℕ :=
  if month = 2 then if IsLeap year then 29 else 28
  else if month = 4 ∨ month = 6 ∨ month = 9 ∨ month = 11 then 30
  else 31

theorem daysIn_pos (year : ℤ) (month : ℕ) : 1 ≤ daysIn year month := by
  unfold daysIn
  split_ifs <;> decide

theorem daysIn_le (year : ℤ) (month : ℕ) : daysIn year month ≤ 31 := by
  unfold daysIn
  split_ifs <;> decide

/-- A day of the calendar. -/
@[ext] structure Date where
  year : ℤ
  month : ℕ
  day : ℕ
  month_pos : 1 ≤ month
  month_le : month ≤ 12
  day_pos : 1 ≤ day
  day_le : day ≤ daysIn year month
  deriving DecidableEq

namespace Date

/-- The day after. -/
def next (d : Date) : Date :=
  if hday : d.day < daysIn d.year d.month then
    { d with day := d.day + 1, day_pos := by omega, day_le := hday }
  else if hmonth : d.month < 12 then
    { year := d.year, month := d.month + 1, day := 1, month_pos := by omega, month_le := hmonth,
      day_pos := le_refl 1, day_le := daysIn_pos .. }
  else
    { year := d.year + 1, month := 1, day := 1, month_pos := le_refl 1, month_le := by decide,
      day_pos := le_refl 1, day_le := daysIn_pos .. }

/-- What the day after a date is, in its three cases. -/
theorem next_cases (d : Date) :
    d.day < daysIn d.year d.month ∧
        d.next.year = d.year ∧ d.next.month = d.month ∧ d.next.day = d.day + 1 ∨
      d.day = daysIn d.year d.month ∧ d.month < 12 ∧
        d.next.year = d.year ∧ d.next.month = d.month + 1 ∧ d.next.day = 1 ∨
      d.day = daysIn d.year d.month ∧ d.month = 12 ∧
        d.next.year = d.year + 1 ∧ d.next.month = 1 ∧ d.next.day = 1 := by
  have hle := d.day_le
  have hmonth := d.month_le
  unfold next
  split
  · next hday => exact .inl ⟨hday, rfl, rfl, rfl⟩
  · next hday =>
    split
    · next hless => exact .inr (.inl ⟨by omega, hless, rfl, rfl, rfl⟩)
    · next hless => exact .inr (.inr ⟨by omega, by omega, rfl, rfl, rfl⟩)

/-- A date as a number that grows with it, with gaps after the short months. -/
def rank (d : Date) : ℤ := (d.year * 12 + d.month) * 31 + d.day

theorem rank_lt_next (d : Date) : d.rank < d.next.rank := by
  have hday := d.day_le
  have hle := daysIn_le d.year d.month
  unfold rank
  rcases d.next_cases with ⟨-, hy, hm, hd⟩ | ⟨-, -, hy, hm, hd⟩ | ⟨-, hlast, hy, hm, hd⟩
  all_goals rw [hy, hm, hd]
  all_goals omega

/-- Dates in order: by year, then by month, then by day. -/
theorem rank_lt_iff (d e : Date) : d.rank < e.rank ↔
    d.year < e.year ∨
      d.year = e.year ∧ (d.month < e.month ∨ d.month = e.month ∧ d.day < e.day) := by
  have hday := d.day_le.trans (daysIn_le d.year d.month)
  have hday' := e.day_le.trans (daysIn_le e.year e.month)
  have hpos := d.day_pos
  have hpos' := e.day_pos
  have hmonth := d.month_le
  have hmonth' := e.month_le
  have hone := d.month_pos
  have hone' := e.month_pos
  unfold rank
  omega

theorem rank_eq_iff (d e : Date) :
    d.rank = e.rank ↔ d.year = e.year ∧ d.month = e.month ∧ d.day = e.day := by
  have hlt := rank_lt_iff d e
  have hgt := rank_lt_iff e d
  constructor
  · intro h
    omega
  · rintro ⟨hyear, hmonth, hday⟩
    rw [rank, rank, hyear, hmonth, hday]

/-! ## The number of a date -/

/-- The years begin on 1 March, so that the leap day is the last of its year. -/
def marchYear (d : Date) : ℤ := if d.month ≤ 2 then d.year - 1 else d.year

/-- The months from March, at zero. -/
def marchMonth (d : Date) : ℕ := if d.month ≤ 2 then d.month + 9 else d.month - 3

/-- The days of the year from 1 March, at zero. -/
def marchDay (d : Date) : ℕ := (153 * d.marchMonth + 2) / 5 + d.day - 1

/-- The days from 0000-03-01. -/
def number (d : Date) : ℤ :=
  365 * d.marchYear + d.marchYear / 4 - d.marchYear / 100 + d.marchYear / 400 + d.marchDay

/-- Only a year that ends in a leap day has 366 days. -/
theorem marchDay_le (d : Date) :
    d.marchDay ≤ 365 ∧ (d.marchDay = 365 → IsLeap (d.marchYear + 1)) := by
  obtain ⟨year, month, day, hone, hmonth, hpos, hday⟩ := d
  simp only [marchDay, marchYear, marchMonth]
  by_cases hleap : IsLeap year
  · interval_cases month <;> simp [daysIn, hleap] at hday ⊢ <;> omega
  · interval_cases month <;> simp [daysIn, hleap] at hday ⊢ <;> omega

theorem number_next (d : Date) : d.next.number = d.number + 1 := by
  have hone := d.month_pos
  have hmonth := d.month_le
  have hpos := d.day_pos
  rcases d.next_cases with ⟨-, hy, hm, hd⟩ | ⟨hlast, hless, hy, hm, hd⟩ | ⟨hlast, hdec, hy, hm, hd⟩
  · simp only [number, marchDay, marchYear, marchMonth, hy, hm, hd]
    omega
  · simp only [number, marchDay, marchYear, marchMonth, hy, hm, hd]
    generalize d.month = month at *
    rw [hlast]
    -- after February a year ends, which is longer by the leap day of the next
    by_cases hleap : IsLeap d.year
    · interval_cases month <;> simp [daysIn, hleap] <;> unfold IsLeap at hleap <;> omega
    · interval_cases month <;> simp [daysIn, hleap] <;> unfold IsLeap at hleap <;> omega
  · simp only [number, marchDay, marchYear, marchMonth, hy, hm, hd, hdec]
    have hdays : daysIn d.year 12 = 31 := rfl
    rw [hlast, hdec, hdays]
    norm_num
    omega

end Date

/-! ## Counting from the epoch -/

/-- 1 January. -/
def newYear (year : ℤ) : Date where
  year := year
  month := 1
  day := 1
  month_pos := le_refl 1
  month_le := by decide
  day_pos := le_refl 1
  day_le := daysIn_pos year 1

/-- 1970-01-01. -/
def epoch : Date := newYear 1970

/-- The date so many days after the epoch. -/
def ofDays (days : ℕ) : Date := Date.next^[days] epoch

theorem ofDays_succ (days : ℕ) : ofDays (days + 1) = (ofDays days).next :=
  Function.iterate_succ_apply' ..

theorem number_ofDays (days : ℕ) : (ofDays days).number = days + 719468 := by
  induction days with
  | zero => decide
  | succ days ih =>
    rw [ofDays_succ, Date.number_next, ih]
    omega

/-- Later days have later dates. -/
theorem rank_ofDays_lt_iff {a b : ℕ} : (ofDays a).rank < (ofDays b).rank ↔ a < b := by
  have hmono : StrictMono fun days ↦ (ofDays days).rank := by
    apply strictMono_nat_of_lt_succ
    intro days
    rw [ofDays_succ]
    exact Date.rank_lt_next _
  exact hmono.lt_iff_lt

theorem rank_ofDays_inj {a b : ℕ} : (ofDays a).rank = (ofDays b).rank ↔ a = b := by
  have hlt := @rank_ofDays_lt_iff a b
  have hgt := @rank_ofDays_lt_iff b a
  omega

theorem year_ofDays_le (days : ℕ) : 1970 ≤ (ofDays days).year := by
  by_contra hlt
  have hrank := (Date.rank_lt_iff (ofDays days) (ofDays 0)).mpr (.inl (not_le.mp hlt))
  exact absurd (rank_ofDays_lt_iff.mp hrank) (Nat.not_lt_zero days)

end Calendar
