import Mathlib.Data.Int.ConditionallyCompleteOrder
import Mathlib.Order.GaloisConnection.Basic
import Mathlib.Order.Monotone.Basic
import Mathlib.Tactic.IntervalCases

/-!
# The proleptic Gregorian calendar

A day is its number, counted from 1970-01-01. A month is the number
`12 * year + month`, with January as month 0, so that the month after `m` is
`m + 1` at the end of a year too.

* `monthStart_succ`: a month has 28 to 31 days; `monthStart_strictMono`.
* `monthOf_gc`: `monthOf d` is the last month to start at or before `d`, so
  `monthOf_eq_iff` finds the month of every day.
* `monthOf_pred`: the day before is in the same month but for the first day of one.
-/
namespace ExpenseTracker.Core.Calendar

/-! ## Years -/

/-- The first day of a year. -/
def dayFromYear (y : ℤ) : ℤ :=
  365 * (y - 1970) + (y - 1969) / 4 - (y - 1901) / 100 + (y - 1601) / 400

def isLeap (y : ℤ) : Bool := y % 4 == 0 && (y % 100 != 0 || y % 400 == 0)

theorem dayFromYear_succ (y : ℤ) :
    dayFromYear (y + 1) = dayFromYear y + 365 + if isLeap y then 1 else 0 := by
  unfold dayFromYear isLeap
  by_cases h4 : y % 4 = 0 <;> by_cases h100 : y % 100 = 0 <;> by_cases h400 : y % 400 = 0 <;>
    simp [h4, h100, h400] <;> omega

/-- The year of a day: 400 years have 146097 days, and the estimate is off by at most one. -/
def yearOf (d : ℤ) : ℤ :=
  let y := 1970 + 400 * d / 146097
  if d < dayFromYear y then y - 1
  else if dayFromYear (y + 1) ≤ d then y + 1
  else y

/-- A year starts within two days of its share of the 400 years. -/
theorem dayFromYear_bounds (y : ℤ) :
    146097 * (y - 1970) - 800 ≤ 400 * dayFromYear y ∧
      400 * dayFromYear y ≤ 146097 * (y - 1970) + 800 := by
  unfold dayFromYear
  omega

theorem yearOf_spec (d : ℤ) : dayFromYear (yearOf d) ≤ d ∧ d < dayFromYear (yearOf d + 1) := by
  obtain ⟨y, hy⟩ : ∃ y, y = 1970 + 400 * d / 146097 := ⟨_, rfl⟩
  have hbefore := dayFromYear_bounds (y - 1)
  have hafter := dayFromYear_bounds (y + 1 + 1)
  unfold yearOf
  rw [← hy]
  dsimp only
  split
  · rename_i hlt
    rw [sub_add_cancel]
    exact ⟨by omega, hlt⟩
  split
  · rename_i hle
    exact ⟨hle, by omega⟩
  · omega

/-! ## Months -/

/-- The days of a year before each of its months, and all of them. -/
def cumulative : List ℤ := [0, 31, 59, 90, 120, 151, 181, 212, 243, 273, 304, 334, 365]

/-- The days of a year before month `m`. -/
def daysBefore (leap : Bool) (m : ℤ) : ℤ :=
  cumulative.getD m.toNat 0 + if leap && decide (2 ≤ m) then 1 else 0

/-- The first day of a month. -/
def monthStart (m : ℤ) : ℤ := dayFromYear (m / 12) + daysBefore (isLeap (m / 12)) (m % 12)

theorem daysBefore_succ (leap : Bool) {m : ℤ} (h0 : 0 ≤ m) (h12 : m < 12) :
    daysBefore leap m + 28 ≤ daysBefore leap (m + 1) ∧
      daysBefore leap (m + 1) ≤ daysBefore leap m + 31 := by
  cases leap <;> interval_cases m <;> decide

theorem daysBefore_twelve (leap : Bool) :
    daysBefore leap 12 = 365 + if leap then 1 else 0 := by
  cases leap <;> rfl

/-- The month that starts `m % 12` months into its year. -/
theorem monthStart_next (m : ℤ) :
    monthStart (m + 1) = dayFromYear (m / 12) + daysBefore (isLeap (m / 12)) (m % 12 + 1) := by
  unfold monthStart
  by_cases h : m % 12 = 11
  · have hdiv : (m + 1) / 12 = m / 12 + 1 := by omega
    have hmod : (m + 1) % 12 = 0 := by omega
    have hzero : daysBefore (isLeap (m / 12 + 1)) 0 = 0 := by cases isLeap (m / 12 + 1) <;> rfl
    rw [hdiv, hmod, h, hzero, show (11 + 1 : ℤ) = 12 from rfl, daysBefore_twelve, dayFromYear_succ]
    omega
  · have hdiv : (m + 1) / 12 = m / 12 := by omega
    have hmod : (m + 1) % 12 = m % 12 + 1 := by omega
    rw [hdiv, hmod]

/-- A month has 28 to 31 days. -/
theorem monthStart_succ (m : ℤ) :
    monthStart m + 28 ≤ monthStart (m + 1) ∧ monthStart (m + 1) ≤ monthStart m + 31 := by
  have h := daysBefore_succ (isLeap (m / 12)) (Int.emod_nonneg m (by decide))
    (Int.emod_lt_of_pos m (by decide))
  rw [monthStart_next]
  unfold monthStart
  omega

theorem monthStart_strictMono : StrictMono monthStart :=
  strictMono_int_of_lt_succ fun m => by
    have h := (monthStart_succ m).1
    omega

/-- The month of a day: a month of at most 31 days is estimated from 32. -/
def monthOf (d : ℤ) : ℤ :=
  let y := yearOf d
  let r := d - dayFromYear y
  12 * y + if daysBefore (isLeap y) (r / 32 + 1) ≤ r then r / 32 + 1 else r / 32

theorem daysBefore_estimate (leap : Bool) {r : ℤ} (h0 : 0 ≤ r)
    (hr : r < 365 + if leap then 1 else 0) :
    0 ≤ r / 32 ∧ r / 32 < 12 ∧ daysBefore leap (r / 32) ≤ r ∧
      (r / 32 < 11 → r < daysBefore leap (r / 32 + 2)) ∧
      (r / 32 = 11 → r < daysBefore leap 12) := by
  have hr' : r < 366 := by
    cases leap <;> simp at hr <;> omega
  obtain ⟨q, hq⟩ : ∃ q, q = r / 32 := ⟨_, rfl⟩
  have hq0 : 0 ≤ q := by omega
  have hq12 : q < 12 := by omega
  rw [← hq]
  refine ⟨hq0, hq12, ?_⟩
  cases leap <;> interval_cases q <;> simp [daysBefore, cumulative] at hr ⊢ <;> omega

theorem monthOf_spec (d : ℤ) : monthStart (monthOf d) ≤ d ∧ d < monthStart (monthOf d + 1) := by
  obtain ⟨hlo, hhi⟩ := yearOf_spec d
  obtain ⟨y, hy⟩ : ∃ y, y = yearOf d := ⟨_, rfl⟩
  obtain ⟨r, hr⟩ : ∃ r, r = d - dayFromYear y := ⟨_, rfl⟩
  rw [← hy] at hlo hhi
  rw [dayFromYear_succ] at hhi
  obtain ⟨h0, h12, hle, hlt, hdec⟩ := daysBefore_estimate (isLeap y) (r := r) (by omega) (by omega)
  -- a month of year `y` starts and ends as its days of the year say
  have hmonth : ∀ q : ℤ, 0 ≤ q → q < 12 → daysBefore (isLeap y) q ≤ r →
      r < daysBefore (isLeap y) (q + 1) →
      monthStart (12 * y + q) ≤ d ∧ d < monthStart (12 * y + q + 1) := by
    intro q hq0 hq12 hq hq'
    have hdiv : (12 * y + q) / 12 = y := by omega
    have hmod : (12 * y + q) % 12 = q := by omega
    rw [monthStart_next, monthStart, hdiv, hmod]
    omega
  unfold monthOf
  dsimp only
  rw [← hy, ← hr]
  split
  · rename_i hnext
    have h11 : r / 32 < 11 := by
      by_contra hge
      have heq : r / 32 = 11 := by omega
      rw [heq] at hnext
      exact absurd (hdec heq) (not_lt.mpr hnext)
    have htwo := hlt h11
    exact hmonth _ (by omega) (by omega) hnext (by rwa [add_assoc])
  · rename_i hnext
    exact hmonth _ h0 h12 hle (not_le.mp hnext)

/-- `monthOf d` is the last month to start at or before `d`. -/
theorem monthOf_gc : GaloisConnection monthStart monthOf := by
  intro m d
  obtain ⟨hlo, hhi⟩ := monthOf_spec d
  constructor
  · intro h
    have := monthStart_strictMono.lt_iff_lt.mp (lt_of_le_of_lt h hhi)
    omega
  · intro h
    exact (monthStart_strictMono.le_iff_le.mpr h).trans hlo

/-- **The month of a day.** -/
theorem monthOf_eq_iff {d m : ℤ} : monthOf d = m ↔ monthStart m ≤ d ∧ d < monthStart (m + 1) := by
  constructor
  · rintro rfl
    exact monthOf_spec d
  · intro ⟨hlo, hhi⟩
    have hle := (monthOf_gc m d).mp hlo
    have hlt : ¬ m + 1 ≤ monthOf d := fun h => absurd ((monthOf_gc (m + 1) d).mpr h) (not_le.mpr hhi)
    omega

@[simp] theorem monthOf_monthStart (m : ℤ) : monthOf (monthStart m) = m :=
  monthOf_eq_iff.mpr ⟨le_rfl, monthStart_strictMono (lt_add_one m)⟩

/-- The day before the first day of a month is in the month before, any other day
before is in the same month. -/
theorem monthOf_pred (d : ℤ) :
    monthOf (d - 1) = if d = monthStart (monthOf d) then monthOf d - 1 else monthOf d := by
  obtain ⟨hlo, hhi⟩ := monthOf_spec d
  split
  · rename_i h
    have hlen := monthStart_succ (monthOf d - 1)
    rw [sub_add_cancel] at hlen
    refine monthOf_eq_iff.mpr ⟨?_, ?_⟩
    · omega
    · rw [sub_add_cancel]
      omega
  · exact monthOf_eq_iff.mpr ⟨by omega, by omega⟩

end ExpenseTracker.Core.Calendar
