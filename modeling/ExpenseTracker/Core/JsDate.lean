import ExpenseTracker.Core.Bytes
import ExpenseTracker.Core.Calendar
import Mathlib.Algebra.Order.Group.Unbundled.Abs
import Mathlib.Algebra.Order.Ring.Int

/-!
# ECMAScript dates

A `Date` is its time value, in milliseconds from 1970-01-01T00:00Z. The getters
read it in local time, here at a fixed offset from UTC; a text `YYYY-MM-DD` is
midnight UTC of its day. Texts of other forms are no date (`NaN`), and the limit of
a time value is left out: no month near an `Instant` comes close to it.

* `localDay_midnight`: behind UTC, midnight UTC of a day is on the day before.
* `localMonth_midnight`: so the first day of a month is in the month before there.
* `localMonth_ofMonth`: `new Date(y, m, 1)` is in month `m` of year `y`, counted on
  across the ends of the year, but for a `y` from 0 to 99.
-/
namespace ExpenseTracker.Core.JsDate

open Calendar

def msPerDay : ℤ := 86400000

/-- How far local time is ahead of UTC. -/
structure Offset where
  ms : ℤ
  lt_day : |ms| < msPerDay

def Offset.utc : Offset := ⟨0, by decide⟩

/-- What the clock can show: from the epoch to the last time value. -/
structure Instant where
  ms : ℤ
  nonneg : 0 ≤ ms
  le_last : ms ≤ 8640000000000000

/-! ## Local time -/

/-- The local date of a time value. -/
def localDay (o : Offset) (t : ℤ) : ℤ := (t + o.ms) / msPerDay

def localMonth (o : Offset) (t : ℤ) : ℤ := monthOf (localDay o t)

def getFullYear (o : Offset) (t : ℤ) : ℤ := localMonth o t / 12

def getMonth (o : Offset) (t : ℤ) : ℤ := localMonth o t % 12

/-- The first day of month `m` of year `y`; a year from 0 to 99 is of the 20th century. -/
def ofMonth (o : Offset) (y m : ℤ) : ℤ :=
  monthStart (12 * (if 0 ≤ y ∧ y ≤ 99 then 1900 + y else y) + m) * msPerDay - o.ms

/-- Into another month, the day of the month and the time of the day kept. -/
def inMonth (o : Offset) (t m : ℤ) : ℤ :=
  (monthStart m + (localDay o t - monthStart (localMonth o t))) * msPerDay +
    (t + o.ms) % msPerDay - o.ms

def setFullYear (o : Offset) (t y : ℤ) : ℤ := inMonth o t (12 * y + getMonth o t)

def setMonth (o : Offset) (t m : ℤ) : ℤ := inMonth o t (12 * getFullYear o t + m)

theorem getMonth_range (o : Offset) (t : ℤ) : 0 ≤ getMonth o t ∧ getMonth o t < 12 := by
  unfold getMonth
  omega

theorem month_eq (o : Offset) (t : ℤ) :
    12 * getFullYear o t + getMonth o t = localMonth o t := by
  unfold getFullYear getMonth
  omega

/-- Two time values show one year and month exactly in one local month. -/
theorem month_inj {o : Offset} {t t' : ℤ} :
    getMonth o t = getMonth o t' ∧ getFullYear o t = getFullYear o t' ↔
      localMonth o t = localMonth o t' := by
  unfold getFullYear getMonth
  omega

theorem Offset.bounds (o : Offset) : -msPerDay < o.ms ∧ o.ms < msPerDay := abs_lt.mp o.lt_day

@[simp] theorem localDay_utc (t : ℤ) : localDay .utc t = t / msPerDay :=
  congrArg (· / msPerDay) (add_zero t)

/-- The local date is the date in UTC, or a day off. -/
theorem localDay_near (o : Offset) (t : ℤ) :
    localDay .utc t - 1 ≤ localDay o t ∧ localDay o t ≤ localDay .utc t + 1 := by
  have ho := o.bounds
  rw [localDay_utc]
  unfold localDay
  unfold msPerDay at *
  omega

theorem localDay_midnight (o : Offset) (n : ℤ) :
    localDay o (n * msPerDay) = if o.ms < 0 then n - 1 else n := by
  have h := o.bounds
  unfold localDay
  unfold msPerDay at *
  split <;> omega

/-- **Midnight UTC in local time.** -/
theorem localMonth_midnight (o : Offset) (n : ℤ) :
    localMonth o (n * msPerDay) =
      if o.ms < 0 ∧ n = monthStart (monthOf n) then monthOf n - 1 else monthOf n := by
  unfold localMonth
  rw [localDay_midnight]
  by_cases ho : o.ms < 0
  · rw [if_pos ho, monthOf_pred]
    simp only [ho, true_and]
  · rw [if_neg ho, if_neg (not_and_of_not_left _ ho)]

theorem localMonth_ofMonth (o : Offset) {y : ℤ} (hy : y < 0 ∨ 99 < y) (m : ℤ) :
    localMonth o (ofMonth o y m) = 12 * y + m := by
  have hno : ¬ (0 ≤ y ∧ y ≤ 99) := by omega
  unfold localMonth localDay ofMonth
  rw [if_neg hno, sub_add_cancel, Int.mul_ediv_cancel _ (by decide : msPerDay ≠ 0),
    monthOf_monthStart]

/-- No clock shows a year before 1969. -/
theorem Instant.year (o : Offset) (now : Instant) : 1969 ≤ getFullYear o now.ms := by
  have ho := o.bounds
  have hnow := now.nonneg
  have hday : -1 ≤ localDay o now.ms := by
    unfold localDay
    unfold msPerDay at *
    omega
  have hmonth : 12 * 1969 ≤ localMonth o now.ms := by
    apply (monthOf_gc _ _).mp
    exact le_trans (by decide) hday
  unfold getFullYear
  omega

/-! ## Date texts -/

/-- The month and the day of the month a text `YYYY-MM-DD` names. -/
def dateOnly (s : Bytes) : Option (ℤ × ℤ) :=
  match s with
  | [y1, y2, y3, y4, 45, m1, m2, 45, d1, d2] =>
    let m := readNat [m1, m2]
    let month : ℤ := 12 * readNat [y1, y2, y3, y4] + (m - 1)
    let d : ℤ := readNat [d1, d2]
    if [y1, y2, y3, y4, m1, m2, d1, d2].all isDigit = true ∧ 1 ≤ m ∧ m ≤ 12 ∧
        1 ≤ d ∧ monthStart month + d ≤ monthStart (month + 1) then
      some (month, d)
    else none
  | _ => none

/-- The calendar month of a date text. -/
def calendarMonth (s : Bytes) : Option ℤ := (dateOnly s).map Prod.fst

/-- The day of a date text. -/
def parseDay (s : Bytes) : Option ℤ := (dateOnly s).map fun p => monthStart p.1 + (p.2 - 1)

/-- The time value of `new Date(s)`, if it is a date. -/
def parse (s : Bytes) : Option ℤ := (parseDay s).map (· * msPerDay)

theorem dateOnly_day {s : Bytes} {p : ℤ × ℤ} (h : dateOnly s = some p) :
    1 ≤ p.2 ∧ monthStart p.1 + p.2 ≤ monthStart (p.1 + 1) := by
  unfold dateOnly at h
  split at h
  · dsimp only at h
    split at h
    · rename_i hvalid
      obtain ⟨_, _, _, hd⟩ := hvalid
      cases h
      exact hd
    · cases h
  · cases h

theorem readNat_pair {a b : UInt8} (ha : isDigit a = true) (hb : isDigit b = true) :
    readNat [a, b] ≤ 99 := by
  unfold isDigit at ha hb
  simp only [decide_eq_true_eq, UInt8.le_iff_toNat_le] at ha hb
  have ha9 : a.toNat ≤ 57 := ha.2
  have hb9 : b.toNat ≤ 57 := hb.2
  show 10 * (10 * 0 + (a.toNat - 48)) + (b.toNat - 48) ≤ 99
  omega

/-- The years of date texts have four digits. -/
theorem dateOnly_month {s : Bytes} {p : ℤ × ℤ} (h : dateOnly s = some p) :
    0 ≤ p.1 ∧ p.1 < 12 * 10000 := by
  unfold dateOnly at h
  split at h
  · rename_i y1 y2 y3 y4 m1 m2 d1 d2
    dsimp only at h
    split at h
    · rename_i hvalid
      obtain ⟨hdigits, hm1, hm12, _⟩ := hvalid
      simp only [List.all_cons, Bool.and_eq_true] at hdigits
      obtain ⟨hy1, hy2, hy3, hy4, _⟩ := hdigits
      have hhigh := readNat_pair hy1 hy2
      have hlow := readNat_pair hy3 hy4
      have hyear : readNat [y1, y2, y3, y4] = 100 * readNat [y1, y2] + readNat [y3, y4] := by
        unfold readNat
        simp only [List.foldl_cons, List.foldl_nil]
        omega
      cases h
      dsimp only
      omega
    · cases h
  · cases h

theorem parseDay_range {s : Bytes} {n : ℤ} (h : parseDay s = some n) :
    -719528 ≤ n ∧ n < 2932897 := by
  obtain ⟨p, hp, rfl⟩ := Option.map_eq_some_iff.mp h
  obtain ⟨h0, hlast⟩ := dateOnly_month hp
  have hday := dateOnly_day hp
  have hstart : monthStart 0 ≤ monthStart p.1 := monthStart_strictMono.monotone h0
  have hend : monthStart (p.1 + 1) ≤ monthStart (12 * 10000) :=
    monthStart_strictMono.monotone (by omega)
  have hfirst : monthStart 0 = -719528 := by decide
  have hafter : monthStart (12 * 10000) = 2932897 := by decide
  omega

/-- The day of a date text is in its calendar month. -/
theorem monthOf_dateOnly {s : Bytes} {p : ℤ × ℤ} (h : dateOnly s = some p) :
    monthOf (monthStart p.1 + (p.2 - 1)) = p.1 := by
  have hday := dateOnly_day h
  exact monthOf_eq_iff.mpr ⟨by omega, by omega⟩

example : parseDay (ascii "2024-02-29") = some 19782 ∧ parseDay (ascii "2023-02-29") = none := by
  decide

end ExpenseTracker.Core.JsDate
