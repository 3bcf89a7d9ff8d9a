import ExpenseTracker.Core.JsDate
import ExpenseTracker.L1Encoding.Amount

/-!
# The deadline of a goal

`getDaysLeft` counts the days from now to midnight UTC of the deadline, in doubles, and
rounds up. So it counts from the date in UTC, not from the viewer's.

* `getDaysLeft_eq`: the text, by the date in UTC.
* `days_left_iff`: the text counts from the viewer's date exactly when the deadline is not
  after it, or it is the date in UTC.
-/
namespace ExpenseTracker.L5.Goals

open ExpenseTracker.Core ExpenseTracker.Core.JsDate

/-- `Math.ceil(msDiff / (1000 * 60 * 60 * 24))` -/
def ceilDays (msDiff : ℤ) : ℤ := ⌈(Double.ofRat ((msDiff : ℚ) / (1000 * 60 * 60 * 24 : ℤ))).val⌉

/-- A deadline that is no date has no days left.
mirrors src/frontend/src/pages/Goals.jsx:76-80 -/
def getDaysLeft (now : Instant) (dateStr : Bytes) : Bytes :=
  match parse dateStr with
  | none => ascii "Expired"
  | some d =>
    let msDiff := d - now.ms
    let days := ceilDays msDiff
    if days > 0 then intText days ++ ascii " days left" else ascii "Expired"

/-- The days to midnight of day `n`, rounded up. -/
theorem ceil_days (n t : ℤ) :
    ⌈((n * msPerDay - t : ℤ) : ℚ) / (msPerDay : ℤ)⌉ = n - t / msPerDay := by
  have hpos : (0 : ℚ) < (msPerDay : ℤ) := by
    unfold msPerDay
    norm_num
  refine Int.ceil_eq_iff.mpr ⟨?_, ?_⟩
  · rw [lt_div_iff₀ hpos]
    have h : (n - t / msPerDay - 1) * msPerDay < n * msPerDay - t := by
      unfold msPerDay
      omega
    exact_mod_cast h
  · rw [div_le_iff₀ hpos]
    have h : n * msPerDay - t ≤ (n - t / msPerDay) * msPerDay := by
      unfold msPerDay
      omega
    exact_mod_cast h

/-- **The text of a deadline**, by the date in UTC. The number of days is small enough for
doubles to get it right. -/
theorem getDaysLeft_eq (now : Instant) {D : Bytes} {n : ℤ} (hD : parseDay D = some n) :
    getDaysLeft now D =
      if localDay .utc now.ms < n then intText (n - localDay .utc now.ms) ++ ascii " days left"
      else ascii "Expired" := by
  have hparse : parse D = some (n * msPerDay) := by
    unfold parse
    rw [hD]
    rfl
  have hpos : (0 : ℚ) < (msPerDay : ℤ) := by
    unfold msPerDay
    norm_num
  have hquot : |((n * msPerDay - now.ms : ℤ) : ℚ) / (msPerDay : ℤ)| < 2 ^ (27 : ℤ) := by
    have hrange := parseDay_range hD
    have hclock := And.intro now.nonneg now.le_last
    have habs : |n * msPerDay - now.ms| < 2 ^ 27 * msPerDay := by
      unfold msPerDay
      rw [abs_lt]
      omega
    rw [abs_div, abs_of_pos hpos, div_lt_iff₀ hpos]
    exact_mod_cast habs
  have hdays : ceilDays (n * msPerDay - now.ms) = n - localDay .utc now.ms := by
    show ⌈nearest (((n * msPerDay - now.ms : ℤ) : ℚ) / (msPerDay : ℤ))⌉ = _
    rw [ceil_nearest_div (by decide) hquot (by norm_num) (by norm_num)
      (by unfold msPerDay; norm_num), ceil_days, localDay_utc]
  unfold getDaysLeft
  rw [hparse]
  dsimp only
  rw [hdays]
  exact if_congr (by omega) rfl rfl

/-- The two texts are told apart by their last letter. -/
theorem days_ne_expired (k : ℤ) : ascii "Expired" ≠ intText k ++ ascii " days left" := by
  intro h
  have hlast := congrArg List.getLast? h
  rw [List.getLast?_append, show (ascii " days left").getLast? = some 116 from rfl,
    Option.some_or] at hlast
  exact absurd hlast (by decide)

/-- For every deadline that is a date, at every instant and offset: the text says the days
from the viewer's date to the deadline when it is before, and 'Expired' when it is after, if
and only if the deadline is not after the viewer's date, or that is the date in UTC. -/
theorem days_left_iff (o : Offset) (now : Instant) {D : Bytes} {n : ℤ} (hD : parseDay D = some n) :
    let d := localDay o now.ms
    (d < n → getDaysLeft now D = intText (n - d) ++ ascii " days left") ∧
        (n < d → getDaysLeft now D = ascii "Expired") ↔
      (d < n → d = localDay .utc now.ms) := by
  intro d
  have hnear := localDay_near o now.ms
  rw [getDaysLeft_eq now hD]
  constructor
  · intro ⟨hleft, _⟩ hd
    have htext := hleft hd
    split at htext
    · have hcount := intText_injective (List.append_cancel_right htext)
      omega
    · exact absurd htext (days_ne_expired _)
  · intro h
    refine ⟨fun hd => ?_, fun hd => ?_⟩
    · rw [← h hd, if_pos hd]
    · rw [if_neg (by omega)]

/-! ## The evening before -/

/-- Half past midnight of 2024-05-01 UTC. -/
def mayDay : Instant := ⟨1714523400000, by decide, by decide⟩

/-- Seven hours behind UTC. -/
def pacific : Offset := ⟨-25200000, by decide⟩

theorem days_left_utc :
    getDaysLeft mayDay (ascii "2024-05-04") = ascii "3 days left" := by
  have hday : parseDay (ascii "2024-05-04") = some 19847 := by decide
  have h := (days_left_iff .utc mayDay hday).mpr fun _ => rfl
  have hlocal : localDay .utc mayDay.ms = 19844 := by decide
  rw [hlocal] at h
  exact (h.1 (by decide)).trans (by decide)

/-- It is the last of April on the west coast, and a deadline on the next day has expired. -/
theorem days_left_pacific :
    parseDay (ascii "2024-05-01") = some 19844 ∧ localDay pacific mayDay.ms = 19843 ∧
      getDaysLeft mayDay (ascii "2024-05-01") = ascii "Expired" ∧
      getDaysLeft mayDay (ascii "2024-05-01") ≠ ascii "1 days left" := by
  have hday : parseDay (ascii "2024-05-01") = some 19844 := by decide
  have htext : getDaysLeft mayDay (ascii "2024-05-01") = ascii "Expired" := by
    rw [getDaysLeft_eq mayDay hday]
    decide
  refine ⟨hday, by decide, htext, ?_⟩
  rw [htext]
  decide

end ExpenseTracker.L5.Goals
