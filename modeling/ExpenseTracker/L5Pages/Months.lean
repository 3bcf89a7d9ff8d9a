import ExpenseTracker.L5Pages.Charts

/-!
# The month of an entry

The Dashboard reads the date of an entry as midnight UTC and takes its month in local
time. Behind UTC that is the evening before, which is in the month before for the first
day of a month.

* `itemMonth_eq`: the month an entry is counted in, at any offset.
* `attribution_iff`: the totals and the chart count every entry in its calendar month
  exactly when no first day of a month that matters is read behind UTC.
-/
namespace ExpenseTracker.L5.Months

open ExpenseTracker.Core ExpenseTracker.Core.JsDate ExpenseTracker.Core.Calendar
open ExpenseTracker.L5.Charts

/-- The amounts of the entries of a kind in a calendar month, at given prices. -/
def monthSum (price : Item → ℚ) (l : List Item) (kind : Item → Bool) (m : ℤ) : ℚ :=
  ((l.filter fun e => kind e && decide (calendarMonth e.expense_date = some m)).map price).sum

/-- The month's totals and the chart count the entries of each calendar month, and no
others: whatever the entries' amounts, the sums are those of the calendar month. -/
def ByCalendar (o : Offset) (now : Instant) (l : List Item) : Prop :=
  ∀ price : Item → ℚ,
    let expenses := l.map (Item.priced price)
    let current := localMonth o now.ms
    (stats o now expenses).monthIncome = monthSum price l isIncome current ∧
    (stats o now expenses).monthExpense = monthSum price l isExpense current ∧
    areaData o now expenses = (lastMonths o now).map fun m =>
      ⟨monthName m, monthSum price l isIncome m, monthSum price l (fun e => !isIncome e) m⟩

/-- **The month an entry is counted in.** -/
theorem itemMonth_eq (o : Offset) (e : Item) :
    itemMonth o e = (dateOnly e.expense_date).map fun p =>
      if o.ms < 0 ∧ p.2 = 1 then p.1 - 1 else p.1 := by
  unfold itemMonth parse parseDay
  rw [Option.map_map, Option.map_map]
  cases h : dateOnly e.expense_date with
  | none => rfl
  | some p =>
    have hfirst : monthStart p.1 + (p.2 - 1) = monthStart p.1 ↔ p.2 = 1 := by omega
    simp only [Option.map_some, Function.comp_apply, localMonth_midnight,
      monthOf_dateOnly h, hfirst]

theorem itemMonth_priced (o : Offset) (e : Item) (x : ℚ) :
    itemMonth o { e with amount := x } = itemMonth o e := rfl

/-- A month's sum is that of the calendar month, at all prices, when the entries of the
kind that are counted are those of the calendar month. -/
theorem sumOf_month_iff (o : Offset) {p : Item → Bool}
    (hp : ∀ (e : Item) x, p { e with amount := x } = p e) (l : List Item) (m : ℤ) :
    (∀ price, sumOf (fun e => p e && decide (itemMonth o e = some m))
        (l.map (Item.priced price)) = monthSum price l p m) ↔
      ∀ e ∈ l, (p e && decide (itemMonth o e = some m)) =
        (p e && decide (calendarMonth e.expense_date = some m)) := by
  have hsum : ∀ price, sumOf (fun e => p e && decide (itemMonth o e = some m))
      (l.map (Item.priced price)) =
        ((l.filter fun e => p e && decide (itemMonth o e = some m)).map price).sum :=
    fun price => sumOf_priced (p := fun e => p e && decide (itemMonth o e = some m))
      (fun e x => by rw [hp, itemMonth_priced]) price l
  simp only [hsum]
  exact sums_agree_iff

theorem current_mem (o : Offset) (now : Instant) : localMonth o now.ms ∈ lastMonths o now := by
  unfold lastMonths
  simp

/-- The calendar is kept when every entry is in its calendar month as far as the six months
of the chart go. -/
theorem byCalendar_iff (o : Offset) (now : Instant) (l : List Item) :
    ByCalendar o now l ↔ ∀ e ∈ l, ∀ m ∈ lastMonths o now,
      (itemMonth o e = some m ↔ calendarMonth e.expense_date = some m) := by
  have hincome := sumOf_month_iff o (p := isIncome) (fun _ _ => rfl) l
  have hother := sumOf_month_iff o (p := fun e => !isIncome e) (fun _ _ => rfl) l
  have hexpense := sumOf_month_iff o (p := isExpense) (fun _ _ => rfl) l
  constructor
  · intro h e he m hm
    have hbucket : ∀ price, bucketOf o (l.map (Item.priced price)) m =
        ⟨monthName m, monthSum price l isIncome m, monthSum price l (fun e => !isIncome e) m⟩ := by
      intro price
      have harea := (h price).2.2
      rw [areaData_eq] at harea
      exact List.map_inj_left.mp harea m hm
    have hin := (hincome m).mp (fun price => congrArg Bucket.income (hbucket price)) e he
    have hout := (hother m).mp (fun price => congrArg Bucket.expense (hbucket price)) e he
    -- every entry is of one of the two kinds
    cases hkind : isIncome e with
    | true => simpa [hkind] using hin
    | false => simpa [hkind] using hout
  · intro h price
    have hmonth : ∀ kind : Item → Bool, ∀ m ∈ lastMonths o now, ∀ e ∈ l,
        (kind e && decide (itemMonth o e = some m)) =
          (kind e && decide (calendarMonth e.expense_date = some m)) := by
      intro kind m hm e he
      rw [decide_eq_decide.mpr (h e he m hm)]
    have hcurrent := current_mem o now
    refine ⟨?_, ?_, ?_⟩
    · rw [monthIncome_eq]
      exact (hincome _).mpr (hmonth isIncome _ hcurrent) price
    · rw [monthExpense_eq]
      exact (hexpense _).mpr (hmonth isExpense _ hcurrent) price
    · rw [areaData_eq]
      refine List.map_congr_left fun m hm => ?_
      unfold bucketOf
      rw [(hincome m).mpr (hmonth _ m hm) price, (hother m).mpr (hmonth _ m hm) price]

/-- For every list of entries, at every instant and offset: the month's totals and the chart
count each entry in its calendar month if and only if the browser is not behind UTC, or no
entry is dated the first day of one of the chart's months or of the month after. -/
theorem attribution_iff (o : Offset) (now : Instant) (l : List Item) :
    ByCalendar o now l ↔ 0 ≤ o.ms ∨ ∀ e ∈ l, ∀ m, dateOnly e.expense_date = some (m, 1) →
      m < localMonth o now.ms - 5 ∨ localMonth o now.ms + 1 < m := by
  rw [byCalendar_iff]
  have hwindow : ∀ m, m ∈ lastMonths o now ↔
      localMonth o now.ms - 5 ≤ m ∧ m ≤ localMonth o now.ms := by
    intro m
    unfold lastMonths
    simp only [List.map_cons, List.map_nil, List.mem_cons, List.not_mem_nil, or_false]
    omega
  constructor
  · intro h
    by_cases ho : 0 ≤ o.ms
    · exact Or.inl ho
    refine Or.inr fun e he m hm => ?_
    by_contra hnear
    -- the entry is counted in the month before, and one of the two months is in the chart
    have hitem : itemMonth o e = some (m - 1) := by
      rw [itemMonth_eq, hm, Option.map_some, if_pos ⟨by omega, rfl⟩]
    have hcal : calendarMonth e.expense_date = some m := by
      unfold calendarMonth
      rw [hm, Option.map_some]
    by_cases hlast : localMonth o now.ms - 5 ≤ m - 1
    · have hm1 := (h e he (m - 1) ((hwindow _).mpr ⟨hlast, by omega⟩)).mp hitem
      rw [hcal] at hm1
      have := Option.some.inj hm1
      omega
    · have hm0 := (h e he m ((hwindow _).mpr ⟨by omega, by omega⟩)).mpr hcal
      rw [hitem] at hm0
      have := Option.some.inj hm0
      omega
  · intro h e he m hm
    have hm := (hwindow m).mp hm
    rw [itemMonth_eq]
    unfold calendarMonth
    cases hd : dateOnly e.expense_date with
    | none => rfl
    | some p =>
      obtain ⟨m', d⟩ := p
      simp only [Option.map_some, Option.some.injEq]
      split
      · rename_i hfirst
        obtain ⟨ho, hd1⟩ := hfirst
        subst hd1
        rcases h with hle | hfar
        · omega
        · have := hfar e he m' hd
          omega
      · rfl

/-! ## An evening in April -/

/-- Noon of 2024-05-15 UTC. -/
def may : Instant := ⟨1715774400000, by decide, by decide⟩

def wage : Item := ⟨8, 100, ascii "2024-05-01", ascii "income"⟩

/-- Five hours behind UTC, an income of the first of May counts in April. -/
theorem attribution_wage :
    (stats eastern may [wage]).monthIncome = 0 ∧
      areaData eastern may [wage] = [⟨"Dec", 0, 0⟩, ⟨"Jan", 0, 0⟩, ⟨"Feb", 0, 0⟩, ⟨"Mar", 0, 0⟩,
        ⟨"Apr", 100, 0⟩, ⟨"May", 0, 0⟩] ∧
      ¬ ByCalendar eastern may [wage] := by
  refine ⟨by decide +kernel, by decide +kernel, fun h => ?_⟩
  have hincome := (h Item.amount).1
  revert hincome
  decide +kernel

end ExpenseTracker.L5.Months
