import ExpenseTracker.Core.JsDate
import ExpenseTracker.Core.Tally
import ExpenseTracker.L5Pages.Labels
import Mathlib.Algebra.BigOperators.Group.List.Basic

/-!
# The totals and the charts of the Dashboard

What the Dashboard computes of the list of expenses it shows, at one instant and at one
offset of the browser from UTC. Amounts are exact numbers here, so sums do not depend on
their order.

* `areaData_eq`: the six-month chart, one bucket after the other.
* `months_agree`: its buckets are the last six months, and the last one is what the
  totals of the month say.
* `pie_conserves`: the pie chart groups the spending by label and loses none of it.
-/
namespace ExpenseTracker.L5.Charts

open ExpenseTracker.Core ExpenseTracker.Core.JsDate ExpenseTracker.L2.Statement
open ExpenseTracker.L5.Labels

/-- What the totals and charts read of an expense. -/
structure Item where
  category_id : Int32
  amount : ℚ
  expense_date : Bytes
  type : Bytes
  deriving DecidableEq

/-- An expense of the page's state. -/
def Item.ofExpense (e : Expense) : Item := ⟨e.category_id, e.amount.val, e.expense_date, e.type⟩

/-- `e.type === 'income'` -/
def isIncome (e : Item) : Bool := e.type == ascii "income"

/-- `e.type === 'expense'` -/
def isExpense (e : Item) : Bool := e.type == ascii "expense"

/-- `reduce((sum, item) => sum + item.amount, 0)` -/
def total (l : List Item) : ℚ := l.foldl (fun sum item => sum + item.amount) 0

/-! ## Totals -/

structure Stats where
  balance : ℚ
  income : ℚ
  expense : ℚ
  monthIncome : ℚ
  monthExpense : ℚ

/-- mirrors src/frontend/src/pages/Dashboard.jsx:147-150 -/
def inCurrentMonth (o : Offset) (now : Instant) (e : Item) : Bool :=
  match parse e.expense_date with
  | none => false
  | some d => getMonth o d == getMonth o now.ms && getFullYear o d == getFullYear o now.ms

/-- mirrors src/frontend/src/pages/Dashboard.jsx:140-156 -/
def stats (o : Offset) (now : Instant) (expenses : List Item) : Stats :=
  let income := total (expenses.filter isIncome)
  let expense := total (expenses.filter isExpense)
  let currentMonthData := expenses.filter (inCurrentMonth o now)
  { balance := income - expense
    income := income
    expense := expense
    monthIncome := total (currentMonthData.filter isIncome)
    monthExpense := total (currentMonthData.filter isExpense) }

/-! ## The pie chart -/

/-- mirrors src/frontend/src/pages/Dashboard.jsx:10-13 -/
def CATEGORIES : LabelTable :=
  [(1, "Food"), (2, "Transport"), (3, "Housing"), (4, "Utilities"), (5, "Entertainment"),
    (7, "Shopping"), (8, "Other")]

/-- `CATEGORIES[e.category_id] || "Other"` -/
def label (e : Item) : String :=
  match CATEGORIES.find? (·.1 == e.category_id) with
  | some c => c.2
  | none => "Other"

/-- `x || 0` of a number that may be absent. -/
def orZero : Option ℚ → ℚ
  | none => 0
  | some x => if x = 0 then 0 else x

/-- mirrors src/frontend/src/pages/Dashboard.jsx:159-163 -/
def pieMap (expenses : List Item) : OrdMap String ℚ :=
  (expenses.filter isExpense).foldl
    (fun pieMap e => pieMap.set (label e) (orZero (pieMap.get (label e)) + e.amount)) .empty

structure Slice where
  name : String
  value : ℚ
  deriving DecidableEq

/-- mirrors src/frontend/src/pages/Dashboard.jsx:164 -/
def pieData (expenses : List Item) : List Slice :=
  (pieMap expenses).entries.map fun k => ⟨k.1, k.2⟩

/-! ## The six-month chart -/

structure Bucket where
  name : String
  income : ℚ
  expense : ℚ
  deriving DecidableEq

def months : List String :=
  ["Jan", "Feb", "Mar", "Apr", "May", "Jun", "Jul", "Aug", "Sep", "Oct", "Nov", "Dec"]

/-- The key of a date, `YYYY-M` with months from 0. -/
def monthKey (o : Offset) (t : ℤ) : Bytes :=
  intText (getFullYear o t) ++ 45 :: intText (getMonth o t)

/-- A round of the loop.
mirrors src/frontend/src/pages/Dashboard.jsx:170-173 -/
def addMonth (o : Offset) (d : ℤ) (areaMap : OrdMap Bytes Bucket) (i : ℕ) : OrdMap Bytes Bucket :=
  let m := ofMonth o (getFullYear o d) (getMonth o d - i)
  let areaMap := areaMap.set (monthKey o m) ⟨months.getD (getMonth o m).toNat "", 0, 0⟩
  if getMonth o m = -1 then
    let m := setMonth o (setFullYear o m (getFullYear o m - 1)) 11
    areaMap.set (monthKey o m) ⟨"Dec", 0, 0⟩
  else areaMap

/-- The keys of the chart before any entry.
mirrors src/frontend/src/pages/Dashboard.jsx:167-174 -/
def areaMap (o : Offset) (now : Instant) : OrdMap Bytes Bucket :=
  [5, 4, 3, 2, 1, 0].foldl (addMonth o now.ms) .empty

/-- The key of an entry; that of no date is `NaN-NaN`.
mirrors src/frontend/src/pages/Dashboard.jsx:177-178 -/
def dateKey (o : Offset) (e : Item) : Bytes :=
  match parse e.expense_date with
  | none => ascii "NaN-NaN"
  | some ed => monthKey o ed

/-- mirrors src/frontend/src/pages/Dashboard.jsx:180-181 -/
def record (b : Bucket) (e : Item) : Bucket :=
  if isIncome e then { b with income := b.income + e.amount }
  else { b with expense := b.expense + e.amount }

/-- mirrors src/frontend/src/pages/Dashboard.jsx:166-184 -/
def areaData (o : Offset) (now : Instant) (expenses : List Item) : List Bucket :=
  ((areaMap o now).accrue (dateKey o) record expenses).values

/-! ## Sums -/

/-- The amounts of the entries that meet `p`, added up. -/
def sumOf (p : Item → Bool) (l : List Item) : ℚ := ((l.filter p).map Item.amount).sum

theorem foldl_amount (l : List Item) (x : ℚ) :
    l.foldl (fun sum item => sum + item.amount) x = x + (l.map Item.amount).sum := by
  induction l generalizing x with
  | nil => simp
  | cons e l ih => rw [List.foldl_cons, ih, List.map_cons, List.sum_cons, add_assoc]

theorem total_filter (p : Item → Bool) (l : List Item) : total (l.filter p) = sumOf p l := by
  unfold total sumOf
  rw [foldl_amount, zero_add]

theorem total_filter_filter (p q : Item → Bool) (l : List Item) :
    total ((l.filter q).filter p) = sumOf (fun e => p e && q e) l := by
  rw [List.filter_filter, total_filter]

theorem sumOf_congr {p q : Item → Bool} {l : List Item} (h : ∀ e ∈ l, p e = q e) :
    sumOf p l = sumOf q l := by
  unfold sumOf
  rw [List.filter_congr h]

/-- An entry with another amount. -/
def Item.priced (price : Item → ℚ) (e : Item) : Item := { e with amount := price e }

theorem sumOf_priced {p : Item → Bool} (hp : ∀ (e : Item) x, p { e with amount := x } = p e)
    (price : Item → ℚ) (l : List Item) :
    sumOf p (l.map (Item.priced price)) = ((l.filter p).map price).sum := by
  have hfilter : (l.filter (p ∘ Item.priced price)) = l.filter p :=
    List.filter_congr fun e _ => hp e (price e)
  unfold sumOf
  rw [List.filter_map, List.map_map, hfilter]
  rfl

theorem foldl_record (l : List Item) (b : Bucket) :
    l.foldl record b =
      ⟨b.name, b.income + sumOf isIncome l, b.expense + sumOf (fun e => !isIncome e) l⟩ := by
  induction l generalizing b with
  | nil => simp [sumOf]
  | cons e l ih =>
    rw [List.foldl_cons, ih]
    unfold record sumOf
    cases h : isIncome e <;> simp [h, add_assoc]

/-! ## Months -/

/-- The local month of an entry's date. -/
def itemMonth (o : Offset) (e : Item) : Option ℤ := (parse e.expense_date).map (localMonth o)

/-- The key of a month. -/
def textKey (m : ℤ) : Bytes := intText (m / 12) ++ 45 :: intText (m % 12)

theorem monthKey_eq (o : Offset) (t : ℤ) : monthKey o t = textKey (localMonth o t) := rfl

theorem not_mem_intText {n : ℤ} (h : 0 ≤ n) : (45 : UInt8) ∉ intText n := by
  unfold intText
  rw [if_neg (not_lt.mpr h)]
  intro hm
  exact absurd (natText_digit hm) (by decide)

/-- A text splits at its last `-` in one way. -/
theorem split_last {a a' b b' : Bytes} {c : UInt8} (h : a ++ c :: b = a' ++ c :: b') (hb : c ∉ b)
    (hb' : c ∉ b') : a = a' ∧ b = b' := by
  have hrev : b.reverse ++ c :: a.reverse = b'.reverse ++ c :: a'.reverse := by
    simpa using congrArg List.reverse h
  have hsuffix : b.reverse = b'.reverse := by
    rw [← takeWhile_ne_append (b := a.reverse) (fun hm => hb (List.mem_reverse.mp hm)), hrev]
    exact takeWhile_ne_append fun hm => hb' (List.mem_reverse.mp hm)
  obtain rfl := List.reverse_injective hsuffix
  exact ⟨List.append_cancel_right h, rfl⟩

theorem textKey_injective : Function.Injective textKey := by
  intro m m' h
  obtain ⟨hy, hm⟩ := split_last h (not_mem_intText (by omega)) (not_mem_intText (by omega))
  have hyear := intText_injective hy
  have hmonth := intText_injective hm
  omega

/-- The key of no date is the key of no month. -/
theorem textKey_ne_nan (m : ℤ) : ascii "NaN-NaN" ≠ textKey m := by
  intro h
  have hmem : (78 : UInt8) ∈ intText (m % 12) := by
    have hsplit : ascii "NaN" ++ 45 :: ascii "NaN" = textKey m := h
    obtain ⟨_, hm⟩ := split_last hsplit (by decide) (not_mem_intText (by omega))
    rw [← hm]
    decide
  unfold intText at hmem
  rw [if_neg (by omega)] at hmem
  exact absurd (natText_digit hmem) (by decide)

theorem dateKey_eq_iff (o : Offset) (e : Item) (m : ℤ) :
    dateKey o e = textKey m ↔ itemMonth o e = some m := by
  unfold dateKey itemMonth
  cases parse e.expense_date with
  | none => simpa using textKey_ne_nan m
  | some ed =>
    show textKey (localMonth o ed) = textKey m ↔ some (localMonth o ed) = some m
    rw [Option.some.injEq]
    exact textKey_injective.eq_iff

theorem inCurrentMonth_iff (o : Offset) (now : Instant) (e : Item) :
    inCurrentMonth o now e = decide (itemMonth o e = some (localMonth o now.ms)) := by
  unfold inCurrentMonth itemMonth
  cases parse e.expense_date with
  | none => simp
  | some d =>
    rw [Bool.eq_iff_iff]
    simpa using month_inj

/-! ## The buckets -/

def monthName (m : ℤ) : String := months.getD (m % 12).toNat ""

/-- A round of the loop adds one month; the clock shows no year of two digits, and the
second half of the round is dead. -/
theorem addMonth_eq (o : Offset) (now : Instant) (areaMap : OrdMap Bytes Bucket) (i : ℕ) :
    addMonth o now.ms areaMap i =
      areaMap.set (textKey (localMonth o now.ms - i))
        ⟨monthName (localMonth o now.ms - i), 0, 0⟩ := by
  have hyear := now.year o
  have hmonth : localMonth o (ofMonth o (getFullYear o now.ms) (getMonth o now.ms - i)) =
      localMonth o now.ms - i := by
    rw [localMonth_ofMonth o (Or.inr (by omega)), ← month_eq o now.ms]
    omega
  have hrange := getMonth_range o (ofMonth o (getFullYear o now.ms) (getMonth o now.ms - i))
  unfold addMonth
  dsimp only
  rw [if_neg (by omega), monthKey_eq, hmonth]
  unfold monthName getMonth
  rw [← hmonth]
  rfl

/-- The six months of the chart. -/
def lastMonths (o : Offset) (now : Instant) : List ℤ :=
  [5, 4, 3, 2, 1, 0].map fun i : ℕ => localMonth o now.ms - i

theorem areaMap_entries (o : Offset) (now : Instant) :
    (areaMap o now).entries = (lastMonths o now).map fun m => (textKey m, ⟨monthName m, 0, 0⟩) := by
  have hloop : areaMap o now = (lastMonths o now).foldl
      (fun areaMap m => areaMap.set (textKey m) ⟨monthName m, 0, 0⟩) .empty := by
    unfold areaMap lastMonths
    rw [List.foldl_map]
    congr 1
    funext areaMap i
    exact addMonth_eq o now areaMap i
  rw [hloop, OrdMap.entries_foldl_set fun m => (textKey m, (⟨monthName m, 0, 0⟩ : Bucket))]
  · rfl
  · show ((lastMonths o now).map textKey).Nodup
    refine List.Nodup.map textKey_injective ?_
    unfold lastMonths
    refine List.Nodup.map_on ?_ (by decide)
    intro i _ j _ h
    omega

/-- A bucket with the entries of a local month. -/
def bucketOf (o : Offset) (l : List Item) (m : ℤ) : Bucket where
  name := monthName m
  income := sumOf (fun e => isIncome e && decide (itemMonth o e = some m)) l
  expense := sumOf (fun e => !isIncome e && decide (itemMonth o e = some m)) l

/-- **The six-month chart.** -/
theorem areaData_eq (o : Offset) (now : Instant) (l : List Item) :
    areaData o now l = (lastMonths o now).map (bucketOf o l) := by
  unfold areaData OrdMap.values
  rw [OrdMap.entries_accrue, areaMap_entries, List.map_map, List.map_map]
  refine List.map_congr_left fun m _ => ?_
  dsimp only [Function.comp_apply]
  rw [foldl_record]
  have hkey : (l.filter fun e => decide (dateKey o e = textKey m)) =
      l.filter fun e => decide (itemMonth o e = some m) :=
    List.filter_congr fun e _ => decide_eq_decide.mpr (dateKey_eq_iff o e m)
  unfold bucketOf sumOf
  simp only [hkey, List.filter_filter, zero_add]

theorem monthIncome_eq (o : Offset) (now : Instant) (l : List Item) :
    (stats o now l).monthIncome =
      sumOf (fun e => isIncome e && decide (itemMonth o e = some (localMonth o now.ms))) l := by
  show total ((l.filter (inCurrentMonth o now)).filter isIncome) = _
  rw [total_filter_filter]
  exact sumOf_congr fun e _ => by rw [inCurrentMonth_iff]

theorem monthExpense_eq (o : Offset) (now : Instant) (l : List Item) :
    (stats o now l).monthExpense =
      sumOf (fun e => isExpense e && decide (itemMonth o e = some (localMonth o now.ms))) l := by
  show total ((l.filter (inCurrentMonth o now)).filter isExpense) = _
  rw [total_filter_filter]
  exact sumOf_congr fun e _ => by rw [inCurrentMonth_iff]

/-- For every list of entries of the two types, at every instant and offset: the chart has
one bucket for each of the last six months of the viewer, from the fifth before the current
one up to it, with the exact sums of the month's entries, and the current month's are the
month's totals. -/
theorem months_agree (o : Offset) (now : Instant) (l : List Item)
    (h : ∀ e ∈ l, e.type = ascii "income" ∨ e.type = ascii "expense") :
    let current := 12 * getFullYear o now.ms + getMonth o now.ms
    let bucket (m : ℤ) : Bucket :=
      { name := monthName m
        income := sumOf (fun e => isIncome e && decide (itemMonth o e = some m)) l
        expense := sumOf (fun e => isExpense e && decide (itemMonth o e = some m)) l }
    areaData o now l =
        [current - 5, current - 4, current - 3, current - 2, current - 1, current].map bucket ∧
      (bucket current).income = (stats o now l).monthIncome ∧
      (bucket current).expense = (stats o now l).monthExpense := by
  intro current bucket
  have hcurrent : current = localMonth o now.ms := month_eq o now.ms
  have hbucket : ∀ m, bucketOf o l m = bucket m := by
    intro m
    have hexpense : (bucketOf o l m).expense = (bucket m).expense := by
      refine sumOf_congr fun e he => ?_
      unfold isIncome isExpense
      rcases h e he with ht | ht <;> rw [ht] <;> rfl
    exact congrArg (Bucket.mk (monthName m) _) hexpense
  refine ⟨?_, ?_, ?_⟩
  · rw [areaData_eq, hcurrent, List.map_congr_left fun m _ => hbucket m]
    unfold lastMonths
    simp only [List.map_cons, List.map_nil, Nat.cast_ofNat, Nat.cast_one, Nat.cast_zero, sub_zero]
  · rw [monthIncome_eq, ← hcurrent]
  · rw [monthExpense_eq, ← hcurrent]

/-- Noon of 2024-01-15 UTC. -/
def january : Instant := ⟨1705320000000, by decide, by decide⟩

/-- Five hours behind UTC. -/
def eastern : Offset := ⟨-18000000, by decide⟩

def salary : Item := ⟨8, 2000, ascii "2024-01-10", ascii "income"⟩

def rent : Item := ⟨3, 800, ascii "2023-12-20", ascii "expense"⟩

theorem months_agree_january :
    areaData eastern january [salary, rent] =
        [⟨"Aug", 0, 0⟩, ⟨"Sep", 0, 0⟩, ⟨"Oct", 0, 0⟩, ⟨"Nov", 0, 0⟩, ⟨"Dec", 0, 800⟩,
          ⟨"Jan", 2000, 0⟩] ∧
      (stats eastern january [salary, rent]).monthIncome = 2000 ∧
      (stats eastern january [salary, rent]).monthExpense = 0 := by
  have h := months_agree eastern january [salary, rent] (List.forall_mem_cons.mpr
    ⟨Or.inl rfl, List.forall_mem_singleton.mpr (Or.inr rfl)⟩)
  obtain ⟨harea, hincome, hexpense⟩ := h
  refine ⟨harea.trans ?_, hincome.symm.trans ?_, hexpense.symm.trans ?_⟩ <;> decide +kernel

/-! ## The slices -/

theorem orZero_eq (x : Option ℚ) : orZero x = x.getD 0 := by
  cases x with
  | none => rfl
  | some x =>
    show (if x = 0 then 0 else x) = x
    split
    · rename_i h
      exact h.symm
    · rfl

/-- A sum that has come to 0 is a sum like any other. -/
theorem pieMap_eq (l : List Item) :
    pieMap l = OrdMap.tally label Item.amount (l.filter isExpense) := by
  unfold pieMap OrdMap.tally OrdMap.add
  simp only [orZero_eq]

/-- The ids that are labelled "Other". -/
theorem label_other (e : Item) :
    label e = "Other" ↔ e.category_id = 8 ∨ e.category_id ∉ CATEGORIES.map Prod.fst := by
  unfold label
  cases hf : CATEGORIES.find? (·.1 == e.category_id) with
  | none =>
    have hnot : e.category_id ∉ CATEGORIES.map Prod.fst := by
      intro hm
      obtain ⟨c, hc, he⟩ := List.mem_map.mp hm
      have hno := List.find?_eq_none.mp hf c hc
      simp [he] at hno
    simp [hnot]
  | some c =>
    have hc := List.mem_of_find?_eq_some hf
    have he : c.1 = e.category_id := by simpa using List.find?_some hf
    have hall : ∀ c ∈ CATEGORIES, c.2 = "Other" ↔ c.1 = 8 ∨ c.1 ∉ CATEGORIES.map Prod.fst := by
      decide
    rw [← he]
    exact hall c hc

/-- **The pie chart**, of every list of entries: each label occurs once, exactly the labels
of expenses occur, with the sum of their amounts, the slices make up the spending, and the
order of the list shows only in the order of the slices. -/
theorem pie_conserves (o : Offset) (now : Instant) (l : List Item) :
    ((pieData l).map Slice.name).Nodup ∧
    (∀ name, name ∈ (pieData l).map Slice.name ↔ ∃ e ∈ l, isExpense e = true ∧ label e = name) ∧
    (∀ s ∈ pieData l, s.value = sumOf (fun e => isExpense e && label e == s.name) l) ∧
    ((pieData l).map Slice.value).sum = (stats o now l).expense ∧
    (∀ e : Item, label e = "Other" ↔ e.category_id = 8 ∨ e.category_id ∉ CATEGORIES.map Prod.fst) ∧
    ∀ l', l.Perm l' → (pieData l).Perm (pieData l') := by
  have hnames : (pieData l).map Slice.name = (pieMap l).keys := by
    unfold pieData
    rw [List.map_map]
    rfl
  refine ⟨?_, ?_, ?_, ?_, label_other, ?_⟩
  · rw [hnames]
    exact (pieMap l).nodup
  · intro name
    rw [hnames, pieMap_eq, OrdMap.mem_keys_tally]
    simp only [List.mem_filter, and_assoc]
  · intro s hs
    obtain ⟨⟨k, x⟩, hk, rfl⟩ := List.mem_map.mp hs
    have hget := OrdMap.mem_entries.mp hk
    rw [pieMap_eq, OrdMap.get_tally] at hget
    split at hget
    · have hfilter : (l.filter isExpense).filter (fun e => decide (label e = k)) =
          l.filter fun e => isExpense e && label e == k := by
        rw [List.filter_filter]
        refine List.filter_congr fun e _ => ?_
        rw [Bool.and_comm]
        rfl
      rw [← Option.some.inj hget]
      unfold OrdMap.under
      rw [hfilter]
      rfl
    · cases hget
  · have hvalues : (pieData l).map Slice.value = (pieMap l).values := by
      unfold pieData
      rw [List.map_map]
      rfl
    rw [hvalues, pieMap_eq, OrdMap.sum_tally]
    exact (total_filter isExpense l).symm
  · intro l' hperm
    unfold pieData
    rw [pieMap_eq, pieMap_eq]
    exact (OrdMap.tally_perm label Item.amount (hperm.filter _)).map _

end ExpenseTracker.L5.Charts
