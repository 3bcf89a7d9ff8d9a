import ExpenseTracker.L3Server.CrowLoad

/-!
# The numbers of a request body (`decode_number`)

The transition table of `decode_number` against the numbers of a tree: it
takes every number of RFC 8259 but a zero with an exponent behind it, and
beyond them a point or the sign of an exponent without digits.

* `decodeNumber_text`: a number is kept as it is written, or refused.
* `decodeNumber_tree`: what the table lets pass is a number.
-/
namespace ExpenseTracker.L3.CrowLoad

open ExpenseTracker.Core ExpenseTracker.Core.JsonSyntax NumberParsingState

/-! ## Steps of the table -/

/-- A state that stays as it is over digits. -/
def Loops (q : NumberParsingState) : Prop :=
  q = Digits ∨ q = DigitsAfterPoints ∨ q = DigitsAfterE

theorem Loops.ne_invalid {q : NumberParsingState} (h : Loops q) : q ≠ Invalid := by
  rcases h with rfl | rfl | rfl <;> decide

theorem Loops.accepts {q : NumberParsingState} (h : Loops q) : q.accepts = true := by
  rcases h with rfl | rfl | rfl <;> rfl

/-- A byte the table knows nothing about: a number ends in front of it. -/
def Ends (s : Bytes) : Prop := ∀ c ∈ s.head?, row c = none

theorem ends_nil : Ends [] := by simp [Ends]

theorem ends_cons {c : UInt8} (h : row c = none) (s : Bytes) : Ends (c :: s) := by
  simpa [Ends] using h

theorem row_digit {b : UInt8} (h : isDigit b = true) : ∃ first : NumberParsingState,
    row b = some [first, first, Invalid, Digits, DigitsAfterPoints, DigitsAfterE, DigitsAfterE] ∧
      first = if b = 48 then ZeroFirst else Digits := by
  unfold isDigit at h
  rw [decide_eq_true_eq] at h
  unfold row
  by_cases h48 : b = 48
  · exact ⟨ZeroFirst, if_pos h48, (if_pos h48).symm⟩
  · have hb : 49 ≤ b ∧ b ≤ 57 := by
      refine ⟨?_, h.2⟩
      have hne : b.toNat ≠ 48 := fun he => h48 (UInt8.toNat_inj.mp he)
      have hle := UInt8.le_iff_toNat_le.mp h.1
      rw [UInt8.le_iff_toNat_le]
      simp only [UInt8.reduceToNat] at hle ⊢
      omega
    exact ⟨Digits, (if_neg h48).trans (if_pos hb), (if_neg h48).symm⟩

theorem not_digit_of_row {b : UInt8} (h : row b = none) : isDigit b = false := by
  by_contra hd
  obtain ⟨_, hrow, _⟩ := row_digit (Bool.not_eq_false _ ▸ hd : isDigit b = true)
  rw [hrow] at h
  cases h

theorem numberLoop_step {q t : NumberParsingState} (hs : q ≠ Invalid) {b : UInt8}
    {r : List NumberParsingState} (hr : row b = some r) (hn : r.getD q.index Invalid = t)
    (s : Bytes) : numberLoop q false (b :: s) =
      (numberLoop t (49 ≤ b && b ≤ 57) s).map fun p => (b :: p.1, p.2) := by
  rw [numberLoop, if_neg (by simp), if_neg hs]
  simp only [hr, hn]

theorem numberLoop_invalid (run : Bool) (s : Bytes) : numberLoop Invalid run s = none := by
  induction s generalizing run with
  | nil => rfl
  | cons b s ih =>
    rw [numberLoop]
    split
    · rw [ih]
      rfl
    · rfl

/-- A byte that the table sends to `Invalid`. -/
theorem numberLoop_dead {q : NumberParsingState} (hs : q ≠ Invalid) {b : UInt8}
    {r : List NumberParsingState} (hr : row b = some r) (hn : r.getD q.index Invalid = Invalid)
    (s : Bytes) : numberLoop q false (b :: s) = none := by
  rw [numberLoop_step hs hr hn, numberLoop_invalid]
  rfl

theorem numberLoop_end {q : NumberParsingState} (hs : q.accepts = true) (run : Bool)
    {s : Bytes} (h : Ends s) : numberLoop q run s = some ([], s) := by
  cases s with
  | nil => exact if_pos hs
  | cons c s =>
    have hrow := h c rfl
    have hne : q ≠ Invalid := by
      rintro rfl
      exact absurd hs (by decide)
    have hdigit := not_digit_of_row hrow
    rw [numberLoop, if_neg (by simp [hdigit]), if_neg hne]
    simp only [hrow]
    rw [if_pos hs]

/-- Over digits it does not matter whether the table is asked. -/
theorem numberLoop_digit {q : NumberParsingState} (hs : Loops q) (run : Bool) {b : UInt8}
    (hb : isDigit b = true) (s : Bytes) :
    ∃ run', numberLoop q run (b :: s) =
      (numberLoop q run' s).map fun p => (b :: p.1, p.2) := by
  obtain ⟨first, hrow, _⟩ := row_digit hb
  cases run with
  | true => exact ⟨true, by rw [numberLoop, if_pos (by simp [hb])]⟩
  | false =>
    refine ⟨_, numberLoop_step hs.ne_invalid hrow ?_ s⟩
    rcases hs with rfl | rfl | rfl <;> rfl

theorem numberLoop_digits {q : NumberParsingState} (hs : Loops q) {ds : Bytes}
    (hd : ∀ b ∈ ds, isDigit b = true) (s : Bytes) :
    ∀ run, ∃ run', numberLoop q run (ds ++ s) =
      (numberLoop q run' s).map fun p => (ds ++ p.1, p.2) := by
  induction ds with
  | nil => exact fun run => ⟨run, by simp⟩
  | cons b ds ih =>
    intro run
    obtain ⟨hb, hrest⟩ := List.forall_mem_cons.mp hd
    obtain ⟨run₁, h₁⟩ := numberLoop_digit hs run hb (ds ++ s)
    obtain ⟨run₂, h₂⟩ := ih hrest run₁
    refine ⟨run₂, ?_⟩
    rw [List.cons_append, h₁, h₂, Option.map_map]
    rfl

/-- Behind digits the table is asked for what is no digit. -/
theorem numberLoop_run {q : NumberParsingState} (run : Bool) {s : Bytes} (h : DigitsEnd s) :
    numberLoop q run s = numberLoop q false s := by
  cases s with
  | nil => rfl
  | cons c s =>
    have hc : isDigit c = false := h c rfl
    have hskip : ∀ run, ¬ (run && isDigit c) = true := by simp [hc]
    rw [numberLoop, numberLoop, if_neg (hskip run), if_neg (hskip false)]

/-- The digits of an exponent. -/
theorem numberLoop_expDigits {ds r : Bytes} (hd : ∀ b ∈ ds, isDigit b = true) (hr : Ends r)
    (run : Bool) : numberLoop DigitsAfterE run (ds ++ r) = some (ds, r) := by
  obtain ⟨run', h⟩ := numberLoop_digits (q := DigitsAfterE) (Or.inr (Or.inr rfl)) hd r run
  rw [h, numberLoop_end rfl run' hr]
  simp

/-- The exponent, in a state that takes one. -/
theorem numberLoop_exp {q : NumberParsingState} (hs : q = Digits ∨ q = DigitsAfterPoints)
    (e : Exponent) {r : Bytes} (hr : Ends r) :
    numberLoop q false (e.text ++ r) = some (e.text, r) := by
  have hrow : row e.letter = some [Invalid, Invalid, Invalid, E, E, Invalid, Invalid] := by
    rcases e.isLetter with h | h <;> rw [h] <;> rfl
  have hrest : ∀ run, run = false →
      numberLoop E run (signText e.sign ++ (e.digits ++ r)) = some (signText e.sign ++ e.digits, r) := by
    rintro _ rfl
    have hdigits := fun run => numberLoop_expDigits e.areDigits hr run
    cases hsign : e.sign with
    | some minus =>
      have hstep : numberLoop E false (signText (some minus) ++ (e.digits ++ r)) =
          (numberLoop DigitsAfterE false (e.digits ++ r)).map
            fun p => (signText (some minus) ++ p.1, p.2) := by
        cases minus <;> rfl
      rw [hstep, hdigits]
      rfl
    | none =>
      cases hd : e.digits with
      | nil =>
        rcases e.some with h | h
        · exact absurd hsign h
        · exact absurd hd h
      | cons b ds =>
        have hall := e.areDigits
        rw [hd] at hall
        obtain ⟨hb, hrest⟩ := List.forall_mem_cons.mp hall
        obtain ⟨first, hrow, _⟩ := row_digit hb
        have hstep := numberLoop_step (q := E) (by decide) hrow rfl (ds ++ r)
        refine hstep.trans ?_
        show (numberLoop DigitsAfterE _ (ds ++ r)).map _ = _
        rw [numberLoop_expDigits hrest hr]
        rfl
  have hletter : (decide (49 ≤ e.letter) && decide (e.letter ≤ 57)) = false := by
    rcases e.isLetter with h | h <;> rw [h] <;> rfl
  have hstep := numberLoop_step (q := q) (t := E)
    (by rcases hs with rfl | rfl <;> decide) hrow (by rcases hs with rfl | rfl <;> rfl)
    (signText e.sign ++ (e.digits ++ r))
  have htext : e.text ++ r = e.letter :: (signText e.sign ++ (e.digits ++ r)) := by
    simp [Exponent.text]
  rw [htext, hstep, hrest _ hletter]
  rfl

theorem numberLoop_expText {q : NumberParsingState} (hs : q = Digits ∨ q = DigitsAfterPoints)
    (run : Bool) (o : Option Exponent) {r : Bytes} (hr : Ends r) :
    numberLoop q run (expText o ++ r) = some (expText o, r) := by
  cases o with
  | none => exact numberLoop_end (by rcases hs with rfl | rfl <;> rfl) run hr
  | some e =>
    have hend : DigitsEnd (e.text ++ r) := by
      intro c hc
      obtain rfl : e.letter = c := Option.some.inj hc
      rcases e.isLetter with h | h <;> rw [h] <;> rfl
    rw [expText, numberLoop_run run hend]
    exact numberLoop_exp hs e hr

/-- The point and what stands behind it. -/
theorem numberLoop_point {q : NumberParsingState} (hs : q = ZeroFirst ∨ q = Digits) {ds : Bytes}
    (hd : ∀ b ∈ ds, isDigit b = true) (o : Option Exponent) {r : Bytes} (hr : Ends r) :
    numberLoop q false (46 :: (ds ++ (expText o ++ r))) = some (46 :: (ds ++ expText o), r) := by
  have hstep : numberLoop q false (46 :: (ds ++ (expText o ++ r))) =
      (numberLoop DigitsAfterPoints false (ds ++ (expText o ++ r))).map
        fun p => (46 :: p.1, p.2) := by
    rcases hs with rfl | rfl <;> rfl
  obtain ⟨run, hrun⟩ := numberLoop_digits (q := DigitsAfterPoints) (Or.inr (Or.inl rfl)) hd
    (expText o ++ r) false
  rw [hstep, hrun, numberLoop_expText (Or.inr rfl) run o hr]
  rfl

/-- What the parser does not take: an exponent right behind a zero. -/
def ZeroExp (n : Numeral) : Prop := n.int = [48] ∧ n.frac = none ∧ n.exp.isSome

instance (n : Numeral) : Decidable (ZeroExp n) := inferInstanceAs (Decidable (_ ∧ _ ∧ _))

theorem numberLoop_zero (n : Numeral) (h48 : n.int = [48]) {r : Bytes} (hr : Ends r) :
    numberLoop ZeroFirst false (fracText n.frac ++ (expText n.exp ++ r)) =
      if ZeroExp n then none else some (fracText n.frac ++ expText n.exp, r) := by
  cases hfrac : n.frac with
  | some ds =>
    have hnot : ¬ ZeroExp n := fun h => by simpa [hfrac] using h.2.1
    rw [if_neg hnot]
    exact numberLoop_point (Or.inl rfl) (n.fracDigits ds hfrac) n.exp hr
  | none =>
    cases hexp : n.exp with
    | none =>
      have hnot : ¬ ZeroExp n := fun h => by simpa [hexp] using h.2.2
      rw [if_neg hnot]
      exact numberLoop_end rfl false hr
    | some e =>
      have hzero : ZeroExp n := ⟨h48, hfrac, by rw [hexp]; rfl⟩
      rw [if_pos hzero]
      have hrow : row e.letter = some [Invalid, Invalid, Invalid, E, E, Invalid, Invalid] := by
        rcases e.isLetter with h | h <;> rw [h] <;> rfl
      refine (numberLoop_step (q := ZeroFirst) (by decide) hrow rfl _).trans ?_
      show (numberLoop Invalid _ _).map _ = _
      rw [numberLoop_invalid]
      rfl

theorem numberLoop_nonzero (n : Numeral) {ds : Bytes} (hd : ∀ b ∈ ds, isDigit b = true) {r : Bytes}
    (hr : Ends r) (run : Bool) :
    numberLoop Digits run (ds ++ (fracText n.frac ++ (expText n.exp ++ r))) =
      some (ds ++ (fracText n.frac ++ expText n.exp), r) := by
  obtain ⟨run', hrun⟩ := numberLoop_digits (q := Digits) (Or.inl rfl) hd
    (fracText n.frac ++ (expText n.exp ++ r)) run
  have hrest : numberLoop Digits run' (fracText n.frac ++ (expText n.exp ++ r)) =
      some (fracText n.frac ++ expText n.exp, r) := by
    cases hfrac : n.frac with
    | none => exact numberLoop_expText (Or.inl rfl) run' n.exp hr
    | some ds =>
      rw [numberLoop_run run' (by intro c hc; obtain rfl : 46 = c := Option.some.inj hc; rfl)]
      exact numberLoop_point (Or.inr rfl) (n.fracDigits ds hfrac) n.exp hr
  rw [hrun, hrest]
  rfl

/-- Behind the sign. -/
theorem numberLoop_unsigned (n : Numeral) {q : NumberParsingState} (hs : q = Minus ∨ q = AfterMinus)
    {r : Bytes} (hr : Ends r) :
    numberLoop q false (n.int ++ (fracText n.frac ++ (expText n.exp ++ r))) =
      if ZeroExp n then none else some (n.int ++ (fracText n.frac ++ expText n.exp), r) := by
  cases hi : n.int with
  | nil => exact absurd hi n.intSome
  | cons b ds =>
    have hall := n.intDigits
    rw [hi] at hall
    obtain ⟨hb, hrest⟩ := List.forall_mem_cons.mp hall
    obtain ⟨first, hrow, hfirst⟩ := row_digit hb
    have hstep := fun s => numberLoop_step (q := q) (t := first)
      (by rcases hs with rfl | rfl <;> decide) hrow (by rcases hs with rfl | rfl <;> rfl) s
    rw [List.cons_append, hstep]
    by_cases h48 : b = 48
    · have hzero : n.int = [48] := n.noLeading (by rw [hi, h48]; rfl)
      have hds : ds = [] := by
        rw [hi] at hzero
        exact (List.cons.inj hzero).2
      rw [hfirst, if_pos h48, hds, h48]
      show (numberLoop ZeroFirst false _).map _ = _
      rw [List.nil_append, numberLoop_zero n hzero hr]
      split <;> rfl
    · have hnot : ¬ ZeroExp n := by
        intro hz
        have h := hz.1
        rw [hi] at h
        exact h48 (List.cons.inj h).1
      rw [hfirst, if_neg h48, numberLoop_nonzero n hrest hr, if_neg hnot]
      rfl

/-- A number is kept as it is written, unless an exponent stands right behind a zero. -/
theorem decodeNumber_text (n : Numeral) {r : Bytes} (hr : Ends r) :
    decodeNumber (n.text ++ r) = if ZeroExp n then none else some (n.text, r) := by
  unfold decodeNumber
  cases hneg : n.neg with
  | true =>
    have htext : n.text ++ r = 45 :: (n.int ++ (fracText n.frac ++ (expText n.exp ++ r))) := by
      simp [Numeral.text, hneg]
    rw [htext]
    show (numberLoop AfterMinus false _).map _ = _
    rw [numberLoop_unsigned n (Or.inr rfl) hr]
    split
    · rfl
    · simp [Numeral.text, hneg]
  | false =>
    have htext : n.text ++ r = n.int ++ (fracText n.frac ++ (expText n.exp ++ r)) := by
      simp [Numeral.text, hneg]
    rw [htext, numberLoop_unsigned n (Or.inl rfl) hr]
    split
    · rfl
    · simp [Numeral.text, hneg]

/-! ## What the parser takes for a number -/

theorem row_cases (c : UInt8) : row c = none ∨ isDigit c = true ∨ c = 46 ∨ c = 45 ∨ c = 43 ∨
    c = 101 ∨ c = 69 := by
  unfold row isDigit
  rw [decide_eq_true_eq]
  grind

theorem digitsEnd_dropWhile (s : Bytes) : DigitsEnd (s.dropWhile isDigit) := by
  intro c hc
  have hnot := List.head?_dropWhile_not isDigit s
  rw [hc] at hnot
  simpa using hnot

theorem numberLoop_split {q : NumberParsingState} (hs : Loops q) (run : Bool) (s : Bytes) :
    numberLoop q run s = (numberLoop q false (s.dropWhile isDigit)).map
      fun p => (s.takeWhile isDigit ++ p.1, p.2) := by
  obtain ⟨run', h⟩ := numberLoop_digits hs (fun b hb => List.mem_takeWhile_imp hb)
    (s.dropWhile isDigit) run
  rw [List.takeWhile_append_dropWhile, numberLoop_run run' (digitsEnd_dropWhile s)] at h
  exact h

/-- Behind digits stands the end, or a byte the table sends somewhere else. -/
theorem numberLoop_behind {q : NumberParsingState} (hs : Loops q) {s t r : Bytes}
    (h : numberLoop q false s = some (t, r)) (hend : DigitsEnd s) :
    (t = [] ∧ s = r) ∨ ∃ c s', s = c :: s' ∧ (c = 46 ∨ c = 45 ∨ c = 43 ∨ c = 101 ∨ c = 69) := by
  cases s with
  | nil =>
    have hnil := numberLoop_end hs.accepts false ends_nil
    rw [hnil] at h
    cases h
    exact Or.inl ⟨rfl, rfl⟩
  | cons c s =>
    rcases row_cases c with hc | hc | hc
    · have hstop := numberLoop_end hs.accepts false (ends_cons hc s)
      rw [hstop] at h
      cases h
      exact Or.inl ⟨rfl, rfl⟩
    · rw [hend c rfl] at hc
      cases hc
    · exact Or.inr ⟨c, s, rfl, hc⟩

theorem expDigits_inv {run : Bool} {s t r : Bytes} (h : numberLoop DigitsAfterE run s = some (t, r)) :
    s = t ++ r ∧ ∀ b ∈ t, isDigit b = true := by
  have hloops : Loops DigitsAfterE := Or.inr (Or.inr rfl)
  rw [numberLoop_split hloops] at h
  obtain ⟨⟨t', r'⟩, ht, he⟩ := Option.map_eq_some_iff.mp h
  cases he
  rcases numberLoop_behind hloops ht (digitsEnd_dropWhile s) with ⟨rfl, hs⟩ | ⟨c, u, hs, hc⟩
  · rw [List.append_nil, ← hs, List.takeWhile_append_dropWhile]
    exact ⟨rfl, fun b hb => List.mem_takeWhile_imp hb⟩
  · have hdead : numberLoop DigitsAfterE false (c :: u) = none := by
      rcases hc with rfl | rfl | rfl | rfl | rfl <;> exact numberLoop_dead (by decide) rfl rfl u
    rw [hs, hdead] at ht
    cases ht

theorem exp_inv {c : UInt8} (hc : c = 101 ∨ c = 69) {s t r : Bytes}
    (h : numberLoop E false s = some (t, r)) :
    ∃ e : Exponent, c :: s = e.text ++ r ∧ c :: t = e.text := by
  cases s with
  | nil => cases h
  | cons b s =>
    rcases row_cases b with hb | hb | hb
    · have hdead : numberLoop E false (b :: s) = none := by
        rw [numberLoop, if_neg (by simp)]
        simp only [hb]
        rfl
      rw [hdead] at h
      cases h
    · obtain ⟨first, hrow, _⟩ := row_digit hb
      have hstep := numberLoop_step (q := E) (t := DigitsAfterE) (by decide) hrow rfl s
      rw [hstep] at h
      obtain ⟨⟨t', r'⟩, ht, he⟩ := Option.map_eq_some_iff.mp h
      cases he
      obtain ⟨rfl, hd⟩ := expDigits_inv ht
      exact ⟨⟨c, none, b :: t', hc, List.forall_mem_cons.mpr ⟨hb, hd⟩, Or.inr (by simp)⟩, rfl, rfl⟩
    · have hsign : ∀ minus : Bool, b = (if minus then 45 else 43) →
          (numberLoop DigitsAfterE false s).map (fun p => (b :: p.1, p.2)) = some (t, r) →
          ∃ e : Exponent, c :: b :: s = e.text ++ r ∧ c :: t = e.text := by
        intro minus hminus hmap
        obtain ⟨⟨t', r'⟩, ht, he⟩ := Option.map_eq_some_iff.mp hmap
        cases he
        obtain ⟨rfl, hd⟩ := expDigits_inv ht
        refine ⟨⟨c, some minus, t', hc, hd, Or.inl (by simp)⟩, ?_, ?_⟩ <;>
          cases minus <;> simp [Exponent.text, signText, hminus]
      have hdead : b = 46 ∨ b = 101 ∨ b = 69 → numberLoop E false (b :: s) = none := by
        rintro (rfl | rfl | rfl) <;> exact numberLoop_dead (by decide) rfl rfl s
      rcases hb with hb | rfl | rfl | hb
      · rw [hdead (Or.inl hb)] at h
        cases h
      · exact hsign true rfl h
      · exact hsign false rfl h
      · rw [hdead (Or.inr hb)] at h
        cases h

/-- An exponent or nothing, behind digits in a state that takes one. -/
theorem expText_inv {q : NumberParsingState} (hs : q = Digits ∨ q = DigitsAfterPoints)
    {s t r : Bytes} (h : numberLoop q false s = some (t, r)) (hend : DigitsEnd s)
    (hpoint : ∀ u, s ≠ 46 :: u) : ∃ o : Option Exponent, s = expText o ++ r ∧ t = expText o := by
  have hloops : Loops q := by
    rcases hs with rfl | rfl
    · exact Or.inl rfl
    · exact Or.inr (Or.inl rfl)
  rcases numberLoop_behind hloops h hend with ⟨rfl, rfl⟩ | ⟨c, u, rfl, hc⟩
  · exact ⟨none, rfl, rfl⟩
  have hdead : c = 45 ∨ c = 43 → numberLoop q false (c :: u) = none := by
    rintro (rfl | rfl) <;> rcases hs with rfl | rfl <;>
      exact numberLoop_dead (by decide) rfl rfl u
  have hexp : c = 101 ∨ c = 69 → ∃ o : Option Exponent, c :: u = expText o ++ r ∧ t = expText o := by
    intro hl
    have hstep : numberLoop q false (c :: u) = (numberLoop E false u).map fun p => (c :: p.1, p.2) := by
      rcases hl with rfl | rfl <;> rcases hs with rfl | rfl <;> rfl
    rw [hstep] at h
    obtain ⟨⟨t', r'⟩, ht, he⟩ := Option.map_eq_some_iff.mp h
    cases he
    obtain ⟨e, he1, he2⟩ := exp_inv hl ht
    exact ⟨some e, he1, he2⟩
  rcases hc with rfl | hc | hc | hc
  · exact absurd rfl (hpoint u)
  · rw [hdead (Or.inl hc)] at h
    cases h
  · rw [hdead (Or.inr hc)] at h
    cases h
  · exact hexp hc

/-- What stands behind a point. -/
theorem fraction_inv {run : Bool} {s t r : Bytes}
    (h : numberLoop DigitsAfterPoints run s = some (t, r)) : ∃ (ds : Bytes) (o : Option Exponent),
      (∀ b ∈ ds, isDigit b = true) ∧ s = ds ++ (expText o ++ r) ∧ t = ds ++ expText o := by
  have hloops : Loops DigitsAfterPoints := Or.inr (Or.inl rfl)
  rw [numberLoop_split hloops] at h
  obtain ⟨⟨t', r'⟩, ht, he⟩ := Option.map_eq_some_iff.mp h
  cases he
  have hpoint : ∀ u, s.dropWhile isDigit ≠ 46 :: u := by
    intro u hu
    rw [hu, numberLoop_dead (by decide) rfl rfl u] at ht
    cases ht
  obtain ⟨o, ho, hto⟩ := expText_inv (Or.inr rfl) ht (digitsEnd_dropWhile s) hpoint
  refine ⟨s.takeWhile isDigit, o, fun b hb => List.mem_takeWhile_imp hb, ?_, by rw [hto]⟩
  rw [← ho, List.takeWhile_append_dropWhile]

/-- What stands behind the integer part. -/
theorem behindInt_inv {q : NumberParsingState} (hs : q = ZeroFirst ∨ q = Digits) {s t r : Bytes}
    (h : numberLoop q false s = some (t, r)) (hend : DigitsEnd s) :
    ∃ (f : Option Bytes) (o : Option Exponent), (∀ ds ∈ f, ∀ b ∈ ds, isDigit b = true) ∧
      s = fracText f ++ (expText o ++ r) ∧ t = fracText f ++ expText o ∧
      (q = ZeroFirst → f = none → o = none) := by
  by_cases hp : ∃ u, s = 46 :: u
  · obtain ⟨u, rfl⟩ := hp
    have hstep : numberLoop q false (46 :: u) =
        (numberLoop DigitsAfterPoints false u).map fun p => (46 :: p.1, p.2) := by
      rcases hs with rfl | rfl <;> rfl
    rw [hstep] at h
    obtain ⟨⟨t', r'⟩, ht, he⟩ := Option.map_eq_some_iff.mp h
    cases he
    obtain ⟨ds, o, hd, rfl, rfl⟩ := fraction_inv ht
    refine ⟨some ds, o, ?_, rfl, rfl, by simp⟩
    rintro _ ⟨⟩
    exact hd
  · have hpoint : ∀ u, s ≠ 46 :: u := fun u hu => hp ⟨u, hu⟩
    rcases hs with rfl | rfl
    · -- behind a zero only the end is left
      cases s with
      | nil =>
        cases h
        exact ⟨none, none, by simp, rfl, rfl, fun _ _ => rfl⟩
      | cons c u =>
        rcases row_cases c with hc | hc | hc
        · rw [numberLoop_end rfl false (ends_cons hc u)] at h
          cases h
          exact ⟨none, none, by simp, rfl, rfl, fun _ _ => rfl⟩
        · rw [hend c rfl] at hc
          cases hc
        · have hdead : c = 45 ∨ c = 43 ∨ c = 101 ∨ c = 69 →
              numberLoop ZeroFirst false (c :: u) = none := by
            rintro (rfl | rfl | rfl | rfl) <;> exact numberLoop_dead (by decide) rfl rfl u
          rcases hc with rfl | hc
          · exact absurd rfl (hpoint u)
          · rw [hdead hc] at h
            cases h
    · obtain ⟨o, rfl, rfl⟩ := expText_inv (Or.inl rfl) h hend hpoint
      exact ⟨none, o, by simp, rfl, rfl, by simp⟩

/-- Behind the sign. -/
theorem unsigned_inv {q : NumberParsingState} (hs : q = Minus ∨ q = AfterMinus) {b : UInt8}
    (hb : isDigit b = true) {s t r : Bytes} (h : numberLoop q false (b :: s) = some (t, r))
    (neg : Bool) : ∃ n : Numeral, n.neg = neg ∧ ¬ ZeroExp n ∧
      b :: s = n.int ++ (fracText n.frac ++ (expText n.exp ++ r)) ∧
      t = n.int ++ (fracText n.frac ++ expText n.exp) := by
  obtain ⟨first, hrow, hfirst⟩ := row_digit hb
  have hstep := numberLoop_step (q := q) (t := first)
    (by rcases hs with rfl | rfl <;> decide) hrow (by rcases hs with rfl | rfl <;> rfl) s
  rw [hstep] at h
  obtain ⟨⟨t', r'⟩, ht, he⟩ := Option.map_eq_some_iff.mp h
  cases he
  by_cases h48 : b = 48
  · rw [hfirst, if_pos h48, h48] at ht
    have hend : DigitsEnd s := by
      intro c hc
      by_contra hd
      obtain ⟨u, rfl⟩ : ∃ u, s = c :: u := ⟨s.tail, List.eq_cons_of_mem_head? hc⟩
      obtain ⟨_, hrow', _⟩ := row_digit (Bool.not_eq_false _ ▸ hd : isDigit c = true)
      have hdead := numberLoop_dead (q := ZeroFirst) (by decide) hrow' rfl u
      exact absurd (hdead.symm.trans ht) (by simp)
    obtain ⟨f, o, hf, rfl, rfl, hz⟩ := behindInt_inv (Or.inl rfl) ht hend
    refine ⟨⟨neg, [48], f, o, List.forall_mem_singleton.mpr rfl, by simp, fun _ => rfl, hf⟩, rfl,
      ?_, by rw [h48]; rfl, by rw [h48]; rfl⟩
    rintro ⟨_, hfrac, hexp⟩
    rw [hz rfl hfrac] at hexp
    cases hexp
  · rw [hfirst, if_neg h48] at ht
    rw [numberLoop_split (Or.inl rfl)] at ht
    obtain ⟨⟨t'', r''⟩, ht', he⟩ := Option.map_eq_some_iff.mp ht
    cases he
    obtain ⟨f, o, hf, hu, rfl, _⟩ := behindInt_inv (Or.inr rfl) ht' (digitsEnd_dropWhile s)
    have hd : ∀ c ∈ b :: s.takeWhile isDigit, isDigit c = true :=
      List.forall_mem_cons.mpr ⟨hb, fun c hc => List.mem_takeWhile_imp hc⟩
    have hlead : (b :: s.takeWhile isDigit).head? = some 48 → b :: s.takeWhile isDigit = [48] :=
      fun hh => absurd (Option.some.inj hh) h48
    refine ⟨⟨neg, b :: s.takeWhile isDigit, f, o, hd, by simp, hlead, hf⟩, rfl, ?_, ?_, rfl⟩
    · rintro ⟨hint, _⟩
      exact h48 (List.cons.inj hint).1
    · rw [← hu, List.cons_append, List.takeWhile_append_dropWhile]

theorem decodeNumber_tree {s t r : Bytes} (h : decodeNumber s = some (t, r)) :
    ∃ n : Numeral, ¬ ZeroExp n ∧ s = n.text ++ r ∧ t = n.text := by
  unfold decodeNumber at h
  have hsigned : ∀ {q : NumberParsingState}, q = Minus ∨ q = AfterMinus → ∀ {b : UInt8} {u t : Bytes},
      b ≠ 45 → numberLoop q false (b :: u) = some (t, r) → isDigit b = true := by
    intro q hq b u t hb h
    rcases row_cases b with hc | hc | hc
    · have hdead : numberLoop q false (b :: u) = none := by
        rcases hq with rfl | rfl
        · rw [numberLoop, if_neg (by simp)]
          simp only [hc]
          rfl
        · rw [numberLoop, if_neg (by simp)]
          simp only [hc]
          rfl
      rw [hdead] at h
      cases h
    · exact hc
    · have hdead : b = 46 ∨ b = 43 ∨ b = 101 ∨ b = 69 → numberLoop q false (b :: u) = none := by
        rintro (rfl | rfl | rfl | rfl) <;> rcases hq with rfl | rfl <;>
          exact numberLoop_dead (by decide) rfl rfl u
      rcases hc with hc | hc | hc
      · rw [hdead (Or.inl hc)] at h
        cases h
      · exact absurd hc hb
      · rw [hdead (Or.inr hc)] at h
        cases h
  cases s with
  | nil => cases h
  | cons b u =>
    by_cases hb : b = 45
    · rw [hb] at h ⊢
      have hstep : numberLoop Minus false (45 :: u) =
          (numberLoop AfterMinus false u).map fun p => (45 :: p.1, p.2) := rfl
      rw [hstep] at h
      obtain ⟨⟨t', r'⟩, ht, he⟩ := Option.map_eq_some_iff.mp h
      cases he
      cases u with
      | nil => cases ht
      | cons c u =>
        have hne : c ≠ 45 := by
          rintro rfl
          rw [numberLoop_dead (by decide) rfl rfl u] at ht
          cases ht
        obtain ⟨n, hneg, hz, hs, rfl⟩ := unsigned_inv (Or.inr rfl) (hsigned (Or.inr rfl) hne ht) ht true
        exact ⟨n, hz, by rw [hs]; simp [Numeral.text, hneg], by simp [Numeral.text, hneg]⟩
    · obtain ⟨n, hneg, hz, hs, rfl⟩ := unsigned_inv (Or.inl rfl) (hsigned (Or.inl rfl) hb h) h false
      exact ⟨n, hz, by rw [hs]; simp [Numeral.text, hneg], by simp [Numeral.text, hneg]⟩

end ExpenseTracker.L3.CrowLoad
