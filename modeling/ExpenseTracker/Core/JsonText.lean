import Mathlib.Algebra.Field.Rat
import Mathlib.Data.Nat.Cast.Order.Field
import ExpenseTracker.Core.Bytes

/-!
# JSON texts (RFC 8259)

A reader of JSON texts in UTF-8. Strings are the bytes they stand for,
numbers the rationals they denote, and the members of an object stand in the
order of the text with every repetition. A fuel argument bounds the nesting;
`Parses` is the reader with fuel enough.

* `readString_plain`: a text without quotes, backslashes and control characters is the
  body of the string it is.
* `readString_inv`: a body that is not its own string is longer than its string.
* `readNumber_intText`: the decimal text of an integer reads as that integer.
* `Parses.unique`: fuel does not decide what a text reads as.
-/
namespace ExpenseTracker.Core.JsonText

open ExpenseTracker.Core

inductive Value where
  | null
  | bool (b : Bool)
  | number (q : ℚ)
  | string (s : Bytes)
  | array (l : List Value)
  | object (members : List (Bytes × Value))

/-- The member names of an object. -/
def Value.keys : Value → List Bytes
  | object members => members.map Prod.fst
  | _ => []

/-- Space, tab, line feed, carriage return. -/
def isWs (b : UInt8) : Bool := b == 32 || b == 9 || b == 10 || b == 13

def skipWs (s : Bytes) : Bytes := s.dropWhile isWs

/-! ## Strings -/

/-- Four hex digits. -/
def hex4 : Bytes → Option (ℕ × Bytes)
  | a :: b :: c :: d :: s => do
    let n := (((← hexVal a) * 16 + (← hexVal b)) * 16 + (← hexVal c)) * 16 + (← hexVal d)
    return (n, s)
  | _ => none

/-- The UTF-8 bytes of a code point. -/
def utf8 (n : ℕ) : Bytes :=
  if n < 0x80 then [UInt8.ofNat n]
  else if n < 0x800 then [UInt8.ofNat (0xC0 + n / 64), UInt8.ofNat (0x80 + n % 64)]
  else if n < 0x10000 then
    [UInt8.ofNat (0xE0 + n / 4096), UInt8.ofNat (0x80 + n / 64 % 64), UInt8.ofNat (0x80 + n % 64)]
  else
    [UInt8.ofNat (0xF0 + n / 262144), UInt8.ofNat (0x80 + n / 4096 % 64),
      UInt8.ofNat (0x80 + n / 64 % 64), UInt8.ofNat (0x80 + n % 64)]

/-- The escapes of one letter. -/
def shortEscape (b : UInt8) : Option UInt8 :=
  if b = 34 ∨ b = 92 ∨ b = 47 then some b
  else if b = 98 then some 8
  else if b = 102 then some 12
  else if b = 110 then some 10
  else if b = 114 then some 13
  else if b = 116 then some 9
  else none

/-- Behind a `\u`: one unit, or two that are a surrogate pair. A surrogate alone
stands for nothing. -/
def readUnicode (s : Bytes) : Option (Bytes × Bytes) := do
  let (n, s) ← hex4 s
  if n < 0xD800 ∨ 0xE000 ≤ n then return (utf8 n, s)
  else if n < 0xDC00 then
    match s with
    | 92 :: 117 :: s =>
      let (m, s) ← hex4 s
      if 0xDC00 ≤ m ∧ m < 0xE000 then
        return (utf8 (0x10000 + (n - 0xD800) * 0x400 + (m - 0xDC00)), s)
      else none
    | _ => none
  else none

/-- Behind a backslash: the bytes the escape stands for, and the rest. -/
def readEscape : Bytes → Option (Bytes × Bytes)
  | [] => none
  | b :: s => if b = 117 then readUnicode s else (shortEscape b).map fun c => ([c], s)

/-- The characters of a string up to its closing quote. -/
def readChars : ℕ → Bytes → Option (Bytes × Bytes)
  | 0, _ => none
  | _, [] => none
  | fuel + 1, b :: s =>
    if b = 34 then some ([], s)
    else if b = 92 then do
      let (c, s) ← readEscape s
      let (v, s) ← readChars fuel s
      return (c ++ v, s)
    else if b < 32 then none
    else do
      let (v, s) ← readChars fuel s
      return (b :: v, s)

/-- Behind the opening quote. Every character takes one byte at least. -/
def readString (s : Bytes) : Option (Bytes × Bytes) := readChars (s.length + 1) s

/-! ## Numbers -/

def readDigits (s : Bytes) : Option (Bytes × Bytes) :=
  let ds := s.takeWhile isDigit
  if ds = [] then none else some (ds, s.drop ds.length)

/-- The fraction, 0 without one. -/
def readFraction (s : Bytes) : Option (ℚ × Bytes) :=
  match s with
  | 46 :: s => do
    let (ds, s) ← readDigits s
    return ((readNat ds : ℚ) / 10 ^ ds.length, s)
  | s => some (0, s)

/-- The digits of an exponent, with their sign. -/
def readSigned (s : Bytes) : Option (ℤ × Bytes) :=
  match s with
  | 45 :: s => (readDigits s).map fun p => (-(readNat p.1 : ℤ), p.2)
  | 43 :: s => (readDigits s).map fun p => ((readNat p.1 : ℤ), p.2)
  | s => (readDigits s).map fun p => ((readNat p.1 : ℤ), p.2)

/-- The exponent, 0 without one. -/
def readExponent (s : Bytes) : Option (ℤ × Bytes) :=
  match s with
  | 101 :: s => readSigned s
  | 69 :: s => readSigned s
  | s => some (0, s)

/-- Behind the sign. A number has no leading zeros. -/
def readUnsigned (s : Bytes) : Option (ℚ × Bytes) := do
  let (ds, s) ← readDigits s
  if ds.head? = some 48 ∧ ds.length ≠ 1 then none
  else
    let (f, s) ← readFraction s
    let (e, s) ← readExponent s
    return ((readNat ds + f) * 10 ^ e, s)

def readNumber (s : Bytes) : Option (ℚ × Bytes) :=
  match s with
  | 45 :: s => (readUnsigned s).map fun p => (-p.1, p.2)
  | s => readUnsigned s

/-! ## Values -/

/-- The rest of a literal name. -/
def readLiteral (name : String) (v : Value) (s : Bytes) : Option (Value × Bytes) :=
  if (ascii name).isPrefixOf s then some (v, s.drop name.length) else none

mutual

def readValue : ℕ → Bytes → Option (Value × Bytes)
  | 0, _ => none
  | fuel + 1, s =>
    match skipWs s with
    | [] => none
    | b :: s =>
      if b = 34 then (readString s).map fun p => (.string p.1, p.2)
      else if b = 123 then
        if (skipWs s).head? = some 125 then some (.object [], (skipWs s).tail)
        else (readMembers fuel s).map fun p => (.object p.1, p.2)
      else if b = 91 then
        if (skipWs s).head? = some 93 then some (.array [], (skipWs s).tail)
        else (readElements fuel s).map fun p => (.array p.1, p.2)
      else if b = 116 then readLiteral "rue" (.bool true) s
      else if b = 102 then readLiteral "alse" (.bool false) s
      else if b = 110 then readLiteral "ull" .null s
      else (readNumber (b :: s)).map fun p => (.number p.1, p.2)

/-- The elements of an array, and its end. -/
def readElements : ℕ → Bytes → Option (List Value × Bytes)
  | 0, _ => none
  | fuel + 1, s => do
    let (v, s) ← readValue fuel s
    match skipWs s with
    | 44 :: s =>
      let (l, s) ← readElements fuel s
      return (v :: l, s)
    | 93 :: s => return ([v], s)
    | _ => none

/-- The members of an object, and its end. -/
def readMembers : ℕ → Bytes → Option (List (Bytes × Value) × Bytes)
  | 0, _ => none
  | fuel + 1, s =>
    match skipWs s with
    | 34 :: s => do
      let (k, s) ← readString s
      match skipWs s with
      | 58 :: s =>
        let (v, s) ← readValue fuel s
        match skipWs s with
        | 44 :: s =>
          let (m, s) ← readMembers fuel s
          return ((k, v) :: m, s)
        | 125 :: s => return ([(k, v)], s)
        | _ => none
      | _ => none
    | _ => none

end

/-- A value and nothing behind it. -/
def parse (fuel : ℕ) (s : Bytes) : Option Value := do
  let (v, s) ← readValue fuel s
  if skipWs s = [] then return v else none

def Parses (s : Bytes) (v : Value) : Prop := ∃ fuel, parse fuel s = some v

/-! ## What a string reads as -/

/-- Made of characters that stand for themselves. -/
def Unescaped (s : Bytes) : Prop := ∀ b ∈ s, 32 ≤ b ∧ b ≠ 34 ∧ b ≠ 92

instance (s : Bytes) : Decidable (Unescaped s) := List.decidableBAll _ s

theorem readChars_plain {v : Bytes} (hv : Unescaped v) (r : Bytes) :
    ∀ fuel, v.length < fuel → readChars fuel (v ++ 34 :: r) = some (v, r) := by
  induction v with
  | nil =>
    intro fuel hf
    obtain ⟨fuel, rfl⟩ := Nat.exists_eq_add_of_lt hf
    simp [readChars]
  | cons b v ih =>
    intro fuel hf
    obtain ⟨hb, hrest⟩ := List.forall_mem_cons.mp hv
    obtain ⟨fuel, rfl⟩ : ∃ k, fuel = k + 1 := ⟨fuel - 1, by simp at hf; omega⟩
    have hlt : ¬ b < 32 := UInt8.not_lt.mpr hb.1
    have htail := ih hrest fuel (by simpa using hf)
    show readChars (fuel + 1) (b :: (v ++ 34 :: r)) = _
    unfold readChars
    rw [if_neg hb.2.1, if_neg hb.2.2, if_neg hlt, htail]
    rfl

/-- The body of a string is the string itself. -/
theorem readString_plain {v : Bytes} (hv : Unescaped v) (r : Bytes) :
    readString (v ++ 34 :: r) = some (v, r) := by
  apply readChars_plain hv
  rw [List.length_append, List.length_cons]
  omega

theorem hex4_inv {s rest : Bytes} {n : ℕ} (h : hex4 s = some (n, rest)) :
    ∃ raw, s = raw ++ rest ∧ raw.length = 4 := by
  unfold hex4 at h
  split at h
  · rename_i a b c d s
    simp only [Option.bind_eq_bind, Option.bind_eq_some_iff] at h
    obtain ⟨_, _, _, _, _, _, _, _, h⟩ := h
    cases h
    exact ⟨[a, b, c, d], rfl, rfl⟩
  · cases h

theorem length_utf8_le (n : ℕ) : (utf8 n).length ≤ 4 := by
  unfold utf8
  split
  · simp
  split
  · simp
  split <;> simp

theorem readUnicode_inv {s rest c : Bytes} (h : readUnicode s = some (c, rest)) :
    ∃ raw, s = raw ++ rest ∧ c.length ≤ raw.length := by
  unfold readUnicode at h
  simp only [Option.bind_eq_bind, Option.bind_eq_some_iff] at h
  obtain ⟨⟨n, t⟩, hn, h⟩ := h
  obtain ⟨raw, rfl, hlen⟩ := hex4_inv hn
  split at h
  · cases h
    refine ⟨raw, rfl, ?_⟩
    rw [hlen]
    exact length_utf8_le n
  split at h
  · split at h
    · rename_i u ht
      simp only [Option.bind_eq_some_iff] at h
      obtain ⟨⟨m, w⟩, hm, h⟩ := h
      obtain ⟨raw', rfl, hlen'⟩ := hex4_inv hm
      split at h
      · generalize 0x10000 + (n - 0xD800) * 0x400 + (m - 0xDC00) = point at h
        cases h
        refine ⟨raw ++ 92 :: 117 :: raw', ?_, ?_⟩
        · have ht : t = 92 :: 117 :: (raw' ++ w) := ht
          rw [ht]
          simp
        have := length_utf8_le point
        simp only [List.length_append, List.length_cons, hlen, hlen']
        omega
      · cases h
    · cases h
  · cases h

theorem readEscape_inv {s rest c : Bytes} (h : readEscape s = some (c, rest)) :
    ∃ raw, s = raw ++ rest ∧ c.length ≤ raw.length := by
  unfold readEscape at h
  split at h
  · cases h
  rename_i b s
  split at h
  · obtain ⟨raw, rfl, hlen⟩ := readUnicode_inv h
    refine ⟨b :: raw, rfl, ?_⟩
    rw [List.length_cons]
    omega
  · obtain ⟨x, _, he⟩ := Option.map_eq_some_iff.mp h
    cases he
    exact ⟨[b], rfl, Nat.le_refl _⟩

theorem readChars_inv {fuel : ℕ} {s v rest : Bytes} (h : readChars fuel s = some (v, rest)) :
    ∃ raw, s = raw ++ 34 :: rest ∧ (raw = v ∧ Unescaped v ∨ v.length < raw.length) := by
  induction fuel generalizing s v rest with
  | zero => simp [readChars] at h
  | succ fuel ih =>
    cases s with
    | nil => simp [readChars] at h
    | cons b s =>
      unfold readChars at h
      split at h
      · rename_i hb
        cases h
        rw [hb]
        exact ⟨[], rfl, Or.inl ⟨rfl, List.forall_mem_nil _⟩⟩
      rename_i hquote
      split at h
      · -- an escape: a byte shorter at least, whatever comes behind it
        simp only [Option.bind_eq_bind, Option.bind_eq_some_iff] at h
        obtain ⟨⟨c, t⟩, hc, ⟨w, u⟩, hw, h⟩ := h
        cases h
        obtain ⟨raw, rfl, hlen⟩ := readEscape_inv hc
        obtain ⟨raw', rfl, hraw'⟩ := ih hw
        refine ⟨b :: (raw ++ raw'), by simp, Or.inr ?_⟩
        have hle : w.length ≤ raw'.length := by
          rcases hraw' with ⟨rfl, _⟩ | hlt
          · exact Nat.le_refl _
          · omega
        simp only [List.length_append, List.length_cons]
        omega
      rename_i hback
      split at h
      · cases h
      rename_i hctl
      simp only [Option.bind_eq_bind, Option.bind_eq_some_iff] at h
      obtain ⟨⟨w, u⟩, hw, h⟩ := h
      cases h
      obtain ⟨raw, rfl, hraw⟩ := ih hw
      refine ⟨b :: raw, rfl, ?_⟩
      rcases hraw with ⟨rfl, hplain⟩ | hlt
      · left
        refine ⟨rfl, List.forall_mem_cons.mpr ⟨⟨?_, hquote, hback⟩, hplain⟩⟩
        exact UInt8.not_lt.mp hctl
      · right
        simp only [List.length_cons]
        omega

/-- A string read is its own body, or shorter than it. -/
theorem readString_inv {s v rest : Bytes} (h : readString s = some (v, rest)) :
    ∃ raw, s = raw ++ 34 :: rest ∧ (raw = v ∧ Unescaped v ∨ v.length < raw.length) :=
  readChars_inv h

/-! ## Numbers -/

theorem takeWhile_digits {ds r : Bytes} (hd : ∀ b ∈ ds, isDigit b = true) {c : UInt8}
    (hc : isDigit c = false) : (ds ++ c :: r).takeWhile isDigit = ds := by
  rw [List.takeWhile_append_of_pos hd, List.takeWhile_cons, hc]
  simp

/-- Decimal text has no leading zero. -/
theorem head_natText (n : ℕ) : (natText n).head? ≠ some 48 ∨ (natText n).length = 1 := by
  by_cases hn : n < 10
  · right
    rw [natText, Nat.toDigits_of_lt_base hn]
    rfl
  left
  induction n using Nat.strong_induction_on with
  | _ n ih =>
    have hle : 10 ≤ n := by omega
    rw [natText, Nat.toDigits_of_base_le (by decide) hle, List.map_append, List.head?_append]
    by_cases h10 : n / 10 < 10
    · -- the first digit is `n / 10`
      rw [Nat.toDigits_of_lt_base h10]
      have key : ∀ d, d < 10 → 0 < d → byteOf d.digitChar ≠ 48 := by decide
      have hd := key (n / 10) h10 (by omega)
      simpa using hd
    · have hrest := ih (n / 10) (by omega) h10
      have hsome : (natText (n / 10)).head? ≠ none := by
        rw [ne_eq, List.head?_eq_none_iff]
        exact natText_ne_nil _
      rw [show List.map byteOf (Nat.toDigits 10 (n / 10)) = natText (n / 10) from rfl]
      cases hh : (natText (n / 10)).head? with
      | none => exact absurd hh hsome
      | some b =>
        rw [hh] at hrest
        simpa using hrest

/-- A byte a number cannot go on with. -/
def EndsNumber (c : UInt8) : Prop := isDigit c = false ∧ c ≠ 46 ∧ c ≠ 101 ∧ c ≠ 69

instance (c : UInt8) : Decidable (EndsNumber c) := inferInstanceAs (Decidable (_ ∧ _))

theorem readUnsigned_natText (n : ℕ) {c : UInt8} (hc : EndsNumber c) (r : Bytes) :
    readUnsigned (natText n ++ c :: r) = some ((n : ℚ), c :: r) := by
  obtain ⟨hdigit, hdot, he, hE⟩ := hc
  have htake : (natText n ++ c :: r).takeWhile isDigit = natText n :=
    takeWhile_digits (fun b hb => natText_digit hb) hdigit
  have hdigits : readDigits (natText n ++ c :: r) = some (natText n, c :: r) := by
    unfold readDigits
    simp only [htake, if_neg (natText_ne_nil n), List.drop_left]
  have hfraction : readFraction (c :: r) = some (0, c :: r) := by
    unfold readFraction
    split
    · rename_i h
      exact absurd (List.cons.inj h).1 hdot
    · rfl
  have hexponent : readExponent (c :: r) = some (0, c :: r) := by
    unfold readExponent
    split
    · rename_i h
      exact absurd (List.cons.inj h).1 he
    · rename_i h
      exact absurd (List.cons.inj h).1 hE
    · rfl
  have hzero : ¬ ((natText n).head? = some 48 ∧ (natText n).length ≠ 1) := by
    intro ⟨h48, h1⟩
    rcases head_natText n with h | h
    · exact h h48
    · exact h1 h
  unfold readUnsigned
  simp only [hdigits, Option.bind_eq_bind, Option.bind_some, if_neg hzero, hfraction, hexponent,
    readNat_natText]
  simp

/-- The text of an integer reads as that integer. -/
theorem readNumber_intText (i : ℤ) {c : UInt8} (hc : EndsNumber c) (r : Bytes) :
    readNumber (intText i ++ c :: r) = some ((i : ℚ), c :: r) := by
  unfold intText
  split
  · rename_i hneg
    show (readUnsigned (natText i.natAbs ++ c :: r)).map _ = _
    rw [readUnsigned_natText _ hc, Option.map_some]
    have habs : ((i.natAbs : ℤ) : ℚ) = ((-i : ℤ) : ℚ) := by
      congr 1
      omega
    rw [Int.cast_natCast] at habs
    rw [habs]
    simp
  · rename_i hpos
    unfold readNumber
    split
    · rename_i t h
      -- a number without a sign starts with a digit
      cases hn : natText i.natAbs with
      | nil => exact absurd hn (natText_ne_nil _)
      | cons b ds =>
        rw [hn] at h
        have hb : b = 45 := (List.cons.inj h).1
        have hd : isDigit b = true := natText_digit (hn ▸ List.mem_cons_self)
        rw [hb] at hd
        cases hd
    · rw [readUnsigned_natText _ hc]
      have habs : ((i.natAbs : ℤ) : ℚ) = (i : ℚ) := by
        congr 1
        omega
      rw [Int.cast_natCast] at habs
      rw [habs]

/-! ## Fuel -/

/-- More fuel reads the same. -/
theorem read_succ (fuel : ℕ) :
    (∀ s r, readValue fuel s = some r → readValue (fuel + 1) s = some r) ∧
    (∀ s r, readElements fuel s = some r → readElements (fuel + 1) s = some r) ∧
    (∀ s r, readMembers fuel s = some r → readMembers (fuel + 1) s = some r) := by
  induction fuel with
  | zero =>
    refine ⟨fun s r h => ?_, fun s r h => ?_, fun s r h => ?_⟩
    · simp [readValue] at h
    · simp [readElements] at h
    · simp [readMembers] at h
  | succ fuel ih =>
    obtain ⟨ihv, ihe, ihm⟩ := ih
    refine ⟨fun s r h => ?_, fun s r h => ?_, fun s r h => ?_⟩
    · rw [readValue] at h ⊢
      split at h
      · cases h
      rename_i b t _
      -- only arrays and objects use the fuel
      by_cases h34 : b = 34
      · simpa only [if_pos h34] using h
      by_cases h123 : b = 123
      · simp only [if_neg h34, if_pos h123] at h ⊢
        split at h
        · rename_i hempty
          rw [if_pos hempty]
          exact h
        · rename_i hfull
          obtain ⟨p, hp, he⟩ := Option.map_eq_some_iff.mp h
          rw [if_neg hfull, ihm _ _ hp, ← he]
          rfl
      by_cases h91 : b = 91
      · simp only [if_neg h34, if_neg h123, if_pos h91] at h ⊢
        split at h
        · rename_i hempty
          rw [if_pos hempty]
          exact h
        · rename_i hfull
          obtain ⟨p, hp, he⟩ := Option.map_eq_some_iff.mp h
          rw [if_neg hfull, ihe _ _ hp, ← he]
          rfl
      simpa only [if_neg h34, if_neg h123, if_neg h91] using h
    · rw [readElements] at h ⊢
      simp only [Option.bind_eq_bind, Option.bind_eq_some_iff] at h ⊢
      obtain ⟨p, hp, h⟩ := h
      refine ⟨p, ihv _ _ hp, ?_⟩
      split at h
      · obtain ⟨q, hq, h⟩ := Option.bind_eq_some_iff.mp h
        exact Option.bind_eq_some_iff.mpr ⟨q, ihe _ _ hq, h⟩
      · exact h
      · cases h
    · rw [readMembers] at h ⊢
      split at h
      · simp only [Option.bind_eq_bind, Option.bind_eq_some_iff] at h ⊢
        obtain ⟨p, hp, h⟩ := h
        refine ⟨p, hp, ?_⟩
        split at h
        · obtain ⟨q, hq, h⟩ := Option.bind_eq_some_iff.mp h
          refine Option.bind_eq_some_iff.mpr ⟨q, ihv _ _ hq, ?_⟩
          split at h
          · obtain ⟨m, hm, h⟩ := Option.bind_eq_some_iff.mp h
            exact Option.bind_eq_some_iff.mpr ⟨m, ihm _ _ hm, h⟩
          · exact h
          · cases h
        · cases h
      · cases h

theorem readValue_le {fuel fuel' : ℕ} (hle : fuel ≤ fuel') {s : Bytes} {r : Value × Bytes}
    (h : readValue fuel s = some r) : readValue fuel' s = some r := by
  induction hle with
  | refl => exact h
  | step _ ih => exact (read_succ _).1 s r ih

/-- **A text reads as one value.** -/
theorem Parses.unique {s : Bytes} {v v' : Value} (h : Parses s v) (h' : Parses s v') : v = v' := by
  obtain ⟨fuel, h⟩ := h
  obtain ⟨fuel', h'⟩ := h'
  unfold parse at h h'
  obtain ⟨p, hp, h⟩ := Option.bind_eq_some_iff.mp h
  obtain ⟨p', hp', h'⟩ := Option.bind_eq_some_iff.mp h'
  have hpp : p = p' := by
    have h1 := readValue_le (Nat.le_max_left fuel fuel') hp
    have h2 := readValue_le (Nat.le_max_right fuel fuel') hp'
    exact Option.some.inj (h1.symm.trans h2)
  subst hpp
  exact Option.some.inj (h.symm.trans h')

/-! ## Members, one at a time -/

/-- A text that starts with no white space. -/
theorem skipWs_cons {b : UInt8} (hb : isWs b = false) (s : Bytes) : skipWs (b :: s) = b :: s := by
  unfold skipWs
  rw [List.dropWhile_cons, hb]
  rfl

/-- Behind a member: a comma and further members, or the end of the object. -/
def behindMember (fuel : ℕ) (member : Bytes × Value) (s : Bytes) :
    Option (List (Bytes × Value) × Bytes) :=
  match skipWs s with
  | 44 :: t => (readMembers fuel t).bind fun q => some (member :: q.1, q.2)
  | 125 :: t => some ([member], t)
  | _ => none

theorem behindMember_comma (fuel : ℕ) (member : Bytes × Value) (t : Bytes) :
    behindMember fuel member (44 :: t) =
      (readMembers fuel t).map fun q => (member :: q.1, q.2) := by
  unfold behindMember
  rw [skipWs_cons (by decide)]
  show (readMembers fuel t).bind (fun q => some (member :: q.1, q.2)) = _
  cases readMembers fuel t <;> rfl

theorem behindMember_end (fuel : ℕ) (member : Bytes × Value) (t : Bytes) :
    behindMember fuel member (125 :: t) = some ([member], t) := by
  unfold behindMember
  rw [skipWs_cons (by decide)]
  rfl

/-- An object that goes on or ends has this member, and a comma or a brace behind it. -/
theorem behindMember_inv {fuel : ℕ} {member : Bytes × Value} {s : Bytes}
    {r : List (Bytes × Value) × Bytes} (h : behindMember fuel member s = some r) :
    member ∈ r.1 ∧ ∃ b t, skipWs s = b :: t ∧ (b = 44 ∨ b = 125) := by
  unfold behindMember at h
  split at h
  · rename_i t ht
    obtain ⟨_, _, h⟩ := Option.bind_eq_some_iff.mp h
    cases h
    exact ⟨List.mem_cons_self, 44, t, ht, Or.inl rfl⟩
  · rename_i t ht
    cases h
    exact ⟨List.mem_cons_self, 125, t, ht, Or.inr rfl⟩
  · cases h

/-- The first member, under a plain name, and what comes behind it. -/
theorem readMembers_plain {k : Bytes} (hk : Unescaped k) (fuel : ℕ) (s : Bytes) :
    readMembers (fuel + 1) (34 :: (k ++ 34 :: 58 :: s)) =
      (readValue fuel s).bind fun p => behindMember fuel (k, p.1) p.2 := by
  rw [readMembers, skipWs_cons (by decide)]
  simp only [readString_plain hk, Option.bind_eq_bind, Option.bind_some]
  rw [skipWs_cons (by decide)]
  rfl

theorem readValue_string (fuel : ℕ) (s : Bytes) : readValue (fuel + 1) (34 :: s) =
    (readString s).map fun p => (.string p.1, p.2) := by
  rw [readValue, skipWs_cons (by decide)]
  rfl

theorem readValue_object {b : UInt8} (hb : isWs b = false) (h125 : b ≠ 125) (fuel : ℕ) (s : Bytes) :
    readValue (fuel + 1) (123 :: b :: s) =
      (readMembers fuel (b :: s)).map fun p => (.object p.1, p.2) := by
  rw [readValue, skipWs_cons (by decide)]
  simp [skipWs_cons hb, h125]

/-- An integer, as decimal text. -/
theorem readValue_intText (fuel : ℕ) (i : ℤ) {c : UInt8} (hc : EndsNumber c) (r : Bytes) :
    readValue (fuel + 1) (intText i ++ c :: r) = some (.number i, c :: r) := by
  -- a number starts with a sign or a digit
  have hhead : ∃ b t, intText i = b :: t ∧ (b = 45 ∨ isDigit b = true) := by
    unfold intText
    split
    · exact ⟨45, _, rfl, Or.inl rfl⟩
    · cases hn : natText i.natAbs with
      | nil => exact absurd hn (natText_ne_nil _)
      | cons b t => exact ⟨b, t, rfl, Or.inr (natText_digit (hn ▸ List.mem_cons_self))⟩
  obtain ⟨b, t, hbt, hb⟩ := hhead
  have key : ∀ b : UInt8, b = 45 ∨ isDigit b = true → isWs b = false ∧ b ≠ 34 ∧ b ≠ 123 ∧ b ≠ 91 ∧
      b ≠ 116 ∧ b ≠ 102 ∧ b ≠ 110 := by
    intro b hb
    unfold isDigit at hb
    unfold isWs
    rw [decide_eq_true_eq] at hb
    refine ⟨?_, ?_⟩ <;> grind
  obtain ⟨hws, h34, h123, h91, h116, h102, h110⟩ := key b hb
  have hread := readNumber_intText i hc r
  rw [hbt, List.cons_append] at hread ⊢
  rw [readValue, skipWs_cons hws]
  simp only [if_neg h34, if_neg h123, if_neg h91, if_neg h116, if_neg h102, if_neg h110, hread,
    Option.map_some]

end ExpenseTracker.Core.JsonText
