import ExpenseTracker.Core.JsonText

/-!
# JSON texts as trees

A text kept with everything that stands in it: the white space, the way each
character of a string is written, the digits of each number. The trees are
those of RFC 8259 and of the readers that take a little more: control
characters inside strings, half a surrogate pair, a point or the sign of an
exponent without digits behind it. `Doc.value` is what a tree stands for in
RFC 8259, if it is one of its texts.

* `readChars_texts`, `readNumber_text`: the RFC reader on a string and on a number.
* `readValue_text`: the RFC reader on the text of a tree gives its value, or nothing.
-/
namespace ExpenseTracker.Core.JsonSyntax

open ExpenseTracker.Core ExpenseTracker.Core.JsonText

/-- A run of white space. -/
abbrev Blank := { w : Bytes // ∀ b ∈ w, isWs b = true }

/-! ## Strings -/

/-- Four hex digits and the number they write. -/
structure Hex4 where
  digits : Bytes
  n : ℕ
  reads : hex4 digits = some (n, [])

/-- A character of a string, as it is written. -/
inductive Piece where
  | plain (b : UInt8) (h : b ≠ 0 ∧ b ≠ 34 ∧ b ≠ 92)
  | short (b c : UInt8) (h : shortEscape b = some c)
  | unit (x : Hex4)

def Piece.text : Piece → Bytes
  | plain b _ => [b]
  | short b _ _ => [92, b]
  | unit x => 92 :: 117 :: x.digits

/-- The body of a string. -/
def texts (ps : List Piece) : Bytes := ps.flatMap Piece.text

@[simp] theorem texts_nil : texts [] = [] := rfl

@[simp] theorem texts_cons (p : Piece) (ps : List Piece) : texts (p :: ps) = p.text ++ texts ps :=
  rfl

/-- The bytes the characters stand for, each `\u` by itself. -/
def Piece.bytes : Piece → Bytes
  | plain b _ => [b]
  | short _ c _ => [c]
  | unit x => utf8 x.n

/-- The code point two surrogates stand for. -/
def pairPoint (hi lo : ℕ) : ℕ := 0x10000 + (hi - 0xD800) * 0x400 + (lo - 0xDC00)

/-- The bytes a string stands for: no control characters, and surrogates in
pairs only. -/
def utf8s : List Piece → Option Bytes
  | [] => some []
  | .plain b _ :: ps => if b < 32 then none else (utf8s ps).map (b :: ·)
  | .short _ c _ :: ps => (utf8s ps).map (c :: ·)
  | .unit x :: ps =>
    if x.n < 0xD800 ∨ 0xE000 ≤ x.n then (utf8s ps).map (utf8 x.n ++ ·)
    else if x.n < 0xDC00 then
      match ps with
      | .unit y :: ps =>
        if 0xDC00 ≤ y.n ∧ y.n < 0xE000 then
          (utf8s ps).map (utf8 (pairPoint x.n y.n) ++ ·)
        else none
      | _ => none
    else none

section Units

variable {x y : Hex4} {ps : List Piece}

theorem utf8s_unit (hx : x.n < 0xD800 ∨ 0xE000 ≤ x.n) :
    utf8s (.unit x :: ps) = (utf8s ps).map (utf8 x.n ++ ·) := by
  rw [utf8s.eq_def]
  simp only [if_pos hx]

theorem utf8s_pair (hx : ¬ (x.n < 0xD800 ∨ 0xE000 ≤ x.n)) (hhigh : x.n < 0xDC00) :
    utf8s (.unit x :: .unit y :: ps) =
      if 0xDC00 ≤ y.n ∧ y.n < 0xE000 then (utf8s ps).map (utf8 (pairPoint x.n y.n) ++ ·)
      else none := by
  rw [utf8s.eq_def]
  simp only [if_neg hx, if_pos hhigh]

theorem utf8s_alone (hx : ¬ (x.n < 0xD800 ∨ 0xE000 ≤ x.n)) (h : ∀ y qs, ps ≠ .unit y :: qs) :
    utf8s (.unit x :: ps) = none := by
  rw [utf8s.eq_def]
  simp only [if_neg hx]
  split <;> rfl

theorem utf8s_low (hx : ¬ (x.n < 0xD800 ∨ 0xE000 ≤ x.n)) (hlow : ¬ x.n < 0xDC00) :
    utf8s (.unit x :: ps) = none := by
  rw [utf8s.eq_def]
  simp only [if_neg hx, if_neg hlow]

end Units

/-! ## Numbers -/

/-- What stands behind the `e` of a number, with the `e`. -/
structure Exponent where
  letter : UInt8
  sign : Option Bool
  digits : Bytes
  isLetter : letter = 101 ∨ letter = 69
  areDigits : ∀ b ∈ digits, isDigit b = true
  some : sign ≠ none ∨ digits ≠ []

/-- The sign written: `true` is a minus. -/
def signText : Option Bool → Bytes
  | none => []
  | some true => [45]
  | some false => [43]

def Exponent.text (e : Exponent) : Bytes := e.letter :: (signText e.sign ++ e.digits)

/-- A number as it is written; the integer part has no leading zero. -/
structure Numeral where
  neg : Bool
  int : Bytes
  frac : Option Bytes
  exp : Option Exponent
  intDigits : ∀ b ∈ int, isDigit b = true
  intSome : int ≠ []
  noLeading : int.head? = some 48 → int = [48]
  fracDigits : ∀ ds ∈ frac, ∀ b ∈ ds, isDigit b = true

def fracText : Option Bytes → Bytes
  | none => []
  | some ds => 46 :: ds

def expText : Option Exponent → Bytes
  | none => []
  | some e => e.text

namespace Numeral

def text (n : Numeral) : Bytes :=
  (if n.neg then [45] else []) ++ (n.int ++ (fracText n.frac ++ expText n.exp))

/-- Digits behind the point and in the exponent, where there is one. -/
def Rfc (n : Numeral) : Prop := n.frac ≠ some [] ∧ ∀ e ∈ n.exp, e.digits ≠ []

instance (n : Numeral) : Decidable n.Rfc :=
  inferInstanceAs (Decidable (_ ∧ ∀ e ∈ n.exp, e.digits ≠ []))

def fracValue (n : Numeral) : ℚ :=
  match n.frac with
  | none => 0
  | some ds => (readNat ds : ℚ) / 10 ^ ds.length

def expValue (n : Numeral) : ℤ :=
  match n.exp with
  | none => 0
  | some e => if e.sign = some true then -(readNat e.digits : ℤ) else readNat e.digits

/-- The number it denotes. -/
def value (n : Numeral) : ℚ :=
  (if n.neg then -1 else 1) * ((readNat n.int + n.fracValue) * 10 ^ n.expValue)

end Numeral

/-! ## Values -/

mutual

/-- A value as it is written. -/
inductive Doc where
  | null
  | bool (b : Bool)
  | number (n : Numeral)
  | string (s : List Piece)
  | emptyArray (w : Blank)
  | array (l : Elements)
  | emptyObject (w : Blank)
  | object (m : Members)

/-- What stands behind the bracket of an array. -/
inductive Elements where
  | last (w : Blank) (d : Doc) (w' : Blank)
  | more (w : Blank) (d : Doc) (w' : Blank) (l : Elements)

/-- What stands behind the brace of an object. -/
inductive Members where
  | last (w : Blank) (k : List Piece) (w' w₁ : Blank) (d : Doc) (w₁' : Blank)
  | more (w : Blank) (k : List Piece) (w' w₁ : Blank) (d : Doc) (w₁' : Blank) (m : Members)

end

mutual

def Doc.text : Doc → Bytes
  | .null => ascii "null"
  | .bool true => ascii "true"
  | .bool false => ascii "false"
  | .number n => n.text
  | .string s => 34 :: (texts s ++ [34])
  | .emptyArray w => 91 :: (w.1 ++ [93])
  | .array l => 91 :: l.text
  | .emptyObject w => 123 :: (w.1 ++ [125])
  | .object m => 123 :: m.text

def Elements.text : Elements → Bytes
  | .last w d w' => w.1 ++ (d.text ++ (w'.1 ++ [93]))
  | .more w d w' l => w.1 ++ (d.text ++ (w'.1 ++ 44 :: l.text))

def Members.text : Members → Bytes
  | .last w k w' w₁ d w₁' =>
    w.1 ++ 34 :: (texts k ++ 34 :: (w'.1 ++ 58 :: (w₁.1 ++ (d.text ++ (w₁'.1 ++ [125])))))
  | .more w k w' w₁ d w₁' m =>
    w.1 ++ 34 :: (texts k ++ 34 :: (w'.1 ++ 58 :: (w₁.1 ++ (d.text ++ (w₁'.1 ++ 44 :: m.text)))))

end

mutual

/-- The value of RFC 8259, `none` for a text that is none of its own. -/
def Doc.value : Doc → Option Value
  | .null => some .null
  | .bool b => some (.bool b)
  | .number n => if n.Rfc then some (.number n.value) else none
  | .string s => (utf8s s).map .string
  | .emptyArray _ => some (.array [])
  | .array l => l.values.map .array
  | .emptyObject _ => some (.object [])
  | .object m => m.values.map .object

def Elements.values : Elements → Option (List Value)
  | .last _ d _ => d.value.map fun v => [v]
  | .more _ d _ l => d.value.bind fun v => l.values.map (v :: ·)

def Members.values : Members → Option (List (Bytes × Value))
  | .last _ k _ _ d _ => (utf8s k).bind fun k => d.value.map fun v => [(k, v)]
  | .more _ k _ _ d _ m =>
    (utf8s k).bind fun k => d.value.bind fun v => m.values.map ((k, v) :: ·)

end

mutual

/-- How deep arrays and objects stand in each other. -/
def Doc.height : Doc → ℕ
  | .array l => l.height + 1
  | .object m => m.height + 1
  | .emptyArray _ => 1
  | .emptyObject _ => 1
  | _ => 0

def Elements.height : Elements → ℕ
  | .last _ d _ => d.height
  | .more _ d _ l => max d.height l.height

def Members.height : Members → ℕ
  | .last _ _ _ _ d _ => d.height
  | .more _ _ _ _ d _ m => max d.height m.height

end

mutual

/-- The numbers that stand in a value. -/
def Doc.numerals : Doc → List Numeral
  | .number n => [n]
  | .array l => l.numerals
  | .object m => m.numerals
  | _ => []

def Elements.numerals : Elements → List Numeral
  | .last _ d _ => d.numerals
  | .more _ d _ l => d.numerals ++ l.numerals

def Members.numerals : Members → List Numeral
  | .last _ _ _ _ d _ => d.numerals
  | .more _ _ _ _ d _ m => d.numerals ++ m.numerals

end

mutual

/-- Fuel enough for a reader that goes through the tree. -/
def Doc.size : Doc → ℕ
  | .array l => l.size + 1
  | .object m => m.size + 1
  | _ => 1

def Elements.size : Elements → ℕ
  | .last _ d _ => d.size + 1
  | .more _ d _ l => d.size + l.size + 1

def Members.size : Members → ℕ
  | .last _ _ _ _ d _ => d.size + 1
  | .more _ _ _ _ d _ m => d.size + m.size + 1

end

/-! ## The RFC reader on a string -/

/-- A byte that is no escape cannot open one. -/
theorem hexVal_lt {b : UInt8} {n : ℕ} (h : hexVal b = some n) : n < 16 := by
  unfold hexVal at h
  have hb := b.toNat_lt
  simp only [UInt8.le_iff_toNat_le, UInt8.reduceToNat] at h
  split at h
  · cases h
    omega
  split at h
  · cases h
    omega
  split at h
  · cases h
    omega
  · cases h

theorem Hex4.inv (x : Hex4) : ∃ a b c d na nb nc nd, x.digits = [a, b, c, d] ∧ hexVal a = some na ∧
    hexVal b = some nb ∧ hexVal c = some nc ∧ hexVal d = some nd ∧
    x.n = ((na * 16 + nb) * 16 + nc) * 16 + nd := by
  have h := x.reads
  unfold hex4 at h
  split at h
  · rename_i a b c d s hd
    simp only [Option.bind_eq_bind, Option.bind_eq_some_iff] at h
    obtain ⟨na, ha, nb, hb, nc, hc, nd, he, h⟩ := h
    obtain ⟨hn, hs⟩ := Prod.mk.inj (Option.some.inj h)
    exact ⟨a, b, c, d, na, nb, nc, nd, hs ▸ hd, ha, hb, hc, he, hn.symm⟩
  · cases h

theorem Hex4.lt (x : Hex4) : x.n < 65536 := by
  obtain ⟨a, b, c, d, na, nb, nc, nd, _, ha, hb, hc, hd, hn⟩ := x.inv
  have := hexVal_lt ha
  have := hexVal_lt hb
  have := hexVal_lt hc
  have := hexVal_lt hd
  omega

theorem Hex4.reads_append (x : Hex4) (r : Bytes) : hex4 (x.digits ++ r) = some (x.n, r) := by
  obtain ⟨a, b, c, d, na, nb, nc, nd, hx, ha, hb, hc, hd, hn⟩ := x.inv
  rw [hx, hn]
  simp [hex4, ha, hb, hc, hd]

theorem Hex4.length (x : Hex4) : x.digits.length = 4 := by
  obtain ⟨a, b, c, d, na, nb, nc, nd, hx, _⟩ := x.inv
  rw [hx]
  rfl

/-- Two characters of a string that are half a pair each do not stand apart. -/
theorem readUnicode_unit {x : Hex4} (h : x.n < 0xD800 ∨ 0xE000 ≤ x.n) (r : Bytes) :
    readUnicode (x.digits ++ r) = some (utf8 x.n, r) := by
  unfold readUnicode
  simp only [x.reads_append, Option.bind_eq_bind, Option.bind_some, if_pos h]
  rfl

theorem readUnicode_low {x : Hex4} (h : ¬ (x.n < 0xD800 ∨ 0xE000 ≤ x.n)) (hx : ¬ x.n < 0xDC00)
    (r : Bytes) : readUnicode (x.digits ++ r) = none := by
  unfold readUnicode
  simp only [x.reads_append, Option.bind_eq_bind, Option.bind_some, if_neg h, if_neg hx]

theorem readUnicode_high {x : Hex4} (h : ¬ (x.n < 0xD800 ∨ 0xE000 ≤ x.n)) (hx : x.n < 0xDC00)
    (y : Hex4) (r : Bytes) : readUnicode (x.digits ++ 92 :: 117 :: (y.digits ++ r)) =
      if 0xDC00 ≤ y.n ∧ y.n < 0xE000 then some (utf8 (pairPoint x.n y.n), r) else none := by
  unfold readUnicode
  simp only [x.reads_append, y.reads_append, Option.bind_eq_bind, Option.bind_some, if_neg h,
    if_pos hx]
  rfl

/-- A high surrogate wants another `\u`. -/
theorem readUnicode_alone {x : Hex4} (h : ¬ (x.n < 0xD800 ∨ 0xE000 ≤ x.n)) {s : Bytes}
    (hs : ∀ t, s ≠ 92 :: 117 :: t) : readUnicode (x.digits ++ s) = none := by
  unfold readUnicode
  simp only [x.reads_append, Option.bind_eq_bind, Option.bind_some, if_neg h]
  by_cases hx : x.n < 0xDC00
  · rw [if_pos hx]
  · rw [if_neg hx]

theorem shortEscape_ne {b c : UInt8} (h : shortEscape b = some c) : b ≠ 117 := by
  rintro rfl
  have hnone : shortEscape 117 = none := by decide
  rw [hnone] at h
  cases h

/-- The text behind a character that is no `\u` opens no `\u`. -/
theorem texts_ne_unit {ps : List Piece} (h : ∀ y qs, ps ≠ .unit y :: qs) (r : Bytes) :
    ∀ t, texts ps ++ 34 :: r ≠ 92 :: 117 :: t := by
  intro t he
  cases ps with
  | nil => simp [texts] at he
  | cons p ps =>
    cases p with
    | plain b hb =>
      have h92 : b = 92 := by simpa [texts, Piece.text] using And.left (List.cons.inj he)
      exact hb.2.2 h92
    | short b c hc =>
      have h117 : b = 117 := And.left (List.cons.inj (And.right (List.cons.inj he)))
      exact shortEscape_ne hc h117
    | unit y => exact h y ps rfl

theorem readChars_escape {s c t : Bytes} (h : readEscape s = some (c, t)) (fuel : ℕ) :
    readChars (fuel + 1) (92 :: s) = (readChars fuel t).map fun q => (c ++ q.1, q.2) := by
  rw [readChars, if_neg (by decide), if_pos rfl, h]
  show (readChars fuel t).bind _ = (readChars fuel t).map _
  cases readChars fuel t <;> rfl

theorem readChars_refused {s : Bytes} (h : readEscape s = none) (fuel : ℕ) :
    readChars (fuel + 1) (92 :: s) = none := by
  rw [readChars, if_neg (by decide), if_pos rfl, h]
  rfl

theorem readChars_char {b : UInt8} (h34 : b ≠ 34) (h92 : b ≠ 92) (fuel : ℕ) (s : Bytes) :
    readChars (fuel + 1) (b :: s) =
      if b < 32 then none else (readChars fuel s).map fun q => (b :: q.1, q.2) := by
  rw [readChars, if_neg h34, if_neg h92]
  congr 1
  show (readChars fuel s).bind _ = (readChars fuel s).map _
  cases readChars fuel s <;> rfl

theorem readEscape_unit (s : Bytes) : readEscape (117 :: s) = readUnicode s := rfl

theorem readEscape_short {b c : UInt8} (h : shortEscape b = some c) (s : Bytes) :
    readEscape (b :: s) = some ([c], s) := by
  rw [readEscape, if_neg (shortEscape_ne h), h]
  rfl

/-- A character in front of a body. -/
theorem map_prepend (o : Option Bytes) (c r : Bytes) :
    (o.map fun v => (v, r)).map (fun q => (c ++ q.1, q.2)) =
      (o.map (c ++ ·)).map fun v => (v, r) := by
  cases o <;> rfl

/-- The RFC reader takes a body for what it stands for, or refuses it. -/
theorem readChars_texts (r : Bytes) (ps : List Piece) :
    ∀ fuel, (texts ps).length < fuel →
      readChars fuel (texts ps ++ 34 :: r) = (utf8s ps).map fun v => (v, r) := by
  induction ps using utf8s.induct with
  | case1 =>
    intro fuel hf
    obtain ⟨fuel, rfl⟩ := Nat.exists_eq_add_of_lt hf
    simp [readChars, utf8s]
  | case2 b h ps hlt =>
    intro fuel hf
    obtain ⟨fuel, rfl⟩ := Nat.exists_eq_add_of_lt hf
    rw [utf8s, if_pos hlt]
    exact (readChars_char h.2.1 h.2.2 _ _).trans (if_pos hlt)
  | case3 b h ps hlt ih =>
    intro fuel hf
    obtain ⟨fuel, rfl⟩ : ∃ k, fuel = k + 1 := ⟨fuel - 1, by omega⟩
    have htail := ih fuel (by simpa [Piece.text] using hf)
    rw [utf8s, if_neg hlt]
    refine (readChars_char h.2.1 h.2.2 _ _).trans ?_
    rw [if_neg hlt]
    show (readChars fuel (texts ps ++ 34 :: r)).map _ = _
    rw [htail]
    exact map_prepend _ [b] r
  | case4 b c h ps ih =>
    intro fuel hf
    obtain ⟨fuel, rfl⟩ : ∃ k, fuel = k + 1 := ⟨fuel - 1, by omega⟩
    have htail := ih fuel (by simp [Piece.text] at hf; omega)
    rw [utf8s]
    refine (readChars_escape (readEscape_short h (texts ps ++ 34 :: r)) fuel).trans ?_
    rw [htail]
    exact map_prepend _ [c] r
  | case5 x ps hx ih =>
    intro fuel hf
    obtain ⟨fuel, rfl⟩ : ∃ k, fuel = k + 1 := ⟨fuel - 1, by omega⟩
    have htail := ih fuel (by simp [Piece.text] at hf; omega)
    rw [utf8s_unit hx]
    simp only [texts_cons, Piece.text, List.cons_append, List.append_assoc]
    rw [readChars_escape ((readEscape_unit _).trans (readUnicode_unit hx _)), htail]
    exact map_prepend _ _ r
  | case6 x hx hhigh y ps hy ih =>
    intro fuel hf
    obtain ⟨fuel, rfl⟩ : ∃ k, fuel = k + 1 := ⟨fuel - 1, by omega⟩
    have htail := ih fuel (by simp [Piece.text] at hf; omega)
    have hread := (readEscape_unit _).trans ((readUnicode_high hx hhigh y (texts ps ++ 34 :: r)).trans
      (if_pos hy))
    rw [utf8s_pair hx hhigh, if_pos hy]
    simp only [texts_cons, Piece.text, List.cons_append, List.append_assoc]
    rw [readChars_escape hread, htail]
    exact map_prepend _ _ r
  | case7 x hx hhigh y ps hy =>
    intro fuel hf
    obtain ⟨fuel, rfl⟩ : ∃ k, fuel = k + 1 := ⟨fuel - 1, by omega⟩
    have hread := (readEscape_unit _).trans ((readUnicode_high hx hhigh y (texts ps ++ 34 :: r)).trans
      (if_neg hy))
    rw [utf8s_pair hx hhigh, if_neg hy]
    simp only [texts_cons, Piece.text, List.cons_append, List.append_assoc]
    exact readChars_refused hread fuel
  | case8 x ps hx hhigh hps =>
    intro fuel hf
    obtain ⟨fuel, rfl⟩ : ∃ k, fuel = k + 1 := ⟨fuel - 1, by omega⟩
    have hread := (readEscape_unit _).trans (readUnicode_alone hx (texts_ne_unit hps r))
    rw [utf8s_alone hx hps]
    simp only [texts_cons, Piece.text, List.cons_append, List.append_assoc]
    exact readChars_refused hread fuel
  | case9 x ps hx hlow =>
    intro fuel hf
    obtain ⟨fuel, rfl⟩ : ∃ k, fuel = k + 1 := ⟨fuel - 1, by omega⟩
    have hread := (readEscape_unit _).trans (readUnicode_low hx hlow (texts ps ++ 34 :: r))
    rw [utf8s_low hx hlow]
    simp only [texts_cons, Piece.text, List.cons_append, List.append_assoc]
    exact readChars_refused hread fuel

theorem readString_texts (ps : List Piece) (r : Bytes) :
    readString (texts ps ++ 34 :: r) = (utf8s ps).map fun v => (v, r) :=
  readChars_texts r ps _ (by rw [List.length_append, List.length_cons]; omega)

/-! ## The RFC reader on a number -/

/-- A run of digits cannot go on. -/
def DigitsEnd (r : Bytes) : Prop := ∀ c ∈ r.head?, isDigit c = false

/-- A number cannot go on. -/
def NumberEnd (r : Bytes) : Prop := ∀ c ∈ r.head?, EndsNumber c

theorem NumberEnd.digits {r : Bytes} (h : NumberEnd r) : DigitsEnd r := fun c hc => (h c hc).1

theorem numberEnd_nil : NumberEnd [] := by simp [NumberEnd]

theorem numberEnd_cons {c : UInt8} (h : EndsNumber c) (r : Bytes) : NumberEnd (c :: r) := by
  simpa [NumberEnd] using h

theorem takeWhile_digits_end {ds r : Bytes} (hd : ∀ b ∈ ds, isDigit b = true) (hr : DigitsEnd r) :
    (ds ++ r).takeWhile isDigit = ds := by
  cases r with
  | nil => simpa using hd
  | cons c r => exact takeWhile_digits hd (hr c rfl)

theorem readDigits_append {ds r : Bytes} (hd : ∀ b ∈ ds, isDigit b = true) (hr : DigitsEnd r) :
    readDigits (ds ++ r) = if ds = [] then none else some (ds, r) := by
  unfold readDigits
  simp only [takeWhile_digits_end hd hr, List.drop_left]

theorem readSigned_text (e : Exponent) {r : Bytes} (hr : DigitsEnd r) :
    readSigned (signText e.sign ++ (e.digits ++ r)) = if e.digits = [] then none else
      some (if e.sign = some true then -(readNat e.digits : ℤ) else readNat e.digits, r) := by
  have hdigits := readDigits_append e.areDigits hr
  cases hs : e.sign with
  | some minus =>
    cases minus with
    | true =>
      show (readDigits (e.digits ++ r)).map _ = _
      rw [hdigits]
      split <;> rfl
    | false =>
      show (readDigits (e.digits ++ r)).map _ = _
      rw [hdigits]
      split <;> rfl
  | none =>
    -- without a sign there are digits, and none of them is a sign
    have hne : e.digits ≠ [] := by
      rcases e.some with h | h
      · exact absurd hs h
      · exact h
    have hsign : ∀ s t : Bytes, e.digits ++ r = s → s ≠ 45 :: t ∧ s ≠ 43 :: t := by
      rintro s t rfl
      cases hd : e.digits with
      | nil => exact absurd hd hne
      | cons b ds =>
        have hb := e.areDigits b (hd ▸ List.mem_cons_self)
        refine ⟨fun h => ?_, fun h => ?_⟩
        · rw [(List.cons.inj h).1] at hb
          exact absurd hb (by decide)
        · rw [(List.cons.inj h).1] at hb
          exact absurd hb (by decide)
    rw [signText, List.nil_append]
    unfold readSigned
    split
    · rename_i t h
      exact absurd h (hsign _ t rfl).1
    · rename_i t h
      exact absurd h (hsign _ t rfl).2
    · rw [hdigits, if_neg hne, if_neg hne]
      rfl

theorem readExponent_text (n : Numeral) {r : Bytes} (hr : NumberEnd r) :
    readExponent (expText n.exp ++ r) =
      if ∀ e ∈ n.exp, e.digits ≠ [] then some (n.expValue, r) else none := by
  unfold Numeral.expValue
  cases hexp : n.exp with
  | none =>
    have hnot : ∀ c ∈ r.head?, c ≠ 101 ∧ c ≠ 69 := fun c hc => (hr c hc).2.2
    rw [if_pos (by simp)]
    show readExponent r = _
    unfold readExponent
    split
    · exact absurd rfl (hnot _ rfl).1
    · exact absurd rfl (hnot _ rfl).2
    · rfl
  | some e =>
    have hstep : readExponent (expText (some e) ++ r) =
        readSigned (signText e.sign ++ (e.digits ++ r)) := by
      rw [expText, Exponent.text, List.cons_append, List.append_assoc]
      rcases e.isLetter with h | h
      · rw [h]
        rfl
      · rw [h]
        rfl
    rw [hstep, readSigned_text e hr.digits]
    by_cases hd : e.digits = []
    · have hnot : ¬ ∀ e' ∈ some e, e'.digits ≠ [] := fun h => h e rfl hd
      rw [if_pos hd, if_neg hnot]
    · have hall : ∀ e' ∈ some e, e'.digits ≠ [] := by
        rintro _ ⟨⟩
        exact hd
      rw [if_neg hd, if_pos hall]

/-- Neither a digit nor a point stands behind a fraction. -/
theorem expText_head (n : Numeral) {r : Bytes} (hr : NumberEnd r) :
    ∀ c ∈ (expText n.exp ++ r).head?, isDigit c = false ∧ c ≠ 46 := by
  intro c hc
  cases hexp : n.exp with
  | none =>
    rw [hexp] at hc
    exact ⟨(hr c hc).1, (hr c hc).2.1⟩
  | some e =>
    rw [hexp] at hc
    obtain rfl : e.letter = c := Option.some.inj hc
    rcases e.isLetter with h | h
    · rw [h]
      decide
    · rw [h]
      decide

theorem readFraction_text (n : Numeral) {r : Bytes} (hr : NumberEnd r) :
    readFraction (fracText n.frac ++ (expText n.exp ++ r)) =
      if n.frac = some [] then none else some (n.fracValue, expText n.exp ++ r) := by
  have hend := expText_head n hr
  unfold Numeral.fracValue
  cases hfrac : n.frac with
  | none =>
    rw [if_neg (by simp), fracText, List.nil_append]
    unfold readFraction
    split
    · rename_i t ht
      rw [ht] at hend
      exact absurd rfl (hend 46 rfl).2
    · rfl
  | some ds =>
    have hdigits := readDigits_append (r := expText n.exp ++ r)
      (n.fracDigits ds hfrac) (fun c hc => (hend c hc).1)
    show (readDigits (ds ++ (expText n.exp ++ r))).bind _ = _
    rw [hdigits]
    by_cases hd : ds = []
    · rw [if_pos hd, if_pos (by rw [hd])]
      rfl
    · rw [if_neg hd, if_neg (by simpa using hd)]
      rfl

/-- A digit does not stand behind the integer part. -/
theorem fracText_head (n : Numeral) {r : Bytes} (hr : NumberEnd r) :
    DigitsEnd (fracText n.frac ++ (expText n.exp ++ r)) := by
  intro c hc
  cases hfrac : n.frac with
  | none =>
    rw [hfrac] at hc
    exact (expText_head n hr c hc).1
  | some ds =>
    rw [hfrac] at hc
    obtain rfl : 46 = c := Option.some.inj hc
    rfl

theorem readUnsigned_text (n : Numeral) {r : Bytes} (hr : NumberEnd r) :
    readUnsigned (n.int ++ (fracText n.frac ++ (expText n.exp ++ r))) = if n.Rfc then
      some ((readNat n.int + n.fracValue) * 10 ^ n.expValue, r) else none := by
  have hleading : ¬ (n.int.head? = some 48 ∧ n.int.length ≠ 1) := by
    rintro ⟨h48, h1⟩
    rw [n.noLeading h48] at h1
    exact h1 rfl
  unfold readUnsigned
  simp only [readDigits_append n.intDigits (fracText_head n hr), if_neg n.intSome,
    Option.bind_eq_bind, Option.bind_some, if_neg hleading, readFraction_text n hr]
  by_cases hf : n.frac = some []
  · have hnot : ¬ n.Rfc := fun h => h.1 hf
    rw [if_pos hf, if_neg hnot]
    rfl
  · rw [if_neg hf, Option.bind_some]
    show (readExponent (expText n.exp ++ r)).bind _ = _
    rw [readExponent_text n hr]
    by_cases he : ∀ e ∈ n.exp, e.digits ≠ []
    · have hrfc : n.Rfc := ⟨hf, he⟩
      rw [if_pos he, if_pos hrfc]
      rfl
    · have hnot : ¬ n.Rfc := fun h => he h.2
      rw [if_neg he, if_neg hnot]
      rfl

/-- The first byte of a number. -/
theorem Numeral.head_text (n : Numeral) (r : Bytes) :
    ∃ b t, n.text ++ r = b :: t ∧ (b = 45 ∨ isDigit b = true) := by
  unfold Numeral.text
  cases n.neg with
  | true => exact ⟨45, _, rfl, Or.inl rfl⟩
  | false =>
    cases hi : n.int with
    | nil => exact absurd hi n.intSome
    | cons b ds => exact ⟨b, _, rfl, Or.inr (n.intDigits b (hi ▸ List.mem_cons_self))⟩

/-- The RFC reader takes a number for what it denotes, or refuses it. -/
theorem readNumber_text (n : Numeral) {r : Bytes} (hr : NumberEnd r) :
    readNumber (n.text ++ r) = if n.Rfc then some (n.value, r) else none := by
  have hread := readUnsigned_text n hr
  unfold Numeral.value
  cases hneg : n.neg with
  | true =>
    have htext : n.text ++ r = 45 :: (n.int ++ (fracText n.frac ++ (expText n.exp ++ r))) := by
      simp [Numeral.text, hneg]
    rw [htext]
    show (readUnsigned _).map _ = _
    rw [hread]
    split
    · simp
    · rfl
  | false =>
    have htext : n.text ++ r = n.int ++ (fracText n.frac ++ (expText n.exp ++ r)) := by
      simp [Numeral.text, hneg]
    rw [htext]
    unfold readNumber
    split
    · rename_i t ht
      -- the integer part starts with a digit
      cases hi : n.int with
      | nil => exact absurd hi n.intSome
      | cons b ds =>
        rw [hi] at ht
        have hb := n.intDigits b (hi ▸ List.mem_cons_self)
        rw [(List.cons.inj ht).1] at hb
        exact absurd hb (by decide)
    · rw [hread]
      simp

/-! ## The RFC reader on a value -/

theorem skipWs_blank (w : Blank) (s : Bytes) : skipWs (w.1 ++ s) = skipWs s :=
  List.dropWhile_append_of_pos w.2

/-- White space ends a number too. -/
theorem numberEnd_blank (w : Blank) {c : UInt8} (hc : EndsNumber c) (r : Bytes) :
    NumberEnd (w.1 ++ c :: r) := by
  cases hw : w.1 with
  | nil => exact numberEnd_cons hc r
  | cons b t =>
    have hb := w.2 b (hw ▸ List.mem_cons_self)
    refine numberEnd_cons ?_ (t ++ c :: r)
    simp only [isWs, Bool.or_eq_true, beq_iff_eq] at hb
    rcases hb with ((rfl | rfl) | rfl) | rfl <;> decide

/-- A byte a number starts with starts nothing else. -/
theorem numberHead {b : UInt8} (hb : b = 45 ∨ isDigit b = true) :
    isWs b = false ∧ b ≠ 34 ∧ b ≠ 123 ∧ b ≠ 91 ∧ b ≠ 93 ∧ b ≠ 116 ∧ b ≠ 102 ∧ b ≠ 110 := by
  unfold isDigit at hb
  unfold isWs
  rw [decide_eq_true_eq] at hb
  refine ⟨?_, ?_⟩ <;> grind

/-- The first byte of a value. -/
theorem Doc.head_text (d : Doc) (r : Bytes) :
    ∃ b t, d.text ++ r = b :: t ∧ isWs b = false ∧ b ≠ 93 := by
  cases d with
  | null => exact ⟨110, _, rfl, by decide, by decide⟩
  | bool b =>
    cases b with
    | true => exact ⟨116, _, rfl, by decide, by decide⟩
    | false => exact ⟨102, _, rfl, by decide, by decide⟩
  | number n =>
    obtain ⟨b, t, ht, hb⟩ := n.head_text r
    exact ⟨b, t, ht, (numberHead hb).1, (numberHead hb).2.2.2.2.1⟩
  | string s => exact ⟨34, _, rfl, by decide, by decide⟩
  | emptyArray w => exact ⟨91, _, rfl, by decide, by decide⟩
  | array l => exact ⟨91, _, rfl, by decide, by decide⟩
  | emptyObject w => exact ⟨123, _, rfl, by decide, by decide⟩
  | object m => exact ⟨123, _, rfl, by decide, by decide⟩

theorem Doc.skipWs_text (d : Doc) (w : Blank) (r : Bytes) :
    skipWs (w.1 ++ (d.text ++ r)) = d.text ++ r := by
  obtain ⟨b, t, ht, hb, _⟩ := d.head_text r
  rw [skipWs_blank, ht, skipWs_cons hb]

theorem skipWs_byte (w : Blank) {b : UInt8} (hb : isWs b = false) (r : Bytes) :
    skipWs (w.1 ++ b :: r) = b :: r := by
  rw [skipWs_blank, skipWs_cons hb]

theorem readValue_blank (fuel : ℕ) (w : Blank) (s : Bytes) :
    readValue fuel (w.1 ++ s) = readValue fuel s := by
  cases fuel with
  | zero => simp [readValue]
  | succ fuel => rw [readValue, readValue, skipWs_blank]

theorem readValue_number (fuel : ℕ) (n : Numeral) (r : Bytes) : readValue (fuel + 1) (n.text ++ r) =
    (readNumber (n.text ++ r)).map fun p => (.number p.1, p.2) := by
  obtain ⟨b, t, ht, hb⟩ := n.head_text r
  obtain ⟨hws, h34, h123, h91, _, h116, h102, h110⟩ := numberHead hb
  rw [ht, readValue, skipWs_cons hws]
  simp only [if_neg h34, if_neg h123, if_neg h91, if_neg h116, if_neg h102, if_neg h110]

theorem readValue_array (fuel : ℕ) (s : Bytes) : readValue (fuel + 1) (91 :: s) =
    if (skipWs s).head? = some 93 then some (.array [], (skipWs s).tail)
    else (readElements fuel s).map fun p => (.array p.1, p.2) := by
  rw [readValue, skipWs_cons (by decide)]
  rfl

theorem readValue_brace (fuel : ℕ) (s : Bytes) : readValue (fuel + 1) (123 :: s) =
    if (skipWs s).head? = some 125 then some (.object [], (skipWs s).tail)
    else (readMembers fuel s).map fun p => (.object p.1, p.2) := by
  rw [readValue, skipWs_cons (by decide)]
  rfl

theorem Elements.not_empty (l : Elements) (r : Bytes) :
    (skipWs (l.text ++ r)).head? ≠ some 93 := by
  have hdoc : ∀ (w : Blank) (d : Doc) (t : Bytes),
      (skipWs (w.1 ++ (d.text ++ t))).head? ≠ some 93 := by
    intro w d t
    obtain ⟨b, u, hu, _, hb⟩ := d.head_text t
    rw [d.skipWs_text, hu]
    exact fun h => hb (Option.some.inj h)
  cases l with
  | last w d w' =>
    rw [Elements.text, List.append_assoc, List.append_assoc]
    exact hdoc w d _
  | more w d w' l =>
    rw [Elements.text, List.append_assoc, List.append_assoc]
    exact hdoc w d _

theorem Members.not_empty (m : Members) (r : Bytes) :
    (skipWs (m.text ++ r)).head? ≠ some 125 := by
  have hquote : ∀ (w : Blank) (t : Bytes), (skipWs (w.1 ++ 34 :: t)).head? ≠ some 125 := by
    intro w t
    rw [skipWs_byte w (by decide)]
    simp
  cases m with
  | last w k w' w₁ d w₁' =>
    rw [Members.text, List.append_assoc]
    exact hquote w _
  | more w k w' w₁ d w₁' m =>
    rw [Members.text, List.append_assoc]
    exact hquote w _

theorem readElements_comma {fuel : ℕ} {s t : Bytes} {o : Option Value}
    (h : readValue fuel s = o.map fun v => (v, t)) {u : Bytes} (ht : skipWs t = 44 :: u) :
    readElements (fuel + 1) s = o.bind fun v => (readElements fuel u).map fun p => (v :: p.1, p.2) := by
  rw [readElements, h]
  cases o with
  | none => rfl
  | some v =>
    simp only [Option.map_some, Option.bind_eq_bind, Option.bind_some, ht]
    cases readElements fuel u <;> rfl

theorem readElements_end {fuel : ℕ} {s t : Bytes} {o : Option Value}
    (h : readValue fuel s = o.map fun v => (v, t)) {u : Bytes} (ht : skipWs t = 93 :: u) :
    readElements (fuel + 1) s = o.map fun v => ([v], u) := by
  rw [readElements, h]
  cases o with
  | none => rfl
  | some v =>
    simp only [Option.map_some, Option.bind_eq_bind, Option.bind_some, ht]
    rfl

theorem readMembers_member {fuel : ℕ} {s t u : Bytes} {k : List Piece}
    (hs : skipWs s = 34 :: (texts k ++ 34 :: t)) (ht : skipWs t = 58 :: u) :
    readMembers (fuel + 1) s = (utf8s k).bind fun key =>
      (readValue fuel u).bind fun p => behindMember fuel (key, p.1) p.2 := by
  rw [readMembers, hs]
  show (readString (texts k ++ 34 :: t)).bind _ = _
  rw [readString_texts]
  cases utf8s k with
  | none => rfl
  | some key =>
    simp only [Option.map_some, Option.bind_eq_bind, Option.bind_some, ht]
    rfl

theorem behindMember_skip {fuel : ℕ} {member : Bytes × Value} {t u : Bytes}
    (ht : skipWs t = 44 :: u) : behindMember fuel member t =
      (readMembers fuel u).map fun q => (member :: q.1, q.2) := by
  unfold behindMember
  rw [ht]
  show (readMembers fuel u).bind (fun q => some (member :: q.1, q.2)) = _
  cases readMembers fuel u <;> rfl

theorem behindMember_last {fuel : ℕ} {member : Bytes × Value} {t u : Bytes}
    (ht : skipWs t = 125 :: u) : behindMember fuel member t = some ([member], u) := by
  unfold behindMember
  rw [ht]
  rfl

mutual

/-- The RFC reader takes the text of a tree for the value of the tree, or refuses it. -/
theorem Doc.readValue_text (d : Doc) {fuel : ℕ} (hf : d.size ≤ fuel) {r : Bytes}
    (hr : NumberEnd r) : readValue fuel (d.text ++ r) = d.value.map fun v => (v, r) := by
  obtain ⟨fuel, rfl⟩ : ∃ k, fuel = k + 1 := ⟨fuel - 1, by cases d <;> simp [Doc.size] at hf ⊢ <;> omega⟩
  match d with
  | .null => rfl
  | .bool true => rfl
  | .bool false => rfl
  | .number n =>
    rw [Doc.text, readValue_number, readNumber_text n hr, Doc.value]
    split <;> rfl
  | .string s =>
    rw [Doc.text, List.cons_append, List.append_assoc, readValue_string]
    show (readString (texts s ++ 34 :: r)).map _ = _
    rw [readString_texts, Doc.value, Option.map_map, Option.map_map]
    rfl
  | .emptyArray w =>
    have hend : skipWs (w.1 ++ ([93] ++ r)) = 93 :: r := skipWs_byte w (by decide) r
    rw [Doc.text, List.cons_append, List.append_assoc, readValue_array, if_pos (by rw [hend]; rfl), hend]
    rfl
  | .emptyObject w =>
    have hend : skipWs (w.1 ++ ([125] ++ r)) = 125 :: r := skipWs_byte w (by decide) r
    rw [Doc.text, List.cons_append, List.append_assoc, readValue_brace, if_pos (by rw [hend]; rfl), hend]
    rfl
  | .array l =>
    have hl : l.size ≤ fuel := Nat.le_of_succ_le_succ hf
    rw [Doc.text, List.cons_append, readValue_array, if_neg (l.not_empty r), l.readElements_text hl r,
      Doc.value, Option.map_map, Option.map_map]
    rfl
  | .object m =>
    have hm : m.size ≤ fuel := Nat.le_of_succ_le_succ hf
    rw [Doc.text, List.cons_append, readValue_brace, if_neg (m.not_empty r), m.readMembers_text hm r,
      Doc.value, Option.map_map, Option.map_map]
    rfl

theorem Elements.readElements_text (l : Elements) {fuel : ℕ} (hf : l.size ≤ fuel) (r : Bytes) :
    readElements fuel (l.text ++ r) = l.values.map fun vs => (vs, r) := by
  obtain ⟨fuel, rfl⟩ : ∃ k, fuel = k + 1 :=
    ⟨fuel - 1, by cases l <;> simp [Elements.size] at hf ⊢ <;> omega⟩
  match l with
  | .last w d w' =>
    have hd := d.readValue_text (show d.size ≤ fuel by simp [Elements.size] at hf; omega)
      (numberEnd_blank w' (c := 93) (by decide) r)
    have hread : readValue fuel (w.1 ++ (d.text ++ (w'.1 ++ 93 :: r))) = _ :=
      (readValue_blank fuel w _).trans hd
    have htext : (Elements.last w d w').text ++ r = w.1 ++ (d.text ++ (w'.1 ++ 93 :: r)) := by
      simp [Elements.text]
    rw [htext, readElements_end hread (skipWs_byte w' (by decide) r), Elements.values,
      Option.map_map]
    rfl
  | .more w d w' l =>
    have hl := l.readElements_text (show l.size ≤ fuel by simp [Elements.size] at hf; omega) r
    have hd := d.readValue_text (show d.size ≤ fuel by simp [Elements.size] at hf; omega)
      (numberEnd_blank w' (c := 44) (by decide) (l.text ++ r))
    have hread : readValue fuel (w.1 ++ (d.text ++ (w'.1 ++ 44 :: (l.text ++ r)))) = _ :=
      (readValue_blank fuel w _).trans hd
    have htext : (Elements.more w d w' l).text ++ r =
        w.1 ++ (d.text ++ (w'.1 ++ 44 :: (l.text ++ r))) := by
      simp [Elements.text]
    rw [htext, readElements_comma hread (skipWs_byte w' (by decide) _), Elements.values, hl]
    cases d.value with
    | none => rfl
    | some v => cases l.values <;> rfl

theorem Members.readMembers_text (m : Members) {fuel : ℕ} (hf : m.size ≤ fuel) (r : Bytes) :
    readMembers fuel (m.text ++ r) = m.values.map fun vs => (vs, r) := by
  obtain ⟨fuel, rfl⟩ : ∃ k, fuel = k + 1 :=
    ⟨fuel - 1, by cases m <;> simp [Members.size] at hf ⊢ <;> omega⟩
  match m with
  | .last w k w' w₁ d w₁' =>
    have hd := d.readValue_text (show d.size ≤ fuel by simp [Members.size] at hf; omega)
      (numberEnd_blank w₁' (c := 125) (by decide) r)
    have hread : readValue fuel (w₁.1 ++ (d.text ++ (w₁'.1 ++ 125 :: r))) = _ :=
      (readValue_blank fuel w₁ _).trans hd
    have htext : (Members.last w k w' w₁ d w₁').text ++ r = w.1 ++ 34 :: (texts k ++ 34 ::
        (w'.1 ++ 58 :: (w₁.1 ++ (d.text ++ (w₁'.1 ++ 125 :: r))))) := by
      simp [Members.text]
    rw [htext, readMembers_member (skipWs_byte w (by decide) _) (skipWs_byte w' (by decide) _), hread,
      Members.values]
    cases utf8s k with
    | none => rfl
    | some key =>
      cases d.value with
      | none => rfl
      | some v => exact behindMember_last (skipWs_byte w₁' (by decide) r)
  | .more w k w' w₁ d w₁' m =>
    have hm := m.readMembers_text (show m.size ≤ fuel by simp [Members.size] at hf; omega) r
    have hd := d.readValue_text (show d.size ≤ fuel by simp [Members.size] at hf; omega)
      (numberEnd_blank w₁' (c := 44) (by decide) (m.text ++ r))
    have hread : readValue fuel (w₁.1 ++ (d.text ++ (w₁'.1 ++ 44 :: (m.text ++ r)))) = _ :=
      (readValue_blank fuel w₁ _).trans hd
    have htext : (Members.more w k w' w₁ d w₁' m).text ++ r = w.1 ++ 34 :: (texts k ++ 34 ::
        (w'.1 ++ 58 :: (w₁.1 ++ (d.text ++ (w₁'.1 ++ 44 :: (m.text ++ r)))))) := by
      simp [Members.text]
    rw [htext, readMembers_member (skipWs_byte w (by decide) _) (skipWs_byte w' (by decide) _), hread,
      Members.values]
    cases utf8s k with
    | none => rfl
    | some key =>
      cases d.value with
      | none => rfl
      | some v =>
        refine (behindMember_skip (skipWs_byte w₁' (by decide) _)).trans ?_
        rw [hm]
        cases m.values <;> rfl

end

end ExpenseTracker.Core.JsonSyntax
